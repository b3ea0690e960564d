/-!
Days of the Gregorian calendar, continued in both directions, and moments to the nanosecond. A year
is counted from March here, so that the day which comes and goes is its last.
-/

namespace Storyworld

structure Day where
  year : Int
  month : Nat
  day : Nat
deriving DecidableEq

namespace Day

def isLeap (year : Int) : Bool :=
  year % 4 == 0 && (year % 100 != 0 || year % 400 == 0)

def monthLength (year : Int) (month : Nat) : Nat :=
  if month = 2 then (if isLeap year then 29 else 28)
  else if month = 4 ∨ month = 6 ∨ month = 9 ∨ month = 11 then 30
  else 31

def inRange (year : Int) : Bool :=
  -262143 ≤ year && year ≤ 262142

def isValid (d : Day) : Bool :=
  inRange d.year && 1 ≤ d.month && d.month ≤ 12 && 1 ≤ d.day && d.day ≤ monthLength d.year d.month

-- Days before the first of March of a year, counted from that of year 0.
def yearStart (year : Int) : Int :=
  365 * year + year / 4 - year / 100 + year / 400

-- March is month 0.
def monthStart (month : Int) : Int :=
  (153 * month + 2) / 5

def toNumber (d : Day) : Int :=
  if d.month ≤ 2 then yearStart (d.year - 1) + monthStart (d.month + 9) + d.day - 1
  else yearStart d.year + monthStart (d.month - 3) + d.day - 1

-- From the year that starts in March and the number of days in it.
def ofYearAndDays (year days : Int) : Day :=
  let month := (5 * days + 2) / 153
  let day := (days - monthStart month + 1).toNat
  if month < 10 then ⟨year, (month + 3).toNat, day⟩ else ⟨year + 1, (month - 9).toNat, day⟩

-- The calendar repeats after 400 years. Their four centuries, the 25 spans of four years in each of them,
-- and the four years of each span are of one length but for the last, which may have a day more.
def ofNumber (n : Int) : Day :=
  let days := n % 146097
  let century := min (days / 36524) 3
  let days := days - 36524 * century
  let span := days / 1461
  let days := days - 1461 * span
  let year := min (days / 365) 3
  ofYearAndDays (400 * (n / 146097) + 100 * century + 4 * span + year) (days - 365 * year)

example : ofNumber 0 = ⟨0, 3, 1⟩ := by decide +kernel
example : ofNumber (toNumber ⟨2000, 2, 29⟩) = ⟨2000, 2, 29⟩ := by decide +kernel
example : toNumber ⟨1, 1, 1⟩ - toNumber ⟨-2, 12, 31⟩ = 732 := by decide +kernel

end Day

-- A moment of universal time. A leap second is the second before it with `nano` a second more.
structure Moment where
  second : Int
  nano : Int
deriving DecidableEq

namespace Moment

def secondsInDay : Int := 86400

def nanosInSecond : Int := 1000000000

def nanosInMilli : Int := 1000000

def onDay (day : Day) (hour minute second nano : Nat) : Moment :=
  let start := secondsInDay * day.toNumber + 3600 * hour + 60 * minute
  if second = 60 then ⟨start + 59, nanosInSecond + nano⟩ else ⟨start + second, nano⟩

def day (m : Moment) : Day :=
  .ofNumber (m.second / secondsInDay)

-- `m` with the leap second counted as an ordinary one where the step leads out of it.
def leaveLeap (m : Moment) (seconds nanos : Int) : Moment :=
  if m.nano < nanosInSecond then m
  else if 0 < seconds ∨ 0 < nanos ∧ 2 * nanosInSecond ≤ m.nano + nanos then
    { m with nano := m.nano - nanosInSecond }
  else if seconds < 0 then ⟨m.second + 1, m.nano - nanosInSecond⟩
  else m

-- `seconds` and `nanos` are of one sign.
def shift (m : Moment) (seconds nanos : Int) : Moment :=
  let m := m.leaveLeap seconds nanos
  if nanosInSecond ≤ m.nano then { m with nano := m.nano + nanos }
  else
    let nano := m.nano + nanos
    ⟨m.second + seconds + nano / nanosInSecond, nano % nanosInSecond⟩

-- None where the year cannot be written.
def add? (m : Moment) (millis : Int) : Option Moment :=
  let later := m.shift (millis.tdiv 1000) (millis.tmod 1000 * nanosInMilli)
  if Day.inRange later.day.year then some later else none

end Moment

end Storyworld
