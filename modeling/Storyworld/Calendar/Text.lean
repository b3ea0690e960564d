import Storyworld.Calendar.Basic
import Storyworld.Decimal.Text
import Storyworld.Text.Blank

/-!
Moments as text. A full stamp names its offset from universal time, as in `2024-03-01T10:00:00Z`,
and must have every digit in place; a bare date, or one with a clock, may be written loosely.
-/

namespace Storyworld.Moment

structure Parts where
  year : Int
  month : Nat
  day : Nat
  hour : Nat := 0
  minute : Nat := 0
  second : Nat := 0
  nano : Nat := 0

namespace Parts

def date (p : Parts) : Day :=
  ⟨p.year, p.month, p.day⟩

-- Second 60 is a leap second, on whatever minute.
def isValid (p : Parts) : Bool :=
  p.date.isValid && p.hour ≤ 23 && p.minute ≤ 59 && p.second ≤ 60

def toMoment? (p : Parts) : Option Moment :=
  if p.isValid then some (onDay p.date p.hour p.minute p.second p.nano) else none

end Parts

abbrev Reader (α : Type) := List Char → Option (α × List Char)

def mark? (c : Char) : List Char → Option (List Char)
  | [] => none
  | d :: s => if d = c then some s else none

-- At least one digit, and as many as there are up to `most`.
def digitsUpTo (most : Nat) : Reader Nat := fun s =>
  let digits := (s.take most).takeWhile Char.isDigit
  if digits.isEmpty then none else some (Decimal.natOfDigits digits, s.drop digits.length)

def digits (count : Nat) : Reader Nat := fun s =>
  let digits := (s.take count).takeWhile Char.isDigit
  if digits.length = count then some (Decimal.natOfDigits digits, s.drop count) else none

-- Blanks may stand before the part.
def loosePart : Reader Nat := fun s =>
  digitsUpTo 2 (Text.trimStart s)

-- A year of up to four digits, or of any number of them behind a sign.
def looseYear : Reader Int := fun s =>
  match Text.trimStart s with
  | '-' :: s => (digitsUpTo s.length s).map fun (n, s) => (-n, s)
  | '+' :: s => (digitsUpTo s.length s).map fun (n, s) => (n, s)
  | s => (digitsUpTo 4 s).map fun (n, s) => (n, s)

def dateWith (year : Reader Int) (part : Reader Nat) : Reader Parts := fun s => do
  let (year, s) ← year s
  let (month, s) ← part (← mark? '-' s)
  let (day, s) ← part (← mark? '-' s)
  return ({ year, month, day }, s)

-- Up to the end of the text; seconds may be left out.
def looseClock? (p : Parts) (s : List Char) : Option Parts := do
  let (hour, s) ← loosePart s
  let (minute, s) ← loosePart (← mark? ':' s)
  if s.isEmpty then return { p with hour, minute }
  let (second, s) ← loosePart (← mark? ':' s)
  if s.isEmpty then return { p with hour, minute, second } else none

-- A moment without offset, which is taken as universal time.
def loose? (s : List Char) : Option Moment := do
  let (p, s) ← dateWith looseYear loosePart s
  let p ← match s with
    | [] => some p
    | 'T' :: s => looseClock? p s
    | s => looseClock? p s
  p.toMoment?

-- A fraction of a second in nanoseconds; its digits from the tenth on do not count.
def fraction : Reader Nat
  | '.' :: s =>
    let all := s.takeWhile Char.isDigit
    let kept := all.take 9
    if all.isEmpty then none
    else some (Decimal.natOfDigits kept * tenTo (9 - kept.length), s.drop all.length)
  | s => some (0, s)

def offsetSign? : List Char → Option (Int × List Char)
  | '+' :: s => some (1, s)
  | '-' :: s | '−' :: s => some (-1, s)
  | _ => none

-- The seconds by which a clock is ahead of universal time.
def offset : Reader Int := fun s =>
  match s with
  | 'Z' :: s | 'z' :: s => some (0, s)
  | s => do
    let (sign, s) ← offsetSign? s
    let (hours, s) ← digits 2 s
    let (minutes, s) ← digits 2 (← mark? ':' s)
    if hours ≤ 23 ∧ minutes ≤ 59 then some (sign * (3600 * hours + 60 * minutes), s) else none

def isDivider (c : Char) : Bool :=
  c == 'T' || c == 't' || c == ' '

def stamp? (s : List Char) : Option Moment := do
  let year : Reader Int := fun s => (digits 4 s).map fun (n, s) => (n, s)
  let (p, s) ← dateWith year (digits 2) s
  guard (s.head?.any isDivider)
  let (hour, s) ← digits 2 s.tail
  let (minute, s) ← digits 2 (← mark? ':' s)
  let (second, s) ← digits 2 (← mark? ':' s)
  let (nano, s) ← fraction s
  let (ahead, s) ← offset s
  guard s.isEmpty
  let m ← { p with hour, minute, second, nano }.toMoment?
  return { m with second := m.second - ahead }

def read? (text : String) : Option Moment :=
  let s := Text.trim text.toList
  (stamp? s).or (loose? s)

def padded (width n : Nat) : List Char :=
  let digits := Nat.toDigits 10 n
  List.replicate (width - digits.length) '0' ++ digits

def writeYear (year : Int) : List Char :=
  if 0 ≤ year ∧ year ≤ 9999 then padded 4 year.toNat
  else (if year < 0 then '-' else '+') :: padded 4 year.natAbs

def writeDate (d : Day) : List Char :=
  writeYear d.year ++ '-' :: (padded 2 d.month ++ '-' :: padded 2 d.day)

-- What is below a millisecond is cut off.
def writeClock (m : Moment) : List Char :=
  let seconds := (m.second % secondsInDay).toNat
  let nanos := m.nano.toNat
  padded 2 (seconds / 3600) ++ ':' :: padded 2 (seconds / 60 % 60) ++
    ':' :: padded 2 (seconds % 60 + nanos / 1000000000) ++ '.' :: padded 3 (nanos % 1000000000 / 1000000)

def write (m : Moment) : String :=
  .ofList (writeDate m.day ++ 'T' :: (writeClock m ++ ['Z']))

end Storyworld.Moment
