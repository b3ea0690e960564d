import Storyworld.Calendar.Text
import Storyworld.Proofs.Calendar.Day
import Storyworld.Proofs.Command.Argument
import Storyworld.Proofs.Decimal.Bare
import Storyworld.Proofs.Decimal.Numeral
import Mathlib.Data.List.TakeWhile

/-!
Moments that are written and read again. A year of four digits is read; any other one is written with a
sign, and with a sign only looser texts are read than those that are written.
-/

namespace Storyworld.Moment

variable {m later : Moment} {n k : Nat} {rest : List Char}

/-! ## Digits -/

theorem isDigit_padded : ∀ c ∈ padded k n, c.isDigit := by
  intro c hc
  obtain hc | hc := List.mem_append.mp hc
  · rw [List.eq_of_mem_replicate hc]
    decide
  · exact Nat.isDigit_of_mem_toDigits (by decide) (by decide) hc

theorem length_padded (hk : 0 < k) (h : n < 10 ^ k) : (padded k n).length = k := by
  have hl : (Nat.toDigits 10 n).length ≤ k := (Nat.length_toDigits_le_iff (by decide) hk).mpr h
  simp only [padded, List.length_append, List.length_replicate]
  omega

theorem natOfDigits_padded : Decimal.natOfDigits (padded k n) = n := by
  change Nat.ofDigitChars 10 (padded k n) 0 = n
  rw [padded, Nat.ofDigitChars_append, Nat.ofDigitChars_replicate_zero, Nat.mul_zero,
    Nat.ofDigitChars_toDigits (by decide) (by decide)]

theorem takeWhile_padded : (padded k n).takeWhile Char.isDigit = padded k n :=
  List.takeWhile_eq_self_iff.mpr isDigit_padded

theorem padded_ne_nil : padded k n ≠ [] := by
  simp [padded, Nat.toDigits_ne_nil]

theorem digits_padded (hk : 0 < k) (h : n < 10 ^ k) : digits k (padded k n ++ rest) = some (n, rest) := by
  have hl := length_padded hk h
  simp only [digits, List.take_left' hl, List.drop_left' hl, takeWhile_padded, hl, if_true,
    natOfDigits_padded]

theorem digitsUpTo_padded (hk : 0 < k) (h : n < 10 ^ k) :
    digitsUpTo k (padded k n ++ rest) = some (n, rest) := by
  have hl := length_padded hk h
  simp only [digitsUpTo, List.take_left' hl, takeWhile_padded, natOfDigits_padded, hl, List.drop_left' hl,
    List.isEmpty_iff, padded_ne_nil, if_false]

theorem trimStart_padded : Text.trimStart (padded k n ++ rest) = padded k n ++ rest := by
  refine Text.dropWhile_of_head? fun c hc => ?_
  rw [List.head?_append_of_ne_nil _ padded_ne_nil] at hc
  exact Text.isBlank_eq_false_of_isBare (Text.isBare_of_isDigit (isDigit_padded c (List.mem_of_head? hc)))

theorem loosePart_padded (h : n < 100) : loosePart (padded 2 n ++ rest) = some (n, rest) := by
  rw [loosePart, trimStart_padded, digitsUpTo_padded (by decide) h]

/-! ## Stamps -/

-- Of a leap second at most the last nanosecond.
def Proper (m : Moment) : Prop :=
  0 ≤ m.nano ∧ m.nano < 2 * nanosInSecond

def hour (m : Moment) : Nat :=
  (m.second % secondsInDay).toNat / 3600

def minute (m : Moment) : Nat :=
  (m.second % secondsInDay).toNat / 60 % 60

-- The second on the clock, which is 60 in a leap second that ends a minute.
def shownSecond (m : Moment) : Nat :=
  (m.second % secondsInDay).toNat % 60 + m.nano.toNat / 1000000000

def milli (m : Moment) : Nat :=
  m.nano.toNat % 1000000000 / 1000000

theorem hour_le : m.hour ≤ 23 := by
  unfold hour secondsInDay
  omega

theorem minute_le : m.minute ≤ 59 := by
  unfold minute
  omega

theorem Proper.shownSecond_le (h : m.Proper) : m.shownSecond ≤ 60 := by
  unfold Proper nanosInSecond at h
  unfold shownSecond
  omega

theorem milli_lt : m.milli < 1000 := by
  unfold milli
  omega

theorem writeClock_eq :
    writeClock m ++ rest = padded 2 m.hour ++ ':' :: (padded 2 m.minute ++
      ':' :: (padded 2 m.shownSecond ++ '.' :: (padded 3 m.milli ++ rest))) := by
  simp only [writeClock, hour, minute, shownSecond, milli, List.append_assoc, List.cons_append]

theorem fraction_padded (h : n < 1000) : fraction ('.' :: (padded 3 n ++ ['Z'])) = some (n * 1000000, ['Z']) := by
  have hl : (padded 3 n).length = 3 := length_padded (by decide) h
  have ht : (padded 3 n ++ ['Z']).takeWhile Char.isDigit = padded 3 n := by
    rw [List.takeWhile_append_of_pos isDigit_padded]
    simp
  simp only [fraction, ht, List.take_of_length_le (by omega : (padded 3 n).length ≤ 9), natOfDigits_padded,
    List.isEmpty_iff, padded_ne_nil, if_false, hl, List.drop_left' hl]
  rfl

-- The date as it is written for a reader of years.
theorem dateWith_write {year : Reader Int} {part : Reader Nat} {d : Day} {y : Int} (hd : d.IsDate)
    (hy : ∀ rest, year (writeYear d.year ++ '-' :: rest) = some (y, '-' :: rest))
    (hp : ∀ n rest, n < 100 → part (padded 2 n ++ rest) = some (n, rest)) (rest : List Char) :
    dateWith year part (writeDate d ++ rest) = some ({ year := y, month := d.month, day := d.day }, rest) := by
  have hm : d.month < 100 := by
    have := hd.1.2
    omega
  have hn : d.day < 100 := by
    have := hd.day_le
    omega
  simp only [dateWith, writeDate, List.append_assoc, List.cons_append, hy, mark?, hp _ _ hm, hp _ _ hn,
    Option.bind_eq_bind, Option.bind_some, if_true]
  rfl

def stampYear : Reader Int := fun s =>
  (digits 4 s).map fun r => (r.1, r.2)

theorem stampYear_write {y : Int} (hy : 0 ≤ y ∧ y ≤ 9999) :
    stampYear (writeYear y ++ '-' :: rest) = some (y, '-' :: rest) := by
  rw [stampYear, writeYear, if_pos hy, digits_padded (by decide) (by omega), Option.map_some,
    Int.toNat_of_nonneg hy.1]

theorem stamp?_write (hp : m.Proper) (hy : 0 ≤ m.day.year ∧ m.day.year ≤ 9999) :
    stamp? (writeDate m.day ++ 'T' :: (writeClock m ++ ['Z'])) =
      some (onDay m.day m.hour m.minute m.shownSecond (m.milli * 1000000)) := by
  have hd : m.day.IsDate := Day.isDate_ofNumber _
  have hdate := dateWith_write hd (fun _ => stampYear_write hy)
    (fun n rest h => digits_padded (k := 2) (by decide) h) ('T' :: (writeClock m ++ ['Z']))
  have h₁ := m.hour_le
  have h₂ := m.minute_le
  have h₃ := hp.shownSecond_le
  have hv : Parts.isValid
      { m.day with hour := m.hour, minute := m.minute, second := m.shownSecond, nano := m.milli * 1000000 } := by
    have hr : Day.inRange m.day.year := by
      simp only [Day.inRange, Bool.and_eq_true, decide_eq_true_eq]
      omega
    obtain ⟨⟨hm₁, hm₂⟩, hd₁, hd₂⟩ := hd
    simp [Parts.isValid, Parts.date, Day.isValid, hr, hm₁, hm₂, hd₁, hd₂, h₁, h₂, h₃]
  have ht : Parts.toMoment? { m.day with
      hour := m.hour, minute := m.minute, second := m.shownSecond, nano := m.milli * 1000000 } =
        some (onDay m.day m.hour m.minute m.shownSecond (m.milli * 1000000)) := by
    rw [Parts.toMoment?, if_pos hv]
    rfl
  refine Option.bind_eq_some_iff.mpr ⟨_, hdate, ?_⟩
  dsimp only
  rw [writeClock_eq]
  simp only [List.head?_cons, List.tail_cons, digits_padded (k := 2) (n := m.hour) (by decide) (by omega),
    digits_padded (k := 2) (n := m.minute) (by decide) (by omega),
    digits_padded (k := 2) (n := m.shownSecond) (by decide) (by omega), fraction_padded m.milli_lt,
    mark?, if_true, Option.bind_eq_bind, Option.bind_some, offset]
  simp [isDivider, ht]

/-! ## Years with a sign -/

theorem writeYear_signed {y : Int} (hy : ¬(0 ≤ y ∧ y ≤ 9999)) :
    ∃ sign, (sign = '-' ∨ sign = '+') ∧ writeYear y = sign :: padded 4 y.natAbs := by
  rw [writeYear, if_neg hy]
  split
  · exact ⟨'-', .inl rfl, rfl⟩
  · exact ⟨'+', .inr rfl, rfl⟩

theorem stamp?_signed {sign : Char} {s : List Char} (hs : sign = '-' ∨ sign = '+') :
    stamp? (sign :: s) = none := by
  have hd : digits 4 (sign :: s) = none := by
    obtain rfl | rfl := hs <;> simp [digits]
  simp [stamp?, dateWith, hd]

theorem digitsUpTo_length : digitsUpTo (padded k n ++ '-' :: rest).length (padded k n ++ '-' :: rest) =
    some (n, '-' :: rest) := by
  have ht : (padded k n ++ '-' :: rest).takeWhile Char.isDigit = padded k n := by
    rw [List.takeWhile_append_of_pos isDigit_padded]
    simp
  simp only [digitsUpTo, List.take_length, ht, natOfDigits_padded, List.isEmpty_iff, padded_ne_nil,
    if_false, List.drop_left]

theorem looseYear_write {y : Int} : looseYear (writeYear y ++ '-' :: rest) = some (y, '-' :: rest) := by
  by_cases hy : 0 ≤ y ∧ y ≤ 9999
  case pos =>
    have hd : ∀ c ∈ padded 4 y.toNat, c.isDigit := isDigit_padded
    have hl : digitsUpTo 4 (padded 4 y.toNat ++ '-' :: rest) = some (y.toNat, '-' :: rest) :=
      digitsUpTo_padded (by decide) (by omega)
    obtain ⟨c, r, hc⟩ := List.exists_cons_of_ne_nil (padded_ne_nil (k := 4) (n := y.toNat))
    rw [writeYear, if_pos hy, looseYear, trimStart_padded]
    rw [hc, List.cons_append] at hl ⊢
    have hs := hd c (hc ▸ List.mem_cons_self)
    split
    case h_1 he =>
      obtain ⟨rfl, -⟩ := List.cons.inj he
      cases hs
    case h_2 he =>
      obtain ⟨rfl, -⟩ := List.cons.inj he
      cases hs
    case h_3 =>
      rw [hl]
      exact congrArg (fun y => some (y, '-' :: rest)) (Int.toNat_of_nonneg hy.1)
  case neg =>
    rw [writeYear, if_neg hy]
    by_cases hn : y < 0
    case pos =>
      have ha : -(y.natAbs : Int) = y := by omega
      rw [if_pos hn]
      exact (congrArg (Option.map _) digitsUpTo_length).trans (congrArg (fun y => some (y, '-' :: rest)) ha)
    case neg =>
      have ha : (y.natAbs : Int) = y := by omega
      rw [if_neg hn]
      exact (congrArg (Option.map _) digitsUpTo_length).trans (congrArg (fun y => some (y, '-' :: rest)) ha)

-- A clock that goes on behind its seconds is none for the looser forms.
theorem looseClock?_write (hp : m.Proper) (p : Parts) : looseClock? p (writeClock m ++ ['Z']) = none := by
  have h₁ := m.hour_le
  have h₂ := m.minute_le
  have h₃ := hp.shownSecond_le
  rw [writeClock_eq]
  simp [looseClock?, loosePart_padded (n := m.hour) (by omega), loosePart_padded (n := m.minute) (by omega),
    loosePart_padded (n := m.shownSecond) (by omega), mark?]

theorem dateWith_loose : dateWith looseYear loosePart (writeDate m.day ++ rest) =
    some ({ m.day with }, rest) :=
  dateWith_write (Day.isDate_ofNumber _) (fun _ => looseYear_write) (fun _ _ h => loosePart_padded h) _

theorem loose?_write (hp : m.Proper) :
    loose? (writeDate m.day ++ 'T' :: (writeClock m ++ ['Z'])) = none := by
  simp [loose?, dateWith_loose, looseClock?_write hp]

theorem exists_writeYear_cons (y : Int) : ∃ c s, writeYear y = c :: s ∧ Text.isBlank c = false := by
  by_cases hy : 0 ≤ y ∧ y ≤ 9999
  case pos =>
    obtain ⟨c, s, hc⟩ := List.exists_cons_of_ne_nil (padded_ne_nil (k := 4) (n := y.toNat))
    have hd : c.isDigit := isDigit_padded c (hc ▸ List.mem_cons_self)
    exact ⟨c, s, by rw [writeYear, if_pos hy, hc],
      Text.isBlank_eq_false_of_isBare (Text.isBare_of_isDigit hd)⟩
  case neg =>
    obtain ⟨sign, hs, hw⟩ := writeYear_signed hy
    exact ⟨sign, _, hw, by obtain rfl | rfl := hs <;> decide⟩

theorem trim_write :
    Text.trim (writeDate m.day ++ 'T' :: (writeClock m ++ ['Z'])) =
      writeDate m.day ++ 'T' :: (writeClock m ++ ['Z']) := by
  obtain ⟨c, s, hc, hb⟩ := exists_writeYear_cons m.day.year
  have ht : Text.Trimmed (writeDate m.day ++ 'T' :: (writeClock m ++ ['Z'])) := by
    refine ⟨by simp, fun d hd => ?_, fun d hd => ?_⟩
    · obtain rfl : c = d := by simpa [writeDate, hc] using hd
      exact hb
    · obtain rfl : 'Z' = d := by simpa [List.getLast?_cons] using hd
      decide
  exact Text.trim_append ht (List.forall_mem_nil _)

-- What is written is read again if its year has four digits, and only then.
theorem isSome_read?_write (hp : m.Proper) :
    (read? m.write).isSome ↔ 0 ≤ m.day.year ∧ m.day.year ≤ 9999 := by
  rw [read?, write, String.toList_ofList, trim_write]
  by_cases hy : 0 ≤ m.day.year ∧ m.day.year ≤ 9999
  case pos => simp [stamp?_write hp hy, hy]
  case neg =>
    obtain ⟨sign, hs, hw⟩ := writeYear_signed hy
    have hn : stamp? (writeDate m.day ++ 'T' :: (writeClock m ++ ['Z'])) = none := by
      rw [writeDate, hw]
      exact stamp?_signed hs
    simp [hn, loose?_write hp, hy]

/-! ## Nanoseconds -/

theorem ofDigitChars_lt {s : List Char} (hs : ∀ c ∈ s, c.isDigit) (n : Nat) :
    Nat.ofDigitChars 10 s n < (n + 1) * 10 ^ s.length := by
  induction s generalizing n
  case nil => simp
  case cons c s ih =>
    obtain ⟨hc, hs⟩ := List.forall_mem_cons.mp hs
    have hd := (Decimal.digitValue?_of_isDigit hc).2
    calc Nat.ofDigitChars 10 (c :: s) n = Nat.ofDigitChars 10 s (10 * n + (c.toNat - '0'.toNat)) :=
          Nat.ofDigitChars_cons
      _ < (10 * n + (c.toNat - '0'.toNat) + 1) * 10 ^ s.length := ih hs _
      _ ≤ (10 * (n + 1)) * 10 ^ s.length := Nat.mul_le_mul_right _ (by omega)
      _ = (n + 1) * 10 ^ (c :: s).length := by
        rw [List.length_cons, Nat.pow_succ', ← Nat.mul_assoc, Nat.mul_comm (n + 1)]

theorem fraction_lt {s : List Char} (h : fraction s = some (n, rest)) : n < 1000000000 := by
  unfold fraction at h
  split at h
  case h_1 s =>
    dsimp only at h
    split at h
    case isTrue  => cases h
    case isFalse =>
      obtain ⟨rfl, -⟩ := Prod.mk.inj (Option.some.inj h)
      have hd : ∀ c ∈ (s.takeWhile Char.isDigit).take 9, c.isDigit := fun c hc =>
        List.all_eq_true.mp List.all_takeWhile c (List.mem_of_mem_take hc)
      have hl : ((s.takeWhile Char.isDigit).take 9).length ≤ 9 := List.length_take_le ..
      generalize (s.takeWhile Char.isDigit).take 9 = kept at hd hl
      calc Decimal.natOfDigits kept * tenTo (9 - kept.length)
          < (0 + 1) * 10 ^ kept.length * 10 ^ (9 - kept.length) :=
            Nat.mul_lt_mul_of_pos_right (ofDigitChars_lt hd 0) (tenTo_pos _)
        _ = 10 ^ 9 := by rw [Nat.one_mul, ← Nat.pow_add, Nat.add_sub_cancel' hl]
  case h_2 => cases h; decide

theorem proper_onDay {day : Day} {hour minute second nano : Nat} (h : nano < 1000000000) :
    (onDay day hour minute second nano).Proper := by
  unfold onDay Proper nanosInSecond
  dsimp only
  split <;> dsimp only <;> omega

theorem proper_of_toMoment? {p : Parts} (hp : p.nano < 1000000000) (h : p.toMoment? = some m) :
    m.Proper := by
  unfold Parts.toMoment? at h
  split at h
  case isTrue  => exact Option.some.inj h ▸ proper_onDay hp
  case isFalse => cases h

theorem exists_of_offset {s : List Char} {t : Int} (h : offset s = some (t, rest)) :
    ∃ minutes, t = 60 * minutes := by
  unfold offset at h
  split at h
  case h_1 | h_2 => exact ⟨0, (Prod.mk.inj (Option.some.inj h)).1.symm⟩
  case h_3 =>
    obtain ⟨⟨sign, s₁⟩, -, h⟩ := Option.bind_eq_some_iff.mp h
    obtain ⟨⟨hours, s₂⟩, -, h⟩ := Option.bind_eq_some_iff.mp h
    obtain ⟨s₃, -, h⟩ := Option.bind_eq_some_iff.mp h
    obtain ⟨⟨minutes, s₄⟩, -, h⟩ := Option.bind_eq_some_iff.mp h
    dsimp only at h
    split at h
    case isTrue  => exact ⟨sign * (60 * hours + minutes), by grind⟩
    case isFalse => cases h

-- The parts of a date and a clock, and the minutes by which that clock is ahead of universal time.
theorem exists_of_stamp? {s : List Char} (h : stamp? s = some m) :
    ∃ (p : Parts) (m₀ : Moment) (minutes : Int), p.nano < 1000000000 ∧ p.toMoment? = some m₀ ∧
      m = { m₀ with second := m₀.second - 60 * minutes } := by
  obtain ⟨⟨p, s₁⟩, -, h⟩ := Option.bind_eq_some_iff.mp h
  obtain ⟨-, -, h⟩ := Option.bind_eq_some_iff.mp h
  obtain ⟨⟨hour, s₂⟩, -, h⟩ := Option.bind_eq_some_iff.mp h
  obtain ⟨s₃, -, h⟩ := Option.bind_eq_some_iff.mp h
  obtain ⟨⟨minute, s₄⟩, -, h⟩ := Option.bind_eq_some_iff.mp h
  obtain ⟨s₅, -, h⟩ := Option.bind_eq_some_iff.mp h
  obtain ⟨⟨second, s₆⟩, -, h⟩ := Option.bind_eq_some_iff.mp h
  obtain ⟨⟨nano, s₇⟩, hn, h⟩ := Option.bind_eq_some_iff.mp h
  obtain ⟨⟨ahead, s₈⟩, ha, h⟩ := Option.bind_eq_some_iff.mp h
  obtain ⟨-, -, h⟩ := Option.bind_eq_some_iff.mp h
  obtain ⟨m₀, hm, h⟩ := Option.bind_eq_some_iff.mp h
  obtain ⟨minutes, rfl⟩ := exists_of_offset ha
  exact ⟨_, m₀, minutes, fraction_lt hn, hm, (Option.some.inj h).symm⟩

theorem nano_of_looseClock? {p q : Parts} {s : List Char} (h : looseClock? p s = some q) : q.nano = p.nano := by
  obtain ⟨⟨hour, s₁⟩, -, h⟩ := Option.bind_eq_some_iff.mp h
  obtain ⟨s₂, -, h⟩ := Option.bind_eq_some_iff.mp h
  obtain ⟨⟨minute, s₃⟩, -, h⟩ := Option.bind_eq_some_iff.mp h
  dsimp only at h
  split at h
  case isTrue => exact Option.some.inj h ▸ rfl
  case isFalse =>
    obtain ⟨s₄, -, h⟩ := Option.bind_eq_some_iff.mp h
    obtain ⟨⟨second, s₅⟩, -, h⟩ := Option.bind_eq_some_iff.mp h
    dsimp only at h
    split at h
    case isTrue  => exact Option.some.inj h ▸ rfl
    case isFalse => cases h

theorem nano_of_dateWith {year : Reader Int} {part : Reader Nat} {s : List Char} {p : Parts}
    (h : dateWith year part s = some (p, rest)) : p.nano = 0 := by
  obtain ⟨⟨y, s₁⟩, -, h⟩ := Option.bind_eq_some_iff.mp h
  obtain ⟨s₂, -, h⟩ := Option.bind_eq_some_iff.mp h
  obtain ⟨⟨month, s₃⟩, -, h⟩ := Option.bind_eq_some_iff.mp h
  obtain ⟨s₄, -, h⟩ := Option.bind_eq_some_iff.mp h
  obtain ⟨⟨day, s₅⟩, -, h⟩ := Option.bind_eq_some_iff.mp h
  obtain ⟨rfl, -⟩ := Prod.mk.inj (Option.some.inj h)
  rfl

theorem exists_of_loose? {s : List Char} (h : loose? s = some m) :
    ∃ p : Parts, p.nano < 1000000000 ∧ p.toMoment? = some m := by
  obtain ⟨⟨p, s₁⟩, hd, h⟩ := Option.bind_eq_some_iff.mp h
  have hp := nano_of_dateWith hd
  dsimp only at h
  split at h
  case h_1 => exact ⟨p, by rw [hp]; decide, h⟩
  all_goals
    obtain ⟨q, hq, h⟩ := Option.bind_eq_some_iff.mp h
    exact ⟨q, by rw [nano_of_looseClock? hq, hp]; decide, h⟩

theorem exists_of_read? {text : String} (h : read? text = some m) :
    ∃ (p : Parts) (m₀ : Moment) (minutes : Int), p.nano < 1000000000 ∧ p.toMoment? = some m₀ ∧
      m = { m₀ with second := m₀.second - 60 * minutes } := by
  obtain h | ⟨-, h⟩ := Option.or_eq_some_iff.mp h
  · exact exists_of_stamp? h
  · obtain ⟨p, hn, hp⟩ := exists_of_loose? h
    exact ⟨p, m, 0, hn, hp, by simp⟩

theorem proper_of_read? {text : String} (h : read? text = some m) : m.Proper := by
  obtain ⟨p, m₀, minutes, hn, hm, rfl⟩ := exists_of_read? h
  have hp : m₀.Proper := proper_of_toMoment? hn hm
  exact hp

section

variable {seconds nanos : Int}

-- A leap second that is kept is one that the step does not leave.
theorem Proper.leaveLeap (h : m.Proper) (seconds : Int) (hn : nanos.natAbs < 1000000000) :
    0 ≤ (m.leaveLeap seconds nanos).nano ∧ (nanosInSecond ≤ (m.leaveLeap seconds nanos).nano →
      (⟨m.second, (m.leaveLeap seconds nanos).nano + nanos⟩ : Moment).Proper) := by
  unfold Moment.leaveLeap
  repeat' split
  all_goals
    simp only [Proper, nanosInSecond] at *
    omega

theorem Proper.shift (h : m.Proper) (hn : nanos.natAbs < 1000000000) : (m.shift seconds nanos).Proper := by
  have hl := h.leaveLeap seconds hn
  unfold Moment.shift
  generalize m.leaveLeap seconds nanos = l at hl ⊢
  dsimp only
  split
  case isTrue hk => exact hl.2 hk
  case isFalse   =>
    simp only [Proper, nanosInSecond]
    omega

end

theorem Proper.add? {millis : Int} (h : m.Proper) (ha : m.add? millis = some later) : later.Proper := by
  unfold Moment.add? at ha
  dsimp only at ha
  split at ha
  case isTrue =>
    refine Option.some.inj ha ▸ h.shift ?_
    have h₁ := Int.tmod_lt_of_pos millis (by decide : (0 : Int) < 1000)
    have h₂ := Int.lt_tmod_of_pos millis (by decide : (0 : Int) < 1000)
    simp only [nanosInMilli]
    omega
  case isFalse => cases ha

end Storyworld.Moment
