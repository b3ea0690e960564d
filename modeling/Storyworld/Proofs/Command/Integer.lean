import Mathlib.Data.List.TakeWhile
import Storyworld.Command.Argument
import Storyworld.Proofs.Command.Json
import Storyworld.Proofs.Decimal.Numeral

/-!
Integers as arguments of commands: their digits read back as the integer.
-/

namespace Storyworld

open Decimal

variable {n : ℕ} {a : ℤ} {s r : List Char} {dice : Dice}

namespace Json

theorem digitChar_ne_zero : ∀ n < 10, 0 < n → n.digitChar ≠ '0' := by
  decide

-- A zero stands in front of no other digits.
theorem toDigits_ne_zero_cons (hn : 0 < n) : Nat.toDigits 10 n ≠ '0' :: s := by
  induction n using Nat.strongRecOn generalizing s
  case ind n ih =>
    intro h
    obtain hl | hl := Nat.lt_or_ge n 10
    case inl =>
      rw [Nat.toDigits_of_lt_base hl] at h
      exact digitChar_ne_zero n hl hn (List.cons.inj h).1
    case inr =>
      rw [Nat.toDigits_of_base_le (by decide) hl] at h
      obtain ⟨d, t, hd⟩ := List.exists_cons_of_ne_nil (Nat.toDigits_ne_nil (n := n / 10) (b := 10))
      rw [hd, List.cons_append] at h
      obtain ⟨rfl, -⟩ := List.cons.inj h
      exact ih (n / 10) (by omega) (by omega) hd

theorem wholePart_toDigits : wholePart (Nat.toDigits 10 n) = some (Nat.toDigits 10 n, []) := by
  obtain rfl | hn := Nat.eq_zero_or_pos n
  case inl => rfl
  case inr =>
    have hd : ∀ c ∈ Nat.toDigits 10 n, c.isDigit := isDigit_toDigits
    unfold wholePart
    split
    case h_1 s h => exact absurd h (toDigits_ne_zero_cons hn)
    case h_2 =>
      dsimp only
      rw [List.takeWhile_eq_self_iff.mpr hd, List.dropWhile_eq_nil_iff.mpr hd]
      simp [Nat.toDigits_ne_nil]

theorem natOfDigits_toDigits : natOfDigits (Nat.toDigits 10 n) = n :=
  Nat.ofDigitChars_ten_toDigits

theorem ofInt?_of_storable (h : Storable a) : Number.ofInt? a = some (.int a h) :=
  dif_pos h

theorem number_toDigits (h : Storable n) :
    number (Nat.toDigits 10 n) = some (.int n h, []) := by
  obtain ⟨c, r, hd⟩ := List.exists_cons_of_ne_nil (Nat.toDigits_ne_nil (n := n) (b := 10))
  have hc : c ≠ '-' := by
    rintro rfl
    exact absurd (isDigit_toDigits '-' (hd ▸ List.mem_cons_self)) (by decide)
  have hw := wholePart_toDigits (n := n)
  have hm := natOfDigits_toDigits (n := n)
  have ho := ofInt?_of_storable h
  rw [hd] at hw hm ⊢
  unfold number
  -- Both compare with the bounds of machine words, which would be counted out.
  generalize float? = float?
  generalize Number.ofInt? = ofInt? at ho ⊢
  split
  case h_1 hs =>
    split at hs
    case h_1 he => exact absurd (List.cons.inj he).1 hc
    case h_2    =>
      obtain ⟨rfl, rfl⟩ := Prod.mk.inj hs
      refine Option.bind_eq_some_iff.mpr ⟨(c :: r, []), hw, ?_⟩
      refine Option.bind_eq_some_iff.mpr ⟨([], []), rfl, ?_⟩
      rw [hm]
      exact Option.bind_eq_some_iff.mpr ⟨.int n h, by simp [ho], rfl⟩

theorem number_neg_toDigits (hn : n ≠ 0) (h : Storable (-n)) :
    number ('-' :: Nat.toDigits 10 n) = some (.int (-n) h, []) := by
  have hm := natOfDigits_toDigits (n := n)
  have ho := ofInt?_of_storable h
  unfold number
  generalize float? = float?
  generalize Number.ofInt? = ofInt? at ho ⊢
  refine Option.bind_eq_some_iff.mpr ⟨(Nat.toDigits 10 n, []), wholePart_toDigits, ?_⟩
  refine Option.bind_eq_some_iff.mpr ⟨([], []), rfl, ?_⟩
  rw [hm]
  simp [hasExponent, hn, ho]

theorem number_showInt (h : Storable a) : number (showInt a).toList = some (.int a h, []) := by
  rw [showInt, String.toList_ofList]
  split
  case isTrue hn =>
    obtain ⟨n, rfl⟩ : ∃ n : ℕ, a = -n := ⟨a.natAbs, by omega⟩
    rw [Int.natAbs_neg, Int.natAbs_natCast]
    exact number_neg_toDigits (by omega) h
  case isFalse hn =>
    obtain ⟨n, rfl⟩ : ∃ n : ℕ, a = n := ⟨a.natAbs, by omega⟩
    exact number_toDigits h

theorem exists_showInt : ∃ c r, (showInt a).toList = c :: r ∧ (c.isDigit ∨ c = '-') := by
  obtain ⟨c, r, hd⟩ := List.exists_cons_of_ne_nil (Nat.toDigits_ne_nil (n := a.natAbs) (b := 10))
  rw [showInt, String.toList_ofList]
  split
  case isTrue  => exact ⟨_, _, rfl, .inr rfl⟩
  case isFalse => exact ⟨c, r, hd, .inl (isDigit_toDigits c (hd ▸ List.mem_cons_self))⟩

theorem value_of_digit {c : Char} (hc : c.isDigit ∨ c = '-') :
    value Fields.ofList maxNesting (c :: r) = (number (c :: r)).map fun (n, s) => (.num n, s) := by
  unfold value
  split
  case h_7 => rfl
  all_goals
    exfalso
    simp_all

theorem isGap_of_isBare {c : Char} (h : Text.isBare c) : isGap c = false := by
  have hne (d : Char) (hd : Text.isBare d = false) : c ≠ d := Text.ne_of_isBare h hd
  simp [isGap, hne ' ' (by decide), hne '\t' (by decide), hne '\n' (by decide), hne '\r' (by decide)]

theorem parse?_showInt (h : Storable a) : parse? (showInt a).toList = some (.num (.int a h)) := by
  have hn := number_showInt h
  have hb : Text.Bare (showInt a).toList := bare_showInt
  obtain ⟨c, r, hs, hc⟩ := exists_showInt (a := a)
  rw [hs] at hn hb ⊢
  have hk : skip (c :: r) = c :: r :=
    List.dropWhile_cons_of_neg (by simp [isGap_of_isBare (hb c List.mem_cons_self)])
  rw [parse?, parseWith?, hk, value_of_digit hc, hn]
  rfl

end Json

namespace Argument

theorem keyword?_eq_none {text : String} {n : Number} (h : Tree.ofJson? text = some (.num n)) :
    keyword? text = none := by
  have ht : Tree.ofJson? "true" = some (.bool true) := rfl
  have hf : Tree.ofJson? "false" = some (.bool false) := rfl
  have hn : Tree.ofJson? "null" = some .null := rfl
  have hu : Tree.ofJson? "undefined" = none := rfl
  unfold keyword?
  split_ifs with h₁ h₂ h₃
  · simp [h₁, ht] at h
  · simp [h₂, hf] at h
  · obtain rfl | rfl := h₃
    · simp [hn] at h
    · simp [hu] at h
  · rfl

-- What reads as a number in JSON is that number.
theorem value_of_json {raw : String} {n : Number} (h : Tree.ofJson? (Text.stripped raw) = some (.num n)) :
    value raw dice = (.num n, dice) := by
  simp [value, keyword?_eq_none h, h]

theorem ofJson?_showInt (h : Storable a) :
    Tree.ofJson? (Text.stripped (showInt a)) = some (.num (.int a h)) := by
  have ht : Text.Trimmed (showInt a).toList := Command.trimmed_of_bare bare_showInt showInt_ne_nil
  have hs : Text.trim ([] ++ (showInt a).toList) = (showInt a).toList :=
    Text.trim_append ht (List.forall_mem_nil _)
  rw [List.nil_append] at hs
  rw [Tree.ofJson?, Text.stripped, String.toList_ofList, hs]
  exact Json.parse?_showInt h

end Argument

end Storyworld
