import Storyworld.Decimal.Significant
import Storyworld.Decimal.Text

/-!
How numbers show in formulas: as a numeral without an exponent, with a sign in front if they are
negative, or as a word if they are no number or not finite. A position in a list is read back from its
digits.
-/

namespace Storyworld.Decimal

variable {digits : List Char} {e : Int} {n : Nat} {x : Float}

-- Digits and points, a digit first.
def IsNumeral (s : List Char) : Prop :=
  (∃ c r, s = c :: r ∧ c.isDigit) ∧ ∀ c ∈ s, c.isDigit || c == '.'

theorem isNumeral_of_digits (hne : digits ≠ []) (h : ∀ c ∈ digits, c.isDigit) : IsNumeral digits := by
  obtain ⟨c, r, rfl⟩ := List.exists_cons_of_ne_nil hne
  exact ⟨⟨c, r, rfl, h c (by simp)⟩, fun d hd => by simp [h d hd]⟩

theorem isDigit_toDigits : ∀ c ∈ Nat.toDigits 10 n, c.isDigit :=
  fun _ => Nat.isDigit_of_mem_toDigits (by decide) (by decide)

theorem isNumeral_toDigits : IsNumeral (Nat.toDigits 10 n) :=
  isNumeral_of_digits Nat.toDigits_ne_nil isDigit_toDigits

theorem isNumeral_inPlace (hne : digits ≠ []) (h : ∀ c ∈ digits, c.isDigit) :
    IsNumeral (inPlace digits e false) := by
  have hz (k : Nat) : ∀ c ∈ List.replicate k '0', c.isDigit := fun c hc => by
    rw [List.eq_of_mem_replicate hc]
    decide
  unfold inPlace
  dsimp only
  split
  case isTrue =>
    refine isNumeral_of_digits (by simp [hne]) fun c hc => ?_
    simp only [Bool.false_eq_true, if_false, List.append_nil, List.mem_append] at hc
    exact hc.elim (h c) (hz _ c)
  case isFalse =>
  split
  case isTrue hb =>
    obtain ⟨c, r, rfl⟩ := List.exists_cons_of_ne_nil hne
    obtain ⟨k, hk⟩ := Nat.exists_eq_succ_of_ne_zero (n := (((c :: r).length : Int) + e).toNat) (by omega)
    refine ⟨⟨c, _, by rw [hk]; rfl, h c (by simp)⟩, fun d hd => ?_⟩
    obtain hd | hd := List.mem_append.mp hd
    · simp [h d (List.mem_of_mem_take hd)]
    obtain rfl | hd := List.mem_cons.mp hd
    · simp
    · simp [h d (List.mem_of_mem_drop hd)]
  case isFalse =>
    refine ⟨⟨'0', _, rfl, by decide⟩, fun d hd => ?_⟩
    simp only [List.mem_cons, List.mem_append] at hd
    obtain rfl | rfl | hd | hd := hd
    · decide
    · decide
    · simp [hz _ d hd]
    · simp [h d hd]

-- The forms that a number takes.
def Shown (s : List Char) : Prop :=
  (∃ r, s = '-' :: r) ∨ s = ['N', 'a', 'N'] ∨ s = ['i', 'n', 'f'] ∨ IsNumeral s

theorem shown_signed {sign : Float.Model.UnpackedFloat.Sign} {s : List Char} (h : Shown s) :
    Shown (signed sign s) := by
  cases sign
  case negative => exact .inl ⟨s, rfl⟩
  case positive => exact h

theorem shown_plain : Shown (Layout.plain.write x).toList := by
  rw [Layout.write, String.toList_ofList]
  split
  case h_1 => exact .inr <| .inl rfl
  case h_2 => exact shown_signed <| .inr <| .inr <| .inl rfl
  case h_3 =>
    exact shown_signed <| .inr <| .inr <| .inr <| isNumeral_inPlace (List.cons_ne_nil _ _) (by simp)
  case h_4 =>
    exact shown_signed <| .inr <| .inr <| .inr <| isNumeral_inPlace Nat.toDigits_ne_nil isDigit_toDigits

theorem shown_settled : Shown (showSettled x).toList := by
  unfold showSettled showFloat
  split
  case h_1 n _ =>
    rw [showInt, String.toList_ofList]
    split
    · exact .inl ⟨_, rfl⟩
    · exact .inr <| .inr <| .inr isNumeral_toDigits
  case h_2 => exact shown_plain

theorem digitValue?_of_isDigit {c : Char} (h : c.isDigit) :
    digitValue? c = some (c.toNat - '0'.toNat) ∧ c.toNat - '0'.toNat < 10 := by
  simp only [Char.isDigit, Bool.and_eq_true, decide_eq_true_eq] at h
  have hd : '0' ≤ c ∧ c ≤ '9' := h
  have hl : c.toNat ≤ 57 := UInt32.le_iff_toNat_le.mp h.2
  refine ⟨by rw [digitValue?, if_pos hd], ?_⟩
  change c.toNat - 48 < 10
  omega

theorem foldl_digits {m : Nat} (h : ∀ c ∈ digits, c.isDigit) :
    digits.foldl (fun n? c => do
      let n ← n?
      let d ← digitValue? c
      if d < 10 then some (10 * n + d) else none) (some m) = some (Nat.ofDigitChars 10 digits m) := by
  induction digits generalizing m
  case nil => rfl
  case cons c s ih =>
    have ⟨hc, hs⟩ := List.forall_mem_cons.mp h
    have ⟨hv, hl⟩ := digitValue?_of_isDigit hc
    simp only [List.foldl_cons, hv, Option.bind_eq_bind, Option.bind_some, if_pos hl]
    exact ih hs

theorem readIndex?_toDigits (h : n < wordBound) : readIndex? (Nat.toDigits 10 n) = some n := by
  have hd : ∀ c ∈ Nat.toDigits 10 n, c.isDigit := isDigit_toDigits
  have hn := Nat.ofDigitChars_toDigits (n := n) (b := 10) (by decide) (by decide)
  have hs : Nat.toDigits 10 n ≠ [] := Nat.toDigits_ne_nil
  generalize Nat.toDigits 10 n = s at hd hn hs
  have hr : readNat? 10 s = some n := by
    unfold readNat?
    split
    case h_1 r => exact absurd (hd '+' List.mem_cons_self) (by decide)
    case h_2   => simpa only [List.isEmpty_iff, if_neg hs, hn] using foldl_digits (m := 0) hd
  simp [readIndex?, hr, h]

end Storyworld.Decimal
