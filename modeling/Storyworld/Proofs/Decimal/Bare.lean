import Storyworld.Tree.Number
import Storyworld.Text.Blank

/-!
Bare words: the characters that numbers are written with, and the words for what is no number.
-/

namespace Storyworld

namespace Text

variable {c d : Char} {s r : List Char}

-- ASCII digits and letters, signs and the point.
def isBare (c : Char) : Bool :=
  let n := c.toNat
  (48 ≤ n && n ≤ 57) || (65 ≤ n && n ≤ 90) || (97 ≤ n && n ≤ 122) || c == '-' || c == '+' || c == '.'

def Bare (s : List Char) : Prop :=
  ∀ c ∈ s, isBare c

instance : Decidable (Bare s) :=
  List.decidableBAll _ s

theorem ne_of_isBare (h : isBare c) (hd : isBare d = false) : c ≠ d := by
  rintro rfl
  simp [hd] at h

theorem isBlank_eq_false_of_isBare (h : isBare c) : isBlank c = false := by
  simp only [isBare, Bool.or_eq_true, Bool.and_eq_true, decide_eq_true_eq, beq_iff_eq] at h
  obtain ((h | rfl) | rfl) | rfl := h
  · simp [isBlank]
    omega
  all_goals decide

@[simp] theorem bare_nil : Bare [] := by
  simp [Bare]

@[simp] theorem bare_cons : Bare (c :: s) ↔ isBare c ∧ Bare s :=
  List.forall_mem_cons

@[simp] theorem bare_append : Bare (s ++ r) ↔ Bare s ∧ Bare r :=
  List.forall_mem_append

theorem Bare.subset (h : Bare s) (hr : r ⊆ s) : Bare r :=
  fun c hc => h c (hr hc)

theorem bare_replicate {n : Nat} (h : isBare c) : Bare (List.replicate n c) :=
  fun _ hd => List.eq_of_mem_replicate hd ▸ h

theorem isBare_of_isDigit (h : c.isDigit) : isBare c := by
  simp only [Char.isDigit, Bool.and_eq_true, decide_eq_true_eq, ge_iff_le, UInt32.le_iff_toNat_le] at h
  have hn : 48 ≤ c.toNat ∧ c.toNat ≤ 57 := h
  simp [isBare, hn]

theorem bare_toDigits {n : Nat} : Bare (Nat.toDigits 10 n) :=
  fun _ hc => isBare_of_isDigit <| Nat.isDigit_of_mem_toDigits (by decide) (by decide) hc

end Text

namespace Decimal

open Text

variable {digits plus s : List Char} {e : Int} {pointed : Bool} {layout : Layout}
variable {sign : Float.Model.UnpackedFloat.Sign}

theorem bare_inPlace (h : Bare digits) : Bare (inPlace digits e pointed) := by
  have hz (n : Nat) : Bare (List.replicate n '0') := bare_replicate (by decide)
  unfold inPlace
  dsimp only
  split
  · cases pointed <;> simp [h, hz]
    decide
  · split
    · have h₁ := h.subset (List.take_subset (digits.length + e).toNat digits)
      have h₂ := h.subset (List.drop_subset (digits.length + e).toNat digits)
      simp [h₁, h₂]
      decide
    · simp [h, hz]
      decide

theorem inPlace_ne_nil (h : digits ≠ []) : inPlace digits e pointed ≠ [] := by
  unfold inPlace
  dsimp only
  split
  · simp [h]
  · split <;> simp

theorem bare_scientific (h : Bare digits) (hp : Bare plus) : Bare (scientific digits e plus) := by
  have he : Bare ('e' :: ((if e < 0 then ['-'] else plus) ++ Nat.toDigits 10 e.natAbs)) := by
    split <;> simp [hp, bare_toDigits] <;> decide
  unfold scientific
  dsimp only
  split
  · exact he
  · exact bare_cons.mpr ⟨h _ (by simp), he⟩
  · have ⟨hd, hr⟩ := bare_cons.mp h
    exact bare_cons.mpr ⟨hd, bare_cons.mpr ⟨by decide, bare_append.mpr ⟨hr, he⟩⟩⟩

theorem scientific_ne_nil : scientific digits e plus ≠ [] := by
  unfold scientific
  dsimp only
  split <;> simp

theorem bare_signed (h : Bare s) : Bare (signed sign s) := by
  cases sign
  · exact bare_cons.mpr ⟨by decide, h⟩
  · exact h

theorem signed_ne_nil (h : s ≠ []) : signed sign s ≠ [] := by
  cases sign <;> simp [signed, h]

theorem Layout.bare_magnitude {m : Nat} (hp : Bare layout.plus) : Bare (layout.magnitude m e) := by
  unfold magnitude
  dsimp only
  split
  · exact bare_inPlace bare_toDigits
  · exact bare_scientific bare_toDigits hp

theorem Layout.magnitude_ne_nil {m : Nat} : layout.magnitude m e ≠ [] := by
  unfold magnitude
  dsimp only
  split
  · exact inPlace_ne_nil Nat.toDigits_ne_nil
  · exact scientific_ne_nil

theorem Layout.bare_write {x : Float} (hp : Bare layout.plus) : Bare (layout.write x).toList := by
  rw [write, String.toList_ofList]
  split
  · decide
  · exact bare_signed (by decide)
  · exact bare_signed (bare_inPlace (by decide))
  · exact bare_signed (bare_magnitude hp)

theorem Layout.write_ne_nil {x : Float} : (layout.write x).toList ≠ [] := by
  rw [write, String.toList_ofList]
  split
  · decide
  · exact signed_ne_nil (by decide)
  · exact signed_ne_nil (inPlace_ne_nil (by decide))
  · exact signed_ne_nil magnitude_ne_nil

theorem bare_showInt {n : Int} : Bare (showInt n).toList := by
  rw [showInt, String.toList_ofList]
  split
  · exact bare_cons.mpr ⟨by decide, bare_toDigits⟩
  · exact bare_toDigits

theorem showInt_ne_nil {n : Int} : (showInt n).toList ≠ [] := by
  rw [showInt, String.toList_ofList]
  split
  · simp
  · exact Nat.toDigits_ne_nil

end Decimal

namespace Number

variable {n : Number}

theorem bare_write : Text.Bare n.write.toList := by
  cases n
  case int   => exact Decimal.bare_showInt
  case float => exact Decimal.Layout.bare_write (by decide)

theorem write_ne_nil : n.write.toList ≠ [] := by
  cases n
  case int   => exact Decimal.showInt_ne_nil
  case float => exact Decimal.Layout.write_ne_nil

end Number

end Storyworld
