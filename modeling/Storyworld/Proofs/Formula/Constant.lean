import Mathlib
import Storyworld.Proofs.Formula.Value

/-!
The exact values of numbers: floats that compare equal have the same, and the opposite float has the
opposite one. The lemmas on packed floats come with the whole library, and with no module of it.
-/

namespace Storyworld.Binary

open Float.Model Float.Model.UnpackedFloat

variable {x y : Float} {u : UnpackedFloat} {spec : Format} {b : BitVec spec.numBits}

def unpackedRat? : UnpackedFloat → Option ℚ
  | .zero _ => some 0
  | .finite s m e _ => some ((s.apply m : ℤ) * 2 ^ e)
  | _ => none

theorem toRat?_eq : toRat? x = unpackedRat? x.toModel.unpack := by
  unfold toRat? unpackedRat?
  rfl

-- The same bits with the other sign.
def flipped (b : BitVec spec.numBits) : BitVec spec.numBits :=
  packComponents spec (-.ofBitVec (unpackSign b)) (unpackExponent b) (unpackMantissa b)

theorem unpack_flipped : UnpackedFloat.unpack spec (flipped b) = (UnpackedFloat.unpack spec b).neg := by
  simp only [UnpackedFloat.unpack, flipped, unpackSign_packComponents, unpackExponent_packComponents,
    unpackMantissa_packComponents, Sign.ofBitVec_toBitVec]
  split_ifs <;> rfl

theorem unpack_of_isNaNBits (h : isNaNBits b) : UnpackedFloat.unpack spec b = .notANumber := by
  simp only [isNaNBits, decide_eq_true_eq] at h
  simp [UnpackedFloat.unpack, h]

-- Only what is no number loses bits when it is packed.
theorem unpack_pack_unpack (hs : 2 ≤ spec.exponentBits) :
    UnpackedFloat.unpack spec ((UnpackedFloat.unpack spec b).pack spec) = UnpackedFloat.unpack spec b := by
  rw [pack_unpack b hs]
  split
  case isTrue h  => rw [unpack_packedNaN, unpack_of_isNaNBits h]
  case isFalse h => rfl

theorem sign_apply_neg (s : Sign) (n : ℤ) : (-s).apply n = -s.apply n := by
  cases s
  case negative => exact (neg_neg n).symm
  case positive => rfl

theorem unpackedRat?_neg : unpackedRat? u.neg = (unpackedRat? u).map (- ·) := by
  cases u <;> simp [unpackedRat?, UnpackedFloat.neg, sign_apply_neg]

theorem toRat?_neg : toRat? (-x) = (toRat? x).map (- ·) := by
  have h : (-x).toModel.unpack = x.toModel.unpack.neg := by
    change UnpackedFloat.unpack .binary64 (x.toModel.unpack.neg.pack .binary64) = _
    rw [Float.Model.unpack, ← unpack_flipped, unpack_pack_unpack (by decide)]
  rw [toRat?_eq, toRat?_eq, h, unpackedRat?_neg]

theorem toRat?_zero : toRat? 0 = some 0 :=
  rfl

theorem toRat?_of_beq (h : x == y) : toRat? x = toRat? y := by
  obtain ⟨-, -, rfl | ⟨rfl, rfl⟩ | ⟨rfl, rfl⟩⟩ := Float.beq_iff_ne_nan_and_eq.mp h
  all_goals simp [toRat?_neg, toRat?_zero]

theorem toRat?_one : toRat? 1 = some 1 := by
  have h : (1 : Float).toModel.unpack = .finite .positive (2 ^ 52) (-52) (by decide) := rfl
  rw [toRat?_eq, h]
  norm_num [unpackedRat?, Sign.apply]

theorem toRat?_two : toRat? 2 = some 2 := by
  have h : (2 : Float).toModel.unpack = .finite .positive (2 ^ 52) (-51) (by decide) := rfl
  rw [toRat?_eq, h]
  norm_num [unpackedRat?, Sign.apply]

end Storyworld.Binary
