import Storyworld.Proofs.Decimal.Exact
import Storyworld.Tree.Number

/-!
What the numbers of the state are, exactly. Two of them are told apart by their floats: that is right for
numbers which are floats, but larger integers may have one and the same nearest float.
-/

namespace Storyworld

open Binary

theorem Binary.toRat?_of_isFinite {x : Float} (h : x.isFinite = true) : ∃ q, toRat? x = some q := by
  change x.toModel.unpack.isFinite = true at h
  rw [toRat?_eq]
  cases hu : x.toModel.unpack <;> simp_all [unpackedRat?, Float.Model.UnpackedFloat.isFinite]

namespace Number

variable {a b : Number} {n : ℤ} {x : Float}

def value : Number → ℚ
  | int n _ => n
  | float x _ => (toRat? x).getD 0

theorem toRat?_float (h : x.isFinite = true) : toRat? x = some (float x h).value := by
  obtain ⟨q, hq⟩ := toRat?_of_isFinite h
  simp [value, hq]

theorem toRat?_toFloat (h : IsFloat a.value) : toRat? a.toFloat = some a.value := by
  cases a
  case int n hs   => exact toRat?_ofInt h
  case float x hf => exact toRat?_float hf

theorem toRat?_toFloat_of_natAbs_lt (ha : a.value = n) (hn : n.natAbs < exactBound) :
    toRat? a.toFloat = some (n : ℚ) := by
  rw [toRat?_toFloat (ha ▸ isFloat_intCast hn), ha]

-- Whole floats are kept as integers, up to the bound.
theorem ofFloat?_of_toRat? (h : toRat? x = some (n : ℚ)) (hn : n.natAbs < exactBound) :
    ofFloat? x = some (.int n (storable_of_natAbs_lt hn)) := by
  simp [ofFloat?, toSmallInt?_eq h hn, storable_of_natAbs_lt hn]

-- One nearest float for both, where not both are floats themselves.
def Blurs (a b : Number) : Prop :=
  ¬(IsFloat a.value ∧ IsFloat b.value) ∧ a.toFloat == b.toFloat

theorem same_of_value_eq (h : a.value = b.value) : a.same b := by
  unfold same
  by_cases hf : IsFloat a.value
  case pos =>
    have hb := (beq_iff_toRat? (toRat?_toFloat hf) (toRat?_toFloat (h ▸ hf))).mpr h
    simp [hb]
  case neg =>
    -- Only an integer is no float, and so both are the same integer.
    cases a
    case float x hx => exact absurd ⟨x, toRat?_float hx⟩ hf
    case int n hs =>
      cases b
      case float y hy => exact absurd ⟨y, h ▸ toRat?_float hy⟩ hf
      case int m ht   =>
        obtain rfl : n = m := by simpa [value] using h
        simp

theorem same_iff : a.same b ↔ a.value = b.value ∨ a.Blurs b := by
  constructor
  · intro h
    simp only [same, Bool.or_eq_true, beq_iff_eq] at h
    obtain rfl | h := h
    case inl => exact .inl rfl
    case inr =>
      by_cases hf : IsFloat a.value ∧ IsFloat b.value
      case pos => exact .inl <| (beq_iff_toRat? (toRat?_toFloat hf.1) (toRat?_toFloat hf.2)).mp h
      case neg => exact .inr ⟨hf, h⟩
  · rintro (h | ⟨-, h⟩)
    · exact same_of_value_eq h
    · simp [same, h]

end Number

end Storyworld
