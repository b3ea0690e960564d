import Storyworld.Proofs.Formula.Constant

/-!
Operations on floats that lose nothing: where the exact result is a float, the rounded one is that float.
So integers below `exactBound` are floats, sums and decimals of such are right, and a float is found again
from its exact value, up to the sign of a zero.
-/

namespace Storyworld.Binary

open Float.Model Float.Model.UnpackedFloat

variable {s : Sign} {m m' n k : ℕ} {e e' : ℤ} {x y : Float} {q : ℚ}

/-! ## The form of finite floats -/

-- The exponent at which a float of this size has its last place.
def lastPlace (m : ℕ) (e : ℤ) : ℤ :=
  Format.binary64.targetExponent (totalExponent m e)

theorem lastPlace_eq : lastPlace m e = max (m.log2 + e - 52) (-1074) := by
  simp only [lastPlace, Format.targetExponent, totalExponent, Format.mantissaBits, Format.minExponent]
  norm_num
  omega

-- The last place of the mantissa is that of the float, which is not too large.
structure Fits (m : ℕ) (e : ℤ) : Prop where
  pos  : 0 < m
  last : lastPlace m e = e
  le   : e ≤ 971

theorem log2_mul_two_pow (h : m ≠ 0) : (m * 2 ^ k).log2 = m.log2 + k := by
  induction k
  case zero => simp
  case succ k ih => rw [pow_succ', Nat.mul_left_comm, Nat.log2_two_mul (by positivity), ih, Nat.add_assoc]

theorem lastPlace_mul (h : m ≠ 0) : lastPlace (m * 2 ^ k) e = lastPlace m (e + k) := by
  rw [lastPlace_eq, lastPlace_eq, log2_mul_two_pow h]
  congr 1
  omega

/-! ## Rounding -/

theorem shift_exact : (ExtendedMantissa.ofMantissaAndAccuracy (m * 2 ^ k) .exact >>> k) =
    .ofMantissaAndAccuracy m .exact := by
  change k.repeat ExtendedMantissa.shiftRightOne _ = _
  induction k generalizing m
  case zero => simp [Nat.repeat]
  case succ k ih =>
    rw [Nat.repeat, pow_succ', ← Nat.mul_assoc, ih]
    simp [ExtendedMantissa.shiftRightOne, ExtendedMantissa.ofMantissaAndAccuracy]

theorem shiftToTargetExponent_exact (hm : m ≠ 0) (h : lastPlace m e = e) :
    shiftToTargetExponent .binary64 (m * 2 ^ k) (e - k) .exact = (.ofMantissaAndAccuracy m .exact, e) := by
  have hl : lastPlace (m * 2 ^ k) (e - k) = e := by rw [lastPlace_mul hm, Int.sub_add_cancel, h]
  have hk : (e - (e - k)).toNat = k := by omega
  change shiftToExponent _ _ _ (lastPlace (m * 2 ^ k) (e - k)) = _
  rw [hl, shiftToExponent, hk, shift_exact]
  simp

theorem roundWithAccuracy_exact (hm : 0 < m) (h : lastPlace m e = e) (k : ℕ) :
    roundWithAccuracy .binary64 s (m * 2 ^ k) (e - k) .exact = .finite s m e hm := by
  have h₁ := shiftToTargetExponent_exact (k := k) hm.ne' h
  have h₂ := shiftToTargetExponent_exact (k := 0) hm.ne' h
  simp only [pow_zero, Nat.mul_one, Nat.cast_zero, Int.sub_zero] at h₂
  have hr : (ExtendedMantissa.ofMantissaAndAccuracy m .exact).roundedMantissa = m := rfl
  have hf : (ExtendedMantissa.ofMantissaAndAccuracy m .exact).mantissa = m := rfl
  simp only [roundWithAccuracy, h₁, hr, h₂, hf, hm.ne', dite_false]

theorem exists_shift (hv : (m' : ℚ) * 2 ^ e' = m * 2 ^ e) (he : e' ≤ e) :
    ∃ k : ℕ, m' = m * 2 ^ k ∧ e' = e - k := by
  obtain ⟨k, rfl⟩ : ∃ k : ℕ, e' = e - k := ⟨(e - e').toNat, by omega⟩
  have hp : (2 : ℚ) ^ e = 2 ^ k * 2 ^ (e - k) := by
    rw [← zpow_natCast, ← zpow_add₀ two_ne_zero, add_sub_cancel]
  have h : (m' : ℚ) = m * 2 ^ k := by
    refine mul_right_cancel₀ (zpow_ne_zero (e - k) two_ne_zero) ?_
    rw [hv, hp, mul_assoc]
  exact ⟨k, by exact_mod_cast h, rfl⟩

theorem round_eq : UnpackedFloat.round .binary64 s m e =
    roundWithAccuracy .binary64 s (decreaseExponent m e (lastPlace m e)).1
      (decreaseExponent m e (lastPlace m e)).2 .exact :=
  rfl

-- What has the value of a float is rounded to it, however it is written.
theorem round_exact (hm : 0 < m) (h : lastPlace m e = e) (hv : (m' : ℚ) * 2 ^ e' = m * 2 ^ e) :
    UnpackedFloat.round .binary64 s m' e' = .finite s m e hm := by
  rw [round_eq]
  obtain he | he := le_or_gt e' e
  case inl =>
    obtain ⟨k, rfl, rfl⟩ := exists_shift hv he
    have hl : lastPlace (m * 2 ^ k) (e - k) = e := by rw [lastPlace_mul hm.ne', Int.sub_add_cancel, h]
    have hd : decreaseExponent (m * 2 ^ k) (e - k) (lastPlace (m * 2 ^ k) (e - k)) = (m * 2 ^ k, e - k) := by
      simp [decreaseExponent, hl]
    rw [hd]
    exact roundWithAccuracy_exact hm h k
  case inr =>
    obtain ⟨k, rfl, rfl⟩ := exists_shift hv.symm he.le
    have hm' : m' ≠ 0 := by rintro rfl; simp at hm
    have hl : lastPlace m' e' = e' - k := by rw [← h, lastPlace_mul hm', Int.sub_add_cancel]
    have hd : decreaseExponent m' e' (lastPlace m' e') = (m' * 2 ^ k, e' - k) := by
      simp [decreaseExponent, hl, Nat.shiftLeft_eq]
    rw [hd]
    simpa using roundWithAccuracy_exact (s := s) hm h 0

theorem normalize_of_pos {a z : ℤ} {zero : Sign} (h : 0 < a) :
    UnpackedFloat.normalize .binary64 a z zero = UnpackedFloat.round .binary64 .positive a.toNat z := by
  rw [UnpackedFloat.normalize, Int.compare_eq_gt.mpr h]

theorem normalize_of_neg {a z : ℤ} {zero : Sign} (h : a < 0) :
    UnpackedFloat.normalize .binary64 a z zero = UnpackedFloat.round .binary64 .negative (-a).toNat z := by
  rw [UnpackedFloat.normalize, Int.compare_eq_lt.mpr h]

theorem normalize_exact {a z : ℤ} (zero : Sign) (h : Fits m e) (hv : (a : ℚ) * 2 ^ z = s.apply m * 2 ^ e) :
    UnpackedFloat.normalize .binary64 a z zero = .finite s m e h.pos := by
  have hz : (0 : ℚ) < 2 ^ z := by positivity
  have hm : (0 : ℚ) < m * 2 ^ e := mul_pos (by exact_mod_cast h.pos) (by positivity)
  cases s
  case positive =>
    have hv : (a : ℚ) * 2 ^ z = m * 2 ^ e := hv
    have ha : 0 < a := by exact_mod_cast pos_of_mul_pos_left (hv ▸ hm) hz.le
    rw [normalize_of_pos ha]
    refine round_exact h.pos h.last ?_
    rw [← hv, ← Int.cast_natCast, Int.toNat_of_nonneg ha.le]
  case negative =>
    have hv : ((-a : ℤ) : ℚ) * 2 ^ z = m * 2 ^ e := by
      rw [Int.cast_neg, neg_mul, hv, ← neg_mul, ← Int.cast_neg]
      simp [Sign.apply]
    have ha : 0 < -a := by exact_mod_cast pos_of_mul_pos_left (hv ▸ hm) hz.le
    rw [normalize_of_neg (by omega)]
    refine round_exact h.pos h.last ?_
    rw [← hv, ← Int.cast_natCast, Int.toNat_of_nonneg ha.le]

/-! ## Packing -/

theorem toNat_append_one (b : BitVec 52) : (1#1 ++ b).toNat = 2 ^ 52 + b.toNat := by
  rw [BitVec.toNat_append, ← Nat.shiftLeft_add_eq_or_of_lt b.isLt]
  rfl

theorem log2_add (h : n < 2 ^ 52) : (2 ^ 52 + n).log2 = 52 :=
  (Nat.log2_eq_iff (by omega)).mpr ⟨by omega, by omega⟩

theorem toNat_neg_one : (-1#11 : BitVec 11).toNat = 2047 := by
  decide

theorem fits_of_unpack {b : BitVec Format.binary64.numBits} {hm : 0 < m}
    (h : UnpackedFloat.unpack .binary64 b = .finite s m e hm) : Fits m e := by
  have hb : (Format.binary64.exponentBias : ℤ) = 1023 := by decide
  have hw : (Format.binary64.mantissaBitsWithoutImplicit : ℤ) = 52 := rfl
  rw [UnpackedFloat.unpack] at h
  split at h
  case isTrue => split at h <;> cases h
  case isFalse hi =>
    split at h
    case isTrue hz =>
      split at h
      case isTrue     => cases h
      case isFalse hn =>
        obtain ⟨-, rfl, rfl⟩ := (UnpackedFloat.finite.injEq ..).mp h
        have hl : (unpackMantissa b).toNat.log2 < 52 := (Nat.log2_lt hm.ne').mpr (unpackMantissa b).isLt
        rw [hz, hb]
        exact ⟨hm, by rw [lastPlace_eq]; simp; omega, by simp⟩
    case isFalse hz =>
      obtain ⟨-, rfl, rfl⟩ := (UnpackedFloat.finite.injEq ..).mp h
      have hl := log2_add (unpackMantissa b).isLt
      have hlt : (unpackExponent b).toNat < 2048 := (unpackExponent b).isLt
      have h₀ : (unpackExponent b).toNat ≠ 0 := fun h => hz (BitVec.eq_of_toNat_eq h)
      have h₁ : (unpackExponent b).toNat ≠ 2047 := fun h =>
        hi (BitVec.eq_of_toNat_eq (h.trans toNat_neg_one.symm))
      rw [hb, hw]
      refine ⟨hm, ?_, ?_⟩
      · rw [lastPlace_eq, toNat_append_one, hl]
        omega
      · omega

theorem toNat_mantissaField (h : n < 2 ^ 52) : (BitVec.ofNat 52 (2 ^ 52 + n)).toNat = n := by
  rw [BitVec.toNat_ofNat, Nat.add_mod_left, Nat.mod_eq_of_lt h]

theorem pack_of_log2_eq (hl : m.log2 = 52) (he : e ≤ 971) (hm : 0 < m) :
    UnpackedFloat.pack .binary64 (.finite s m e hm) =
      packComponents .binary64 s (BitVec.ofNat 11 (e + 1023 + 52).toNat) (BitVec.ofNat 52 m) := by
  rw [UnpackedFloat.pack]
  dsimp only
  rw [if_neg, if_pos]
  · rfl
  · rw [hl]; rfl
  · change ¬2048 ≤ (e + 1023 + 52).toNat + 1
    omega

theorem unpack_packComponents (hn : n < 2 ^ 52) (hk : 0 < k) (hk' : k < 2047) (hm : 0 < 2 ^ 52 + n) :
    UnpackedFloat.unpack .binary64
      (packComponents .binary64 s (BitVec.ofNat 11 k) (BitVec.ofNat 52 (2 ^ 52 + n))) =
        .finite s (2 ^ 52 + n) (k - 1075) hm := by
  have hkn : (BitVec.ofNat 11 k).toNat = k := by
    rw [BitVec.toNat_ofNat, Nat.mod_eq_of_lt (by omega)]
  have h₀ : BitVec.ofNat 11 k ≠ 0#11 := fun h => hk.ne' (hkn.symm.trans (congrArg BitVec.toNat h))
  have h₁ : BitVec.ofNat 11 k ≠ -1#11 := fun h =>
    hk'.ne (hkn.symm.trans ((congrArg BitVec.toNat h).trans toNat_neg_one))
  rw [UnpackedFloat.unpack]
  simp only [unpackMantissa_packComponents, unpackExponent_packComponents, unpackSign_packComponents,
    Sign.ofBitVec_toBitVec]
  rw [if_neg h₁, if_neg h₀]
  simp only [UnpackedFloat.finite.injEq, true_and]
  refine ⟨(toNat_append_one _).trans (by rw [toNat_mantissaField hn]), ?_⟩
  rw [hkn]
  rfl

-- A normal float is unpacked as it was packed.
theorem unpack_pack (hl : m.log2 = 52) (he : -1074 ≤ e) (he' : e ≤ 971) (hm : 0 < m) :
    (Float.Model.pack (.finite s m e hm)).unpack = .finite s m e hm := by
  obtain ⟨n, rfl, hn⟩ : ∃ n, m = 2 ^ 52 + n ∧ n < 2 ^ 52 := by
    obtain ⟨h₁, h₂⟩ := (Nat.log2_eq_iff hm.ne').mp hl
    exact ⟨m - 2 ^ 52, by omega, by omega⟩
  change UnpackedFloat.unpack .binary64 (UnpackedFloat.pack .binary64 _) = _
  rw [pack_of_log2_eq hl he', unpack_packComponents hn (by omega) (by omega) hm]
  congr 1
  omega

/-! ## Exact values -/

-- The number is a float, exactly.
def IsFloat (q : ℚ) : Prop :=
  ∃ x, toRat? x = some q

theorem unpack_of_toRat? (h : toRat? x = some q) (hq : q ≠ 0) :
    ∃ s m e, ∃ hf : Fits m e, x.toModel.unpack = .finite s m e hf.pos ∧ q = s.apply m * 2 ^ e := by
  rw [toRat?_eq] at h
  cases hu : x.toModel.unpack with
  | zero s =>
    rw [hu] at h
    exact absurd (Option.some.inj h).symm hq
  | finite s m e hm =>
    rw [hu] at h
    exact ⟨s, m, e, fits_of_unpack hu, rfl, (Option.some.inj h).symm⟩
  | infinity s => simp [hu, unpackedRat?] at h
  | notANumber => simp [hu, unpackedRat?] at h

theorem unpack_of_toRat?_pos (h : toRat? x = some q) (hq : 0 < q) :
    ∃ m e, ∃ hf : Fits m e, x.toModel.unpack = .finite .positive m e hf.pos ∧ q = m * 2 ^ e := by
  obtain ⟨s, m, e, hf, hu, hv⟩ := unpack_of_toRat? h hq.ne'
  have hm : (0 : ℚ) < m * 2 ^ e := mul_pos (by exact_mod_cast hf.pos) (by positivity)
  cases s
  case positive => exact ⟨m, e, hf, hu, hv⟩
  case negative =>
    simp only [Sign.apply] at hv
    push_cast at hv
    linarith

theorem toRat?_pack (h : u = x.toModel.unpack) : toRat? (.ofModel (.pack u)) = toRat? x := by
  subst h
  rw [toRat?_eq, toRat?_eq]
  exact congrArg unpackedRat? (unpack_pack_unpack (by decide))

theorem toRat?_pack_zero : toRat? (.ofModel (.pack (.zero s))) = some 0 := by
  cases s <;> rfl

theorem toRat?_normalize {a z : ℤ} (zero : Sign) (h : IsFloat (a * 2 ^ z)) :
    toRat? (.ofModel (.pack (UnpackedFloat.normalize .binary64 a z zero))) = some ((a : ℚ) * 2 ^ z) := by
  obtain rfl | ha := eq_or_ne a 0
  case inl =>
    rw [UnpackedFloat.normalize, Int.compare_eq_eq.mpr rfl]
    simpa using toRat?_pack_zero
  case inr =>
    obtain ⟨x, hx⟩ := h
    obtain ⟨s, m, e, hf, hu, hv⟩ := unpack_of_toRat? hx (by positivity)
    rw [toRat?_pack ((normalize_exact zero hf hv).trans hu.symm), hx]

-- Floats of the same value are found again from it.
theorem unpack_eq_of_toRat? (hx : toRat? x = some q) (hy : toRat? y = some q) (hq : q ≠ 0) :
    x.toModel.unpack = y.toModel.unpack := by
  obtain ⟨s, m, e, hf, hu, hv⟩ := unpack_of_toRat? hx hq
  obtain ⟨t, n, d, hg, hw, hr⟩ := unpack_of_toRat? hy hq
  rw [hu, hw, ← normalize_exact .positive hf (hr.symm.trans hv)]
  exact normalize_exact .positive hg rfl

theorem unpack_of_toRat?_zero (h : toRat? x = some 0) : ∃ s, x.toModel.unpack = .zero s := by
  rw [toRat?_eq] at h
  cases hu : x.toModel.unpack with
  | zero s => exact ⟨s, rfl⟩
  | finite s m e hm =>
    rw [hu] at h
    have hz : (2 : ℚ) ^ e ≠ 0 := by positivity
    have hs : (s.apply m : ℤ) = 0 := by exact_mod_cast (mul_eq_zero.mp (Option.some.inj h)).resolve_right hz
    cases s <;> simp [Sign.apply] at hs <;> omega
  | infinity s => simp [hu, unpackedRat?] at h
  | notANumber => simp [hu, unpackedRat?] at h

theorem beq_iff_toRat? {r : ℚ} (hx : toRat? x = some q) (hy : toRat? y = some r) : x == y ↔ q = r := by
  constructor
  · intro h
    have := toRat?_of_beq h
    rw [hx, hy] at this
    exact Option.some.inj this
  · rintro rfl
    change x.toModel.unpack.beq y.toModel.unpack
    rw [beq_iff_ne_notANumber_and_eq]
    obtain rfl | hq := eq_or_ne q 0
    case inl =>
      obtain ⟨s, hs⟩ := unpack_of_toRat?_zero hx
      obtain ⟨t, ht⟩ := unpack_of_toRat?_zero hy
      rw [hs, ht]
      cases s <;> cases t <;> simp
    case inr =>
      have he := unpack_eq_of_toRat? hx hy hq
      obtain ⟨s, m, e, hf, hu, -⟩ := unpack_of_toRat? hx hq
      simp [← he, hu]

/-! ## Integers -/

theorem isFloat_neg (h : IsFloat q) : IsFloat (-q) := by
  obtain ⟨x, hx⟩ := h
  exact ⟨-x, by rw [toRat?_neg, hx]; rfl⟩

theorem isFloat_natCast (h : n < exactBound) : IsFloat n := by
  obtain rfl | hn := Nat.eq_zero_or_pos n
  case inl => exact ⟨0, by simpa using toRat?_zero⟩
  case inr =>
    have hl : n.log2 < 53 := (Nat.log2_lt hn.ne').mpr h
    have hm : 0 < n * 2 ^ (52 - n.log2) := by positivity
    have hs : (n * 2 ^ (52 - n.log2)).log2 = 52 := by rw [log2_mul_two_pow hn.ne']; omega
    refine ⟨.ofModel (.pack (.finite .positive _ (n.log2 - 52 : ℤ) hm)), ?_⟩
    rw [toRat?_eq]
    change unpackedRat? (Float.Model.pack _).unpack = _
    rw [unpack_pack hs (by omega) (by omega)]
    have hp : (2 : ℚ) ^ (52 - n.log2) * 2 ^ (n.log2 - 52 : ℤ) = 1 := by
      rw [← zpow_natCast, ← zpow_add₀ two_ne_zero, show ((52 - n.log2 : ℕ) : ℤ) + (n.log2 - 52) = 0 by omega,
        zpow_zero]
    simp only [unpackedRat?, Sign.apply]
    push_cast
    rw [mul_assoc, hp, mul_one]

theorem isFloat_intCast {a : ℤ} (h : a.natAbs < exactBound) : IsFloat a := by
  obtain ⟨n, rfl | rfl⟩ := a.eq_nat_or_neg
  case inl => exact_mod_cast isFloat_natCast (by simpa using h)
  case inr =>
    have := isFloat_neg (isFloat_natCast (n := n) (by simpa using h))
    exact_mod_cast this

theorem toRat?_ofInt {a : ℤ} (h : IsFloat a) : toRat? (ofInt a) = some (a : ℚ) := by
  have hn := toRat?_normalize (a := a) (z := 0) .positive (by simpa using h)
  rw [zpow_zero, mul_one] at hn
  exact hn

theorem apply_natAbs {a : ℤ} (h : (a : ℚ) = s.apply m * 2 ^ e) : a = s.apply a.natAbs := by
  have hm : (0 : ℚ) ≤ m * 2 ^ e := by positivity
  cases s
  case positive =>
    have ha : (0 : ℚ) ≤ a := hm.trans_eq h.symm
    exact (Int.natAbs_of_nonneg (by exact_mod_cast ha)).symm
  case negative =>
    have ha : (a : ℚ) ≤ 0 := by simpa [h, Sign.apply] using hm
    have ha : a ≤ 0 := by exact_mod_cast ha
    simp only [Sign.apply]
    omega

theorem mul_twoTo {a : ℤ} (h : (a : ℚ) = s.apply m * 2 ^ e) :
    m * twoTo e.toNat = a.natAbs * twoTo (-e).toNat := by
  have ha : ((a.natAbs : ℕ) : ℚ) = m * 2 ^ e := by
    have hz : (0 : ℚ) < 2 ^ e := by positivity
    rw [Nat.cast_natAbs, Int.cast_abs, h, abs_mul, abs_of_pos hz]
    cases s <;> simp [Sign.apply]
  obtain ⟨k, rfl | rfl⟩ := e.eq_nat_or_neg
  case inl =>
    rw [zpow_natCast] at ha
    have hn : a.natAbs = m * 2 ^ k := by exact_mod_cast ha
    simp [twoTo, hn]
  case inr =>
    rw [zpow_neg, zpow_natCast, eq_mul_inv_iff_mul_eq₀ (by positivity)] at ha
    have hn : a.natAbs * 2 ^ k = m := by exact_mod_cast ha
    simp [twoTo, hn]

-- The mantissa is that of the integer, but for the powers of two in the exponent.
theorem mantissa_of_int {a : ℤ} (h : (a : ℚ) = s.apply m * 2 ^ e) :
    ∃ n : ℕ, a = s.apply n ∧ m * twoTo e.toNat = n * twoTo (-e).toNat :=
  ⟨a.natAbs, apply_natAbs h, mul_twoTo h⟩

theorem toInt?_eq {a : ℤ} (h : toRat? x = some (a : ℚ)) : toInt? x = some a := by
  obtain rfl | ha := eq_or_ne a 0
  case inl =>
    obtain ⟨s, hs⟩ := unpack_of_toRat?_zero (by simpa using h)
    rw [toInt?, hs]
  case inr =>
    obtain ⟨s, m, e, hf, hu, hv⟩ := unpack_of_toRat? h (by exact_mod_cast ha)
    obtain ⟨n, rfl, hn⟩ := mantissa_of_int hv
    have hd : m % twoTo (-e).toNat = 0 := by
      obtain he | he := le_or_gt 0 e
      case inl => simp [Int.toNat_of_nonpos (by omega : -e ≤ 0), twoTo_zero, Nat.mod_one]
      case inr =>
        rw [Int.toNat_of_nonpos he.le, twoTo_zero, Nat.mul_one] at hn
        rw [hn, Nat.mul_mod_left]
    rw [toInt?, hu]
    dsimp only
    rw [if_pos hd, hn, Nat.mul_div_cancel _ (twoTo_pos _)]

theorem toSmallInt?_eq {a : ℤ} (h : toRat? x = some (a : ℚ)) (ha : a.natAbs < exactBound) :
    toSmallInt? x = some a := by
  simp [toSmallInt?, toInt?_eq h, ha]

theorem nearestInt_eq {a : ℤ} (h : toRat? x = some (a : ℚ)) : nearestInt x = a := by
  obtain rfl | ha := eq_or_ne a 0
  case inl =>
    obtain ⟨s, hs⟩ := unpack_of_toRat?_zero (by simpa using h)
    rw [nearestInt, hs]
  case inr =>
    obtain ⟨s, m, e, hf, hu, hv⟩ := unpack_of_toRat? h (by exact_mod_cast ha)
    obtain ⟨n, rfl, hn⟩ := mantissa_of_int hv
    have hd := twoTo_pos (-e).toNat
    rw [nearestInt, hu]
    dsimp only
    rw [hn, ← Nat.mul_assoc, Nat.mul_right_comm, Nat.add_comm, Nat.add_mul_div_left _ _ (by omega),
      Nat.div_eq_of_lt (by omega), Nat.zero_add]

/-! ## Sums -/

theorem apply_shiftLeft {z : ℤ} (h : z ≤ e) :
    ((s.apply (m <<< (e - z).toNat : ℕ) : ℤ) : ℚ) * 2 ^ z = s.apply m * 2 ^ e := by
  obtain ⟨k, rfl⟩ : ∃ k : ℕ, e = z + k := ⟨(e - z).toNat, by omega⟩
  have hk : (z + k - z).toNat = k := by omega
  rw [hk, Nat.shiftLeft_eq, zpow_add₀ two_ne_zero, zpow_natCast]
  cases s <;> simp only [Sign.apply] <;> push_cast <;> ring

theorem toRat?_add {r : ℚ} (hx : toRat? x = some q) (hy : toRat? y = some r) (h : IsFloat (q + r)) :
    toRat? (x + y) = some (q + r) := by
  change toRat? (.ofModel (.pack (UnpackedFloat.add .binary64 x.toModel.unpack y.toModel.unpack))) = _
  obtain rfl | hq := eq_or_ne q 0
  case inl =>
    obtain ⟨s, hs⟩ := unpack_of_toRat?_zero hx
    obtain rfl | hr := eq_or_ne r 0
    case inl =>
      obtain ⟨t, ht⟩ := unpack_of_toRat?_zero hy
      rw [hs, ht, UnpackedFloat.add]
      split <;> simp [toRat?_pack_zero]
    case inr =>
      obtain ⟨t, n, d, hg, hw, -⟩ := unpack_of_toRat? hy hr
      rw [hs, hw, zero_add, ← hy]
      exact toRat?_pack hw.symm
  case inr =>
    obtain ⟨s, m, e, hf, hu, rfl⟩ := unpack_of_toRat? hx hq
    obtain rfl | hr := eq_or_ne r 0
    case inl =>
      obtain ⟨t, ht⟩ := unpack_of_toRat?_zero hy
      rw [hu, ht, add_zero, ← hx]
      exact toRat?_pack hu.symm
    case inr =>
      obtain ⟨t, n, d, hg, hw, rfl⟩ := unpack_of_toRat? hy hr
      have hv : (s.apply m * 2 ^ e + t.apply n * 2 ^ d : ℚ) =
          ((s.apply (m <<< (e - min e d).toNat : ℕ) + t.apply (n <<< (d - min e d).toNat : ℕ) : ℤ) : ℚ) *
            2 ^ min e d := by
        rw [← apply_shiftLeft (min_le_left e d), ← apply_shiftLeft (min_le_right e d)]
        push_cast
        ring
      rw [hv] at h ⊢
      rw [hu, hw]
      exact toRat?_normalize .positive h

/-! ## Decimals -/

-- Rounding finds a float again from each way to write its value with a last place that is none too high.
theorem roundWithAccuracy_of_le (h : Fits m e) (hv : (m' : ℚ) * 2 ^ e' = m * 2 ^ e)
    (hl : e' ≤ lastPlace m' e') :
    roundWithAccuracy .binary64 s m' e' .exact = .finite s m e h.pos := by
  obtain he | he := le_or_gt e' e
  case inl =>
    obtain ⟨k, rfl, rfl⟩ := exists_shift hv he
    exact roundWithAccuracy_exact h.pos h.last k
  case inr =>
    obtain ⟨k, rfl, rfl⟩ := exists_shift hv.symm he.le
    have hm : m' ≠ 0 := by rintro rfl; simpa using h.pos
    have := h.last
    rw [lastPlace_mul hm, Int.sub_add_cancel] at this
    omega

theorem log2_mul_le (hm : m ≠ 0) (hn : n ≠ 0) : (m * n).log2 ≤ m.log2 + n.log2 + 1 := by
  have h := Nat.mul_lt_mul'' (Nat.lt_log2_self (n := m)) (Nat.lt_log2_self (n := n))
  rw [← pow_add] at h
  exact Nat.le_of_lt_succ ((Nat.log2_lt (Nat.mul_ne_zero hm hn)).mpr (h.trans_eq (by congr 1; omega)))

theorem Fits.quotient_le (h : Fits m e) (hk : 0 < k) (hn : n ≠ 0) (hv : (n : ℚ) = m * 2 ^ e * k) :
    min 0 (Format.binary64.targetExponent (totalExponent n 0 - totalExponent k 0)) ≤ e := by
  obtain he | he := le_or_gt 0 e
  case inl => exact (min_le_left _ _).trans he
  case inr =>
    obtain ⟨j, rfl⟩ : ∃ j : ℕ, e = -j := ⟨(-e).toNat, by omega⟩
    have hnat : n * 2 ^ j = m * k := by
      have : (n : ℚ) * 2 ^ j = m * k := by
        rw [hv, zpow_neg, zpow_natCast]
        field_simp
      exact_mod_cast this
    have hl := log2_mul_le h.pos.ne' hk.ne'
    have hlast := h.last
    rw [← hnat, log2_mul_two_pow hn] at hl
    rw [lastPlace_eq] at hlast
    refine (min_le_right _ _).trans ?_
    simp only [Format.targetExponent, totalExponent, Format.mantissaBits, Format.minExponent]
    norm_num
    omega

theorem Fits.divCore_exact (h : Fits m e) (hk : 0 < k) (hn : n ≠ 0) (hv : (n : ℚ) = m * 2 ^ e * k) :
    ∃ j : ℕ, divCore .binary64 n 0 k 0 = (m * 2 ^ j, e - j, .exact) := by
  have ht := h.quotient_le hk hn hv
  rw [divCore, Int.sub_self]
  generalize htt : min 0 (Format.binary64.targetExponent (totalExponent n 0 - totalExponent k 0)) = t at ht
  have ht₀ : t ≤ 0 := htt ▸ min_le_left _ _
  obtain ⟨i, rfl⟩ : ∃ i : ℕ, t = -i := ⟨(-t).toNat, by omega⟩
  obtain ⟨j, rfl⟩ : ∃ j : ℕ, e = j - i := ⟨(e + i).toNat, by omega⟩
  have hi : (0 - -(i : ℤ)).toNat = i := by omega
  have hnat : n * 2 ^ i = m * 2 ^ j * k := by
    have : (n : ℚ) * 2 ^ i = m * 2 ^ j * k := by
      rw [hv, zpow_sub₀ two_ne_zero, zpow_natCast, zpow_natCast]
      field_simp
    exact_mod_cast this
  refine ⟨j, ?_⟩
  rw [hi, Nat.shiftLeft_eq, hnat, Nat.mul_div_cancel _ hk, Nat.mul_mod_left]
  congr 2
  omega

theorem toRat?_ofDecimal {c : ℕ} {z : ℤ} (h : IsFloat (c * 10 ^ z)) (hz : z.natAbs ≤ 2048) :
    toRat? (ofDecimal c z) = some (c * 10 ^ z : ℚ) := by
  obtain rfl | hc := eq_or_ne c 0
  case inl =>
    simpa [ofDecimal, Float.Model.ofScientific, UnpackedFloat.ofScientific] using toRat?_pack_zero
  case inr =>
    obtain ⟨x, hx⟩ := h
    obtain ⟨m, e, hf, hu, hv⟩ := unpack_of_toRat?_pos hx (by positivity)
    rw [← hx]
    refine toRat?_pack (Eq.trans ?_ hu.symm)
    have hb : (2 ^ Format.binary64.exponentBits : ℤ) = 2048 := rfl
    rw [UnpackedFloat.ofScientific, dif_neg hc, if_neg (by omega), if_neg (by omega)]
    split
    case isTrue hz =>
      obtain ⟨k, rfl⟩ : ∃ k : ℕ, z = k := ⟨z.toNat, by omega⟩
      have hs : c <<< 53 * 10 ^ k = c * 10 ^ k * 2 ^ 53 := by rw [Nat.shiftLeft_eq]; ring
      change roundWithAccuracy .binary64 .positive (c <<< 53 * 10 ^ k) (-53) .exact = _
      rw [hs]
      refine roundWithAccuracy_of_le hf ?_ ?_
      · rw [← hv]
        push_cast
        norm_num
        ring
      · rw [lastPlace_eq, log2_mul_two_pow (by positivity)]
        omega
    case isFalse hz =>
      obtain ⟨k, rfl⟩ : ∃ k : ℕ, z = -k := ⟨(-z).toNat, by omega⟩
      have hv : (c : ℚ) = m * 2 ^ e * (10 ^ k : ℕ) := by
        rw [← hv, zpow_neg, zpow_natCast]
        push_cast
        field_simp
      obtain ⟨j, hj⟩ := hf.divCore_exact (k := 10 ^ k) (by positivity) hc hv
      rw [UnpackedFloat.div]
      simp only [Int.neg_neg, Int.toNat_natCast, hj]
      exact roundWithAccuracy_exact hf.pos hf.last j

end Storyworld.Binary
