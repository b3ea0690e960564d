import Storyworld.Proofs.Decimal.Exact
import Storyworld.Decimal.Significant

/-!
Integers to twelve significant digits. An integer below `exactBound` has at most sixteen digits, and what
it is rounded to is one again: the nearest multiple of a power of ten, of two such the even one.
-/

namespace Storyworld.Decimal

open Binary Float.Model.UnpackedFloat

variable {n d c q m k : ℕ} {e : ℤ} {x : Float} {a r : ℤ} {s : Sign} {hm : 0 < m}

-- The multiple of `d` that is nearest, with an even factor if there are two.
inductive Rounds (d a : ℤ) : ℤ → Prop where
  | mk {q : ℤ} (near : 2 * |q * d - a| ≤ d) (tie : 2 * |q * d - a| = d → Even q) : Rounds d a (q * d)

theorem divRound_mul (hc : 0 < c) : divRound (c * n) (c * d) = divRound n d := by
  have hl (i j : ℕ) : c * i < c * j ↔ i < j := Nat.mul_lt_mul_left hc
  simp only [divRound, Nat.mul_div_mul_left _ _ hc, Nat.mul_mod_mul_left, Nat.mul_left_comm 2, hl]

theorem rounds_divRound (hd : 0 < d) : Rounds d n (divRound n d * d : ℕ) := by
  rw [Nat.cast_mul]
  have hn : (n : ℤ) = (n / d : ℕ) * d + (n % d : ℕ) := by exact_mod_cast (Nat.div_add_mod' n d).symm
  have hr := Nat.mod_lt n hd
  unfold divRound
  dsimp only
  generalize n / d = q at hn ⊢
  generalize n % d = r at hn hr ⊢
  have down : |(q * d - n : ℤ)| = r := by rw [hn, sub_add_cancel_left, abs_neg, Nat.abs_cast]
  have up : |((q + 1 : ℕ) * d - n : ℤ)| = d - r := by
    rw [hn, abs_of_nonneg] <;> push_cast <;> nlinarith
  split_ifs
  · refine .mk ?_ ?_ <;> rw [down] <;> omega
  · refine .mk ?_ ?_ <;> rw [up] <;> omega
  · obtain hq | hq := q.even_or_odd
    case inl =>
      rw [Nat.even_iff.mp hq, Nat.add_zero]
      exact .mk (by rw [down]; omega) fun _ => by exact_mod_cast hq
    case inr =>
      rw [Nat.odd_iff.mp hq]
      exact .mk (by rw [up]; omega) fun _ => by exact_mod_cast hq.add_one

theorem Rounds.neg {d : ℤ} (h : Rounds d a r) : Rounds d (-a) (-r) := by
  obtain @⟨q, near, tie⟩ := h
  have he : |-q * d - -a| = |q * d - a| := by rw [← abs_neg]; congr 1; ring
  rw [← neg_mul]
  exact .mk (he ▸ near) fun h => (tie (he ▸ h)).neg

theorem Rounds.apply {d : ℤ} (h : Rounds d n k) : Rounds d (s.apply n) (s.apply k) := by
  cases s
  case positive => exact h
  case negative => exact h.neg

theorem natAbs_apply : (s.apply k).natAbs = k := by
  cases s <;> simp [Sign.apply]

-- Nothing is lost of the multiples, and of nothing else.
theorem Rounds.eq_iff {d : ℤ} (hd : 0 < d) (h : Rounds d a r) : r = a ↔ d ∣ a := by
  obtain @⟨q, near, -⟩ := h
  constructor
  · rintro rfl
    exact dvd_mul_left d q
  · rintro ⟨k, rfl⟩
    have hk : |q - k| * d = |q * d - d * k| := by
      rw [mul_comm d k, ← sub_mul, abs_mul, abs_of_pos hd]
    have : |q - k| < 1 := by nlinarith
    rw [sub_eq_zero.mp (Int.abs_lt_one_iff.mp this), mul_comm]

theorem divRound_le (h : 2 * n < (2 * q + 1) * d) : divRound n d ≤ q := by
  have hn := Nat.div_add_mod' n d
  unfold divRound
  dsimp only
  generalize n / d = p at hn ⊢
  generalize n % d = r at hn ⊢
  subst hn
  have hp : p ≤ q := by nlinarith
  split_ifs with h₁ h₂
  · exact hp
  · by_contra hq
    obtain rfl : p = q := by omega
    nlinarith
  · obtain rfl | hq := hp.eq_or_lt
    · nlinarith
    · omega

theorem magnitude_of_nat (hk : 0 < k) (h : m * twoTo e.toNat = k * twoTo (-e).toNat) :
    magnitude m e = digitCount k := by
  have hd := twoTo_pos (-e).toNat
  have hl : twoTo (-e).toNat ≤ k * twoTo (-e).toNat := Nat.le_mul_of_pos_left _ hk
  simp [magnitude, fraction, h, tenTo_zero, hl, Nat.mul_div_cancel _ hd]

theorem rounded_of_nat {count : ℕ} (hk : 0 < k) (h : m * twoTo e.toNat = k * twoTo (-e).toNat) :
    rounded count m e = ⟨divRound (k * tenTo (count - digitCount k)) (tenTo (digitCount k - count)),
      digitCount k - count⟩ := by
  have hs : (-((digitCount k : ℤ) - count)).toNat = count - digitCount k := by omega
  have ht : ((digitCount k : ℤ) - count).toNat = digitCount k - count := by omega
  rw [rounded, magnitude_of_nat hk h]
  simp only [fraction, h, hs, ht]
  rw [Nat.mul_comm k, Nat.mul_assoc, divRound_mul (twoTo_pos _)]

theorem tenTo_eq : tenTo n = 10 ^ n :=
  rfl

theorem cast_tenTo : (tenTo n : ℤ) = 10 ^ n := by
  rw [tenTo_eq, Nat.cast_pow, Nat.cast_ofNat]

theorem divRound_one : divRound n 1 = n := by
  simp [divRound, Nat.mod_one]

theorem lt_tenTo_digitCount : k < tenTo (digitCount k) :=
  (Nat.length_toDigits_le_iff (by decide) Nat.length_toDigits_pos).mp le_rfl

theorem digitCount_le (hk : k < exactBound) : digitCount k ≤ 16 :=
  (Nat.length_toDigits_le_iff (by decide) (by decide)).mpr (hk.trans (by decide))

-- The last multiple of ten thousand before the bound is nearer to all integers behind it than the next.
theorem kept_lt (hk : k < exactBound) :
    divRound k (tenTo (digitCount k - 12)) * tenTo (digitCount k - 12) < exactBound := by
  have hd := lt_tenTo_digitCount (k := k)
  have hl := digitCount_le hk
  generalize digitCount k = p at hd hl ⊢
  obtain hp | ⟨j, rfl⟩ : p ≤ 12 ∨ ∃ j, p = 13 + j := by
    obtain hp | hp := Nat.lt_or_ge p 13
    · exact .inl (by omega)
    · exact .inr ⟨p - 13, by omega⟩
  case inl =>
    rw [Nat.sub_eq_zero_of_le hp, tenTo_zero, divRound_one, Nat.mul_one]
    exact hk
  case inr =>
    obtain ⟨q, hq, hb⟩ : ∃ q, 2 * k < (2 * q + 1) * tenTo (j + 1) ∧ q * tenTo (j + 1) < exactBound := by
      obtain rfl | hj : j = 3 ∨ j ≤ 2 := by omega
      case inl => exact ⟨900719925474, by norm_num [tenTo, exactBound] at hk ⊢; omega, by decide⟩
      case inr =>
        have ht : tenTo (13 + j) = 10 ^ 12 * tenTo (j + 1) := by rw [tenTo_eq, tenTo_eq]; ring
        have hm : tenTo (j + 1) ≤ 1000 := Nat.pow_le_pow_right (by decide) (by omega : j + 1 ≤ 3)
        refine ⟨10 ^ 12, by rw [ht] at hd; omega, ?_⟩
        norm_num [exactBound]
        omega
    have hj : 13 + j - 12 = j + 1 := by omega
    rw [hj]
    exact (Nat.mul_le_mul_right _ (divRound_le hq)).trans_lt hb

theorem value_rounded (count : ℕ) (hk : 0 < k) (h : m * twoTo e.toNat = k * twoTo (-e).toNat) :
    ((rounded count m e).coefficient : ℚ) * 10 ^ (rounded count m e).exponent =
      (divRound k (tenTo (digitCount k - count)) * tenTo (digitCount k - count) : ℕ) := by
  rw [rounded_of_nat hk h]
  dsimp only
  obtain hl | hl := le_total (digitCount k) count
  case inl =>
    obtain ⟨j, rfl⟩ := Nat.exists_eq_add_of_le hl
    have hj : ((digitCount k : ℤ) - (digitCount k + j : ℕ)) = -j := by omega
    rw [Nat.sub_eq_zero_of_le hl, Nat.add_sub_cancel_left, hj, tenTo_zero, divRound_one, divRound_one,
      tenTo_eq, zpow_neg, zpow_natCast]
    push_cast
    field_simp
  case inr =>
    obtain ⟨j, hj⟩ := Nat.exists_eq_add_of_le hl
    have hz : ((count + j : ℕ) : ℤ) - count = j := by omega
    rw [hj, hz, Nat.sub_eq_zero_of_le (by omega), Nat.add_sub_cancel_left, tenTo_zero, Nat.mul_one,
      zpow_natCast, tenTo_eq]
    push_cast
    rfl

theorem toRat?_rounded (hk : 0 < k) (hb : k < exactBound) (h : m * twoTo e.toNat = k * twoTo (-e).toNat) :
    toRat? (rounded 12 m e).toFloat =
      some ((divRound k (tenTo (digitCount k - 12)) * tenTo (digitCount k - 12) : ℕ) : ℚ) := by
  have hv := value_rounded 12 hk h
  have hl := digitCount_le hb
  rw [← hv]
  refine toRat?_ofDecimal (hv ▸ isFloat_natCast (kept_lt hb)) ?_
  rw [rounded_of_nat hk h]
  dsimp only
  omega

theorem toRat?_settle_of_unpack (hu : x.toModel.unpack = .finite s m e hm)
    (h : toRat? (rounded 12 m e).toFloat = some (k : ℚ)) :
    toRat? (settle x) = some ((s.apply k : ℤ) : ℚ) := by
  rw [settle, roundFloat, hu]
  cases s
  case positive => exact h
  case negative =>
    change toRat? (-(rounded 12 m e).toFloat) = _
    rw [toRat?_neg, h, Sign.apply, Int.cast_neg]
    rfl

-- Integers settle to the nearest ones of twelve significant digits.
theorem toRat?_settle (h : toRat? x = some (a : ℚ)) (ha : a.natAbs < exactBound) :
    ∃ r : ℤ, toRat? (settle x) = some (r : ℚ) ∧ Rounds (10 ^ (digitCount a.natAbs - 12)) a r ∧
      r.natAbs < exactBound := by
  obtain rfl | hz := eq_or_ne a 0
  case inl =>
    obtain ⟨s, hs⟩ := unpack_of_toRat?_zero (by simpa using h)
    refine ⟨0, by rw [settle, roundFloat, hs]; simpa using h, ?_, by decide⟩
    exact .mk (q := 0) (by decide) (by simp)
  case inr =>
    obtain ⟨s, m, e, hf, hu, hv⟩ := unpack_of_toRat? h (by exact_mod_cast hz)
    obtain ⟨k, rfl, hk⟩ := mantissa_of_int hv
    rw [natAbs_apply] at ha ⊢
    have hp : 0 < k := by
      have := Int.natAbs_pos.mpr hz
      rwa [natAbs_apply] at this
    have hd := rounds_divRound (n := k) (tenTo_pos (digitCount k - 12))
    rw [cast_tenTo] at hd
    refine ⟨_, toRat?_settle_of_unpack hu (toRat?_rounded hp ha hk), hd.apply, ?_⟩
    rw [natAbs_apply]
    exact kept_lt ha

end Storyworld.Decimal
