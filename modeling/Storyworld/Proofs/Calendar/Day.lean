import Storyworld.Calendar.Basic
import Mathlib.Tactic.IntervalCases

/-!
Every number of a day stands for a date that there is, and is found again from it. Only a leap year, which
ends with the day that comes and goes, has a day of number 365.
-/

namespace Storyworld.Day

variable {year days : Int}

-- The last year of a span of four, unless it is the last of a century that is not the fourth one.
theorem isLeap_last {era century span : Int} (hs : 0 ≤ span) (h : span < 24 ∨ span = 24 ∧ century = 3) :
    isLeap (400 * era + 100 * century + 4 * span + 3 + 1) := by
  simp only [isLeap, Bool.and_eq_true, Bool.or_eq_true, beq_iff_eq, bne_iff_ne]
  omega

-- It stands for a day of the calendar, whatever the year.
def IsDate (d : Day) : Prop :=
  (1 ≤ d.month ∧ d.month ≤ 12) ∧ 1 ≤ d.day ∧ d.day ≤ monthLength d.year d.month

theorem IsDate.day_le {d : Day} (h : d.IsDate) : d.day ≤ 31 := by
  have hl : monthLength d.year d.month ≤ 31 := by
    unfold monthLength
    repeat' split
    all_goals decide
  exact h.2.2.trans hl

theorem isDate_ofYearAndDays (h₀ : 0 ≤ days) (h : days ≤ 365) (hl : days = 365 → isLeap (year + 1)) :
    (ofYearAndDays year days).IsDate := by
  unfold IsDate ofYearAndDays monthStart
  dsimp only
  obtain ⟨k, hk⟩ : ∃ k, (5 * days + 2) / 153 = k := ⟨_, rfl⟩
  have hk₀ : 0 ≤ k := by omega
  have hk₁ : k ≤ 11 := by omega
  rw [hk]
  cases hb : isLeap (year + 1)
  case false =>
    have hd : days ≠ 365 := by simpa [hb] using hl
    interval_cases k <;> simp [monthLength, hb] <;> omega
  case true => interval_cases k <;> simp [monthLength, hb] <;> omega

theorem isDate_ofNumber (n : Int) : (ofNumber n).IsDate := by
  unfold ofNumber
  dsimp only
  obtain ⟨d, hd⟩ : ∃ d, n % 146097 = d := ⟨_, rfl⟩
  obtain ⟨century, hc⟩ : ∃ century, min (d / 36524) 3 = century := ⟨_, rfl⟩
  obtain ⟨span, hs⟩ : ∃ span, (d - 36524 * century) / 1461 = span := ⟨_, rfl⟩
  obtain ⟨y, hy⟩ : ∃ y, min ((d - 36524 * century - 1461 * span) / 365) 3 = y := ⟨_, rfl⟩
  rw [hd, hc, hs, hy]
  refine isDate_ofYearAndDays ?_ ?_ fun h => ?_
  · omega
  · omega
  · obtain rfl : y = 3 := by omega
    exact isLeap_last (by omega) (by omega)

theorem toNumber_ofYearAndDays (h₀ : 0 ≤ days) (h : days ≤ 365) :
    (ofYearAndDays year days).toNumber = yearStart year + days := by
  unfold ofYearAndDays monthStart
  dsimp only
  obtain ⟨k, hk⟩ : ∃ k, (5 * days + 2) / 153 = k := ⟨_, rfl⟩
  rw [hk]
  split
  case isTrue hm =>
    have hn : ¬(k + 3).toNat ≤ 2 := by omega
    simp only [toNumber, monthStart, if_neg hn]
    omega
  case isFalse hm =>
    have hn : (k - 9).toNat ≤ 2 := by omega
    simp only [toNumber, monthStart, if_pos hn, Int.add_sub_cancel]
    omega

theorem yearStart_eq {era century span y : Int} (hc : 0 ≤ century ∧ century ≤ 3)
    (hs : 0 ≤ span ∧ span ≤ 24) (hy : 0 ≤ y ∧ y ≤ 3) :
    yearStart (400 * era + 100 * century + 4 * span + y) =
      146097 * era + 36524 * century + 1461 * span + 365 * y := by
  unfold yearStart
  have h₄ : (400 * era + 100 * century + 4 * span + y) / 4 = 100 * era + 25 * century + span := by omega
  have h₁ : (400 * era + 100 * century + 4 * span + y) / 100 = 4 * era + century := by omega
  have h₀ : (400 * era + 100 * century + 4 * span + y) / 400 = era := by omega
  rw [h₄, h₁, h₀]
  omega

-- Days are counted from the start of the year that they are in.
theorem toNumber_ofNumber (n : Int) : (ofNumber n).toNumber = n := by
  unfold ofNumber
  dsimp only
  obtain ⟨d, hd⟩ : ∃ d, n % 146097 = d := ⟨_, rfl⟩
  obtain ⟨century, hc⟩ : ∃ century, min (d / 36524) 3 = century := ⟨_, rfl⟩
  obtain ⟨span, hs⟩ : ∃ span, (d - 36524 * century) / 1461 = span := ⟨_, rfl⟩
  obtain ⟨y, hy⟩ : ∃ y, min ((d - 36524 * century - 1461 * span) / 365) 3 = y := ⟨_, rfl⟩
  rw [hd, hc, hs, hy, toNumber_ofYearAndDays (by omega) (by omega)]
  have hy₀ : 0 ≤ y ∧ y ≤ 3 := by omega
  have hs₀ : 0 ≤ span ∧ span ≤ 24 := by omega
  have hc₀ : 0 ≤ century ∧ century ≤ 3 := by omega
  rw [yearStart_eq hc₀ hs₀ hy₀]
  omega

end Storyworld.Day
