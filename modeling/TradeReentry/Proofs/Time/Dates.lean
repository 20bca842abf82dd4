import Mathlib.Order.Monotone.Basic
import TradeReentry.Time.Calendar

/-!
# Days of an era

The year of an era that `Date.yearOfEra` finds for a day is the one whose days it is among
(`Date.year_spec`), so that every date has a month of the year and a day of the month.
-/

namespace TradeReentry.Time.Date

theorem yearOfEra_le_succ {d : Nat} (h : d + 1 < daysPerEra) :
    yearOfEra d ≤ yearOfEra (d + 1) := by
  unfold yearOfEra
  apply Nat.div_le_div_right
  simp only [daysPerEra] at h
  omega

theorem yearOfEra_mono {d e : Nat} (hde : d ≤ e) (he : e < daysPerEra) :
    yearOfEra d ≤ yearOfEra e := by
  induction e, hde using Nat.le_induction with
  | base => exact Nat.le_refl _
  | succ e _ ih => exact Nat.le_trans (ih (by omega)) (yearOfEra_le_succ he)

theorem yearOfEra_first : ∀ y < 400, yearOfEra (daysBeforeYear y) = y := by decide +kernel

/-- The last year of an era has a leap day of its own. -/
theorem yearOfEra_last : ∀ y < 400,
    yearOfEra (if y = 399 then 146096 else daysBeforeYear (y + 1) - 1) = y := by decide +kernel

/-- The days of a year of an era. -/
theorem year_spec {d : Nat} (h : d < daysPerEra) :
    yearOfEra d < 400 ∧ daysBeforeYear (yearOfEra d) ≤ d ∧
      d ≤ daysBeforeYear (yearOfEra d) + 365 := by
  have hyear : yearOfEra d < 400 := by
    have := yearOfEra_mono (Nat.le_pred_of_lt h) (by decide)
    have hlast : yearOfEra (daysPerEra - 1) = 399 := yearOfEra_last 399 (by decide)
    simp only [Nat.pred_eq_sub_one] at this
    omega
  refine ⟨hyear, ?_, ?_⟩
  · by_contra hlt
    -- A day before the year would belong to the year before.
    obtain ⟨y, hy⟩ : ∃ y, yearOfEra d = y + 1 := by
      apply Nat.exists_eq_add_one_of_ne_zero
      intro hzero
      apply hlt
      rw [hzero]
      exact Nat.zero_le d
    have hbefore := yearOfEra_last y (by omega)
    rw [if_neg (by omega)] at hbefore
    have := yearOfEra_mono (d := d) (e := daysBeforeYear (y + 1) - 1) (by rw [hy] at hlt; omega)
      (by unfold daysBeforeYear; simp only [daysPerEra]; omega)
    omega
  · by_contra hlt
    have hafter := yearOfEra_first (yearOfEra d + 1)
    have hyear' : yearOfEra d ≠ 399 := by
      intro heq
      rw [heq] at hlt
      have : daysBeforeYear 399 + 365 = 146096 := by decide
      simp only [daysPerEra] at h
      omega
    have hle : daysBeforeYear (yearOfEra d + 1) ≤ d := by
      unfold daysBeforeYear at hlt ⊢
      omega
    have := yearOfEra_mono hle h
    rw [hafter (by omega)] at this
    omega

/-- A year counted from March has twelve months of at most 31 days. -/
theorem month_spec {d : Nat} (h : d ≤ 365) :
    monthFromMarch d ≤ 11 ∧ daysBeforeMonth (monthFromMarch d) ≤ d ∧
      d - daysBeforeMonth (monthFromMarch d) ≤ 30 := by
  simp only [daysBeforeMonth, monthFromMarch]
  omega

/-- The month and the day of every date are in range. -/
theorem ofDayIndex_range (index : Int) :
    1 ≤ (ofDayIndex index).month ∧ (ofDayIndex index).month ≤ 12 ∧
      1 ≤ (ofDayIndex index).day ∧ (ofDayIndex index).day ≤ 31 := by
  have hday : ((index + epochOffset) % (daysPerEra : Int)).toNat < daysPerEra := by
    have := Int.emod_lt_of_pos (index + epochOffset) (b := (daysPerEra : Int)) (by decide)
    have := Int.emod_nonneg (index + epochOffset) (b := (daysPerEra : Int)) (by decide)
    omega
  unfold ofDayIndex
  dsimp only
  generalize ((index + epochOffset) % (daysPerEra : Int)).toNat = dayOfEra at hday ⊢
  obtain ⟨-, -, hyear⟩ := year_spec hday
  obtain ⟨hmonth, -, hlast⟩ := month_spec (d := dayOfEra - daysBeforeYear (yearOfEra dayOfEra))
    (by omega)
  split <;> omega

end TradeReentry.Time.Date
