import Mathlib.Tactic.Linarith
import TradeReentry.Proofs.Binary64.Monotone

/-!
# How far results are from the exact ones

A rounded fraction is off by at most 2^-53 of it, unless it lies between the smallest numbers
(`dist_nearestUnits_le`). So are products and quotients of numbers without a minus sign
(`IsPlus.abs_mul_sub_le`, `IsPlus.abs_div_sub_le`), and a number rounded to an integer is off by at most a half
(`IsPlus.exists_round_eq`).
-/

namespace TradeReentry.Binary64

/-! ## Errors of magnitudes -/

/-- A quotient is rounded by at most a half. -/
theorem dist_roundQuotient_le (num : Nat) {den : Nat} (hden : 0 < den) :
    2 * Nat.dist (roundQuotient num den * den) num ≤ den := by
  -- the multiples below and above the number are not nearer
  obtain ⟨hbelow, -⟩ := roundQuotient_closest num hden (num / den)
  obtain ⟨habove, -⟩ := roundQuotient_closest num hden (num / den + 1)
  have hdiv := Nat.div_add_mod num den
  have hmod := Nat.mod_lt num hden
  rw [Nat.mul_comm] at hdiv
  rw [Nat.succ_mul] at habove
  simp only [Nat.dist] at hbelow habove ⊢
  omega

/-- The relative error of a rounded fraction. Below 2^52 units the steps stay one unit wide, so that only whole
units have one there. -/
theorem dist_nearestUnits_le {num den : Nat} (hden : 0 < den) (h : den ∣ num ∨ 2 ^ 52 ≤ num / den) :
    2 ^ 53 * Nat.dist (nearestUnits num den * den) num ≤ num := by
  rcases Nat.lt_or_ge (num / den) (2 ^ 52) with hsmall | hlarge
  · obtain ⟨units, rfl⟩ := h.resolve_right (Nat.not_le.2 hsmall)
    rw [Nat.mul_div_cancel_left _ hden] at hsmall
    have hspacing : spacing units ∣ units := by
      have hstep := spacing_dvd_mul_two_pow (n := units) (by omega) 0
      rwa [Nat.pow_zero, Nat.mul_one] at hstep
    rw [Nat.mul_comm den, nearestUnits_mul_self hden hspacing, Nat.dist_self]
    exact Nat.zero_le _
  · have hpos : 0 < num / den := Nat.lt_of_lt_of_le (Nat.two_pow_pos 52) hlarge
    have hlog : 52 ≤ (num / den).log2 := (Nat.le_log2 (Nat.ne_of_gt hpos)).2 hlarge
    have hhalf := dist_roundQuotient_le num (Nat.mul_pos hden (spacing_pos (num / den)))
    have hsteps : 2 ^ 52 * (den * spacing (num / den)) ≤ num := by
      have hpow : 2 ^ 52 * spacing (num / den) = 2 ^ (num / den).log2 := by
        rw [spacing, ← Nat.pow_add, Nat.add_sub_cancel' hlog]
      calc 2 ^ 52 * (den * spacing (num / den)) = den * (2 ^ 52 * spacing (num / den)) :=
            Nat.mul_left_comm ..
        _ ≤ den * (num / den) := by
            rw [hpow]
            exact Nat.mul_le_mul_left den (Nat.log2_self_le (Nat.ne_of_gt hpos))
        _ ≤ num := Nat.mul_div_le num den
    rw [nearestUnits, Nat.mul_assoc, Nat.mul_comm (spacing _) den]
    omega

/-! ## Errors of numbers -/

/-- The error of a fraction of units. -/
theorem abs_nearest_sub_le {num den : Nat} (hden : 0 < den) (hfinite : (nearest false num den).isFinite = true)
    (h : den ∣ num ∨ 2 ^ 52 ≤ num / den) :
    |(nearest false num den).toRat - num / (den * unitsInOne)| ≤ num / (den * unitsInOne) / 2 ^ 53 := by
  have hlt := (isFinite_nearest_iff hden).1 hfinite
  have hunits : (nearest false num den).units = nearestUnits num den :=
    units_ofUnits (representable_nearestUnits hden hlt)
  have hsign : (nearest false num den).isNegative = false := isNegative_ofUnits ..
  have hpos : (0 : ℚ) < den * unitsInOne :=
    mul_pos (Nat.cast_pos.2 hden) (Nat.cast_pos.2 unitsInOne_pos)
  have hdist : ((2 ^ 53 * Nat.dist (nearestUnits num den * den) num : Nat) : ℚ) ≤ num :=
    Nat.cast_le.2 (dist_nearestUnits_le hden h)
  have hexact := abs_toRat_sub (nearest false num den) false num hden
  rw [valueOf, if_neg Bool.false_ne_true, hsign, if_pos rfl, hunits] at hexact
  rw [hexact, div_right_comm, div_le_div_iff_of_pos_right hpos, le_div_iff₀' (by positivity)]
  exact_mod_cast hdist

namespace IsPlus

variable {x y : Binary64} (hx : x.IsPlus) (hxfinite : x.isFinite = true)

include hx

theorem toRat_eq : x.toRat = x.units / unitsInOne := by
  rw [toRat, hx.scaled_eq, Int.cast_natCast]

theorem toRat_nonneg : 0 ≤ x.toRat := by
  rw [hx.toRat_eq]
  exact div_nonneg (Nat.cast_nonneg _) (Nat.cast_nonneg _)

theorem toRat_of_units_eq {n : Nat} (h : x.units = n * unitsInOne) : x.toRat = n := by
  have hone : (unitsInOne : ℚ) ≠ 0 := Nat.cast_ne_zero.2 (Nat.ne_of_gt unitsInOne_pos)
  rw [hx.toRat_eq, h, Nat.cast_mul, mul_div_cancel_right₀ _ hone]

include hxfinite

/-- A number rounded to an integer is one, and off by at most a half. -/
theorem exists_round_eq : ∃ n : Nat, x.round.units = n * unitsInOne ∧ |(n : ℚ) - x.toRat| ≤ 1 / 2 := by
  refine ⟨(x.units + unitsInOne / 2) / unitsInOne, units_round hxfinite, ?_⟩
  have heven : 2 * (unitsInOne / 2) = unitsInOne := by decide +kernel
  have hpos := unitsInOne_pos
  have hone : (0 : ℚ) < unitsInOne := Nat.cast_pos.2 hpos
  rw [hx.toRat_eq]
  generalize unitsInOne = one at heven hpos hone
  have hdist : 2 * Nat.dist ((x.units + one / 2) / one * one) x.units ≤ one := by
    have hdiv := Nat.div_add_mod (x.units + one / 2) one
    have hmod := Nat.mod_lt (x.units + one / 2) hpos
    rw [Nat.mul_comm] at hdiv
    simp only [Nat.dist]
    omega
  generalize (x.units + one / 2) / one = n at hdist ⊢
  have hcast : (2 : ℚ) * |(n : ℚ) * one - x.units| ≤ one := by
    have hle : ((2 * Nat.dist (n * one) x.units : Nat) : ℚ) ≤ (one : Nat) := Nat.cast_le.2 hdist
    rw [Nat.cast_mul, cast_dist, Nat.cast_mul] at hle
    exact_mod_cast hle
  have hcommon : (n : ℚ) - x.units / one = (n * one - x.units) / one := by field_simp
  rw [hcommon, abs_div, abs_of_pos hone, div_le_iff₀ hone]
  linarith

variable (hy : y.IsPlus) (hyfinite : y.isFinite = true)

include hy hyfinite

/-- The error of a product. -/
theorem abs_mul_sub_le (hfinite : (x * y).isFinite = true)
    (h : unitsInOne ∣ x.units * y.units ∨ 2 ^ 52 ≤ x.units * y.units / unitsInOne) :
    |(x * y).toRat - x.toRat * y.toRat| ≤ x.toRat * y.toRat / 2 ^ 53 := by
  have hproduct : x * y = Binary64.nearest false (x.units * y.units) unitsInOne := by
    rw [mul_of_isFinite hxfinite hyfinite, hx.not_isNegative, hy.not_isNegative, bne_self_eq_false]
  have hvalue : x.toRat * y.toRat = (x.units * y.units : Nat) / (unitsInOne * unitsInOne) := by
    rw [hx.toRat_eq, hy.toRat_eq, div_mul_div_comm, Nat.cast_mul]
  rw [hproduct] at hfinite ⊢
  rw [hvalue]
  exact abs_nearest_sub_le unitsInOne_pos hfinite h

/-- The error of a quotient. -/
theorem abs_div_sub_le (hpos : 0 < y.units) (hfinite : (x / y).isFinite = true)
    (h : y.units ∣ x.units * unitsInOne ∨ 2 ^ 52 ≤ x.units * unitsInOne / y.units) :
    |(x / y).toRat - x.toRat / y.toRat| ≤ x.toRat / y.toRat / 2 ^ 53 := by
  have hquotient : x / y = Binary64.nearest false (x.units * unitsInOne) y.units := by
    rw [div_of_isFinite hxfinite hyfinite hpos, hx.not_isNegative, hy.not_isNegative, bne_self_eq_false]
  have hone : (unitsInOne : ℚ) ≠ 0 := Nat.cast_ne_zero.2 (Nat.ne_of_gt unitsInOne_pos)
  have hvalue : x.toRat / y.toRat = (x.units * unitsInOne : Nat) / (y.units * unitsInOne) := by
    rw [hx.toRat_eq, hy.toRat_eq, div_div_div_cancel_right₀ hone, Nat.cast_mul,
      mul_div_mul_right _ _ hone]
  rw [hquotient] at hfinite ⊢
  rw [hvalue]
  exact abs_nearest_sub_le hpos hfinite h

end IsPlus

end TradeReentry.Binary64
