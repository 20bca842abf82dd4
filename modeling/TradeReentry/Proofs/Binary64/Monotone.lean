import TradeReentry.Proofs.Binary64.Nearest

/-!
# Rounding and order

Rounding keeps the order of fractions (`nearestUnits_mono`), and so products and quotients with a positive number
and rounding to an integer keep the order of numbers without a minus sign, up to the infinity
(`IsPlus.mul_mono`, `IsPlus.div_mono`, `IsPlus.round_mono`).
-/

namespace TradeReentry.Binary64

/-! ## Magnitudes -/

section Magnitudes

variable {num num' den : Nat} (hden : 0 < den)

include hden

/-- A rounded magnitude is a multiple of the spacing at it, also beyond all finite ones. -/
theorem spacing_dvd_nearestUnits (num : Nat) : spacing (nearestUnits num den) ∣ nearestUnits num den := by
  rcases @spacing_nearestUnits num den hden with hsame | ⟨n, hn⟩
  · rw [hsame]
    exact Nat.dvd_mul_left _ _
  · rw [hn]
    exact spacing_dvd_two_pow n

/-- Rounding keeps the order of fractions. -/
theorem nearestUnits_mono (h : num ≤ num') : nearestUnits num den ≤ nearestUnits num' den := by
  have hdvd := spacing_dvd_nearestUnits hden num
  have hdvd' := spacing_dvd_nearestUnits hden num'
  rw [← Nat.not_lt]
  intro hlt
  have hmul := Nat.mul_lt_mul_of_pos_right hlt hden
  -- both fractions would lie between the two magnitudes, each nearer to the wrong one
  have hbelow : nearestUnits num' den * den < num := by
    rw [← Nat.not_le]
    exact fun hle => Nat.not_le.2 hlt (nearestUnits_le hden hdvd' hle)
  have habove : num' < nearestUnits num den * den := by
    rw [← Nat.not_le]
    exact fun hle => Nat.not_le.2 hlt (le_nearestUnits hden hdvd hle)
  obtain ⟨hnear, -⟩ := nearestUnits_closest hden num hdvd'
  obtain ⟨hnear', -⟩ := nearestUnits_closest hden num' hdvd
  simp only [Nat.dist] at hnear hnear'
  obtain rfl : num = num' := by omega
  exact Nat.lt_irrefl _ hlt

theorem two_pow_le_nearestUnits_iff (e : Nat) :
    2 ^ (54 + e) ≤ nearestUnits num den ↔ (2 ^ 54 - 1) * 2 ^ e * den ≤ num := by
  rw [← Nat.not_lt, nearestUnits_lt_two_pow_iff hden, Nat.not_lt]

end Magnitudes

/-- A fraction is rounded in the same way in every form. -/
theorem nearestUnits_mul_right (num den : Nat) {c : Nat} (hc : 0 < c) :
    nearestUnits (num * c) (den * c) = nearestUnits num den := by
  have hquotient : ∀ num den, roundQuotient (num * c) (den * c) = roundQuotient num den := by
    intro num den
    simp only [roundQuotient, Nat.mul_div_mul_right _ _ hc, Nat.mul_mod_mul_right, ← Nat.mul_assoc,
      Nat.mul_lt_mul_right hc]
  rw [nearestUnits, nearestUnits, Nat.mul_div_mul_right _ _ hc, Nat.mul_right_comm den c, hquotient]

theorem nearestUnits_zero (den : Nat) : nearestUnits 0 den = 0 := by simp [nearestUnits, roundQuotient]

theorem units_infinity (negative : Bool) : (infinity negative).units = unitsInInfinity := by
  cases negative <;> decide +kernel

/-- The magnitude of a rounded fraction, which is at most that of the infinity. -/
theorem units_nearest (negative : Bool) (num : Nat) {den : Nat} (hden : 0 < den) :
    (nearest negative num den).units = min (nearestUnits num den) unitsInInfinity := by
  rw [nearest]
  rcases Nat.lt_or_ge (nearestUnits num den) unitsInInfinity with hlt | hge
  · rw [units_ofUnits ⟨hlt, spacing_dvd_nearestUnits hden num⟩, Nat.min_eq_left (Nat.le_of_lt hlt)]
  · have hlarge : ¬nearestUnits num den < 2 ^ 52 := fun hlt =>
      Nat.not_lt.2 hge (Nat.lt_of_lt_of_le hlt (two_pow_le_infinity (by decide)))
    rw [ofUnits, if_neg hlarge, if_neg (Nat.not_lt.2 hge), units_infinity, Nat.min_eq_right hge]

/-! ## Numbers -/

theorem half_unitsInOne_lt : unitsInOne / 2 < unitsInOne := Nat.div_lt_self unitsInOne_pos (by decide)

/-- A magnitude of more than 52 bits above a power of two is a multiple of this power. -/
theorem lt_or_two_pow_dvd_units {x : Binary64} (h : x.isFinite = true) (m : Nat) :
    x.units < 2 ^ 52 * 2 ^ m ∨ 2 ^ m ∣ x.units := by
  rw [← Nat.pow_add]
  rcases Nat.lt_or_ge x.units (2 ^ (52 + m)) with hsmall | hlarge
  · exact .inl hsmall
  · have hpos : 0 < x.units := Nat.lt_of_lt_of_le (Nat.two_pow_pos _) hlarge
    have hlog := (Nat.le_log2 (Nat.ne_of_gt hpos)).2 hlarge
    exact .inr (Nat.dvd_trans (Nat.pow_dvd_pow 2 (by omega)) (representable_units h).2)

/-- The magnitude of a number rounded to an integer. -/
theorem units_round {x : Binary64} (h : x.isFinite = true) :
    x.round.units = (x.units + unitsInOne / 2) / unitsInOne * unitsInOne := by
  have hrepresentable : Representable ((x.units + unitsInOne / 2) / unitsInOne * unitsInOne) := by
    have hcases := lt_or_two_pow_dvd_units h 1074
    rw [← unitsInOne] at hcases
    rcases hcases with hsmall | ⟨n, hn⟩
    · apply representable_integer
      have hlt : x.units + unitsInOne / 2 < 2 ^ 52 * unitsInOne + unitsInOne :=
        Nat.add_lt_add hsmall half_unitsInOne_lt
      rw [← Nat.succ_mul] at hlt
      exact Nat.le_of_lt (Nat.lt_of_lt_of_le ((Nat.div_lt_iff_lt_mul unitsInOne_pos).2 hlt) (by decide))
    · have hinteger : (x.units + unitsInOne / 2) / unitsInOne * unitsInOne = x.units := by
        rw [hn, Nat.add_comm, Nat.add_mul_div_left _ _ unitsInOne_pos, Nat.div_eq_of_lt half_unitsInOne_lt,
          Nat.zero_add, Nat.mul_comm]
      rw [hinteger]
      exact representable_units h
  rw [round, if_pos h, units_ofUnits hrepresentable]

variable {x x' y : Binary64}

theorem units_of_fraction_eq_zero {e : Nat} (he : x.exponentField = e + 1) (h : x.fraction = 0) :
    x.units = 2 ^ (52 + e) := by
  rw [units, he, h, if_neg (Nat.succ_ne_zero e), Nat.add_zero, Nat.pow_add, Nat.add_sub_cancel]

namespace IsPlus

theorem units_of_not_isFinite (hx : x.IsPlus) (h : x.isFinite = false) : x.units = unitsInInfinity := by
  have hinfinite := isInfinite_of_not_isFinite hx.not_isNaN h
  simp only [isInfinite, Bool.and_eq_true, decide_eq_true_eq] at hinfinite
  have hpow : 2 ^ (52 + 2046) = unitsInInfinity := by decide +kernel
  rw [units_of_fraction_eq_zero (e := 2046) hinfinite.1 hinfinite.2, hpow]

theorem units_le (hx : x.IsPlus) : x.units ≤ unitsInInfinity := by
  cases h : x.isFinite with
  | true => exact Nat.le_of_lt (units_lt_iff.2 h)
  | false => exact Nat.le_of_eq (hx.units_of_not_isFinite h)

theorem scaled_eq (hx : x.IsPlus) : x.scaled = x.units := by
  rw [scaled, hx.not_isNegative, if_neg Bool.false_ne_true]

theorem le_iff (hx : x.IsPlus) (hy : y.IsPlus) : x ≤ y ↔ x.units ≤ y.units := by
  rw [show x ≤ y ↔ x.isNaN = false ∧ y.isNaN = false ∧ x.scaled ≤ y.scaled from Iff.rfl, hx.scaled_eq,
    hy.scaled_eq, Int.ofNat_le]
  exact ⟨fun h => h.2.2, fun h => ⟨hx.not_isNaN, hy.not_isNaN, h⟩⟩

theorem lt_iff (hx : x.IsPlus) (hy : y.IsPlus) : x < y ↔ x.units < y.units := by
  rw [show x < y ↔ x.isNaN = false ∧ y.isNaN = false ∧ x.scaled < y.scaled from Iff.rfl, hx.scaled_eq,
    hy.scaled_eq, Int.ofNat_lt]
  exact ⟨fun h => h.2.2, fun h => ⟨hx.not_isNaN, hy.not_isNaN, h⟩⟩

end IsPlus

theorem div_of_isFinite (hx : x.isFinite = true) (hy : y.isFinite = true) (hpos : 0 < y.units) :
    x / y = nearest (x.isNegative != y.isNegative) (x.units * unitsInOne) y.units := by
  show x.div y = _
  simp only [div, not_isNaN_of_isFinite hx, not_isNaN_of_isFinite hy, not_isInfinite_of_isFinite hx,
    not_isInfinite_of_isFinite hy, Nat.ne_of_gt hpos, Bool.false_eq_true, if_false]

theorem not_isFinite_div (hx : x.isFinite = false) (hy : y.isFinite = true) : (x / y).isFinite = false := by
  show (x.div y).isFinite = false
  cases hnan : x.isNaN with
  | true => simp only [div, hnan, if_true, hx]
  | false =>
    simp only [div, hnan, not_isNaN_of_isFinite hy, not_isInfinite_of_isFinite hy,
      isInfinite_of_not_isFinite hnan hx, if_true, Bool.false_eq_true, if_false, isFinite_infinity]

theorem units_mul (hx : x.isFinite = true) (hy : y.isFinite = true) :
    (x * y).units = min (nearestUnits (x.units * y.units) unitsInOne) unitsInInfinity := by
  rw [mul_of_isFinite hx hy, units_nearest _ _ unitsInOne_pos]

theorem units_div (hx : x.isFinite = true) (hy : y.isFinite = true) (hpos : 0 < y.units) :
    (x / y).units = min (nearestUnits (x.units * unitsInOne) y.units) unitsInInfinity := by
  rw [div_of_isFinite hx hy hpos, units_nearest _ _ hpos]

/-! ## Results that are exact -/

theorem one_spec : one.isFinite = true ∧ one.IsPlus ∧ one.units = unitsInOne :=
  ⟨by decide +kernel, ⟨by decide +kernel, by decide +kernel⟩, by decide +kernel⟩

section Exact

variable (hx : x.IsPlus) (hfinite : x.isFinite = true)

include hx hfinite

theorem nearest_of_eq {num den : Nat} (hden : 0 < den) (hnum : num = x.units * den) :
    nearest false num den = x := by
  rw [← hx.not_isNegative]
  exact nearest_units hfinite hden hnum

theorem mul_one_eq : x * one = x := by
  obtain ⟨hone, hplus, hunits⟩ := one_spec
  rw [mul_of_isFinite hfinite hone, hx.not_isNegative, hplus.not_isNegative, bne_self_eq_false, hunits]
  exact nearest_of_eq hx hfinite unitsInOne_pos rfl

theorem one_mul_eq : one * x = x := by
  obtain ⟨hone, hplus, hunits⟩ := one_spec
  rw [mul_of_isFinite hone hfinite, hx.not_isNegative, hplus.not_isNegative, bne_self_eq_false, hunits]
  exact nearest_of_eq hx hfinite unitsInOne_pos (Nat.mul_comm _ _)

end Exact

theorem div_self_eq (hfinite : x.isFinite = true) (hpos : 0 < x.units) : x / x = one := by
  obtain ⟨hone, hplus, hunits⟩ := one_spec
  rw [div_of_isFinite hfinite hfinite hpos, bne_self_eq_false]
  exact nearest_of_eq hplus hone hpos (by rw [hunits, Nat.mul_comm])

/-! ## The order of results -/

theorem isFinite_of_units_le (h : x.units ≤ x'.units) (hx' : x'.isFinite = true) : x.isFinite = true :=
  units_lt_iff.1 (Nat.lt_of_le_of_lt h (units_lt_iff.2 hx'))

namespace IsPlus

variable (hx : x.IsPlus) (hx' : x'.IsPlus) (h : x.units ≤ x'.units)

include hx hx' h

/-- Rounding to an integer keeps the order. -/
theorem round_mono : x.round.units ≤ x'.round.units := by
  cases hfinite : x'.isFinite with
  | true =>
    rw [units_round (isFinite_of_units_le h hfinite), units_round hfinite]
    exact Nat.mul_le_mul_right _ (Nat.div_le_div_right (Nat.add_le_add_right h _))
  | false =>
    rw [hx'.round.units_of_not_isFinite (by rw [isFinite_round, hfinite])]
    exact hx.round.units_le

variable (hy : y.IsPlus) (hyfinite : y.isFinite = true) (hpos : 0 < y.units)

include hy hyfinite hpos

/-- A product with a positive number keeps the order. -/
theorem mul_mono : (x * y).units ≤ (x' * y).units := by
  cases hfinite : x'.isFinite with
  | true =>
    rw [units_mul (isFinite_of_units_le h hfinite) hyfinite, units_mul hfinite hyfinite]
    have hmono := nearestUnits_mono unitsInOne_pos (Nat.mul_le_mul_right y.units h)
    exact Nat.le_min.2 ⟨Nat.le_trans (Nat.min_le_left _ _) hmono, Nat.min_le_right _ _⟩
  | false =>
    rw [(hx'.mul hy hyfinite hpos).units_of_not_isFinite (not_isFinite_mul hfinite y)]
    exact (hx.mul hy hyfinite hpos).units_le

/-- A quotient by a positive number keeps the order. -/
theorem div_mono : (x / y).units ≤ (x' / y).units := by
  cases hfinite : x'.isFinite with
  | true =>
    rw [units_div (isFinite_of_units_le h hfinite) hyfinite hpos, units_div hfinite hyfinite hpos]
    have hmono := nearestUnits_mono hpos (Nat.mul_le_mul_right unitsInOne h)
    exact Nat.le_min.2 ⟨Nat.le_trans (Nat.min_le_left _ _) hmono, Nat.min_le_right _ _⟩
  | false =>
    rw [(hx'.div hy hyfinite hpos).units_of_not_isFinite (not_isFinite_div hfinite hyfinite)]
    exact (hx.div hy hyfinite hpos).units_le

end IsPlus

end TradeReentry.Binary64
