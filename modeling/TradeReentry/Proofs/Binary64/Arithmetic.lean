import TradeReentry.Proofs.Binary64.Rounding

/-!
# When results are finite

Products are finite up to the overflow (`isFinite_mul_iff`), rounding to an integer keeps what is finite
(`isFinite_round`), and so does a division by a number of at least one (`isFinite_div`). Numbers without a
minus sign stay so (`IsPlus`). The integers up to 2^53 are numbers (`toInt?_ofInt`).
-/

namespace TradeReentry.Binary64

variable {x y : Binary64}

/-! ## Finite results -/

theorem unitsInOne_pos : 0 < unitsInOne := Nat.pos_of_ne_zero (by simp)

theorem maxUnits_lt_overflowUnits : maxUnits < overflowUnits := by decide +kernel

theorem overflowUnits_lt : overflowUnits < unitsInInfinity := by decide +kernel

/-- The integer that the largest finite number is. -/
abbrev maxInteger : Nat := (2 ^ 53 - 1) * 2 ^ 971

theorem maxUnits_eq : maxUnits = maxInteger * unitsInOne := by decide +kernel

theorem mul_of_isFinite (hx : x.isFinite = true) (hy : y.isFinite = true) :
    x * y = nearest (x.isNegative != y.isNegative) (x.units * y.units) unitsInOne := by
  show x.mul y = _
  simp only [mul, not_isNaN_of_isFinite hx, not_isNaN_of_isFinite hy, not_isInfinite_of_isFinite hx,
    not_isInfinite_of_isFinite hy, Bool.or_self, Bool.false_eq_true, if_false]

theorem isFinite_mul_iff (hx : x.isFinite = true) (hy : y.isFinite = true) :
    (x * y).isFinite = true ↔ x.units * y.units < overflowUnits * unitsInOne := by
  rw [mul_of_isFinite hx hy, isFinite_nearest_iff unitsInOne_pos]

theorem not_isFinite_mul (hx : x.isFinite = false) (y : Binary64) : (x * y).isFinite = false := by
  show (x.mul y).isFinite = false
  have hnan : (nan true).isFinite = false := by decide
  rw [mul]
  by_cases hxnan : x.isNaN = true
  · simp [hxnan, hx]
  · have hxnan : x.isNaN = false := by simpa using hxnan
    by_cases hynan : y.isNaN = true
    · simp [hxnan, hynan, not_isFinite_of_isNaN hynan]
    · simp only [hxnan, hynan, isInfinite_of_not_isFinite hxnan hx, Bool.true_or, if_true, if_false,
        Bool.false_eq_true]
      split
      · exact hnan
      · exact isFinite_infinity _

@[simp] theorem isFinite_round (x : Binary64) : x.round.isFinite = x.isFinite := by
  rw [round]
  split
  next h =>
    rw [h, isFinite_ofUnits]
    -- A whole number that a magnitude does not exceed bounds it after rounding, too.
    have hle := units_le_maxUnits h
    rw [maxUnits_eq] at hle
    have hdiv : (x.units + unitsInOne / 2) / unitsInOne ≤ maxInteger := by
      have hhalf : unitsInOne / 2 < unitsInOne := Nat.div_lt_self unitsInOne_pos (by decide)
      apply Nat.le_of_lt_succ
      apply (Nat.div_lt_iff_lt_mul unitsInOne_pos).2
      rw [Nat.succ_mul]
      exact Nat.add_lt_add_of_le_of_lt hle hhalf
    have hmul := Nat.mul_le_mul_right unitsInOne hdiv
    rw [← maxUnits_eq] at hmul
    exact Nat.lt_of_le_of_lt hmul maxUnits_lt
  · rfl

/-- A division by a number of at least one cannot overflow. -/
theorem isFinite_div (hy : y.isFinite = true) (hone : unitsInOne ≤ y.units) :
    (x / y).isFinite = x.isFinite := by
  have hpos : 0 < y.units := Nat.lt_of_lt_of_le unitsInOne_pos hone
  have hnan := not_isNaN_of_isFinite hy
  have hinf := not_isInfinite_of_isFinite hy
  show (x.div y).isFinite = x.isFinite
  rw [div]
  cases hx : x.isFinite with
  | true =>
    have hlt : x.units * unitsInOne < overflowUnits * y.units := by
      have hle := Nat.mul_le_mul (units_le_maxUnits hx) hone
      exact Nat.lt_of_le_of_lt hle (Nat.mul_lt_mul_of_pos_right maxUnits_lt_overflowUnits hpos)
    simp only [not_isNaN_of_isFinite hx, not_isInfinite_of_isFinite hx, hnan, hinf, if_false,
      Nat.ne_of_gt hpos, Bool.false_eq_true]
    exact (isFinite_nearest_iff hpos).2 hlt
  | false =>
    by_cases hxnan : x.isNaN = true
    · simp [hxnan, hx]
    · have hxnan : x.isNaN = false := by simpa using hxnan
      simp [hxnan, hnan, hinf, isInfinite_of_not_isFinite hxnan hx]

/-! ## Numbers without a minus sign -/

/-- Whether a number, which may be infinite, has no minus sign. -/
structure IsPlus (x : Binary64) : Prop where
  not_isNaN : x.isNaN = false
  not_isNegative : x.isNegative = false

theorem zero_lt_iff : zero < x ↔ x.IsPlus ∧ 0 < x.units := by
  have hzero : zero.isNaN = false ∧ zero.scaled = 0 := by decide
  rw [show zero < x ↔ zero.isNaN = false ∧ x.isNaN = false ∧ zero.scaled < x.scaled from Iff.rfl,
    hzero.1, hzero.2, scaled]
  constructor
  · rintro ⟨-, hnan, hlt⟩
    cases hsign : x.isNegative with
    | true =>
      rw [hsign] at hlt
      simp only [if_true] at hlt
      omega
    | false =>
      rw [hsign] at hlt
      exact ⟨⟨hnan, hsign⟩, by simpa using hlt⟩
  · rintro ⟨⟨hnan, hsign⟩, hpos⟩
    rw [hsign]
    exact ⟨rfl, hnan, by simpa using hpos⟩

/-- A number that is not at most zero is above it, unless it is a NaN. -/
theorem zero_lt_of_not_le (hnan : x.isNaN = false) (h : ¬x ≤ zero) : zero < x := by
  have hzero : zero.isNaN = false := by decide
  refine ⟨hzero, hnan, Int.not_le.1 fun hle => h ⟨hnan, hzero, hle⟩⟩

namespace IsPlus

theorem nearest (num den : Nat) : (nearest false num den).IsPlus :=
  ⟨isNaN_ofUnits .., isNegative_ofUnits ..⟩

theorem infinity : (infinity false).IsPlus := ⟨isNaN_infinity _, isNegative_infinity _⟩

theorem mul (hx : x.IsPlus) (hy : y.IsPlus) (hfinite : y.isFinite = true) (hpos : 0 < y.units) :
    (x * y).IsPlus := by
  show (x.mul y).IsPlus
  rw [Binary64.mul]
  simp only [hx.not_isNaN, hy.not_isNaN, hx.not_isNegative, hy.not_isNegative,
    not_isInfinite_of_isFinite hfinite, Nat.ne_of_gt hpos, Bool.false_eq_true, if_false,
    bne_self_eq_false, Bool.or_false, decide_false]
  split
  next hinf =>
    have hunits : x.units ≠ 0 := by
      intro hzero
      have hfinite' : x.isFinite = true :=
        units_lt_iff.1 (hzero ▸ unitsInInfinity_pos)
      rw [not_isInfinite_of_isFinite hfinite'] at hinf
      exact absurd hinf (by decide)
    rw [if_neg (by simpa using hunits)]
    exact .infinity
  · exact .nearest ..

theorem div (hx : x.IsPlus) (hy : y.IsPlus) (hfinite : y.isFinite = true) (hpos : 0 < y.units) :
    (x / y).IsPlus := by
  show (x.div y).IsPlus
  rw [Binary64.div]
  simp only [hx.not_isNaN, hy.not_isNaN, hx.not_isNegative, hy.not_isNegative,
    not_isInfinite_of_isFinite hfinite, Nat.ne_of_gt hpos, Bool.false_eq_true, if_false,
    bne_self_eq_false]
  split
  · exact .infinity
  · exact .nearest ..

theorem round (hx : x.IsPlus) : x.round.IsPlus := by
  rw [Binary64.round]
  split
  · rw [hx.not_isNegative]
    exact ⟨isNaN_ofUnits .., isNegative_ofUnits ..⟩
  · exact hx

end IsPlus

/-! ## Integers -/

/-- A number of at most 53 bits times a power of two is a multiple of the spacing at it. -/
theorem spacing_dvd_mul_two_pow {n : Nat} (h : n ≤ 2 ^ 53) (m : Nat) : spacing (n * 2 ^ m) ∣ n * 2 ^ m := by
  have hpow : 2 ^ (53 + m) = 2 ^ 53 * 2 ^ m := Nat.pow_add ..
  rcases Nat.lt_or_eq_of_le h with hlt | rfl
  · rcases Nat.eq_zero_or_pos n with rfl | hn
    · simp
    have hne : n * 2 ^ m ≠ 0 := Nat.mul_ne_zero (Nat.ne_of_gt hn) (Nat.ne_of_gt (Nat.two_pow_pos m))
    have hunits : n * 2 ^ m < 2 ^ (53 + m) := hpow ▸ Nat.mul_lt_mul_of_pos_right hlt (Nat.two_pow_pos m)
    have hlog := (Nat.log2_lt hne).2 hunits
    exact Nat.dvd_mul_left_of_dvd (Nat.pow_dvd_pow 2 (by omega)) n
  · rw [← hpow]
    exact spacing_dvd_two_pow (53 + m)

/-- The magnitudes of the integers up to 2^53 have encodings. -/
theorem representable_integer {n : Nat} (h : n ≤ 2 ^ 53) : Representable (n * unitsInOne) := by
  have hstep := spacing_dvd_mul_two_pow h 1074
  constructor
  · calc n * unitsInOne ≤ 2 ^ 53 * unitsInOne := Nat.mul_le_mul_right _ h
      _ < unitsInInfinity := by decide +kernel
  · rwa [unitsInOne]

theorem units_ofInt {i : Int} (h : i.natAbs ≤ 2 ^ 53) : (ofInt i).units = i.natAbs * unitsInOne := by
  have hrep := representable_integer h
  have hexact := nearestUnits_mul_self Nat.one_pos hrep.2
  rw [Nat.mul_one] at hexact
  rw [ofInt, nearest, hexact, units_ofUnits hrep]

/-- Up to a magnitude of 2^53 the number nearest to an integer is this integer. -/
theorem toInt?_ofInt {i : Int} (h : i.natAbs ≤ 2 ^ 53) : (ofInt i).toInt? = some i := by
  have hunits := units_ofInt h
  have hfinite : (ofInt i).isFinite = true := by
    rw [← units_lt_iff, hunits]
    exact (representable_integer h).1
  have hsign : (ofInt i).isNegative = decide (i < 0) := isNegative_ofUnits _ _
  have hone : (unitsInOne : Int) ≠ 0 := Int.natCast_ne_zero.2 (Nat.ne_of_gt unitsInOne_pos)
  have hscaled : (ofInt i).scaled = i * unitsInOne := by
    rw [scaled, hunits, hsign]
    by_cases hi : i < 0
    · rw [decide_eq_true hi, if_pos rfl, Int.natCast_mul, ← Int.neg_mul]
      congr 1
      omega
    · rw [decide_eq_false hi, if_neg Bool.false_ne_true, Int.natCast_mul]
      congr 1
      omega
  rw [toInt?, hfinite, hunits, hscaled, Nat.mul_mod_left, Int.mul_ediv_cancel _ hone]
  rfl

end TradeReentry.Binary64
