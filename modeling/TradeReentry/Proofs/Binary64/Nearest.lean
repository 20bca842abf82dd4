import Mathlib.Algebra.Order.Field.Basic
import Mathlib.Algebra.Order.Field.Rat
import Mathlib.Data.Nat.Dist
import Mathlib.Tactic.FieldSimp
import Mathlib.Tactic.Ring
import TradeReentry.Proofs.Binary64.Arithmetic

/-!
# The nearest number

No finite number lies nearer to a fraction than the one it is rounded to, and if another one lies as near
the rounded one has the even significand (`isNearest_nearest`). A finite number is what its own magnitude
is rounded to (`nearest_units`).
-/

namespace TradeReentry.Binary64

/-! ## The magnitudes of numbers -/

/-- The magnitude of a finite number has an encoding. -/
theorem representable_units {x : Binary64} (h : x.isFinite = true) : Representable x.units := by
  refine ⟨units_lt_iff.2 h, ?_⟩
  have hfraction := x.fraction_lt
  rw [units]
  split
  · have hstep := spacing_dvd_mul_two_pow (n := x.fraction) (by omega) 0
    rwa [Nat.pow_zero, Nat.mul_one] at hstep
  · exact spacing_dvd_mul_two_pow (by omega) _

/-- The lower bits of a magnitude are those of each finite number that has it. -/
theorem lowerBits_units {x : Binary64} (h : x.isFinite = true) :
    lowerBits x.units = x.exponentField * 2 ^ 52 + x.fraction := by
  have hlt := units_lt_iff.2 h
  have hfraction := x.fraction_lt
  by_cases hzero : x.exponentField = 0
  · have hunits : x.units = x.fraction := by rw [units, if_pos hzero]
    rw [lowerBits, hunits, if_pos hfraction, hzero, Nat.zero_mul, Nat.zero_add]
  · obtain ⟨e, he⟩ := Nat.exists_eq_succ_of_ne_zero hzero
    have hunits : x.units = (2 ^ 52 + x.fraction) * 2 ^ e := by
      rw [units, if_neg hzero, he, Nat.succ_sub_one]
    have hpos := Nat.two_pow_pos e
    have hlog : x.units.log2 = 52 + e := by
      have hlow : 2 ^ (52 + e) ≤ x.units := by
        rw [hunits, Nat.pow_add]
        exact Nat.mul_le_mul_right _ (Nat.le_add_right _ _)
      have hhigh : x.units < 2 ^ (52 + e + 1) := by
        rw [hunits, show 52 + e + 1 = 53 + e by omega, Nat.pow_add]
        exact Nat.mul_lt_mul_of_pos_right (by omega) hpos
      have hne : x.units ≠ 0 := by
        have := Nat.two_pow_pos (52 + e)
        omega
      have hge := (Nat.le_log2 hne).2 hlow
      have hle := (Nat.log2_lt hne).2 hhigh
      omega
    have hlarge : ¬x.units < 2 ^ 52 := by
      rw [hunits, Nat.not_lt]
      exact Nat.le_trans (Nat.le_add_right _ _) (Nat.le_mul_of_pos_right _ hpos)
    have hquotient : x.units / spacing x.units = 2 ^ 52 + x.fraction := by
      rw [spacing, hlog, Nat.add_sub_cancel_left, hunits, Nat.mul_div_cancel _ hpos]
    rw [lowerBits, if_neg hlarge, if_pos hlt, hquotient, hlog, he]
    omega

/-- A finite number is that of its sign and its magnitude. -/
theorem ofUnits_units {x : Binary64} (h : x.isFinite = true) : ofUnits x.isNegative x.units = x := by
  have hword : (ofUnits x.isNegative x.units).word = x.word := by
    rw [ofUnits_eq_ofFields, word_ofFields (lowerBits_lt _), lowerBits_units h, isNegative,
      exponentField, fraction]
    have hlt : x.word < 2 ^ 64 := x.bits.toNat_lt
    by_cases hsign : x.word / 2 ^ 63 = 1
    · rw [decide_eq_true hsign, if_pos rfl]
      omega
    · rw [decide_eq_false hsign, if_neg Bool.false_ne_true]
      omega
  have hbits : (ofUnits x.isNegative x.units).bits = x.bits := UInt64.toNat_inj.1 hword
  cases hx : ofUnits x.isNegative x.units
  rw [hx] at hbits
  cases x
  exact congrArg mk hbits

/-- A finite number is what its own magnitude is rounded to. -/
theorem nearest_units {x : Binary64} (h : x.isFinite = true) {num den : Nat} (hden : 0 < den)
    (hnum : num = x.units * den) : nearest x.isNegative num den = x := by
  rw [nearest, hnum, nearestUnits_mul_self hden (representable_units h).2, ofUnits_units h]

theorem nearest_zero (negative : Bool) (den : Nat) : nearest negative 0 den = ofUnits negative 0 := by
  simp [nearest, nearestUnits, roundQuotient]

/-! ## Distances of magnitudes -/

/-- No multiple of the divisor lies nearer to a number than the rounded quotient, and one that lies as near
is this one or the quotient is even. -/
theorem roundQuotient_closest (num : Nat) {den : Nat} (hden : 0 < den) (k : Nat) :
    Nat.dist (roundQuotient num den * den) num ≤ Nat.dist (k * den) num ∧
      (Nat.dist (roundQuotient num den * den) num = Nat.dist (k * den) num →
        k = roundQuotient num den ∨ roundQuotient num den % 2 = 0) := by
  have hdiv := Nat.div_add_mod num den
  have hmod := Nat.mod_lt num hden
  rw [Nat.mul_comm] at hdiv
  have hsucc : (num / den + 1) * den = num / den * den + den := Nat.succ_mul _ _
  -- The multiples around the number bound all the others.
  have hmultiples : k < num / den ∧ k * den + den ≤ num / den * den ∨
      k = num / den ∧ k * den = num / den * den ∨
      k = num / den + 1 ∧ k * den = num / den * den + den ∨
      num / den + 1 < k ∧ num / den * den + den + den ≤ k * den := by
    rcases Nat.lt_trichotomy k (num / den) with hlt | heq | hgt
    · refine .inl ⟨hlt, ?_⟩
      rw [← Nat.succ_mul]
      exact Nat.mul_le_mul_right den hlt
    · exact .inr (.inl ⟨heq, by rw [heq]⟩)
    · rcases Nat.lt_or_eq_of_le (Nat.succ_le_of_lt hgt) with hgt | heq
      · refine .inr (.inr (.inr ⟨hgt, ?_⟩))
        rw [← hsucc, ← Nat.succ_mul]
        exact Nat.mul_le_mul_right den hgt
      · exact .inr (.inr (.inl ⟨heq.symm, by rw [← heq, hsucc]⟩))
  simp only [roundQuotient, Nat.dist]
  split
  · omega
  · split
    · rw [hsucc]
      omega
    · rcases Nat.mod_two_eq_zero_or_one (num / den) with heven | hodd
      · rw [heven, Nat.add_zero]
        omega
      · rw [hodd, hsucc]
        omega

section Magnitudes

variable {num den : Nat} (hden : 0 < den)

include hden

/-- A rounded magnitude lies on the steps at the exact one, or it is the power of two behind them. -/
theorem spacing_nearestUnits :
    spacing (nearestUnits num den) = spacing (num / den) ∨ ∃ n, nearestUnits num den = 2 ^ n := by
  by_cases hzero : num / den = 0
  · have hnum : num ≤ 1 * den := by
      rw [Nat.one_mul]
      exact Nat.le_of_lt ((Nat.div_eq_zero_iff_lt hden).1 hzero)
    have hspacing : spacing 1 ∣ 1 := spacing_dvd_two_pow 0
    have hle := nearestUnits_le hden hspacing hnum
    left
    rw [hzero]
    generalize nearestUnits num den = units at hle
    obtain rfl | rfl : units = 0 ∨ units = 1 := by omega
    · rfl
    · rfl
  · have hlow := le_nearestUnits hden (spacing_dvd_two_pow (num / den).log2)
      ((Nat.le_div_iff_mul_le hden).1 (Nat.log2_self_le hzero))
    have hhigh := nearestUnits_le hden (spacing_dvd_two_pow ((num / den).log2 + 1))
      (Nat.le_of_lt ((Nat.div_lt_iff_lt_mul hden).1 Nat.lt_log2_self))
    rcases Nat.lt_or_eq_of_le hhigh with hlt | heq
    · left
      have hne : nearestUnits num den ≠ 0 := by
        have := Nat.two_pow_pos (num / den).log2
        omega
      have hge := (Nat.le_log2 hne).2 hlow
      have hle := (Nat.log2_lt hne).2 hlt
      rw [spacing, spacing, show (nearestUnits num den).log2 = (num / den).log2 by omega]
    · exact .inr ⟨_, heq⟩

/-- A magnitude that a fraction is rounded to has an encoding unless it is too large. -/
theorem representable_nearestUnits (h : num < overflowUnits * den) :
    Representable (nearestUnits num den) := by
  refine ⟨(nearestUnits_lt_infinity_iff hden).2 h, ?_⟩
  rcases spacing_nearestUnits hden with hsame | ⟨n, hn⟩
  · rw [hsame]
    exact Nat.dvd_mul_left _ _
  · rw [hn]
    exact spacing_dvd_two_pow n

/-- No magnitude that has an encoding lies nearer to a fraction than the rounded one, and one that lies as
near is this one or the rounded one is an even count of steps. -/
theorem nearestUnits_closest (num : Nat) {units : Nat} (hunits : spacing units ∣ units) :
    Nat.dist (nearestUnits num den * den) num ≤ Nat.dist (units * den) num ∧
      (Nat.dist (nearestUnits num den * den) num = Nat.dist (units * den) num →
        units = nearestUnits num den ∨ roundQuotient num (den * spacing (num / den)) % 2 = 0) := by
  have hstep := spacing_pos (num / den)
  have hgrid : ∀ k, Nat.dist (nearestUnits num den * den) num ≤
      Nat.dist (k * spacing (num / den) * den) num ∧
      (Nat.dist (nearestUnits num den * den) num = Nat.dist (k * spacing (num / den) * den) num →
        k * spacing (num / den) = nearestUnits num den ∨
          roundQuotient num (den * spacing (num / den)) % 2 = 0) := by
    intro k
    have hclosest := roundQuotient_closest num (Nat.mul_pos hden hstep) k
    have hmul : ∀ k, k * (den * spacing (num / den)) = k * spacing (num / den) * den := fun k => by
      rw [Nat.mul_comm den, Nat.mul_assoc]
    rw [hmul, hmul] at hclosest
    exact ⟨hclosest.1, fun heq => (hclosest.2 heq).imp_left fun hk => by rw [hk, nearestUnits]⟩
  rcases Nat.lt_or_ge units.log2 (num / den).log2 with hlt | hge
  · -- The power of two between the magnitude and the fraction lies on the steps and is nearer.
    have hne : num / den ≠ 0 := by
      intro hzero
      simp [hzero] at hlt
    obtain ⟨k, hk⟩ := spacing_dvd_two_pow_log2 (num / den)
    have hpower : units < 2 ^ (num / den).log2 :=
      Nat.lt_of_lt_of_le Nat.lt_log2_self (Nat.pow_le_pow_right (by decide) hlt)
    have hnum := (Nat.le_div_iff_mul_le hden).1 (Nat.log2_self_le hne)
    have hmul := Nat.mul_lt_mul_of_pos_right hpower hden
    have hnear := (hgrid k).1
    rw [Nat.mul_comm k, ← hk] at hnear
    have hfar : Nat.dist (2 ^ (num / den).log2 * den) num < Nat.dist (units * den) num := by
      simp only [Nat.dist]
      omega
    exact ⟨Nat.le_of_lt (Nat.lt_of_le_of_lt hnear hfar),
      fun heq => absurd heq (Nat.ne_of_lt (Nat.lt_of_le_of_lt hnear hfar))⟩
  · have hdvd : spacing (num / den) ∣ units :=
      Nat.dvd_trans (Nat.pow_dvd_pow 2 (Nat.sub_le_sub_right hge 52)) hunits
    obtain ⟨k, rfl⟩ := hdvd
    have hk := hgrid k
    rwa [Nat.mul_comm k] at hk

/-- An even count of steps has an even significand. -/
theorem fraction_nearest (negative : Bool) (h : num < overflowUnits * den)
    (heven : roundQuotient num (den * spacing (num / den)) % 2 = 0) :
    (nearest negative num den).fraction % 2 = 0 := by
  have hlt := (nearestUnits_lt_infinity_iff hden).2 h
  rw [nearest, ofUnits_eq_ofFields, fraction_ofFields (lowerBits_lt _)]
  have hparity : roundQuotient num (den * spacing (num / den)) * spacing (num / den) % 2 = 0 := by
    rw [Nat.mul_mod, heven, Nat.zero_mul]
  by_cases hlarge : nearestUnits num den < 2 ^ 52
  · rw [lowerBits, if_pos hlarge, nearestUnits]
    omega
  · rw [lowerBits, if_neg hlarge, if_pos hlt]
    have hquotient : nearestUnits num den / spacing (nearestUnits num den) % 2 = 0 := by
      rcases spacing_nearestUnits hden with hsame | ⟨n, hn⟩
      · rw [hsame, nearestUnits, Nat.mul_div_cancel _ (spacing_pos _)]
        exact heven
      · have hlog : 52 ≤ n := by
          rw [hn, Nat.not_lt] at hlarge
          exact (Nat.pow_le_pow_iff_right (by decide)).1 hlarge
        rw [hn, spacing, Nat.log2_two_pow, Nat.pow_div (Nat.sub_le _ _) (by decide),
          show n - (n - 52) = 52 by omega]
    omega

end Magnitudes

/-! ## Distances of numbers -/

/-- The value of a finite number. -/
def toRat (x : Binary64) : ℚ := x.scaled / unitsInOne

/-- Whether a number is the finite one nearest to a value, the even one of two. -/
structure IsNearest (x : Binary64) (value : ℚ) : Prop where
  finite : x.isFinite = true
  closest : ∀ y : Binary64, y.isFinite = true → |x.toRat - value| ≤ |y.toRat - value|
  even : ∀ y : Binary64, y.isFinite = true → |x.toRat - value| = |y.toRat - value| →
    y.toRat = x.toRat ∨ x.fraction % 2 = 0

/-- The value of a fraction of units with a sign. -/
def valueOf (negative : Bool) (num den : Nat) : ℚ :=
  (if negative then -(num : ℚ) else num) / (den * unitsInOne)

/-- The value of a fraction of ones. -/
theorem valueOf_mul_unitsInOne (negative : Bool) (n den : Nat) :
    valueOf negative (n * unitsInOne) den = (if negative then -1 else 1) * ((n : ℚ) / den) := by
  have hone : (unitsInOne : ℚ) ≠ 0 := Nat.cast_ne_zero.2 (Nat.ne_of_gt unitsInOne_pos)
  rw [valueOf, Nat.cast_mul]
  generalize (unitsInOne : ℚ) = one at hone
  cases negative with
  | true => simp [neg_div, mul_div_mul_right _ _ hone]
  | false => simp [mul_div_mul_right _ _ hone]

theorem cast_dist (m n : Nat) : (Nat.dist m n : ℚ) = |(m : ℚ) - n| := by
  rcases Nat.le_total m n with h | h
  · rw [Nat.dist_eq_sub_of_le h, Nat.cast_sub h, abs_sub_comm,
      abs_of_nonneg (sub_nonneg.2 (Nat.cast_le.2 h))]
  · rw [Nat.dist_eq_sub_of_le_right h, Nat.cast_sub h,
      abs_of_nonneg (sub_nonneg.2 (Nat.cast_le.2 h))]

/-- The distance of a number from a fraction of units, in fractions of units. -/
theorem abs_toRat_sub (y : Binary64) (negative : Bool) (num : Nat) {den : Nat} (hden : 0 < den) :
    |y.toRat - valueOf negative num den| =
      ((if y.isNegative = negative then Nat.dist (y.units * den) num else y.units * den + num : Nat) :
        ℚ) / (den * unitsInOne) := by
  have hone : (0 : ℚ) < unitsInOne := Nat.cast_pos.2 unitsInOne_pos
  have hden : (0 : ℚ) < den := Nat.cast_pos.2 hden
  rw [toRat, valueOf, scaled]
  generalize (unitsInOne : ℚ) = one at hone
  have hcommon : ∀ value : ℚ, value / one = value * den / (den * one) := fun value => by
    field_simp
  rw [hcommon, ← sub_div, abs_div, abs_of_pos (mul_pos hden hone)]
  congr 1
  have hsum : (0 : ℚ) ≤ y.units * den + num :=
    add_nonneg (mul_nonneg (Nat.cast_nonneg _) hden.le) (Nat.cast_nonneg _)
  cases y.isNegative with
  | false =>
    cases negative with
    | false => simp [cast_dist]
    | true => simp [abs_of_nonneg hsum]
  | true =>
    cases negative with
    | false =>
      have hneg : -(y.units : ℚ) * den - num = -(y.units * den + num) := by ring
      have habs : |-(y.units : ℚ) * den - num| = y.units * den + num := by
        rw [hneg, abs_neg, abs_of_nonneg hsum]
      simpa using habs
    | true =>
      have hneg : -(y.units : ℚ) * den - -num = -(y.units * den - num) := by ring
      have habs : |-(y.units : ℚ) * den - -num| = |y.units * den - (num : ℚ)| := by
        rw [hneg, abs_neg]
      simpa [cast_dist] using habs

theorem toRat_of_units_eq_zero {x : Binary64} (h : x.units = 0) : x.toRat = 0 := by
  rw [toRat, scaled, h, Nat.cast_zero, neg_zero, ite_self, Int.cast_zero, zero_div]

/-- No finite number is nearer to a fraction of units than the one that it is rounded to. -/
theorem isNearest_nearest (negative : Bool) {num den : Nat} (hden : 0 < den)
    (h : num < overflowUnits * den) :
    IsNearest (nearest negative num den) (valueOf negative num den) := by
  have hunits : (nearest negative num den).units = nearestUnits num den :=
    units_ofUnits (representable_nearestUnits hden h)
  have hsign : (nearest negative num den).isNegative = negative := isNegative_ofUnits ..
  have hpos : (0 : ℚ) < den * unitsInOne :=
    mul_pos (Nat.cast_pos.2 hden) (Nat.cast_pos.2 unitsInOne_pos)
  have hdistance : ∀ y : Binary64, y.isFinite = true →
      Nat.dist (nearestUnits num den * den) num ≤
        (if y.isNegative = negative then Nat.dist (y.units * den) num else y.units * den + num) := by
    intro y hy
    have hclosest := (nearestUnits_closest hden num (representable_units hy).2).1
    split
    · exact hclosest
    · refine Nat.le_trans hclosest ?_
      rw [Nat.dist]
      omega
  refine ⟨(isFinite_nearest_iff hden).2 h, ?_, ?_⟩
  · intro y hy
    rw [abs_toRat_sub _ _ _ hden, abs_toRat_sub _ _ _ hden, hsign, if_pos rfl, hunits,
      div_le_div_iff_of_pos_right hpos, Nat.cast_le]
    exact hdistance y hy
  · intro y hy heq
    rw [abs_toRat_sub _ _ _ hden, abs_toRat_sub _ _ _ hden, hsign, if_pos rfl, hunits,
      div_left_inj' hpos.ne', Nat.cast_inj] at heq
    have hclosest := nearestUnits_closest hden num (representable_units hy).2
    have heven := fraction_nearest hden negative h
    by_cases hsame : y.isNegative = negative
    · rw [if_pos hsame] at heq
      refine (hclosest.2 heq).imp (fun hy => ?_) heven
      rw [toRat, toRat, scaled, scaled, hsign, hunits, hsame, hy]
    · -- A number of the other sign is as near only if both are zero.
      rw [if_neg hsame] at heq
      have hfar : Nat.dist (nearestUnits num den * den) num = Nat.dist (y.units * den) num := by
        refine Nat.le_antisymm hclosest.1 ?_
        rw [heq, Nat.dist]
        omega
      refine (hclosest.2 hfar).imp (fun hy => ?_) heven
      have hzero : nearestUnits num den = 0 := by
        have hnum : num = 0 ∨ nearestUnits num den * den = 0 := by
          rw [hy, Nat.dist] at heq
          omega
        rcases hnum with hnum | hmul
        · have hspacing : spacing 0 ∣ 0 := Nat.dvd_zero _
          have hle := nearestUnits_le hden hspacing (by omega : num ≤ 0 * den)
          omega
        · exact (Nat.mul_eq_zero.1 hmul).resolve_right (Nat.ne_of_gt hden)
      rw [toRat_of_units_eq_zero (hy.trans hzero), toRat_of_units_eq_zero (hunits.trans hzero)]

end TradeReentry.Binary64
