import TradeReentry.Proofs.Binary64.Encoding

/-!
# Rounding

Rounding to the nearest magnitude never passes a magnitude that has an encoding (`nearestUnits_le`,
`le_nearestUnits`), and it leaves the finite ones exactly from the middle between the largest of them and
the infinity on (`nearestUnits_lt_infinity_iff`).
-/

namespace TradeReentry.Binary64

/-! ## Rounding quotients -/

section Quotient

variable {num den k : Nat} (hden : 0 < den)

include hden

/-- Rounding a quotient goes at most up to a whole number that it does not exceed. -/
theorem roundQuotient_le (h : num ≤ k * den) : roundQuotient num den ≤ k := by
  have hdiv := Nat.div_add_mod num den
  have hmod := Nat.mod_lt num hden
  have hle : num / den ≤ k := Nat.div_le_of_le_mul (Nat.mul_comm den k ▸ h)
  have hlt : num / den < k ∨ num / den = k := Nat.lt_or_eq_of_le hle
  simp only [roundQuotient]
  rcases hlt with hlt | heq
  · split
    · omega
    · split <;> omega
  · have hzero : num % den = 0 := by
      rw [heq, Nat.mul_comm] at hdiv
      omega
    simp [hzero, hden, heq]

/-- Rounding a quotient goes at most down to a whole number that it reaches. -/
theorem le_roundQuotient (h : k * den ≤ num) : k ≤ roundQuotient num den := by
  have hle : k ≤ num / den := (Nat.le_div_iff_mul_le hden).2 h
  simp only [roundQuotient]
  split
  · exact hle
  · split <;> omega

/-- A quotient is rounded to less than an even number exactly below the middle of the step to it. -/
theorem roundQuotient_lt_iff (heven : k % 2 = 0) :
    roundQuotient num den < k ↔ 2 * num + den < 2 * (k * den) := by
  have hdiv := Nat.div_add_mod num den
  have hmod := Nat.mod_lt num hden
  rw [Nat.mul_comm] at hdiv
  have hcases : num / den + 2 ≤ k ∨ num / den + 1 = k ∨ k ≤ num / den := by omega
  simp only [roundQuotient]
  rcases hcases with hlt | heq | hge
  · have hmul := Nat.mul_le_mul_right den hlt
    rw [Nat.add_mul] at hmul
    split
    · omega
    · split <;> omega
  · have hmul : (num / den) * den + den = k * den := by rw [← heq, Nat.add_mul, Nat.one_mul]
    split
    · omega
    · split <;> omega
  · have hmul := Nat.mul_le_mul_right den hge
    split
    · omega
    · split <;> omega

end Quotient

/-! ## Rounding magnitudes -/

theorem log2_le_log2 {n m : Nat} (h : n ≤ m) : n.log2 ≤ m.log2 := by
  by_cases hn : n = 0
  · subst hn
    exact Nat.zero_le _
  · exact (Nat.le_log2 (by omega)).2 (Nat.le_trans (Nat.log2_self_le hn) h)

theorem spacing_dvd_spacing {units other : Nat} (h : units ≤ other) :
    spacing units ∣ spacing other :=
  Nat.pow_dvd_pow 2 (Nat.sub_le_sub_right (log2_le_log2 h) 52)

theorem spacing_dvd_two_pow_log2 (units : Nat) : spacing units ∣ 2 ^ units.log2 :=
  Nat.pow_dvd_pow 2 (Nat.sub_le _ _)

theorem spacing_dvd_two_pow (n : Nat) : spacing (2 ^ n) ∣ 2 ^ n := by
  have h := spacing_dvd_two_pow_log2 (2 ^ n)
  rwa [Nat.log2_two_pow] at h

section Nearest

variable {num den units : Nat} (hden : 0 < den)

include hden

/-- Rounding goes at most up to a magnitude that has an encoding. -/
theorem nearestUnits_le (hunits : spacing units ∣ units) (h : num ≤ units * den) :
    nearestUnits num den ≤ units := by
  have hle : num / den ≤ units := Nat.div_le_of_le_mul (Nat.mul_comm den units ▸ h)
  obtain ⟨k, hk⟩ := Nat.dvd_trans (spacing_dvd_spacing hle) hunits
  have hstep := spacing_pos (num / den)
  rw [nearestUnits]
  generalize spacing (num / den) = step at *
  subst hk
  rw [Nat.mul_comm step k]
  apply Nat.mul_le_mul_right step
  apply roundQuotient_le (Nat.mul_pos hden hstep)
  rwa [Nat.mul_comm step k, Nat.mul_assoc, Nat.mul_comm step den] at h

theorem le_nearestUnits_of_dvd (hunits : spacing (num / den) ∣ units) (h : units * den ≤ num) :
    units ≤ nearestUnits num den := by
  obtain ⟨k, rfl⟩ := hunits
  have hstep := spacing_pos (num / den)
  rw [nearestUnits]
  generalize spacing (num / den) = step at *
  rw [Nat.mul_comm step k]
  apply Nat.mul_le_mul_right step
  apply le_roundQuotient (Nat.mul_pos hden hstep)
  rwa [Nat.mul_comm step k, Nat.mul_assoc, Nat.mul_comm step den] at h

/-- Rounding goes at most down to a magnitude that has an encoding. -/
theorem le_nearestUnits (hunits : spacing units ∣ units) (h : units * den ≤ num) :
    units ≤ nearestUnits num den := by
  have hle : units ≤ num / den := (Nat.le_div_iff_mul_le hden).2 h
  rcases Nat.lt_or_ge units.log2 (num / den).log2 with hlt | hge
  · -- The steps at the quotient may be wider; the power of two below it is among them.
    have hne : num / den ≠ 0 := by
      intro hzero
      simp [hzero] at hlt
    have hself := Nat.log2_self_le hne
    have hbelow : units ≤ 2 ^ (num / den).log2 := Nat.le_of_lt
      (Nat.lt_of_lt_of_le Nat.lt_log2_self (Nat.pow_le_pow_right (by decide) hlt))
    apply Nat.le_trans hbelow
    apply le_nearestUnits_of_dvd hden (spacing_dvd_two_pow_log2 _)
    exact (Nat.le_div_iff_mul_le hden).1 hself
  · have hlog := Nat.le_antisymm hge (log2_le_log2 hle)
    have hdvd : spacing (num / den) ∣ units := by rwa [spacing, hlog, ← spacing]
    exact le_nearestUnits_of_dvd hden hdvd h

/-- A magnitude that has an encoding is not changed by rounding. -/
theorem nearestUnits_mul_self (hunits : spacing units ∣ units) : nearestUnits (units * den) den = units :=
  Nat.le_antisymm (nearestUnits_le hden hunits (Nat.le_refl _)) (le_nearestUnits hden hunits (Nat.le_refl _))

end Nearest

/-! ## Overflow -/

/-- Rounding passes a power of two exactly from the middle of the step to it on. -/
theorem nearestUnits_lt_two_pow_iff {num den : Nat} (hden : 0 < den) (e : Nat) :
    nearestUnits num den < 2 ^ (54 + e) ↔ num < (2 ^ 54 - 1) * 2 ^ e * den := by
  have hstep := Nat.two_pow_pos e
  have hlow : 2 ^ (53 + e) = 2 ^ 53 * 2 ^ e := Nat.pow_add ..
  have hhigh : 2 ^ (54 + e) = 2 ^ 54 * 2 ^ e := Nat.pow_add ..
  have hpos := Nat.mul_pos hstep hden
  rcases Nat.lt_or_ge (num / den) (2 ^ (53 + e)) with hq | hq
  · have hnum : num < 2 ^ (53 + e) * den := (Nat.div_lt_iff_lt_mul hden).1 hq
    have hle := nearestUnits_le hden (spacing_dvd_two_pow _) (Nat.le_of_lt hnum)
    rw [hlow, Nat.mul_assoc] at hnum
    rw [hlow] at hle
    rw [hhigh, Nat.mul_assoc]
    constructor <;> intro <;> omega
  rcases Nat.lt_or_ge (num / den) (2 ^ (54 + e)) with hq' | hq'
  · have hne : num / den ≠ 0 := Nat.pos_iff_ne_zero.1 (Nat.lt_of_lt_of_le (Nat.two_pow_pos _) hq)
    have hlog : (num / den).log2 = 53 + e := by
      have hge := (Nat.le_log2 hne).2 hq
      have hlt := (Nat.log2_lt hne).2 hq'
      omega
    have hspacing : spacing (num / den) = 2 * 2 ^ e := by
      rw [spacing, hlog, show 53 + e - 52 = e + 1 by omega, Nat.pow_succ, Nat.mul_comm]
    rw [nearestUnits, hspacing, hhigh, show 2 ^ 54 * 2 ^ e = 2 ^ 53 * (2 * 2 ^ e) by omega,
      Nat.mul_lt_mul_right (by omega), roundQuotient_lt_iff (Nat.mul_pos hden (by omega)) (by decide)]
    have hmul : den * (2 * 2 ^ e) = 2 * (2 ^ e * den) := by
      rw [Nat.mul_comm den, Nat.mul_assoc]
    rw [hmul, Nat.mul_assoc _ (2 ^ e) den]
    constructor <;> intro <;> omega
  · have hnum : 2 ^ (54 + e) * den ≤ num := (Nat.le_div_iff_mul_le hden).1 hq'
    have hge := le_nearestUnits hden (spacing_dvd_two_pow _) hnum
    rw [hhigh, Nat.mul_assoc] at hnum
    rw [Nat.mul_assoc (2 ^ 54 - 1)]
    constructor <;> intro <;> omega

/-- The middle between the largest finite magnitude and that of an infinity. -/
abbrev overflowUnits : Nat := (2 ^ 54 - 1) * 2 ^ 2044

/-- A fraction is rounded to a finite magnitude exactly below the middle between the largest one and
the infinity. -/
theorem nearestUnits_lt_infinity_iff {num den : Nat} (hden : 0 < den) :
    nearestUnits num den < unitsInInfinity ↔ num < overflowUnits * den := by
  have h : nearestUnits num den < _ ↔ _ := nearestUnits_lt_two_pow_iff hden 2044
  rwa [← unitsInInfinity_eq (54 + 2044) rfl, ← overflowUnits] at h

theorem isFinite_nearest_iff {negative : Bool} {num den : Nat} (hden : 0 < den) :
    (nearest negative num den).isFinite = true ↔ num < overflowUnits * den := by
  rw [nearest, isFinite_ofUnits, nearestUnits_lt_infinity_iff hden]

end TradeReentry.Binary64
