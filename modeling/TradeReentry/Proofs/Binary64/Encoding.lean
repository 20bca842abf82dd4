import TradeReentry.Binary64.Basic

/-!
# Numbers and their magnitudes

A number is finite exactly if its magnitude is below that of an infinity (`units_lt_iff`), and the
largest finite magnitude is `maxUnits` (`units_le_maxUnits`). What `ofUnits` encodes has the sign that it
was given (`isNegative_ofUnits`), is finite unless the magnitude is too large (`isFinite_ofUnits`) and has
that magnitude if it can be represented (`units_ofUnits`).
-/

namespace TradeReentry.Binary64

/-! ## Kinds of numbers -/

theorem isFinite_iff {x : Binary64} : x.isFinite = true ↔ x.exponentField ≠ 2047 := by
  simp [isFinite]

theorem not_isNaN_of_isFinite {x : Binary64} (h : x.isFinite = true) : x.isNaN = false := by
  simp [isNaN, isFinite_iff.1 h]

theorem not_isInfinite_of_isFinite {x : Binary64} (h : x.isFinite = true) : x.isInfinite = false := by
  simp [isInfinite, isFinite_iff.1 h]

/-- A number that is neither finite nor a NaN is an infinity. -/
theorem isInfinite_of_not_isFinite {x : Binary64} (hnan : x.isNaN = false)
    (h : x.isFinite = false) : x.isInfinite = true := by
  have hfield : x.exponentField = 2047 := by simpa [isFinite] using h
  simpa [isNaN, isInfinite, hfield] using hnan

theorem not_isFinite_of_isNaN {x : Binary64} (h : x.isNaN = true) : x.isFinite = false := by
  simp only [isNaN, Bool.and_eq_true, decide_eq_true_eq] at h
  simp [isFinite, h.1]

/-! ## Magnitudes -/

/-- The largest finite magnitude. -/
abbrev maxUnits : Nat := (2 ^ 53 - 1) * 2 ^ 2045

theorem exponentField_lt (x : Binary64) : x.exponentField < 2048 := Nat.mod_lt _ (by decide)

theorem fraction_lt (x : Binary64) : x.fraction < 2 ^ 52 := Nat.mod_lt _ (by decide)

theorem units_le_of_exponentField_le {x : Binary64} {e : Nat} (h : x.exponentField ≤ e + 1) :
    x.units ≤ (2 ^ 53 - 1) * 2 ^ e := by
  have hfraction := x.fraction_lt
  rw [units]
  split
  · exact Nat.le_trans (by omega) (Nat.le_mul_of_pos_right (2 ^ 53 - 1) (Nat.two_pow_pos e))
  · exact Nat.mul_le_mul (by omega) (Nat.pow_le_pow_right (by decide) (by omega))

theorem le_units_of_le_exponentField {x : Binary64} {e : Nat} (h : e + 1 ≤ x.exponentField) :
    2 ^ (52 + e) ≤ x.units := by
  rw [units, if_neg (by omega), Nat.pow_add]
  exact Nat.mul_le_mul (Nat.le_add_right _ _) (Nat.pow_le_pow_right (by decide) (by omega))

theorem units_le_maxUnits {x : Binary64} (h : x.isFinite = true) : x.units ≤ maxUnits := by
  have hfield := isFinite_iff.1 h
  have hlt := x.exponentField_lt
  rw [maxUnits]
  exact units_le_of_exponentField_le (e := 2045) (by omega)

theorem maxUnits_lt : maxUnits < unitsInInfinity := by decide +kernel

/-- The exponent of an infinity split into a sum, without its power being worked out. -/
theorem unitsInInfinity_eq (n : Nat) (h : n = 2098) : unitsInInfinity = 2 ^ n := by
  rw [h]

theorem unitsInInfinity_pos : 0 < unitsInInfinity := Nat.pos_of_ne_zero (by simp)

/-- The exponent of an infinity alone reaches its magnitude. -/
theorem units_lt_iff {x : Binary64} : x.units < unitsInInfinity ↔ x.isFinite = true := by
  refine ⟨fun h => isFinite_iff.2 ?_,
    fun h => Nat.lt_of_le_of_lt (units_le_maxUnits h) maxUnits_lt⟩
  intro hfield
  have hle : 2 ^ (52 + 2046) ≤ x.units := le_units_of_le_exponentField (e := 2046) (by omega)
  rw [← unitsInInfinity_eq (52 + 2046) rfl] at hle
  exact Nat.not_le.2 h hle

/-! ## Encoding fields -/

section Fields

variable {rest : Nat} (h : rest < 2 ^ 63) (negative : Bool)

include h

theorem word_ofFields : (ofFields negative rest).word = (if negative then 2 ^ 63 else 0) + rest := by
  rw [word, ofFields, UInt64.toNat_ofNat']
  split <;> omega

theorem isNegative_ofFields : (ofFields negative rest).isNegative = negative := by
  rw [isNegative, word_ofFields h]
  cases negative <;> simp <;> omega

theorem exponentField_ofFields : (ofFields negative rest).exponentField = rest / 2 ^ 52 := by
  rw [exponentField, word_ofFields h]
  split <;> omega

theorem fraction_ofFields : (ofFields negative rest).fraction = rest % 2 ^ 52 := by
  rw [fraction, word_ofFields h]
  split <;> omega

end Fields

@[simp] theorem isNegative_infinity (negative : Bool) : (infinity negative).isNegative = negative :=
  isNegative_ofFields (by decide) negative

@[simp] theorem isNaN_infinity (negative : Bool) : (infinity negative).isNaN = false := by
  cases negative <;> decide

@[simp] theorem isFinite_infinity (negative : Bool) : (infinity negative).isFinite = false := by
  cases negative <;> decide

/-! ## Encoding magnitudes -/

theorem spacing_pos (units : Nat) : 0 < spacing units := Nat.two_pow_pos _

/-- A magnitude of at least 53 bits is that many spacings. -/
theorem div_spacing {units : Nat} (h : 2 ^ 52 ≤ units) :
    2 ^ 52 ≤ units / spacing units ∧ units / spacing units < 2 ^ 53 := by
  have hne : units ≠ 0 := by omega
  have hlog : 52 ≤ units.log2 := (Nat.le_log2 hne).2 h
  constructor
  · rw [Nat.le_div_iff_mul_le (spacing_pos _), spacing, ← Nat.pow_add, Nat.add_sub_cancel' hlog]
    exact Nat.log2_self_le hne
  · rw [Nat.div_lt_iff_lt_mul (spacing_pos _), spacing, ← Nat.pow_add,
      show 53 + (units.log2 - 52) = units.log2 + 1 by omega]
    exact Nat.lt_log2_self

theorem log2_lt_of_lt_infinity {units : Nat} (hne : units ≠ 0) (h : units < unitsInInfinity) :
    units.log2 < 2098 := by
  rwa [Nat.log2_lt hne, ← unitsInInfinity]

theorem two_pow_le_infinity {n : Nat} (h : n ≤ 2098) : 2 ^ n ≤ unitsInInfinity := by
  rw [unitsInInfinity_eq (n + (2098 - n)) (by omega)]
  exact Nat.pow_le_pow_right (by decide) (Nat.le_add_right n _)

/-- The lower 63 bits of a magnitude. -/
def lowerBits (units : Nat) : Nat :=
  if units < 2 ^ 52 then units
  else if units < unitsInInfinity then
    (units.log2 - 51) * 2 ^ 52 + (units / spacing units - 2 ^ 52)
  else 2047 * 2 ^ 52

theorem ofUnits_eq_ofFields (negative : Bool) (units : Nat) :
    ofUnits negative units = ofFields negative (lowerBits units) := by
  unfold ofUnits lowerBits
  split
  · rfl
  · split <;> rfl

theorem lowerBits_lt (units : Nat) : lowerBits units < 2 ^ 63 := by
  unfold lowerBits
  split
  next h => omega
  next hlarge =>
    split
    next h =>
      have hlog := log2_lt_of_lt_infinity (by omega) h
      have hdiv := (div_spacing (Nat.not_lt.1 hlarge)).2
      omega
    · decide

/-- The exponent of an infinity is reached by its magnitude alone. -/
theorem lowerBits_div (units : Nat) :
    lowerBits units / 2 ^ 52 = 2047 ↔ unitsInInfinity ≤ units := by
  unfold lowerBits
  split
  next h =>
    have hle := Nat.lt_of_lt_of_le h (two_pow_le_infinity (n := 52) (by decide))
    refine ⟨?_, fun hge => absurd hle (Nat.not_lt.2 hge)⟩
    intro heq
    rw [Nat.div_eq_of_lt h] at heq
    exact absurd heq (by decide)
  next hlarge =>
    split
    next h =>
      have hlog := log2_lt_of_lt_infinity (by omega) h
      have hdiv := (div_spacing (Nat.not_lt.1 hlarge)).2
      omega
    next h =>
      exact ⟨fun _ => Nat.not_lt.1 h, fun _ => by decide⟩

@[simp] theorem isNegative_ofUnits (negative : Bool) (units : Nat) :
    (ofUnits negative units).isNegative = negative := by
  rw [ofUnits_eq_ofFields, isNegative_ofFields (lowerBits_lt units)]

theorem isFinite_ofUnits {negative : Bool} {units : Nat} :
    (ofUnits negative units).isFinite = true ↔ units < unitsInInfinity := by
  rw [isFinite_iff, ofUnits_eq_ofFields, exponentField_ofFields (lowerBits_lt units), Ne,
    lowerBits_div, Nat.not_le]

@[simp] theorem isNaN_ofUnits (negative : Bool) (units : Nat) :
    (ofUnits negative units).isNaN = false := by
  by_cases h : units < unitsInInfinity
  · exact not_isNaN_of_isFinite (isFinite_ofUnits.2 h)
  · have hlarge : ¬units < 2 ^ 52 := fun hlt =>
      h (Nat.lt_of_lt_of_le hlt (two_pow_le_infinity (by decide)))
    rw [ofUnits, if_neg hlarge, if_neg h, isNaN_infinity]

/-- A representable magnitude comes back. -/
theorem units_ofUnits {negative : Bool} {units : Nat} (h : Representable units) :
    (ofUnits negative units).units = units := by
  obtain ⟨hlt, hdvd⟩ := h
  rw [Binary64.units, ofUnits_eq_ofFields, exponentField_ofFields (lowerBits_lt units),
    fraction_ofFields (lowerBits_lt units)]
  unfold lowerBits
  split
  next hsmall => rw [Nat.div_eq_of_lt hsmall, if_pos rfl, Nat.mod_eq_of_lt hsmall]
  next hlarge =>
    have hdiv := div_spacing (Nat.not_lt.1 hlarge)
    have hlog : 52 ≤ units.log2 := (Nat.le_log2 (by omega)).2 (Nat.not_lt.1 hlarge)
    have hexponent : ((units.log2 - 51) * 2 ^ 52 + (units / spacing units - 2 ^ 52)) / 2 ^ 52 =
        units.log2 - 51 := by omega
    have hfraction : ((units.log2 - 51) * 2 ^ 52 + (units / spacing units - 2 ^ 52)) % 2 ^ 52 =
        units / spacing units - 2 ^ 52 := by omega
    rw [hexponent, hfraction, if_neg (by omega), Nat.add_sub_cancel' hdiv.1,
      show units.log2 - 51 - 1 = units.log2 - 52 by omega]
    exact Nat.div_mul_cancel hdvd

end TradeReentry.Binary64
