import TradeReentry.Decimal.Numeral
import TradeReentry.Ledger.Cell
import TradeReentry.Proofs.Decimal.Spelling

/-!
# Decimal cells

The text of a number is accepted as a decimal cell exactly if the number is finite
(`isDecimal_cellText`).
-/

namespace TradeReentry

open Ascii Text

/-! ## Reading a text with a point -/

namespace Numeral

/-- Whether a text has digits and points only. -/
def IsPlain (t : Text) : Prop := ∀ c ∈ t, isDigit c = true ∨ c = dot

theorem isPlain_withPlaces {whole places : Text} (hwhole : ∀ c ∈ whole, isDigit c = true)
    (hplaces : ∀ c ∈ places, isDigit c = true) : IsPlain (withPlaces whole places) := by
  intro c hc
  rw [withPlaces] at hc
  split at hc
  · exact .inl (hwhole c hc)
  · rcases List.mem_append.1 hc with hc | hc
    · exact .inl (hwhole c hc)
    · rcases List.mem_cons.1 hc with rfl | hc
      · exact .inr rfl
      · exact .inl (hplaces c hc)

theorem toLower_of_isPlain {c : UInt8} (h : isDigit c = true ∨ c = dot) :
    Ascii.toLower c = c ∧ isLower c = false := by
  have hle : c.toNat ≤ 57 := by
    rcases h with h | rfl
    · exact ((isDigit_iff c).1 h).2
    · decide
  have hlower : isLower c = false := by
    simp only [isLower, Bool.and_eq_false_iff, decide_eq_false_iff_not, UInt8.le_iff_toNat_le]
    left
    show ¬97 ≤ c.toNat
    omega
  have hupper : isUpper c = false := by
    simp only [isUpper, Bool.and_eq_false_iff, decide_eq_false_iff_not, UInt8.le_iff_toNat_le]
    left
    show ¬65 ≤ c.toNat
    omega
  exact ⟨by simp [Ascii.toLower, hupper], hlower⟩

/-- A word with a letter is not found in digits and points. -/
theorem dropWord?_eq_none {word t : Text} (ht : IsPlain t) {c : UInt8} (hmem : c ∈ word)
    (hletter : isLower c = true) : dropWord? word t = none := by
  rw [dropWord?, if_neg]
  intro heq
  rw [← heq, Text.toLower, List.mem_map] at hmem
  obtain ⟨d, hd, rfl⟩ := hmem
  obtain ⟨hsame, hlower⟩ := toLower_of_isPlain (ht d (List.mem_of_mem_take hd))
  rw [hsame, hlower] at hletter
  exact absurd hletter (by decide)

theorem takeDecimal?_withPlaces {whole places : Text} (hne : whole ≠ [])
    (hwhole : ∀ c ∈ whole, isDigit c = true) (hplaces : ∀ c ∈ places, isDigit c = true) :
    takeDecimal? (withPlaces whole places) =
      some (.ofDecimal (whole ++ places) (-(places.length : Int)), []) := by
  have hdot : isDigit dot = false := by decide
  have hmantissa : takeMantissa? isDigit (withPlaces whole places) = some (whole, places, []) := by
    by_cases hnil : places = []
    · subst hnil
      rw [withPlaces, if_pos rfl, takeMantissa?, List.takeWhile_eq_self_iff.2 hwhole,
        List.dropWhile_eq_nil_iff.2 hwhole]
      simp [hne]
    · rw [withPlaces, if_neg hnil, takeMantissa?, List.takeWhile_append_of_pos hwhole,
        List.dropWhile_append_of_pos hwhole, List.takeWhile_cons_of_neg (by simp [hdot]),
        List.dropWhile_cons_of_neg (by simp [hdot])]
      simp only [if_true, List.takeWhile_eq_self_iff.2 hplaces, List.dropWhile_eq_nil_iff.2 hplaces]
      simp [hne]
  simp [takeDecimal?, hmantissa, takeExponent]

/-- A plain decimal numeral is read as it stands. -/
theorem read?_text (s : Spelling) :
    read? s.text = some (.finite s.negative (.ofDecimal (s.whole ++ s.places) (-(s.scale : Int))), []) := by
  have hplain := isPlain_withPlaces s.isDigit_whole s.isDigit_places
  have hunsigned : ∀ negative, takeUnsigned? negative (withPlaces s.whole s.places) =
      some (.finite negative (.ofDecimal (s.whole ++ s.places) (-(s.scale : Int))), []) := by
    intro negative
    rw [takeUnsigned?, dropWord?_eq_none hplain (c := 0x66) (by decide) (by decide),
      dropWord?_eq_none hplain (c := 0x66) (by decide) (by decide),
      dropWord?_eq_none hplain (c := 0x6E) (by decide) (by decide),
      dropWord?_eq_none hplain (c := 0x78) (by decide) (by decide),
      takeDecimal?_withPlaces s.whole_ne s.isDigit_whole s.isDigit_places]
    rfl
  obtain ⟨c, t, ht, hc⟩ := s.withPlaces_eq_cons
  rw [read?, Spelling.text]
  cases s.negative with
  | true =>
    have hsign : takeSign (trimLeft (("-" : Text) ++ withPlaces s.whole s.places)) =
        (true, withPlaces s.whole s.places) := rfl
    rw [if_pos rfl, hsign]
    exact hunsigned true
  | false =>
    have hsign : takeSign (trimLeft (([] : Text) ++ withPlaces s.whole s.places)) =
        (false, withPlaces s.whole s.places) := by
      rw [List.nil_append, ht, trimLeft, List.dropWhile_cons_of_neg
        (by simp [not_isSpace_of_isDigit hc])]
      simp [takeSign, ne_minus_of_isDigit hc, ne_plus_of_isDigit hc]
    rw [if_neg Bool.false_ne_true, hsign]
    exact hunsigned false

end Numeral

/-! ## The range of a text with a point -/

namespace Magnitude

/-- The magnitude of a row of digits, the last of which are decimal places. -/
theorem ofDecimal_places {digits : Text} {places : Nat} (h : places ≤ digits.length) :
    ofDecimal digits (-(places : Int)) =
      if digitsValue digits = 0 then ⟨0, 1⟩
      else ⟨digitsValue digits * Binary64.unitsInOne, 10 ^ places⟩ := by
  rw [ofDecimal]
  split
  · rfl
  · rw [if_neg (by omega), if_neg (by omega)]
    cases places with
    | zero => simp
    | succ places => rw [if_neg (by omega), Int.neg_neg, Int.toNat_natCast]

theorem not_overflows_iff {m : Magnitude} (h : 0 < m.den) :
    ¬m.Overflows ↔ m.num < Binary64.overflowUnits * m.den := by
  rw [Overflows, Nat.not_le, Binary64.nearestUnits_lt_infinity_iff h]

/-- A fraction with few decimal places that is not zero lies above the smallest normal number. -/
theorem not_underflows (n : Nat) {places : Nat} (h : places ≤ 300) :
    ¬Underflows ⟨n * Binary64.unitsInOne, 10 ^ places⟩ := by
  rintro ⟨hfraction, hlt⟩
  have hn : 0 < n := by
    refine Nat.pos_of_ne_zero fun hzero => hfraction ?_
    rw [hzero, Nat.zero_mul, Nat.zero_mod]
  have hsmall : (2 ^ 54 - 1) * 10 ^ 300 ≤ 4 * Binary64.unitsInOne := by decide +kernel
  have hplaces : ∀ m, places ≤ m → (2 ^ 54 - 1) * 10 ^ places ≤ (2 ^ 54 - 1) * 10 ^ m :=
    fun _ hm => Nat.mul_le_mul_left _ (Nat.pow_le_pow_right (by decide) hm)
  have hone : 4 * Binary64.unitsInOne ≤ 4 * (n * Binary64.unitsInOne) :=
    Nat.mul_le_mul_left 4 (Nat.le_mul_of_pos_left _ hn)
  exact absurd hlt (Nat.not_lt.2 (Nat.le_trans (hplaces 300 h) (Nat.le_trans hsmall hone)))

end Magnitude

/-- Whether a plain decimal numeral is not too small for a normal number, unless it is zero or otherwise a
whole count of units. -/
def Spelling.Reaches (s : Spelling) : Prop :=
  ¬Magnitude.Underflows ⟨s.digits * Binary64.unitsInOne, 10 ^ s.scale⟩

theorem Spelling.reaches_of_scale_le {s : Spelling} (h : s.scale ≤ 300) : s.Reaches :=
  Magnitude.not_underflows s.digits h

theorem Binary64.reaches_exactSpelling (x : Binary64) : x.exactSpelling.Reaches := by
  rintro ⟨hfraction, -⟩
  rw [x.digits_exactSpelling, Nat.mul_mod_left] at hfraction
  exact hfraction rfl

/-- The value of a plain decimal numeral in the range is the number nearest to it. -/
theorem Numeral.value?_spelling {s : Spelling} (hrange : s.InRange) (hreaches : s.Reaches) :
    (Numeral.finite s.negative (.ofDecimal (s.whole ++ s.places) (-(s.scale : Int)))).value? =
      some s.nearest := by
  have hvalue : ∀ m : Magnitude, 0 < m.den → m.num < Binary64.overflowUnits * m.den → ¬m.Underflows →
      (Numeral.finite s.negative m).value? = some (m.toBinary64 s.negative) := by
    intro m hden hnum hunder
    have hover := (Magnitude.not_overflows_iff hden).2 hnum
    simp only [Numeral.value?, hover, hunder, or_self, if_false]
  have hpow : 0 < 10 ^ s.scale := Nat.pow_pos (by decide)
  rw [Magnitude.ofDecimal_places s.scale_le_length]
  split
  · next hzero =>
    rw [hvalue _ Nat.one_pos (by decide +kernel) (by decide +kernel), Magnitude.toBinary64,
      Spelling.nearest, Spelling.digits, hzero, Nat.zero_mul, Binary64.nearest_zero, Binary64.nearest_zero]
  · exact hvalue _ hpow hrange hreaches

/-! ## The cells of numbers -/

namespace Binary64

theorem ofText?_text {s : Spelling} (hrange : s.InRange) (hreaches : s.Reaches) :
    ofText? s.text = some s.nearest := by
  have hfinite : s.nearest.isFinite = true :=
    (isFinite_nearest_iff (Nat.pow_pos (by decide))).2 hrange
  simp only [ofText?, Numeral.read?_text, Numeral.value?_spelling hrange hreaches, Option.filter, hfinite,
    if_true]

/-- The text of a finite number with few places is read as a finite number. -/
theorem isSome_ofText?_decimalText {x : Binary64} (h : x.isFinite = true) {places : Nat}
    (hfew : places ≤ 300) : (ofText? (decimalText places x)).isSome = true := by
  obtain ⟨s, htext, hscale, hrange⟩ := exists_spelling h places
  rw [← htext, ofText?_text hrange (s.reaches_of_scale_le (Nat.le_trans hscale hfew))]
  rfl

/-- The text of a number is a decimal cell exactly if the number is finite. -/
theorem isDecimal_cellText (x : Binary64) : Cell.isDecimal x.cellText = x.isFinite := by
  cases h : x.isFinite with
  | true => exact isSome_ofText?_decimalText h (by decide)
  | false =>
    have hfield : x.exponentField = 2047 := by simpa [isFinite] using h
    rw [Cell.isDecimal, cellText, decimalText, fixedText, isNaN, isInfinite, hfield]
    by_cases hfraction : x.fraction = 0 <;> cases x.isNegative <;>
      simp only [hfraction, decide_true, decide_false, Bool.and_self, Bool.and_false, if_true, if_false,
        Bool.false_eq_true, ne_eq, not_true, not_false_eq_true] <;> decide +kernel

end Binary64

end TradeReentry
