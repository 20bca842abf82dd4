import Mathlib.Data.Rat.Floor
import Mathlib.Tactic.Linarith
import TradeReentry.Proofs.Decimal.Cells

/-!
# Canonical decimals

The text of a finite number with some places denotes the number rounded once to the places
(`decimalValue_decimalText`), and it depends on that rounded number alone (`decimalText_inj`). It is the shortest
plain decimal of it: no zero ends its places, no point ends it, and no zero has a sign (`isCanonical_decimalText`).
-/

namespace TradeReentry

open Ascii Text

namespace Binary64

/-! ## Rounding to the even neighbour -/

/-- The integer nearest to a number, a tie going to the even one. -/
def roundHalfEven (value : ℚ) : ℤ :=
  if Int.fract value < 1 / 2 then ⌊value⌋
  else if 1 / 2 < Int.fract value then ⌊value⌋ + 1
  else ⌊value⌋ + ⌊value⌋ % 2

theorem roundHalfEven_natCast_div (num : Nat) {den : Nat} (h : 0 < den) :
    roundHalfEven ((num : ℚ) / den) = roundQuotient num den := by
  have hpos : (0 : ℚ) < den := Nat.cast_pos.2 h
  have hlt : Int.fract ((num : ℚ) / den) < 1 / 2 ↔ 2 * (num % den) < den := by
    rw [Int.fract_div_natCast_eq_div_natCast_mod, div_lt_div_iff₀ hpos two_pos, one_mul, mul_comm]
    exact_mod_cast Iff.rfl
  have hgt : 1 / 2 < Int.fract ((num : ℚ) / den) ↔ den < 2 * (num % den) := by
    rw [Int.fract_div_natCast_eq_div_natCast_mod, div_lt_div_iff₀ two_pos hpos, one_mul, mul_comm]
    exact_mod_cast Iff.rfl
  simp only [roundHalfEven, roundQuotient, hlt, hgt, Rat.floor_natCast_div_natCast]
  split_ifs <;> simp

theorem roundHalfEven_intCast (n : ℤ) : roundHalfEven n = n := by
  rw [roundHalfEven, Int.fract_intCast, if_pos (by norm_num), Int.floor_intCast]

theorem roundHalfEven_neg (value : ℚ) : roundHalfEven (-value) = -roundHalfEven value := by
  have hvalue := Int.floor_add_fract value
  have hone := Int.fract_lt_one value
  rcases (Int.fract_nonneg value).eq_or_lt with hzero | hpos
  · have hint : value = ⌊value⌋ := by linarith
    rw [hint, roundHalfEven_intCast, ← Int.cast_neg, roundHalfEven_intCast]
  · have hfract := Int.fract_neg hpos.ne'
    have hfloor : ⌊-value⌋ = -⌊value⌋ - 1 := by
      rw [Int.floor_eq_iff]
      push_cast
      constructor <;> linarith
    simp only [roundHalfEven, hfract, hfloor]
    -- The two fractions add up to one, so that the halves change places and a tie stays one.
    rcases lt_trichotomy (Int.fract value) (1 / 2) with hlow | htie | hhigh
    · rw [if_neg (by linarith), if_pos (by linarith), if_pos hlow]
      omega
    · rw [if_neg (by linarith), if_neg (by linarith), if_neg htie.not_lt, if_neg htie.not_gt]
      omega
    · rw [if_pos (by linarith), if_neg hhigh.not_gt, if_pos hhigh]
      omega

/-! ## Numbers brought to some places -/

/-- A number brought to some places, as an integer of the last place. -/
def signedPlaces (places : Nat) (x : Binary64) : ℤ :=
  if x.isNegative then -(x.placesValue places : ℤ) else x.placesValue places

theorem natAbs_signedPlaces (places : Nat) (x : Binary64) :
    (signedPlaces places x).natAbs = x.placesValue places := by
  rw [signedPlaces]
  split
  · rw [Int.natAbs_neg, Int.natAbs_natCast]
  · exact Int.natAbs_natCast _

/-- A number that is not brought to zero keeps its sign. -/
theorem isNegative_eq {x : Binary64} {places : Nat} (h : signedPlaces places x ≠ 0) :
    x.isNegative = decide (signedPlaces places x < 0) := by
  revert h
  rw [signedPlaces]
  cases x.isNegative with
  | false =>
    intro _
    rw [if_neg Bool.false_ne_true, decide_eq_false]
    omega
  | true =>
    intro h
    rw [if_pos rfl] at h ⊢
    rw [decide_eq_true]
    omega

/-- A number is brought to its places by rounding its value. -/
theorem roundHalfEven_toRat (x : Binary64) (places : Nat) :
    roundHalfEven (x.toRat * 10 ^ places) = signedPlaces places x := by
  have hplaces : roundHalfEven (((x.units * 10 ^ places : Nat) : ℚ) / (unitsInOne : Nat)) =
      x.placesValue places :=
    roundHalfEven_natCast_div _ unitsInOne_pos
  rw [signedPlaces, toRat, scaled]
  generalize (unitsInOne : Nat) = one at hplaces
  have hmul : ((x.units * 10 ^ places : Nat) : ℚ) / one = (x.units : ℚ) / one * 10 ^ places := by
    push_cast
    ring
  rw [hmul] at hplaces
  cases x.isNegative with
  | false => exact hplaces
  | true =>
    rw [if_pos rfl, if_pos rfl, Int.cast_neg, neg_div, neg_mul, roundHalfEven_neg]
    exact congrArg Neg.neg hplaces

/-- With enough places a number is not rounded. -/
theorem signedPlaces_of_exactPlaces_le (x : Binary64) {places : Nat} (h : exactPlaces ≤ places) :
    (signedPlaces places x : ℚ) / 10 ^ places = x.toRat := by
  have hpow : (10 : ℚ) ^ places ≠ 0 := pow_ne_zero places (by norm_num)
  have hmul := placesValue_mul_unitsInOne x h
  have hpos := unitsInOne_pos
  rw [signedPlaces, toRat, scaled]
  -- The unit is kept from being computed.
  generalize unitsInOne = one at hmul hpos ⊢
  have hone : (one : ℚ) ≠ 0 := Nat.cast_ne_zero.2 (Nat.ne_of_gt hpos)
  have hexact : (x.placesValue places : ℚ) * one = x.units * 10 ^ places := by exact_mod_cast hmul
  rw [div_eq_div_iff hpow hone]
  cases x.isNegative with
  | false => rwa [if_neg Bool.false_ne_true, if_neg Bool.false_ne_true, Int.cast_natCast, Int.cast_natCast]
  | true =>
    rw [if_pos rfl, if_pos rfl, Int.cast_neg, Int.cast_neg, Int.cast_natCast, Int.cast_natCast, neg_mul,
      neg_mul, hexact]

/-- Places beyond the exact ones change nothing. -/
theorem signedPlaces_min (x : Binary64) (places : Nat) :
    (signedPlaces (min places exactPlaces) x : ℚ) / 10 ^ (min places exactPlaces) =
      signedPlaces places x / 10 ^ places := by
  rcases Nat.le_total places exactPlaces with h | h
  · rw [Nat.min_eq_left h]
  · rw [Nat.min_eq_right h, signedPlaces_of_exactPlaces_le x (Nat.le_refl _),
      signedPlaces_of_exactPlaces_le x h]

/-! ## The value of a text -/

theorem decimalValue_signedText (x : Binary64) (places : Nat) :
    Text.decimalValue (signedText places x) = signedPlaces places x / 10 ^ places := by
  obtain ⟨n, hplaces, hdigits⟩ := digits_spelling places x
  have hvalue := Spelling.decimalValue_text (spelling places x)
  rw [valueOf_mul_unitsInOne] at hvalue
  have hpow : (10 : ℚ) ^ n ≠ 0 := pow_ne_zero n (by norm_num)
  have hfraction : ((spelling places x).digits : ℚ) / (10 ^ (spelling places x).scale : Nat) =
      x.placesValue places / 10 ^ places := by
    generalize (spelling places x).digits = digits, (spelling places x).scale = scale at hplaces hdigits
    subst hplaces
    rw [← hdigits, pow_add]
    push_cast
    rw [mul_div_mul_right _ _ hpow]
  rw [← text_spelling, hvalue, hfraction, signedPlaces]
  have hsign : (spelling places x).negative = x.isNegative := rfl
  rw [hsign]
  cases x.isNegative with
  | false => rw [if_neg Bool.false_ne_true, if_neg Bool.false_ne_true, one_mul, Int.cast_natCast]
  | true => rw [if_pos rfl, if_pos rfl, Int.cast_neg, Int.cast_natCast, neg_one_mul, neg_div]

theorem decimalValue_decimalText {x : Binary64} (h : x.isFinite = true) (places : Nat) :
    Text.decimalValue (decimalText places x) = signedPlaces places x / 10 ^ places := by
  rw [← signedPlaces_min, ← decimalValue_signedText, decimalText_of_isFinite h]
  split
  · next hzero =>
    rw [hzero]
    decide +kernel
  · rfl

/-! ## One text for one number -/

theorem signedText_of_placesValue_eq_zero {x : Binary64} {places : Nat} (h : x.placesValue places = 0) :
    signedText places x = x.signText ++ "0" := by
  have hnone : significant (lowDigits places 0) = [] := by
    rw [significant, lowDigits_zero, List.rdropWhile_eq_nil_iff]
    intro c hc
    exact decide_eq_true (List.eq_of_mem_replicate hc)
  rw [signedText, h, Nat.zero_div, hnone]
  rfl

/-- A zero is written without its sign. -/
theorem decimalText_eq_zero {x : Binary64} (h : x.isFinite = true) {places : Nat}
    (hzero : signedPlaces (min places exactPlaces) x = 0) : decimalText places x = "0" := by
  have hplaces : x.placesValue (min places exactPlaces) = 0 := by
    rw [← natAbs_signedPlaces, hzero, Int.natAbs_zero]
  rw [decimalText_of_isFinite h, signedText_of_placesValue_eq_zero hplaces, signText]
  cases x.isNegative <;> rfl

/-- The text depends on nothing but the rounded number. -/
theorem decimalText_congr {x y : Binary64} (hx : x.isFinite = true) (hy : y.isFinite = true) {places : Nat}
    (h : signedPlaces (min places exactPlaces) x = signedPlaces (min places exactPlaces) y) :
    decimalText places x = decimalText places y := by
  rcases eq_or_ne (signedPlaces (min places exactPlaces) x) 0 with hzero | hne
  · rw [decimalText_eq_zero hx hzero, decimalText_eq_zero hy (h ▸ hzero)]
  · have hsign : x.isNegative = y.isNegative := by
      rw [isNegative_eq hne, isNegative_eq (h ▸ hne), h]
    have hplaces : x.placesValue (min places exactPlaces) = y.placesValue (min places exactPlaces) := by
      rw [← natAbs_signedPlaces, ← natAbs_signedPlaces, h]
    rw [decimalText_of_isFinite hx, decimalText_of_isFinite hy, signedText, signedText, signText, signText,
      hsign, hplaces]

/-- Two numbers have one text exactly if they are rounded to one number. -/
theorem decimalText_inj {x y : Binary64} (hx : x.isFinite = true) (hy : y.isFinite = true) (places : Nat) :
    decimalText places x = decimalText places y ↔ signedPlaces places x = signedPlaces places y := by
  have hpow : ∀ n : Nat, (10 : ℚ) ^ n ≠ 0 := fun n => pow_ne_zero n (by norm_num)
  constructor
  · intro htext
    have hvalue := congrArg Text.decimalValue htext
    rw [decimalValue_decimalText hx, decimalValue_decimalText hy, div_left_inj' (hpow places)] at hvalue
    exact_mod_cast hvalue
  · intro hround
    have hvalue : (signedPlaces (min places exactPlaces) x : ℚ) / 10 ^ (min places exactPlaces) =
        signedPlaces (min places exactPlaces) y / 10 ^ (min places exactPlaces) := by
      rw [signedPlaces_min, signedPlaces_min, hround]
    rw [div_left_inj' (hpow _)] at hvalue
    apply decimalText_congr hx hy
    exact_mod_cast hvalue

end Binary64

/-! ## The form of a text -/

/-- What the text of a number is like: a plain decimal numeral that neither a zero behind the point nor the point
ends, and no zero with a sign. -/
structure Text.IsCanonical (t : Text) : Prop where
  spelled : ∃ s : Spelling, s.text = t
  ne_zero_of_dot : dot ∈ t → t.getLast? ≠ some zero
  ne_dot : t.getLast? ≠ some dot
  ne_minus_zero : t ≠ "-0"

theorem Spelling.text_ne_nil (s : Spelling) : s.text ≠ [] := by
  obtain ⟨c, t, ht, -⟩ := s.withPlaces_eq_cons
  rw [text, ht]
  exact List.append_ne_nil_of_right_ne_nil _ (List.cons_ne_nil c t)

/-- The last digit of a numeral is that of its places, or of the whole number if it has none. -/
theorem Spelling.getLast?_text (s : Spelling) :
    s.text.getLast? = if s.places = [] then s.whole.getLast? else s.places.getLast? := by
  rw [text, append_withPlaces, withPlaces]
  by_cases hnil : s.places = []
  · rw [if_pos hnil, if_pos hnil, List.getLast?_append_of_ne_nil _ s.whole_ne]
  · obtain ⟨c, t, ht⟩ := List.exists_cons_of_ne_nil hnil
    rw [if_neg hnil, if_neg hnil, List.getLast?_append_cons, ht, List.getLast?_cons_cons]

theorem Spelling.places_ne_of_dot_mem {s : Spelling} (h : dot ∈ s.text) : s.places ≠ [] := by
  intro hnil
  rw [text, withPlaces, if_pos hnil] at h
  rcases List.mem_append.1 h with hsign | hwhole
  · cases hneg : s.negative <;> rw [hneg] at hsign <;> revert hsign <;> decide
  · exact ne_dot_of_isDigit (s.isDigit_whole _ hwhole) rfl

/-- A numeral whose places end in no zero is canonical, unless it is a zero with a sign. -/
theorem Spelling.isCanonical_text {s : Spelling} (hzero : s.places.getLast? ≠ some zero)
    (hminus : s.text ≠ "-0") : s.text.IsCanonical where
  spelled := ⟨s, rfl⟩
  ne_zero_of_dot := by
    intro hdot
    rw [s.getLast?_text, if_neg (places_ne_of_dot_mem hdot)]
    exact hzero
  ne_dot := by
    intro hlast
    rw [s.getLast?_text] at hlast
    split at hlast
    · exact ne_dot_of_isDigit (s.isDigit_whole _ (List.mem_of_getLast? hlast)) rfl
    · exact ne_dot_of_isDigit (s.isDigit_places _ (List.mem_of_getLast? hlast)) rfl
  ne_minus_zero := hminus

namespace Binary64

theorem getLast?_significant (places : Text) : (significant places).getLast? ≠ some Ascii.zero := by
  intro hlast
  have hne : significant places ≠ [] := by
    intro hnil
    rw [hnil] at hlast
    cases hlast
  have hzero := List.rdropWhile_last_not (fun c : UInt8 => decide (c = Ascii.zero)) places hne
  rw [List.getLast?_eq_getLast_of_ne_nil hne] at hlast
  exact hzero (decide_eq_true (Option.some.inj hlast))

theorem isCanonical_decimalText {x : Binary64} (h : x.isFinite = true) (places : Nat) :
    (decimalText places x).IsCanonical := by
  rw [decimalText_of_isFinite h]
  split
  · exact (Spelling.ofInt 0).isCanonical_text (by decide) (by decide)
  · next hne =>
    rw [← text_spelling] at hne ⊢
    exact Spelling.isCanonical_text (getLast?_significant _) hne

theorem check_cellText {x : Binary64} (h : x.isFinite = true) {column : Column}
    (hcolumn : column.kind = .decimal) : Cell.check column x.cellText = .ok () := by
  obtain ⟨s, htext, -⟩ := exists_spelling h cellPlaces
  have hne : x.cellText.isEmpty = false := by
    rw [List.isEmpty_eq_false_iff, cellText, ← htext]
    exact s.text_ne_nil
  have hdecimal : Cell.isDecimal x.cellText = true := (isDecimal_cellText x).trans h
  rw [Cell.check, hne, hcolumn]
  simp only [hdecimal, if_true, Bool.false_eq_true, if_false]

/-- The text of a finite number with some places is the canonical decimal of the number rounded to the places, a
tie going to the even digit; two numbers have one text exactly if they are rounded to one number, and with the
places of a ledger cell it is a decimal cell. -/
theorem decimalText_canonical {x : Binary64} (h : x.isFinite = true) (places : Nat) :
    Text.decimalValue (decimalText places x) = roundHalfEven (x.toRat * 10 ^ places) / 10 ^ places ∧
      (decimalText places x).IsCanonical ∧
      (∀ y : Binary64, y.isFinite = true → (decimalText places y = decimalText places x ↔
        roundHalfEven (y.toRat * 10 ^ places) = roundHalfEven (x.toRat * 10 ^ places))) ∧
      ∀ column : Column, column.kind = .decimal → Cell.check column (decimalText 8 x) = .ok () := by
  refine ⟨?_, isCanonical_decimalText h places, ?_, ?_⟩
  · rw [roundHalfEven_toRat]
    exact decimalValue_decimalText h places
  · intro y hy
    rw [roundHalfEven_toRat, roundHalfEven_toRat]
    exact decimalText_inj hy h places
  · intro column hcolumn
    exact check_cellText h hcolumn

/-- A quarter and a fifth below zero with one place: the quarter is a tie and goes to the even digit. -/
theorem decimalText_canonical_negativeQuarter :
    let quarter : Binary64 := ⟨0xBFD0000000000000⟩
    let fifth : Binary64 := ⟨0xBFC999999999999A⟩
    quarter.isFinite = true ∧ decimalText 1 quarter = "-0.2" ∧
      Text.decimalValue (decimalText 1 quarter) = roundHalfEven (quarter.toRat * 10 ^ 1) / 10 ^ 1 ∧
      (decimalText 1 quarter).IsCanonical ∧
      roundHalfEven (fifth.toRat * 10 ^ 1) = roundHalfEven (quarter.toRat * 10 ^ 1) ∧
      Cell.check ⟨"lot_size", .decimal, true⟩ (decimalText 8 quarter) = .ok () := by
  intro quarter fifth
  have hquarter : quarter.isFinite = true := by decide
  have hfifth : fifth.isFinite = true := by decide
  obtain ⟨hvalue, hcanonical, hinj, hcheck⟩ := decimalText_canonical hquarter 1
  have htext : decimalText 1 fifth = decimalText 1 quarter := by decide +kernel
  refine ⟨hquarter, by decide +kernel, hvalue, hcanonical, (hinj fifth hfifth).1 htext, ?_⟩
  exact hcheck _ rfl

end Binary64

end TradeReentry
