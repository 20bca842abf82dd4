import TradeReentry.Proofs.Binary64.Nearest
import TradeReentry.Proofs.Decimal.Fixed

/-!
# Plain decimal numerals

A `Spelling` is a plain decimal numeral in its parts: an optional minus sign, digits, and the places behind
the point. The text of a finite number is spelled so (`exists_spelling`), and with enough places its spelling is
exact (`nearest_exactSpelling`). `Text.decimalValue` is what such a text denotes.
-/

namespace TradeReentry

open Ascii Text

/-- The parts of a plain decimal numeral. -/
structure Spelling where
  negative : Bool
  whole : Text
  places : Text
  whole_ne : whole ≠ []
  isDigit_whole : ∀ c ∈ whole, isDigit c = true
  isDigit_places : ∀ c ∈ places, isDigit c = true

namespace Spelling

/-- The numeral. -/
def text (s : Spelling) : Text :=
  (if s.negative then ("-" : Text) else []) ++ withPlaces s.whole s.places

/-- What its digits stand for without the point. -/
def digits (s : Spelling) : Nat := digitsValue (s.whole ++ s.places)

/-- The number of digits behind the point. -/
def scale (s : Spelling) : Nat := s.places.length

/-- Whether the numeral is below the middle between the largest finite number and the infinity. -/
def InRange (s : Spelling) : Prop :=
  s.digits * Binary64.unitsInOne < Binary64.overflowUnits * 10 ^ s.scale

/-- The number nearest to the numeral. -/
def nearest (s : Spelling) : Binary64 :=
  .nearest s.negative (s.digits * Binary64.unitsInOne) (10 ^ s.scale)

theorem scale_le_length (s : Spelling) : s.scale ≤ (s.whole ++ s.places).length := by
  rw [List.length_append]
  exact Nat.le_add_left _ _

/-- A numeral without its sign begins with a digit. -/
theorem withPlaces_eq_cons (s : Spelling) :
    ∃ c t, withPlaces s.whole s.places = c :: t ∧ isDigit c = true := by
  obtain ⟨c, t, ht⟩ := List.exists_cons_of_ne_nil s.whole_ne
  have hdigit : isDigit c = true := s.isDigit_whole c (ht ▸ List.mem_cons_self)
  rw [withPlaces, ht]
  split
  · exact ⟨c, t, rfl, hdigit⟩
  · exact ⟨c, _, rfl, hdigit⟩

end Spelling

/-! ## What a numeral denotes -/

/-- The number that digits with an optional minus sign and an optional point stand for. -/
def Text.decimalValue (t : Text) : ℚ :=
  let unsigned := if t.head? = some minus then t.tail else t
  let places := (unsigned.dropWhile isDigit).tail
  (if t.head? = some minus then -1 else 1) *
    (digitsValue (unsigned.takeWhile isDigit ++ places) / 10 ^ places.length)

/-- Digits end at the point. -/
theorem span_withPlaces {whole : Text} (hwhole : ∀ c ∈ whole, isDigit c = true) (places : Text) :
    (withPlaces whole places).takeWhile isDigit = whole ∧
      ((withPlaces whole places).dropWhile isDigit).tail = places := by
  rw [withPlaces]
  split
  · next hnil =>
    rw [List.takeWhile_eq_self_iff.2 hwhole, List.dropWhile_eq_nil_iff.2 hwhole, hnil]
    exact ⟨rfl, rfl⟩
  · have hdot : ∀ c, (dot :: places).head? = some c → isDigit c = false := by
      rintro c hc
      obtain rfl : dot = c := Option.some.inj hc
      decide
    obtain ⟨htake, hdrop⟩ := span_digits hwhole hdot
    rw [htake, hdrop]
    exact ⟨rfl, rfl⟩

theorem Spelling.head?_text (s : Spelling) :
    (s.text.head? = some minus ↔ s.negative = true) ∧
      (if s.text.head? = some minus then s.text.tail else s.text) = withPlaces s.whole s.places := by
  obtain ⟨c, t, ht, hc⟩ := s.withPlaces_eq_cons
  rw [text]
  cases s.negative with
  | true => exact ⟨iff_of_true rfl rfl, rfl⟩
  | false =>
    have hne : (withPlaces s.whole s.places).head? ≠ some minus := by
      simpa [ht] using ne_minus_of_isDigit hc
    refine ⟨iff_of_false hne Bool.false_ne_true, ?_⟩
    exact if_neg hne

/-- A numeral denotes the fraction of its digits. -/
theorem Spelling.decimalValue_text (s : Spelling) :
    Text.decimalValue s.text =
      Binary64.valueOf s.negative (s.digits * Binary64.unitsInOne) (10 ^ s.scale) := by
  obtain ⟨hsign, hunsigned⟩ := s.head?_text
  obtain ⟨hwhole, hplaces⟩ := span_withPlaces s.isDigit_whole s.places
  rw [Text.decimalValue, Binary64.valueOf_mul_unitsInOne, hunsigned, hwhole, hplaces, ← digits, ← scale,
    Nat.cast_pow, Nat.cast_ofNat]
  simp only [hsign]

/-- A numeral in the range is nearest to what its text denotes. -/
theorem Spelling.isNearest_nearest {s : Spelling} (h : s.InRange) :
    s.nearest.IsNearest (Text.decimalValue s.text) := by
  rw [s.decimalValue_text]
  exact Binary64.isNearest_nearest s.negative (Nat.pow_pos (by decide)) h

/-! ## The numerals of integers -/

namespace Spelling

/-- The numeral of an integer. -/
def ofInt (i : Int) : Spelling where
  negative := i < 0
  whole := Text.ofNat i.natAbs
  places := []
  whole_ne := ofNat_ne_nil _
  isDigit_whole := fun _ hc => isDigit_of_mem_ofNat hc
  isDigit_places := by simp

theorem text_ofInt (i : Int) : (ofInt i).text = Text.ofInt i := by
  cases i with
  | ofNat n => simp [text, ofInt, withPlaces, Text.ofInt]
  | negSucc n =>
    have hneg : Int.negSucc n < 0 := Int.negSucc_lt_zero n
    simp only [text, ofInt, withPlaces, Text.ofInt, hneg, decide_true, if_true]
    rfl

theorem digits_ofInt (i : Int) : (ofInt i).digits = i.natAbs := by
  rw [digits, ofInt, List.append_nil, digitsValue_ofNat]

theorem nearest_ofInt (i : Int) : (ofInt i).nearest = .ofInt i := by
  rw [nearest, digits_ofInt]
  rfl

theorem inRange_ofInt {i : Int} (h : i.natAbs ≤ 2 ^ 64) : (ofInt i).InRange := by
  have hscale : (ofInt i).scale = 0 := rfl
  rw [InRange, digits_ofInt, hscale, Nat.pow_zero, Nat.mul_one]
  calc i.natAbs * Binary64.unitsInOne ≤ 2 ^ 64 * Binary64.unitsInOne := Nat.mul_le_mul_right _ h
    _ < Binary64.overflowUnits := by decide +kernel

end Spelling

/-! ## The numerals of numbers -/

namespace Binary64

/-- The numeral of a number with some places, without the zeros at the end. -/
def spelling (places : Nat) (x : Binary64) : Spelling where
  negative := x.isNegative
  whole := Text.ofNat (x.placesValue places / 10 ^ places)
  places := significant (lowDigits places (x.placesValue places))
  whole_ne := ofNat_ne_nil _
  isDigit_whole := fun _ hc => isDigit_of_mem_ofNat hc
  isDigit_places := isDigit_of_mem_significant fun _ hc => isDigit_of_mem_lowDigits hc

theorem text_spelling (places : Nat) (x : Binary64) :
    (spelling places x).text = signedText places x := rfl

/-- Its digits are those of the number brought to the places, but for zeros at the end. -/
theorem digits_spelling (places : Nat) (x : Binary64) :
    ∃ n, places = (spelling places x).scale + n ∧
      (spelling places x).digits * 10 ^ n = x.placesValue places := by
  obtain ⟨n, hn⟩ := significant_append (lowDigits places (x.placesValue places))
  have hlength := congrArg List.length hn
  rw [length_lowDigits, List.length_append, List.length_replicate] at hlength
  refine ⟨n, hlength, ?_⟩
  have hdigits := digitsValue_lowDigits places (x.placesValue places)
  have hwhole := digitsValue_append
    (Text.ofNat (x.placesValue places / 10 ^ places)) (lowDigits places (x.placesValue places))
  rw [digitsValue_ofNat, length_lowDigits, hdigits, hn, ← List.append_assoc,
    digitsValue_append _ (List.replicate n _), digitsValue_replicate_zero,
    List.length_replicate, Nat.add_zero] at hwhole
  exact hwhole

/-- The places of a finite number do not carry it beyond the finite ones. -/
theorem placesValue_lt {x : Binary64} (h : x.isFinite = true) (places : Nat) :
    x.placesValue places * unitsInOne < overflowUnits * 10 ^ places := by
  have hpow : 0 < 10 ^ places := Nat.pow_pos (by decide)
  have hle : x.placesValue places ≤ maxInteger * 10 ^ places := by
    apply roundQuotient_le unitsInOne_pos
    rw [Nat.mul_right_comm, ← maxUnits_eq]
    exact Nat.mul_le_mul_right _ (units_le_maxUnits h)
  calc x.placesValue places * unitsInOne
      ≤ maxInteger * 10 ^ places * unitsInOne := Nat.mul_le_mul_right _ hle
    _ = maxUnits * 10 ^ places := by rw [Nat.mul_right_comm, ← maxUnits_eq]
    _ < overflowUnits * 10 ^ places := Nat.mul_lt_mul_of_pos_right maxUnits_lt_overflowUnits hpow

theorem inRange_spelling {x : Binary64} (h : x.isFinite = true) (places : Nat) :
    (spelling places x).InRange := by
  obtain ⟨n, hplaces, hdigits⟩ := digits_spelling places x
  have hrange := placesValue_lt h places
  have hpow : 10 ^ places = 10 ^ (spelling places x).scale * 10 ^ n := by
    rw [← Nat.pow_add, ← hplaces]
  rw [hpow, ← hdigits, ← Nat.mul_assoc, Nat.mul_right_comm] at hrange
  exact Nat.lt_of_mul_lt_mul_right (a := 10 ^ n) hrange

/-! ## Exact numerals -/

theorem roundQuotient_mul_self (k : Nat) {den : Nat} (h : 0 < den) : roundQuotient (k * den) den = k := by
  rw [roundQuotient, Nat.mul_div_cancel _ h, Nat.mul_mod_left, if_pos (by simpa using h)]

/-- With as many places as the unit has, nothing of a number is cut off. -/
theorem placesValue_mul_unitsInOne (x : Binary64) {places : Nat} (h : exactPlaces ≤ places) :
    x.placesValue places * unitsInOne = x.units * 10 ^ places := by
  have hunits : unitsInOne = 2 ^ exactPlaces := by rw [unitsInOne, exactPlaces]
  obtain ⟨k, hk⟩ : unitsInOne ∣ 10 ^ places := by
    rw [hunits]
    exact Nat.dvd_trans (Nat.pow_dvd_pow 2 h) ⟨5 ^ places, Nat.mul_pow 2 5 places⟩
  have hmul : x.units * 10 ^ places = x.units * k * unitsInOne := by
    rw [hk, Nat.mul_comm unitsInOne, Nat.mul_assoc]
  rw [placesValue, hmul, roundQuotient_mul_self _ unitsInOne_pos]

/-- The numeral of a number with all of its places. -/
def exactSpelling (x : Binary64) : Spelling := spelling exactPlaces x

theorem digits_exactSpelling (x : Binary64) :
    x.exactSpelling.digits * unitsInOne = x.units * 10 ^ x.exactSpelling.scale := by
  obtain ⟨n, hplaces, hdigits⟩ := digits_spelling exactPlaces x
  have hpow : 10 ^ exactPlaces = 10 ^ x.exactSpelling.scale * 10 ^ n := by
    rw [← Nat.pow_add]
    exact congrArg _ hplaces
  have hexact := placesValue_mul_unitsInOne x (Nat.le_refl exactPlaces)
  rw [hpow, ← hdigits, Nat.mul_right_comm, ← Nat.mul_assoc] at hexact
  exact Nat.eq_of_mul_eq_mul_right (Nat.pow_pos (by decide)) hexact

/-- A finite number is nearest to its exact numeral. -/
theorem nearest_exactSpelling {x : Binary64} (h : x.isFinite = true) : x.exactSpelling.nearest = x :=
  nearest_units h (Nat.pow_pos (by decide)) (digits_exactSpelling x)

/-! ## Texts of numbers -/

/-- The text of a finite number is a numeral in the range. -/
theorem exists_spelling {x : Binary64} (h : x.isFinite = true) (places : Nat) :
    ∃ s : Spelling, s.text = x.decimalText places ∧ s.scale ≤ places ∧ s.InRange := by
  rw [decimalText_of_isFinite h]
  split
  · exact ⟨.ofInt 0, Spelling.text_ofInt 0, Nat.zero_le _, Spelling.inRange_ofInt (Nat.zero_le _)⟩
  · obtain ⟨n, hplaces, -⟩ := digits_spelling (min places exactPlaces) x
    exact ⟨spelling _ x, text_spelling _ x, by omega, inRange_spelling h _⟩

end Binary64

end TradeReentry
