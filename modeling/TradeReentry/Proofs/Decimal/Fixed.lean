import Mathlib.Data.List.DropRight
import TradeReentry.Decimal.Fixed
import TradeReentry.Proofs.Text.Numerals

/-!
# Decimal texts

The text of a finite number is a sign, a whole number and the decimal places that are left without the
zeros at their end (`decimalText_of_isFinite`).
-/

namespace TradeReentry

namespace Text

open Ascii

/-- A row of digits after another one. -/
theorem digitsValue_append (t u : Text) :
    digitsValue (t ++ u) = digitsValue t * 10 ^ u.length + digitsValue u := by
  induction u using List.reverseRecOn with
  | nil => simp [digitsValue, valueOf_nil]
  | append_singleton u c ih =>
    simp only [digitsValue] at ih ⊢
    rw [← List.append_assoc, valueOf_concat, valueOf_concat, ih, List.length_append,
      List.length_singleton, Nat.pow_succ]
    grind

theorem digitsValue_replicate_zero (n : Nat) : digitsValue (List.replicate n zero) = 0 := by
  induction n with
  | zero => exact valueOf_nil ..
  | succ n ih =>
    rw [List.replicate_succ', digitsValue, valueOf_concat, ← digitsValue, ih]
    rfl

/-! ## The last digits of a number -/

/-- The last digits of a number, as many as there are places. -/
def lowDigits : (places : Nat) → Nat → Text
  | 0, _ => []
  | places + 1, n => lowDigits places (n / 10) ++ [digitByte (n % 10)]

@[simp] theorem length_lowDigits (places n : Nat) : (lowDigits places n).length = places := by
  induction places generalizing n with
  | zero => rfl
  | succ places ih => simp [lowDigits, ih]

theorem isDigit_of_mem_lowDigits {places n : Nat} {c : UInt8} (h : c ∈ lowDigits places n) :
    isDigit c = true := by
  induction places generalizing n with
  | zero => simp [lowDigits] at h
  | succ places ih =>
    rw [lowDigits, List.mem_append, List.mem_singleton] at h
    rcases h with h | rfl
    · exact ih h
    · exact isDigit_digitByte (Nat.mod_lt n (by decide))

theorem lowDigits_zero (places : Nat) : lowDigits places 0 = List.replicate places zero := by
  induction places with
  | zero => rfl
  | succ places ih =>
    rw [lowDigits, Nat.zero_div, ih, List.replicate_succ']
    rfl

/-- The last digits after those before them give the number back. -/
theorem digitsValue_lowDigits (places n : Nat) :
    n / 10 ^ places * 10 ^ places + digitsValue (lowDigits places n) = n := by
  induction places generalizing n with
  | zero => simp [lowDigits, digitsValue, valueOf_nil]
  | succ places ih =>
    rw [lowDigits, digitsValue_concat _ (Nat.mod_lt n (by decide)), Nat.pow_succ', ←
      Nat.div_div_eq_div_mul]
    have h := ih (n / 10)
    have hmul : n / 10 / 10 ^ places * (10 * 10 ^ places) =
        10 * (n / 10 / 10 ^ places * 10 ^ places) := by grind
    omega

theorem padZeros_concat (width : Nat) (t : Text) (c : UInt8) :
    padZeros (width + 1) (t ++ [c]) = padZeros width t ++ [c] := by
  simp [padZeros]

theorem padZeros_zero (places : Nat) :
    padZeros (places + 1) [digitByte 0] = List.replicate (places + 1) zero := by
  rw [padZeros, List.length_singleton, Nat.add_sub_cancel, List.replicate_succ']
  rfl

/-- A numeral brought to one more digit than there are places ends in those places. -/
theorem padZeros_ofNat (places n : Nat) :
    padZeros (places + 1) (ofNat n) = ofNat (n / 10 ^ places) ++ lowDigits places n := by
  induction places generalizing n with
  | zero =>
    have hlength := List.length_pos_iff.2 (ofNat_ne_nil n)
    rw [padZeros, Nat.sub_eq_zero_of_le hlength]
    simp [lowDigits]
  | succ places ih =>
    rw [lowDigits, Nat.pow_succ', ← Nat.div_div_eq_div_mul, ← List.append_assoc, ← ih]
    rcases Nat.lt_or_ge n 10 with hn | hn
    · rw [ofNat_of_lt_ten hn, Nat.div_eq_of_lt hn, Nat.mod_eq_of_lt hn, ofNat_of_lt_ten (by decide),
        padZeros_zero, padZeros, List.length_singleton, Nat.add_sub_cancel]
    · rw [ofNat_of_ten_le hn, padZeros_concat]

/-! ## Texts with a point -/

/-- A whole number with its decimal places, the point being left out where there are none. -/
def withPlaces (whole places : Text) : Text :=
  if places = [] then whole else whole ++ dot :: places

theorem append_withPlaces (sign whole places : Text) :
    sign ++ withPlaces whole places = withPlaces (sign ++ whole) places := by
  unfold withPlaces
  split
  · rfl
  · rw [List.append_assoc]

/-- What is left of decimal places without the zeros at their end. -/
def significant (places : Text) : Text := places.rdropWhile (· = zero)

theorem isDigit_of_mem_significant {places : Text} (h : ∀ c ∈ places, isDigit c = true) :
    ∀ c ∈ significant places, isDigit c = true := fun c hc =>
  h c ((List.rdropWhile_prefix _ _).mem hc)

/-- Only zeros are dropped. -/
theorem significant_append (places : Text) :
    ∃ n, places = significant places ++ List.replicate n zero := by
  induction places using List.reverseRecOn with
  | nil => exact ⟨0, rfl⟩
  | append_singleton places c ih =>
    by_cases hc : c = zero
    · obtain ⟨n, hn⟩ := ih
      refine ⟨n + 1, ?_⟩
      rw [significant, List.rdropWhile_concat_pos _ _ _ (by simpa using hc), ← significant,
        List.replicate_succ', ← List.append_assoc, ← hn, hc]
    · refine ⟨0, ?_⟩
      rw [significant, List.rdropWhile_concat_neg _ _ _ (by simpa using hc)]
      simp

theorem ne_dot_of_isDigit {c : UInt8} (h : isDigit c = true) : c ≠ dot := by
  rintro rfl
  exact absurd h (by decide)

end Text

namespace Binary64

open Ascii Text

/-! ## The canonical text -/

theorem pointed_zero (n : Nat) : pointed 0 n = Text.ofNat n := by
  simp [pointed, padZeros_ofNat, lowDigits]

theorem pointed_succ (places n : Nat) :
    pointed (places + 1) n =
      Text.ofNat (n / 10 ^ (places + 1)) ++ dot :: lowDigits (places + 1) n := by
  have hlength : (Text.ofNat (n / 10 ^ (places + 1)) ++ lowDigits (places + 1) n).length -
      (places + 1) = (Text.ofNat (n / 10 ^ (places + 1))).length := by simp
  simp only [pointed, padZeros_ofNat, hlength, List.take_left, List.drop_left, Nat.succ_ne_zero,
    if_false]

/-- The zeros at the end of the places are dropped, and the point with them if no place is left. -/
theorem dropTrailingZeros_eq (whole : Text) {places : Text} (h : ∀ c ∈ places, isDigit c = true) :
    dropTrailingZeros (whole ++ dot :: places) = withPlaces whole (significant places) := by
  have hreverse : (whole ++ dot :: places).reverse = places.reverse ++ dot :: whole.reverse := by
    simp
  have hdot : (dot :: whole.reverse).dropWhile (· = Ascii.zero) = dot :: whole.reverse :=
    List.dropWhile_cons_of_neg (by decide)
  rw [dropTrailingZeros, hreverse, List.dropWhile_append, hdot, withPlaces, significant,
    List.rdropWhile]
  cases hleft : places.reverse.dropWhile (· = Ascii.zero) with
  | nil => simp
  | cons c rest =>
    have hc : c ∈ places := List.mem_reverse.1
      ((List.dropWhile_sublist _).mem (hleft ▸ List.mem_cons_self))
    simp [ne_dot_of_isDigit (h c hc)]

/-- The minus sign of a negative number. -/
def signText (x : Binary64) : Text := if x.isNegative then "-" else []

/-- The text of a finite number before the sign of a zero is looked at: its sign, its whole part and the
places that matter. -/
def signedText (places : Nat) (x : Binary64) : Text :=
  x.signText ++ withPlaces (Text.ofNat (x.placesValue places / 10 ^ places))
    (significant (lowDigits places (x.placesValue places)))

theorem not_mem_signedText {x : Binary64} : dot ∉ x.signText ++ Text.ofNat (x.placesValue 0) := by
  intro hmem
  rcases List.mem_append.1 hmem with hsign | hdigit
  · rw [signText] at hsign
    split at hsign
    · exact absurd hsign (by decide)
    · simp at hsign
  · exact ne_dot_of_isDigit (isDigit_of_mem_ofNat hdigit) rfl

theorem decimalText_of_isFinite {x : Binary64} (h : x.isFinite = true) (places : Nat) :
    decimalText places x =
      if signedText (min places exactPlaces) x = "-0" then ("0" : Text)
      else signedText (min places exactPlaces) x := by
  have hfixed : ∀ p, fixedText p x = x.signText ++ pointed p (x.placesValue p) := by
    intro p
    have hexponent : x.exponentField ≠ 2047 := by simpa [isFinite] using h
    simp [fixedText, isNaN, isInfinite, hexponent, signText]
  have hdrop : ∀ p, (if (fixedText p x).contains dot then dropTrailingZeros (fixedText p x)
      else fixedText p x) = signedText p x := by
    intro p
    rw [hfixed]
    cases p with
    | zero =>
      rw [pointed_zero, if_neg (by simpa using not_mem_signedText)]
      simp [signedText, lowDigits, significant, withPlaces]
    | succ p =>
      rw [pointed_succ, if_pos (by simp), ← List.append_assoc,
        dropTrailingZeros_eq _ fun c hc => isDigit_of_mem_lowDigits hc, ← append_withPlaces]
      rfl
  simp only [decimalText, hdrop]

end Binary64

end TradeReentry
