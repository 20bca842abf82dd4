import TradeReentry.Proofs.Json.Rereading

/-!
# Escapes of code units

A string may write a code unit of UTF-16 as an escape of four hexadecimal digits, in either case. A literal
that writes the units of a row of characters so is read as their UTF-8 form (`reads_unitLiteral`), and a text in
which the escape of a surrogate has no partner beside it does not end as a string (`refuses_unpaired`).
-/

namespace TradeReentry

open Ascii

/-! ## Hexadecimal digits -/

namespace Ascii

/-- A digit stands for a number exactly if it is the digit of the number in either case. -/
theorem hexValue?_eq_some_iff {c : UInt8} {n : Nat} :
    hexValue? c = some n ↔ n < 16 ∧ Ascii.toLower c = hexDigit n := by
  have hdigit : isDigit c = true ↔ 0x30 ≤ c.toNat ∧ c.toNat ≤ 0x39 := isDigit_iff c
  have hupper : isUpper c = true ↔ 0x41 ≤ c.toNat ∧ c.toNat ≤ 0x5A := by
    simp [isUpper, UInt8.le_iff_toNat_le]
  have hsmall : (0x61 ≤ c && c ≤ 0x66) = true ↔ 0x61 ≤ c.toNat ∧ c.toNat ≤ 0x66 := by
    simp [UInt8.le_iff_toNat_le]
  have hlarge : (0x41 ≤ c && c ≤ 0x46) = true ↔ 0x41 ≤ c.toNat ∧ c.toNat ≤ 0x46 := by
    simp [UInt8.le_iff_toNat_le]
  have hlower : (Ascii.toLower c).toNat =
      if 0x41 ≤ c.toNat ∧ c.toNat ≤ 0x5A then c.toNat + 0x20 else c.toNat := by
    simp only [Ascii.toLower, hupper]
    split
    · have htwenty : (0x20 : UInt8).toNat = 0x20 := rfl
      rw [UInt8.toNat_add, htwenty, Nat.mod_eq_of_lt (by omega)]
    · rfl
  have hhex : n < 16 → (hexDigit n).toNat = if n < 10 then 0x30 + n else 0x57 + n := by
    intro hn
    rw [hexDigit]
    split <;> rw [UInt8.toNat_ofNat'] <;> omega
  simp only [hexValue?, hdigit, hsmall, hlarge]
  constructor
  · intro h
    have hn : n < 16 := by
      split_ifs at h <;> rw [Option.some.injEq] at h <;> omega
    refine ⟨hn, ?_⟩
    rw [← UInt8.toNat_inj, hlower, hhex hn]
    split_ifs at h ⊢ <;> rw [Option.some.injEq] at h <;> omega
  · rintro ⟨hn, h⟩
    rw [← UInt8.toNat_inj, hlower, hhex hn] at h
    have hcases : (c.toNat ≤ 0x39 ∧ c.toNat = 0x30 + n) ∨ (0x61 ≤ c.toNat ∧ c.toNat = 0x57 + n) ∨
        0x41 ≤ c.toNat ∧ c.toNat ≤ 0x46 ∧ c.toNat = 0x37 + n := by
      split_ifs at h <;> omega
    rcases hcases with hdecimal | hlow | hhigh
    · rw [if_pos (by omega), Option.some.injEq]
      omega
    · rw [if_neg (by omega), if_pos (by omega), Option.some.injEq]
      omega
    · rw [if_neg (by omega), if_neg (by omega), if_pos (by omega), Option.some.injEq]
      omega

end Ascii

namespace Json

/-! ## Hexadecimal numbers -/

theorem Scans.unique {α : Type}
    {scan : (t : Text) → Except Failure (α × { rest : Text // rest.length ≤ t.length })} {t : Text} {a a' : α}
    {rest rest' : Text} (h : Scans scan t a rest) (h' : Scans scan t a' rest') : a = a' ∧ rest = rest' := by
  obtain ⟨_, h⟩ := h
  obtain ⟨_, h'⟩ := h'
  have hpair := Prod.mk.inj (Except.ok.inj (h.symm.trans h'))
  exact ⟨hpair.1, congrArg Subtype.val hpair.2⟩

/-- The lower-case hexadecimal digits of a number, as many as are asked for. -/
def hexText : (count : Nat) → Nat → Text
  | 0, _ => []
  | count + 1, n => hexDigit (n / 16 ^ count % 16) :: hexText count n

/-- The last digits do not depend on what is before them. -/
theorem hexText_add_mul (count d n : Nat) : hexText count (d * 16 ^ count + n) = hexText count n := by
  induction count generalizing d with
  | zero => rfl
  | succ count ih =>
    have hsplit : d * 16 ^ (count + 1) + n = d * 16 * 16 ^ count + n := by rw [Nat.pow_succ', Nat.mul_assoc]
    have hpow : 0 < 16 ^ count := Nat.pow_pos (by decide)
    rw [hexText, hexText, hsplit, ih, Nat.mul_comm (d * 16), Nat.mul_add_div hpow, Nat.add_comm (d * 16),
      Nat.add_mul_mod_self_right]

/-- Digits in either case are read as their number, behind the value that was read before them. -/
theorem scans_hexDigits {count n : Nat} {digits : Text} (h : digits.toLower = hexText count n) (value : Nat)
    (t : Text) :
    Scans (hexDigits value count) (digits ++ t) (value * 16 ^ count + n % 16 ^ count) t := by
  induction count generalizing digits value with
  | zero =>
    obtain rfl : digits = [] := List.map_eq_nil_iff.1 h
    rw [Nat.pow_zero, Nat.mul_one, Nat.mod_one, Nat.add_zero]
    exact ⟨Nat.le_refl _, rfl⟩
  | succ count ih =>
    obtain ⟨c, digits, rfl, hc, hdigits⟩ := List.map_eq_cons_iff.1 h
    have hvalue := hexValue?_eq_some_iff.2 ⟨Nat.mod_lt _ (by decide), hc⟩
    have hsum : (16 * value + n / 16 ^ count % 16) * 16 ^ count + n % 16 ^ count =
        value * 16 ^ (count + 1) + n % 16 ^ (count + 1) := by
      rw [Nat.mod_pow_succ]
      ring
    obtain ⟨hle, hread⟩ := ih hdigits (16 * value + n / 16 ^ count % 16)
    refine ⟨Nat.le_succ_of_le hle, ?_⟩
    show hexDigits value (count + 1) (c :: (digits ++ t)) = _
    simp only [hexDigits, hvalue, hread, hsum]

/-- What is read as a number is its digits in either case. -/
theorem Scans.exists_digits {count value m : Nat} {t left : Text} (h : Scans (hexDigits value count) t m left) :
    ∃ digits n, n < 16 ^ count ∧ t = digits ++ left ∧ digits.toLower = hexText count n ∧
      m = value * 16 ^ count + n := by
  induction count generalizing value m t with
  | zero =>
    obtain ⟨_, h⟩ := h
    cases h
    exact ⟨[], 0, Nat.one_pos, rfl, rfl, by rw [Nat.pow_zero, Nat.mul_one, Nat.add_zero]⟩
  | succ count ih =>
    obtain ⟨hle, h⟩ := h
    cases t with
    | nil => cases h
    | cons c t =>
      rw [hexDigits] at h
      split at h
      · cases h
      · next d hd =>
        split at h
        · cases h
        · next n' left' hleft hread =>
          obtain ⟨rfl, hsame⟩ := Prod.mk.inj (Except.ok.inj h)
          obtain rfl : left' = left := congrArg Subtype.val hsame
          obtain ⟨digits, n, hn, ht, hdigits, rfl⟩ := ih ⟨hleft, hread⟩
          obtain ⟨hlt, hc⟩ := hexValue?_eq_some_iff.1 hd
          have hpow : 0 < 16 ^ count := Nat.pow_pos (by decide)
          refine ⟨c :: digits, d * 16 ^ count + n, ?_, congrArg (c :: ·) ht, ?_, by ring⟩
          · calc d * 16 ^ count + n < d * 16 ^ count + 16 ^ count := Nat.add_lt_add_left hn _
              _ = (d + 1) * 16 ^ count := (Nat.succ_mul d _).symm
              _ ≤ 16 * 16 ^ count := Nat.mul_le_mul_right _ hlt
              _ = 16 ^ (count + 1) := (Nat.pow_succ' ..).symm
          · have hdigit : (d * 16 ^ count + n) / 16 ^ count % 16 = d := by
              rw [Nat.mul_comm, Nat.mul_add_div hpow, Nat.div_eq_of_lt hn, Nat.add_zero, Nat.mod_eq_of_lt hlt]
            rw [hexText, hdigit, hexText_add_mul, ← hc, ← hdigits]
            rfl

/-! ## Escapes -/

/-- A code unit as an escape of four hexadecimal digits, in either case. -/
structure UnitEscape where
  unit : Nat
  digits : Text
  unit_lt : unit < 16 ^ 4
  toLower_digits : digits.toLower = hexText 4 unit

namespace UnitEscape

def text (e : UnitEscape) : Text := backslash :: 0x75 :: e.digits

/-- Whether the unit is the first of a surrogate pair. -/
def IsHigh (e : UnitEscape) : Prop := 0xD800 ≤ e.unit ∧ e.unit ≤ 0xDBFF

/-- Whether the unit is the second of a surrogate pair. -/
def IsLow (e : UnitEscape) : Prop := 0xDC00 ≤ e.unit ∧ e.unit ≤ 0xDFFF

theorem IsHigh.not_isLow {e : UnitEscape} (h : e.IsHigh) : ¬e.IsLow := by
  intro hlow
  have := h.2
  have := hlow.1
  omega

theorem scans_digits (e : UnitEscape) (t : Text) : Scans (hexDigits 0 4) (e.digits ++ t) e.unit t := by
  have hscan := scans_hexDigits e.toLower_digits 0 t
  rwa [Nat.zero_mul, Nat.zero_add, Nat.mod_eq_of_lt e.unit_lt] at hscan

/-- There is one escape at the front of a text. -/
theorem text_append_inj {e e' : UnitEscape} {t t' : Text} (h : e.text ++ t = e'.text ++ t') :
    e.unit = e'.unit ∧ t = t' := by
  have hdigits : e.digits ++ t = e'.digits ++ t' := (List.cons.inj (List.cons.inj h).2).2
  have hscan := e.scans_digits t
  rw [hdigits] at hscan
  exact hscan.unique (e'.scans_digits t')

/-- Four digits that are read are those of an escape. -/
theorem exists_of_scans {t left : Text} {n : Nat} (h : Scans (hexDigits 0 4) t n left) :
    ∃ e : UnitEscape, e.unit = n ∧ t = e.digits ++ left := by
  obtain ⟨digits, n, hn, ht, hdigits, rfl⟩ := h.exists_digits
  exact ⟨⟨n, digits, hn, hdigits⟩, by rw [Nat.zero_mul, Nat.zero_add], ht⟩

/-! ## Code points -/

/-- A unit that is no surrogate is a code point. -/
theorem scans_unit {e : UnitEscape} (hhigh : ¬e.IsHigh) (hlow : ¬e.IsLow) (t : Text) :
    Scans unicodeEscape (e.digits ++ t) e.unit t := by
  obtain ⟨hle, hread⟩ := e.scans_digits t
  refine ⟨hle, ?_⟩
  simp only [unicodeEscape, hread]
  rw [IsHigh] at hhigh
  rw [IsLow] at hlow
  rw [if_neg hhigh, if_neg hlow]

/-- Two surrogates are a code point. -/
theorem scans_pair {high low : UnitEscape} (hhigh : high.IsHigh) (hlow : low.IsLow) (t : Text) :
    Scans unicodeEscape (high.digits ++ (low.text ++ t)) (combineSurrogates high.unit low.unit) t := by
  obtain ⟨hle, hread⟩ := high.scans_digits (backslash :: 0x75 :: (low.digits ++ t))
  obtain ⟨hshort, hread'⟩ := low.scans_digits t
  refine ⟨Nat.le_trans (Nat.le_succ_of_le (Nat.le_succ_of_le hshort)) hle, ?_⟩
  show unicodeEscape (high.digits ++ backslash :: 0x75 :: (low.digits ++ t)) = _
  rw [IsHigh] at hhigh
  rw [IsLow] at hlow
  simp only [unicodeEscape, hread, hread']
  rw [if_pos hhigh, if_pos hlow]
  rfl

theorem unicodeEscape_low {low : UnitEscape} (hlow : low.IsLow) (t : Text) :
    ∃ failure, unicodeEscape (low.digits ++ t) = .error failure := by
  obtain ⟨hle, hread⟩ := low.scans_digits t
  have hhigh : ¬low.IsHigh := fun hhigh => hhigh.not_isLow hlow
  refine ⟨⟨.loneLowSurrogate, t⟩, ?_⟩
  simp only [unicodeEscape, hread]
  rw [IsHigh] at hhigh
  rw [IsLow] at hlow
  rw [if_neg hhigh, if_pos hlow]

theorem unicodeEscape_high {high : UnitEscape} (hhigh : high.IsHigh) {t : Text}
    (ht : ∀ low : UnitEscape, low.IsLow → ∀ more, t ≠ low.text ++ more) :
    ∃ failure, unicodeEscape (high.digits ++ t) = .error failure := by
  obtain ⟨hle, hread⟩ := high.scans_digits t
  simp only [unicodeEscape, hread]
  rw [IsHigh] at hhigh
  rw [if_pos hhigh]
  split
  · next rest h =>
    cases hdigits : hexDigits 0 4 rest with
    | error failure => exact ⟨failure, rfl⟩
    | ok result =>
      obtain ⟨n, left, hleft⟩ := result
      obtain ⟨low, rfl, hrest⟩ := exists_of_scans ⟨hleft, hdigits⟩
      refine ⟨⟨.invalidLowSurrogate, left⟩, if_neg fun hlow => ?_⟩
      exact ht low hlow left (congrArg (fun rest => backslash :: 0x75 :: rest) hrest)
  · exact ⟨_, rfl⟩
  · exact ⟨_, rfl⟩

end UnitEscape

/-! ## Literals -/

/-- The code units of a character: one, or the two of a surrogate pair. -/
def utf16 (c : Char) : List Nat :=
  if c.toNat < 0x10000 then [c.toNat]
  else [0xD800 + (c.toNat - 0x10000) / 0x400, 0xDC00 + (c.toNat - 0x10000) % 0x400]

/-- A literal of escapes. -/
def unitLiteral (escapes : List UnitEscape) : Text :=
  doubleQuote :: (escapes.flatMap UnitEscape.text ++ [doubleQuote])

/-- The two halves of a code point above the first plane. -/
theorem combineSurrogates_halves {n : Nat} (h : 0x10000 ≤ n) :
    combineSurrogates (0xD800 + (n - 0x10000) / 0x400) (0xDC00 + (n - 0x10000) % 0x400) = n := by
  unfold combineSurrogates
  omega

theorem toNat_lt_or (c : Char) : c.toNat < 0xD800 ∨ 0xDFFF < c.toNat ∧ c.toNat < 0x110000 := c.valid

theorem ofCodePoint_toNat (c : Char) : Text.ofCodePoint c.toNat = String.utf8EncodeChar c := by
  have hvalid := toNat_lt_or c
  have hval : c.val.toNat = c.toNat := rfl
  simp only [Text.ofCodePoint, String.utf8EncodeChar, hval]
  generalize c.toNat = n at hvalid
  split_ifs
  · rfl
  · have hhigh : 0xC0 + n / 0x40 = n / 64 % 32 + 192 := by omega
    have hlow : 0x80 + n % 0x40 = n % 64 + 128 := by omega
    rw [hhigh, hlow]
  · have hhigh : 0xE0 + n / 0x1000 = n / 4096 % 16 + 224 := by omega
    have hmid : 0x80 + n / 0x40 % 0x40 = n / 64 % 64 + 128 := by omega
    have hlow : 0x80 + n % 0x40 = n % 64 + 128 := by omega
    rw [hhigh, hmid, hlow]
  · have hhigh : 0xF0 + n / 0x40000 = n / 262144 % 8 + 240 := by omega
    have hupper : 0x80 + n / 0x1000 % 0x40 = n / 4096 % 64 + 128 := by omega
    have hmid : 0x80 + n / 0x40 % 0x40 = n / 64 % 64 + 128 := by omega
    have hlow : 0x80 + n % 0x40 = n % 64 + 128 := by omega
    rw [hhigh, hupper, hmid, hlow]

theorem utf8Encode_eq (cs : List Char) :
    Text.ofString (String.ofList cs) = cs.flatMap String.utf8EncodeChar := by
  rw [Text.ofString, String.toUTF8_eq_toByteArray, String.toByteArray_ofList, List.utf8Encode, List.data_toByteArray]

/-- The escapes of a character are read as its UTF-8 form. -/
theorem stringBody_utf16 {start read t : Text} {c : Char} {escapes : List UnitEscape}
    (hunits : escapes.map (·.unit) = utf16 c)
    (h : (escapes.flatMap UnitEscape.text ++ t).length ≤ start.length) (h' : t.length ≤ start.length) :
    stringBody start read (escapes.flatMap UnitEscape.text ++ t) h =
      stringBody start ((String.utf8EncodeChar c).reverse ++ read) t h' := by
  have hvalid := toNat_lt_or c
  rw [← ofCodePoint_toNat]
  revert h
  rw [utf16] at hunits
  split at hunits
  · next hone =>
    simp only [List.map_eq_cons_iff, List.map_eq_nil_iff] at hunits
    obtain ⟨e, _, rfl, hunit, rfl⟩ := hunits
    have hhigh : ¬e.IsHigh := by
      rw [UnitEscape.IsHigh, hunit]
      omega
    have hlow : ¬e.IsLow := by
      rw [UnitEscape.IsLow, hunit]
      omega
    have hscan := UnitEscape.scans_unit hhigh hlow t
    rw [hunit] at hscan
    rw [List.flatMap_singleton]
    exact fun h => stringBody_unicode hscan h h'
  · next hpair =>
    simp only [List.map_eq_cons_iff, List.map_eq_nil_iff] at hunits
    obtain ⟨high, _, rfl, hunit, low, _, rfl, hunit', rfl⟩ := hunits
    have hhigh : high.IsHigh := by
      rw [UnitEscape.IsHigh, hunit]
      omega
    have hlow : low.IsLow := by
      rw [UnitEscape.IsLow, hunit']
      omega
    have hscan := UnitEscape.scans_pair hhigh hlow t
    rw [hunit, hunit', combineSurrogates_halves (Nat.not_lt.1 hpair)] at hscan
    rw [List.flatMap_cons, List.flatMap_singleton, List.append_assoc]
    exact fun h => stringBody_unicode hscan h h'

theorem stringBody_unitLiteral {start read t : Text} {cs : List Char} {escapes : List UnitEscape}
    (hunits : escapes.map (·.unit) = cs.flatMap utf16)
    (h : (escapes.flatMap UnitEscape.text ++ doubleQuote :: t).length ≤ start.length) :
    ∃ hrest, stringBody start read (escapes.flatMap UnitEscape.text ++ doubleQuote :: t) h =
      .ok (read.reverse ++ cs.flatMap String.utf8EncodeChar, ⟨t, hrest⟩) := by
  induction cs generalizing escapes read with
  | nil =>
    obtain rfl : escapes = [] := List.map_eq_nil_iff.1 hunits
    refine ⟨h, (stringBody_quote h).trans ?_⟩
    rw [List.flatMap_nil, List.append_nil]
  | cons c cs ih =>
    obtain ⟨first, others, rfl, hfirst, hothers⟩ := List.map_eq_append_iff.1 hunits
    revert h
    rw [List.flatMap_append, List.append_assoc]
    intro h
    have h' : (others.flatMap UnitEscape.text ++ doubleQuote :: t).length ≤ start.length := by
      rw [List.length_append] at h
      omega
    rw [stringBody_utf16 hfirst h h']
    obtain ⟨hrest, heq⟩ := @ih ((String.utf8EncodeChar c).reverse ++ read) others hothers h'
    refine ⟨hrest, ?_⟩
    rw [heq, List.reverse_append, List.reverse_reverse, List.flatMap_cons, List.append_assoc]

/-- A literal of the escapes of characters is read as their UTF-8 form. -/
theorem reads_unitLiteral {cs : List Char} {escapes : List UnitEscape}
    (hunits : escapes.map (·.unit) = cs.flatMap utf16) (rest : Text) :
    Reads readString (unitLiteral escapes ++ rest) (Text.ofString (String.ofList cs)) rest := by
  have hliteral : unitLiteral escapes ++ rest =
      doubleQuote :: (escapes.flatMap UnitEscape.text ++ doubleQuote :: rest) := by
    rw [unitLiteral, List.cons_append, List.append_assoc, List.singleton_append]
  rw [hliteral, utf8Encode_eq]
  exact stringBody_unitLiteral hunits _

/-! ## Surrogates without a partner -/

/-- A piece of a string: a byte as it is, an escape of one letter, or the escape of a code unit. -/
inductive Piece where
  | byte (c : UInt8) (ne_quote : c ≠ doubleQuote) (ne_backslash : c ≠ backslash)
  | letter (c : UInt8) (ne_unit : c ≠ 0x75)
  | unit (e : UnitEscape)

def Piece.text : Piece → Text
  | .byte c _ _ => [c]
  | .letter c _ => [backslash, c]
  | .unit e => e.text

/-- Whether a text that follows the opening quote of a string has, behind some pieces, a high surrogate that no low
one follows directly, or a low surrogate that no high one precedes directly. -/
inductive Unpaired : Text → Prop
  | high (pieces : List Piece) (e : UnitEscape) (rest : Text) (hhigh : e.IsHigh)
      (hrest : ∀ low : UnitEscape, low.IsLow → ∀ more, rest ≠ low.text ++ more) :
      Unpaired (pieces.flatMap Piece.text ++ (e.text ++ rest))
  | low (pieces : List Piece) (e : UnitEscape) (rest : Text) (hlow : e.IsLow)
      (hpieces : ∀ high : UnitEscape, high.IsHigh → pieces.getLast? ≠ some (.unit high)) :
      Unpaired (pieces.flatMap Piece.text ++ (e.text ++ rest))

theorem stringBody_unicode_error {start read t : Text} {failure : Failure}
    (hfail : unicodeEscape t = .error failure) (h : (backslash :: 0x75 :: t).length ≤ start.length) :
    stringBody start read (backslash :: 0x75 :: t) h = .error failure := by
  rw [stringBody, if_neg (by decide), if_neg (by decide), if_neg (by decide)]
  simp only [show simpleEscape? 0x75 = none by decide, hfail]
  rfl

/-- Whether a text does not end as the body of a string. -/
def Endless (t : Text) : Prop :=
  ∀ start read h, ∃ failure, stringBody start read t h = .error failure

namespace Endless

theorem byte {t : Text} (ht : Endless t) {c : UInt8} (hquote : c ≠ doubleQuote) (hbackslash : c ≠ backslash) :
    Endless (c :: t) := by
  intro start read h
  by_cases hcontrol : c < 0x20
  · refine ⟨⟨.controlByte, t⟩, ?_⟩
    rw [stringBody.eq_def]
    dsimp only
    rw [if_neg hquote, if_pos hcontrol]
  · rw [stringBody_plain (Nat.le_of_lt h) h hquote hcontrol hbackslash]
    exact ht start _ _

theorem letter {t : Text} (ht : Endless t) {c : UInt8} (hunit : c ≠ 0x75) : Endless (backslash :: c :: t) := by
  intro start read h
  cases hbyte : simpleEscape? c with
  | some b =>
    rw [stringBody_letter (Nat.le_of_lt (Nat.lt_of_succ_lt h)) h hbyte]
    exact ht start _ _
  | none =>
    refine ⟨⟨.invalidEscape, t⟩, ?_⟩
    rw [stringBody, if_neg (by decide), if_neg (by decide), if_neg (by decide)]
    simp only [hbyte]
    exact if_neg hunit

/-- The escape of a low surrogate, without a high one before it. -/
theorem low {e : UnitEscape} (hlow : e.IsLow) (t : Text) : Endless (e.text ++ t) := by
  intro start read h
  obtain ⟨failure, hfail⟩ := UnitEscape.unicodeEscape_low hlow t
  exact ⟨failure, stringBody_unicode_error hfail h⟩

/-- The escape of a high surrogate, if what follows the low one behind it does not end. -/
theorem high {e : UnitEscape} (hhigh : e.IsHigh) {t : Text}
    (ht : ∀ low : UnitEscape, low.IsLow → ∀ more, t = low.text ++ more → Endless more) :
    Endless (e.text ++ t) := by
  intro start read h
  by_cases hpair : ∃ low : UnitEscape, low.IsLow ∧ ∃ more, t = low.text ++ more
  · obtain ⟨low, hlow, more, rfl⟩ := hpair
    have hmore : more.length ≤ start.length := by
      simp only [List.length_append] at h
      omega
    have hread : stringBody start read (e.text ++ (low.text ++ more)) h = stringBody start _ more hmore :=
      stringBody_unicode (UnitEscape.scans_pair hhigh hlow more) h hmore
    rw [hread]
    exact ht low hlow more rfl start _ hmore
  · obtain ⟨failure, hfail⟩ := UnitEscape.unicodeEscape_high hhigh
      fun low hlow more heq => hpair ⟨low, hlow, more, heq⟩
    exact ⟨failure, stringBody_unicode_error hfail h⟩

theorem unit {t : Text} (ht : Endless t) {e : UnitEscape} (hhigh : ¬e.IsHigh) : Endless (e.text ++ t) := by
  by_cases hlow : e.IsLow
  · exact low hlow t
  · intro start read h
    have hmore : t.length ≤ start.length := by
      rw [List.length_append] at h
      omega
    have hread : stringBody start read (e.text ++ t) h = stringBody start _ t hmore :=
      stringBody_unicode (UnitEscape.scans_unit hhigh hlow t) h hmore
    rw [hread]
    exact ht start _ hmore

end Endless

/-- A low surrogate at the front of pieces is the first of them. -/
theorem Piece.eq_of_text_append {p : Piece} {low : UnitEscape} {t more : Text}
    (h : p.text ++ t = low.text ++ more) : ∃ e : UnitEscape, p = .unit e ∧ e.unit = low.unit ∧ t = more := by
  cases p with
  | byte c _ hbackslash => exact absurd (List.cons.inj h).1 hbackslash
  | letter c hunit => exact absurd (List.cons.inj (List.cons.inj h).2).1 hunit
  | unit e =>
    obtain ⟨hsame, hrest⟩ := UnitEscape.text_append_inj h
    exact ⟨e, rfl, hsame, hrest⟩

/-- Pieces before a text that does not end do not help it, unless the last of them makes a pair with its front. -/
theorem endless_pieces {t : Text} (ht : Endless t) {pieces : List Piece}
    (hlast : ∀ high : UnitEscape, high.IsHigh → pieces.getLast? = some (.unit high) →
      ∀ low : UnitEscape, low.IsLow → ∀ more, t ≠ low.text ++ more) :
    Endless (pieces.flatMap Piece.text ++ t) := by
  -- A pair of surrogates is read at one go, so that the induction takes two pieces at a time.
  induction pieces using List.twoStepInduction with
  | nil => exact ht
  | singleton p =>
    rw [List.flatMap_singleton]
    cases p with
    | byte c hquote hbackslash => exact ht.byte hquote hbackslash
    | letter c hunit => exact ht.letter hunit
    | unit e =>
      by_cases hhigh : e.IsHigh
      · exact .high hhigh fun low hlow more heq => absurd heq (hlast e hhigh rfl low hlow more)
      · exact ht.unit hhigh
  | cons_cons p q pieces ihtwo ihone =>
    have hrest : Endless ((q :: pieces).flatMap Piece.text ++ t) := by
      apply ihone q
      intro high hhigh hlast'
      exact hlast high hhigh (List.getLast?_cons_cons.trans hlast')
    rw [List.flatMap_cons, List.append_assoc]
    cases p with
    | byte c hquote hbackslash => exact hrest.byte hquote hbackslash
    | letter c hunit => exact hrest.letter hunit
    | unit e =>
      by_cases hhigh : e.IsHigh
      · refine .high hhigh fun low hlow more heq => ?_
        rw [List.flatMap_cons, List.append_assoc] at heq
        obtain ⟨e', rfl, -, rfl⟩ := Piece.eq_of_text_append heq
        apply ihtwo
        intro high hhigh' hlast'
        cases pieces with
        | nil => cases hlast'
        | cons r pieces =>
          rw [List.getLast?_cons_cons, List.getLast?_cons_cons] at hlast
          exact hlast high hhigh' hlast'
      · exact hrest.unit hhigh

/-- A text in which a surrogate has no partner beside it does not end as a string. -/
theorem refuses_unpaired {t : Text} (h : Unpaired t) : Refuses readString (doubleQuote :: t) := by
  have hendless : Endless t := by
    cases h with
    | high pieces e rest hhigh hrest =>
      apply endless_pieces
      · exact .high hhigh fun low hlow more heq => absurd heq (hrest low hlow more)
      · intro _ _ _ low hlow more heq
        obtain ⟨hsame, -⟩ := UnitEscape.text_append_inj heq
        exact (UnitEscape.IsHigh.not_isLow hhigh) (by rwa [UnitEscape.IsLow, hsame])
    | low pieces e rest hlow hpieces =>
      apply endless_pieces (.low hlow rest)
      intro high hhigh hlast
      exact absurd hlast (hpieces high hhigh)
  exact hendless _ _ _

/-! ## Whole texts -/

theorem parse_of_refuses {before t : Text} (hbefore : Blank before) (h : Refuses readString (doubleQuote :: t)) :
    ∃ failure, parse (before ++ doubleQuote :: t) = .error failure := by
  obtain ⟨failure, hfail⟩ := h
  refine ⟨failure, ?_⟩
  have hvalue : readValue (maxDepth + 1) (doubleQuote :: t) = .error failure := by
    show (readString (doubleQuote :: t)).map _ = _
    rw [hfail]
    rfl
  rw [← trimLeft_blank_cons hbefore (by decide)] at hvalue
  rw [parse]
  simp only [hvalue]

/-- A literal that writes the code units of characters as escapes, in either case of the digits, is read as the
UTF-8 form of the characters, as a text of its own and wherever a string is read; with a surrogate that has no
partner beside it there is no such string. -/
theorem unitEscapes_decode :
    (∀ (cs : List Char) (escapes : List UnitEscape), escapes.map (·.unit) = cs.flatMap utf16 →
      (∀ before after, Blank before → Blank after →
        parse (before ++ (unitLiteral escapes ++ after)) = .ok (.string (Text.ofString (String.ofList cs)))) ∧
      ∀ rest, Reads readString (unitLiteral escapes ++ rest) (Text.ofString (String.ofList cs)) rest) ∧
    ∀ t, Unpaired t →
      (∀ before, Blank before → ∃ failure, parse (before ++ doubleQuote :: t) = .error failure) ∧
      Refuses readString (doubleQuote :: t) := by
  constructor
  · intro cs escapes hunits
    have hwritten : Written (.string (Text.ofString (String.ofList cs))) (unitLiteral escapes) :=
      .literal (reads_unitLiteral hunits)
    refine ⟨?_, reads_unitLiteral hunits⟩
    intro before after hbefore hafter
    have hwithin : Within (maxDepth + 1) (.string (Text.ofString (String.ofList cs))) :=
      within_of_leaf (by simp) (by simp)
    exact (parse_of_follows hwritten hbefore (by simp [Follows])).1 ⟨hwithin, hafter⟩
  · intro t hunpaired
    have hrefuses := refuses_unpaired hunpaired
    exact ⟨fun before hbefore => parse_of_refuses hbefore hrefuses, hrefuses⟩

/-- The escapes of U+00E9 and U+1F600, with digits in both cases. -/
def sampleEscapes : List UnitEscape :=
  [⟨0xE9, "00E9", by decide, by decide⟩, ⟨0xD83D, "d83D", by decide, by decide⟩,
    ⟨0xDE00, "De00", by decide, by decide⟩]

theorem unitEscapes_decode_sample :
    parse " \"\\u00E9\\ud83D\\uDe00\"" =
        .ok (.string (Text.ofString (String.ofList [Char.ofNat 0xE9, Char.ofNat 0x1F600]))) ∧
      ∃ failure, parse "\n\"a\\ud83D!\"" = .error failure := by
  have hunits : sampleEscapes.map (·.unit) = [Char.ofNat 0xE9, Char.ofNat 0x1F600].flatMap utf16 := by decide
  have hunpaired : Unpaired "a\\ud83D!\"" := by
    apply Unpaired.high [.byte 0x61 (by decide) (by decide)] ⟨0xD83D, "d83D", by decide, by decide⟩ "!\""
    · exact ⟨by decide, by decide⟩
    · intro low _ more heq
      exact absurd (List.cons.inj heq).1 (by decide)
  exact ⟨((unitEscapes_decode.1 _ _ hunits).1 " " [] (by decide) (by decide)),
    (unitEscapes_decode.2 _ hunpaired).1 "\n" (by decide)⟩

end Json

end TradeReentry
