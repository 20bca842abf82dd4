import TradeReentry.Json.Reader
import TradeReentry.Proofs.Decimal.Cells

/-!
# Strings, words and numbers read back

A reader takes the quoted form of any text off the front of what follows it (`reads_quote`), and a plain
decimal numeral as the number nearest to it, unless a byte that continues a number comes next (`reads_text`).
The numeral of an integer of magnitude at most 2^53 is read as the integer (`reads_ofInt`).
-/

namespace TradeReentry.Json

open Ascii

/-! ## Readers -/

/-- Whether a reader takes something off the front of a text and leaves the rest. -/
def Reads {α : Type} (reader : Reader α) (t : Text) (a : α) (rest : Text) : Prop :=
  ∃ h, reader t = .ok (a, ⟨rest, h⟩)

/-- Whether a reader finds nothing to take. -/
def Refuses {α : Type} (reader : Reader α) (t : Text) : Prop := ∃ failure, reader t = .error failure

/-- Whether what may take nothing gives a result off the front of a text and leaves the rest. -/
def Scans {α : Type} (scan : (t : Text) → Except Failure (α × { rest : Text // rest.length ≤ t.length }))
    (t : Text) (a : α) (rest : Text) : Prop :=
  ∃ h, scan t = .ok (a, ⟨rest, h⟩)

/-! ## Strings -/

section Body

variable {start read t : Text} (h : t.length ≤ start.length)

theorem stringBody_quote (hend : (doubleQuote :: t).length ≤ start.length) :
    stringBody start read (doubleQuote :: t) hend = .ok (read.reverse, ⟨t, hend⟩) := by
  rw [stringBody.eq_def]
  exact if_pos rfl

theorem stringBody_plain {c : UInt8} (hc : (c :: t).length ≤ start.length) (hquote : c ≠ doubleQuote)
    (hcontrol : ¬c < 0x20) (hbackslash : c ≠ backslash) :
    stringBody start read (c :: t) hc = stringBody start (c :: read) t h := by
  rw [stringBody.eq_def]
  dsimp only
  rw [if_neg hquote, if_neg hcontrol, if_pos hbackslash]

theorem stringBody_letter {letter byte : UInt8}
    (hl : (backslash :: letter :: t).length ≤ start.length) (hbyte : simpleEscape? letter = some byte) :
    stringBody start read (backslash :: letter :: t) hl = stringBody start (byte :: read) t h := by
  rw [stringBody, if_neg (by decide), if_neg (by decide), if_neg (by decide)]
  simp only [hbyte]

/-- The escape of a code point is read as its UTF-8 form. -/
theorem stringBody_unicode {n : Nat} {left : Text} (hscan : Scans unicodeEscape t n left)
    (hu : (backslash :: 0x75 :: t).length ≤ start.length) (hleft : left.length ≤ start.length) :
    stringBody start read (backslash :: 0x75 :: t) hu =
      stringBody start ((Text.ofCodePoint n).reverse ++ read) left hleft := by
  obtain ⟨hle, hscan⟩ := hscan
  rw [stringBody, if_neg (by decide), if_neg (by decide), if_neg (by decide)]
  simp only [show simpleEscape? 0x75 = none by decide, hscan]
  rfl

end Body

/-- The escape of a control byte stands for the byte. -/
theorem scans_control {c : UInt8} (hc : c < 0x20) (t : Text) :
    Scans unicodeEscape (0x30 :: 0x30 :: hexDigit (c.toNat / 16) :: hexDigit (c.toNat % 16) :: t) c.toNat t := by
  have hsmall : c.toNat < 32 := hc
  have hhigh := hexValue?_hexDigit (c.toNat / 16) (by omega)
  have hlow := hexValue?_hexDigit (c.toNat % 16) (by omega)
  have hzero : hexValue? 0x30 = some 0 := by decide
  refine ⟨by simp; omega, ?_⟩
  rw [unicodeEscape]
  simp only [hexDigits, hzero, hhigh, hlow]
  have hvalue : 16 * (16 * (16 * (16 * 0 + 0) + 0) + c.toNat / 16) + c.toNat % 16 = c.toNat := by omega
  simp only [hvalue]
  rw [if_neg (by omega), if_neg (by omega)]

theorem ofCodePoint_control {c : UInt8} (hc : c < 0x20) : Text.ofCodePoint c.toNat = [c] := by
  have hsmall : c.toNat < 32 := hc
  rw [Text.ofCodePoint, if_pos (by omega), UInt8.ofNat_toNat]

theorem stringBody_control {start read t : Text} {c : UInt8} (hc : c < 0x20)
    (h' : t.length ≤ start.length)
    (h : (backslash :: 0x75 :: 0x30 :: 0x30 :: hexDigit (c.toNat / 16) :: hexDigit (c.toNat % 16) ::
      t).length ≤ start.length) :
    stringBody start read (backslash :: 0x75 :: 0x30 :: 0x30 :: hexDigit (c.toNat / 16) ::
      hexDigit (c.toNat % 16) :: t) h = stringBody start (c :: read) t h' := by
  rw [stringBody_unicode (scans_control hc t) h h', ofCodePoint_control hc]
  rfl

/-- The escaped form of a byte is read as the byte. -/
theorem stringBody_escape {start read t : Text} (c : UInt8) (h : (escape c ++ t).length ≤ start.length)
    (h' : t.length ≤ start.length) :
    stringBody start read (escape c ++ t) h = stringBody start (c :: read) t h' := by
  revert h
  unfold escape
  split
  · exact fun h => stringBody_letter h' h (by decide)
  · exact fun h => stringBody_letter h' h (by decide)
  · exact fun h => stringBody_letter h' h (by decide)
  · exact fun h => stringBody_letter h' h (by decide)
  · exact fun h => stringBody_letter h' h (by decide)
  · next hquote hbackslash _ _ _ =>
    split
    · next hcontrol => exact fun h => stringBody_control hcontrol h' h
    · next hcontrol => exact fun h => stringBody_plain h' h hquote hcontrol hbackslash

theorem stringBody_flatMap_escape {start read t : Text} (s : Text)
    (h : (s.flatMap escape ++ doubleQuote :: t).length ≤ start.length) :
    ∃ hrest, stringBody start read (s.flatMap escape ++ doubleQuote :: t) h =
      .ok (read.reverse ++ s, ⟨t, hrest⟩) := by
  induction s generalizing read with
  | nil =>
    refine ⟨h, ?_⟩
    rw [List.append_nil]
    exact stringBody_quote h
  | cons c s ih =>
    revert h
    rw [List.flatMap_cons, List.append_assoc]
    intro h
    have hrest : (s.flatMap escape ++ doubleQuote :: t).length ≤ start.length := by
      rw [List.length_append] at h
      omega
    rw [stringBody_escape c h hrest]
    obtain ⟨hleft, heq⟩ := @ih (c :: read) hrest
    exact ⟨hleft, by rw [heq, List.reverse_cons, List.append_assoc, List.singleton_append]⟩

/-- The quoted form of a text is read as the text, whatever follows it. -/
theorem reads_quote (s rest : Text) : Reads readString (quote s ++ rest) s rest := by
  have hquote : quote s ++ rest = doubleQuote :: (s.flatMap escape ++ doubleQuote :: rest) := by
    simp [quote]
  rw [hquote]
  exact stringBody_flatMap_escape s _

/-! ## Words -/

theorem reads_literal {word : Text} {value : Json} (h : 0 < word.length) (rest : Text) :
    Reads (readLiteral word value h) (word ++ rest) value rest := by
  refine ⟨by simpa using h, ?_⟩
  rw [readLiteral, dif_pos (List.prefix_append word rest)]
  simp only [List.drop_left]

/-! ## Numbers -/

/-- Whether a text does not go on with a number. -/
def Apart (rest : Text) : Prop :=
  ∀ c, rest.head? = some c → isDigit c = false ∧ c ≠ dot ∧ Ascii.toLower c ≠ 0x65

theorem apart_of_isSpace {c : UInt8} (h : isSpace c = true) (rest : Text) :
    Apart (c :: rest) := by
  rintro d hd
  obtain rfl : c = d := by simpa using hd
  have hle : c.toNat ≤ 32 := by
    simp only [isSpace, Bool.or_eq_true, decide_eq_true_eq, Bool.and_eq_true] at h
    rcases h with rfl | ⟨-, h⟩
    · decide
    · exact Nat.le_trans h (by decide)
  have hupper : isUpper c = false := by
    simp only [isUpper, Bool.and_eq_false_iff, decide_eq_false_iff_not, UInt8.le_iff_toNat_le]
    left
    show ¬65 ≤ c.toNat
    omega
  refine ⟨?_, ?_, ?_⟩
  · by_contra hdigit
    rw [Text.not_isSpace_of_isDigit (Bool.of_not_eq_false hdigit)] at h
    exact absurd h (by decide)
  · rintro rfl
    exact absurd h (by decide)
  · rw [Ascii.toLower, hupper, if_neg Bool.false_ne_true]
    rintro rfl
    exact absurd h (by decide)

theorem reads_digits {cause : SyntaxError} {t rest : Text} (hne : t ≠ [])
    (ht : ∀ c ∈ t, isDigit c = true) (hrest : ∀ c, rest.head? = some c → isDigit c = false) :
    Reads (digits cause) (t ++ rest) t rest := by
  obtain ⟨htake, hdrop⟩ := Text.span_digits ht hrest
  have hpos := List.length_pos_iff.2 hne
  refine ⟨by rw [List.length_append]; omega, ?_⟩
  rw [digits, dif_neg (by rwa [htake])]
  simp only [htake, hdrop]

/-- The digits of a numeral and its places are read one after the other. -/
theorem reads_withPlaces (s : Spelling) {rest : Text} (hrest : Apart rest) :
    ∃ between, Reads (digits .number) (Text.withPlaces s.whole s.places ++ rest) s.whole between ∧
      ∃ h, fractionDigits between = .ok (s.places, ⟨rest, h⟩) := by
  rw [Text.withPlaces]
  split
  · next hnil =>
    refine ⟨rest, reads_digits s.whole_ne s.isDigit_whole fun c hc => (hrest c hc).1, Nat.le_refl _, ?_⟩
    rw [hnil]
    cases rest with
    | nil => rfl
    | cons c rest => exact if_neg (hrest c rfl).2.1
  · next hne =>
    have hdot : ∀ c, (dot :: (s.places ++ rest)).head? = some c → isDigit c = false := by
      intro c hc
      obtain rfl : dot = c := Option.some.inj hc
      decide
    have hfraction : Reads (digits .fraction) (s.places ++ rest) s.places rest :=
      reads_digits hne s.isDigit_places fun c hc => (hrest c hc).1
    obtain ⟨hle, hplaces⟩ := hfraction
    refine ⟨dot :: (s.places ++ rest), ?_, Nat.le_succ_of_le (Nat.le_of_lt hle), ?_⟩
    · rw [List.append_assoc]
      exact reads_digits s.whole_ne s.isDigit_whole hdot
    · rw [fractionDigits, if_pos rfl]
      simp only [hplaces]

theorem exponentPart_of_apart {rest : Text} (h : Apart rest) :
    ∃ hle, exponentPart rest = .ok (0, ⟨rest, hle⟩) := by
  refine ⟨Nat.le_refl _, ?_⟩
  cases rest with
  | nil => rfl
  | cons c rest => exact if_neg (h c rfl).2.2

/-- A plain decimal numeral in the range is read as the number nearest to it. -/
theorem reads_text {s : Spelling} (hrange : s.InRange) (hreaches : s.Reaches) {rest : Text}
    (hrest : Apart rest) : Reads readNumber (s.text ++ rest) s.nearest rest := by
  obtain ⟨hsign, hunsigned⟩ := s.head?_text
  obtain ⟨c, t, htext⟩ : ∃ c t, s.text = c :: t := by
    obtain ⟨c, t, ht, -⟩ := s.withPlaces_eq_cons
    rw [Spelling.text, ht]
    cases s.negative with
    | true => exact ⟨_, _, rfl⟩
    | false => exact ⟨_, _, rfl⟩
  have hbody : (if (s.text ++ rest).head? = some minus then (s.text ++ rest).tail else s.text ++ rest) =
      Text.withPlaces s.whole s.places ++ rest := by
    rw [← hunsigned, htext, List.cons_append, List.head?_cons, List.head?_cons]
    split <;> rfl
  have hnegative : decide ((s.text ++ rest).head? = some minus) = s.negative := by
    rw [Bool.eq_iff_iff, decide_eq_true_iff, ← hsign, htext]
    rfl
  obtain ⟨between, hdigits, hle, hfraction⟩ := reads_withPlaces s hrest
  rw [← hbody] at hdigits
  obtain ⟨hlt, hdigits⟩ := hdigits
  obtain ⟨_, hexponent⟩ := exponentPart_of_apart hrest
  have hshorter : rest.length < (s.text ++ rest).length := by
    rw [htext, List.length_append, List.length_cons]
    omega
  refine ⟨hshorter, ?_⟩
  have hvalue := Numeral.value?_spelling hrange hreaches
  rw [Spelling.scale, ← Int.zero_sub] at hvalue
  simp only [readNumber, hdigits, hfraction, hexponent, hnegative, hvalue]

/-- The numeral of an integer is read as the integer. -/
theorem reads_ofInt {i : Int} (h : i.natAbs ≤ 2 ^ 53) {rest : Text} (hrest : Apart rest) :
    Reads readNumber (Text.ofInt i ++ rest) (.ofInt i) rest := by
  have hrange : (Spelling.ofInt i).InRange := Spelling.inRange_ofInt (Nat.le_trans h (by decide))
  have hread := reads_text hrange (Spelling.reaches_of_scale_le (Nat.zero_le _)) hrest
  rwa [Spelling.text_ofInt, Spelling.nearest_ofInt] at hread

end TradeReentry.Json
