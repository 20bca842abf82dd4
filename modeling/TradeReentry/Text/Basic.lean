/-!
Texts as bytes.

Every text of this library is a list of bytes: lengths, columns, cuts and the order of names count
bytes, and nothing requires a text to be well-formed UTF-8. This module holds the type, the ASCII
character classes and the plain operations (trimming, splitting, joining, decimal numerals).
-/

namespace TradeReentry

/-- A text is the list of its bytes. -/
abbrev Text := List UInt8

namespace Text

/-- The UTF-8 bytes of a string. -/
def ofString (s : String) : Text := s.toUTF8.data.toList

instance : Coe String Text := ⟨ofString⟩

end Text

/-! ## ASCII bytes -/

namespace Ascii

@[match_pattern] abbrev newline : UInt8 := 0x0A
@[match_pattern] abbrev carriageReturn : UInt8 := 0x0D
@[match_pattern] abbrev space : UInt8 := 0x20
@[match_pattern] abbrev doubleQuote : UInt8 := 0x22
@[match_pattern] abbrev hash : UInt8 := 0x23
@[match_pattern] abbrev singleQuote : UInt8 := 0x27
@[match_pattern] abbrev star : UInt8 := 0x2A
@[match_pattern] abbrev plus : UInt8 := 0x2B
@[match_pattern] abbrev comma : UInt8 := 0x2C
@[match_pattern] abbrev minus : UInt8 := 0x2D
@[match_pattern] abbrev dot : UInt8 := 0x2E
@[match_pattern] abbrev slash : UInt8 := 0x2F
@[match_pattern] abbrev zero : UInt8 := 0x30
@[match_pattern] abbrev colon : UInt8 := 0x3A
@[match_pattern] abbrev openBracket : UInt8 := 0x5B
@[match_pattern] abbrev backslash : UInt8 := 0x5C
@[match_pattern] abbrev closeBracket : UInt8 := 0x5D
@[match_pattern] abbrev underscore : UInt8 := 0x5F
@[match_pattern] abbrev openBrace : UInt8 := 0x7B
@[match_pattern] abbrev bar : UInt8 := 0x7C
@[match_pattern] abbrev closeBrace : UInt8 := 0x7D

/-- White space is the space, tab, line feed, vertical tab, form feed or carriage return. -/
def isSpace (c : UInt8) : Bool := c = 0x20 || (0x09 ≤ c && c ≤ 0x0D)

def isDigit (c : UInt8) : Bool := 0x30 ≤ c && c ≤ 0x39

def isUpper (c : UInt8) : Bool := 0x41 ≤ c && c ≤ 0x5A

def isLower (c : UInt8) : Bool := 0x61 ≤ c && c ≤ 0x7A

def isAlnum (c : UInt8) : Bool := isDigit c || isUpper c || isLower c

def toUpper (c : UInt8) : UInt8 := if isLower c then c - 0x20 else c

def toLower (c : UInt8) : UInt8 := if isUpper c then c + 0x20 else c

/-- The number that a hexadecimal digit of either case stands for. -/
def hexValue? (c : UInt8) : Option Nat :=
  if isDigit c then some (c.toNat - 0x30)
  else if 0x61 ≤ c && c ≤ 0x66 then some (c.toNat - 0x61 + 10)
  else if 0x41 ≤ c && c ≤ 0x46 then some (c.toNat - 0x41 + 10)
  else none

/-- The lower-case hexadecimal digit of a number below sixteen. -/
def hexDigit (n : Nat) : UInt8 := if n < 10 then UInt8.ofNat (0x30 + n) else UInt8.ofNat (0x57 + n)

end Ascii

namespace Text

/-! ## Trimming, splitting and joining -/

/-- Drops the leading white space. -/
def trimLeft (t : Text) : Text := t.dropWhile Ascii.isSpace

/-- Drops the trailing white space. -/
def trimRight (t : Text) : Text := (t.reverse.dropWhile Ascii.isSpace).reverse

/-- Drops the white space at both ends. -/
def trim (t : Text) : Text := t.trimLeft.trimRight

/-- The pieces between the occurrences of a byte, of which there is one more than occurrences. -/
def splitOn (separator : UInt8) (t : Text) : List Text :=
  go [] [] t
where
  /-- Carries the finished pieces and the open piece, both in reverse. -/
  go (pieces : List Text) (piece : Text) : Text → List Text
    | [] => (piece.reverse :: pieces).reverse
    | c :: rest =>
      if c = separator then go (piece.reverse :: pieces) [] rest else go pieces (c :: piece) rest

/-- The pieces with a separator between neighbours. -/
def join (separator : Text) : List Text → Text
  | [] => []
  | [piece] => piece
  | piece :: rest => piece ++ separator ++ join separator rest

/-- Whether every byte belongs to a class and there is at least one. -/
def isNonemptyOf (member : UInt8 → Bool) (t : Text) : Bool := !t.isEmpty && t.all member

def toUpper (t : Text) : Text := t.map Ascii.toUpper

def toLower (t : Text) : Text := t.map Ascii.toLower

/-! ## Decimal numerals -/

/-- The decimal numeral of a natural number, without leading zeros. -/
def ofNat (n : Nat) : Text := (Nat.toDigits 10 n).map Char.toUInt8

/-- The decimal numeral of an integer, with a minus sign below zero. -/
def ofInt : Int → Text
  | .ofNat n => ofNat n
  | .negSucc n => Ascii.minus :: ofNat (n + 1)

/-- A text brought to a width by zeros on its left. -/
def padZeros (width : Nat) (t : Text) : Text := List.replicate (width - t.length) Ascii.zero ++ t

/-- The two-digit lower-case hexadecimal form of every byte, in order. -/
def toHex (t : Text) : Text :=
  t.flatMap fun c => [Ascii.hexDigit (c.toNat / 16), Ascii.hexDigit (c.toNat % 16)]

/-- The UTF-8 encoding of a code point. -/
def ofCodePoint (n : Nat) : Text :=
  if n ≤ 0x7F then [UInt8.ofNat n]
  else if n ≤ 0x7FF then [UInt8.ofNat (0xC0 + n / 0x40), UInt8.ofNat (0x80 + n % 0x40)]
  else if n ≤ 0xFFFF then
    [UInt8.ofNat (0xE0 + n / 0x1000), UInt8.ofNat (0x80 + n / 0x40 % 0x40),
      UInt8.ofNat (0x80 + n % 0x40)]
  else
    [UInt8.ofNat (0xF0 + n / 0x40000), UInt8.ofNat (0x80 + n / 0x1000 % 0x40),
      UInt8.ofNat (0x80 + n / 0x40 % 0x40), UInt8.ofNat (0x80 + n % 0x40)]

end Text

end TradeReentry
