import TradeReentry.Binary64.Basic
import TradeReentry.Text.Digits

/-!
Numerals read as binary floating-point numbers.

A numeral is an optional sign and one of: digits with an optional point and decimal exponent, the
same in hexadecimal with a binary exponent, an infinity, or a NaN. `Numeral.read?` takes the longest
numeral at the start of a text; `Numeral.value?` rounds it once, exactly, to the nearest number and
refuses results outside the range. `ofPlain?` reads the smaller grammar of configuration files, where
only an overflow is refused.
-/

namespace TradeReentry

/-- An unsigned number as a fraction of units of 2^-1074, not yet rounded. -/
structure Magnitude where
  num : Nat
  den : Nat
deriving DecidableEq, Repr

namespace Magnitude

/-- A magnitude beyond every number: it rounds to an infinity. -/
def huge : Magnitude := ⟨2 * Binary64.unitsInInfinity, 1⟩

/-- A positive magnitude below half of a unit: it rounds to zero. -/
def tiny : Magnitude := ⟨1, 2 ^ 64⟩

/-- The integer that a row of digits stands for, times a power of ten. Where the exponent alone
decides that the result is too large or too small to tell apart, no power is computed. -/
def ofDecimal (digits : Text) (exponent : Int) : Magnitude :=
  let n := Text.digitsValue digits
  if n = 0 then ⟨0, 1⟩
  else if 400 < exponent then huge
  else if exponent + digits.length < -400 then tiny
  else if 0 ≤ exponent then ⟨n * 10 ^ exponent.toNat * Binary64.unitsInOne, 1⟩
  else ⟨n * Binary64.unitsInOne, 10 ^ (-exponent).toNat⟩

/-- The same for a natural number times a power of two, given a bound on the number of its bits. -/
def ofBinary (n bits : Nat) (exponent : Int) : Magnitude :=
  if n = 0 then ⟨0, 1⟩
  else if 1100 < exponent then huge
  else if exponent + bits < -1200 then tiny
  else if 0 ≤ exponent then ⟨n * 2 ^ exponent.toNat * Binary64.unitsInOne, 1⟩
  else ⟨n * Binary64.unitsInOne, 2 ^ (-exponent).toNat⟩

/-- Whether rounding carries the magnitude beyond every finite number. -/
def Overflows (m : Magnitude) : Prop :=
  Binary64.unitsInInfinity ≤ Binary64.nearestUnits m.num m.den

/-- Whether the magnitude is no multiple of the unit and, rounded to 53 significant bits as if small
exponents had no limit, lies below the smallest normal number 2^-1022. -/
def Underflows (m : Magnitude) : Prop :=
  m.num % m.den ≠ 0 ∧ 4 * m.num < (2 ^ 54 - 1) * m.den

instance (m : Magnitude) : Decidable m.Overflows := inferInstanceAs (Decidable (_ ≤ _))

instance (m : Magnitude) : Decidable m.Underflows := inferInstanceAs (Decidable (_ ∧ _))

/-- The nearest number of a sign. -/
def toBinary64 (negative : Bool) (m : Magnitude) : Binary64 :=
  Binary64.nearest negative m.num m.den

end Magnitude

/-- What a numeral stands for. -/
inductive Numeral where
  | finite (negative : Bool) (magnitude : Magnitude)
  | infinite (negative : Bool)
  | nan (negative : Bool)
deriving DecidableEq, Repr

namespace Numeral

/-- An optional sign and whether it is a minus. -/
def takeSign : Text → Bool × Text
  | c :: rest =>
    if c = Ascii.minus then (true, rest) else if c = Ascii.plus then (false, rest)
    else (false, c :: rest)
  | [] => (false, [])

/-- The digits before and after an optional point, at least one in all, and what follows. -/
def takeMantissa? (digit : UInt8 → Bool) (t : Text) : Option (Text × Text × Text) :=
  let whole := t.takeWhile digit
  match t.dropWhile digit with
  | c :: rest =>
    if c = Ascii.dot then
      let places := rest.takeWhile digit
      if whole.isEmpty && places.isEmpty then none
      else some (whole, places, rest.dropWhile digit)
    else if whole.isEmpty then none else some (whole, [], c :: rest)
  | [] => if whole.isEmpty then none else some (whole, [], [])

/-- An exponent after its letter, in either case; without digits it is no exponent. -/
def takeExponent (letter : UInt8) (t : Text) : Int × Text :=
  match t with
  | c :: rest =>
    if Ascii.toLower c = letter then
      let (negative, rest) := takeSign rest
      let digits := rest.takeWhile Ascii.isDigit
      if digits.isEmpty then (0, t)
      else
        let n : Int := Text.digitsValue digits
        (if negative then -n else n, rest.dropWhile Ascii.isDigit)
    else (0, t)
  | [] => (0, t)

/-- Decimal digits with an optional point and an optional exponent after `e`. -/
def takeDecimal? (t : Text) : Option (Magnitude × Text) :=
  (takeMantissa? Ascii.isDigit t).map fun (whole, places, rest) =>
    let (exponent, rest) := takeExponent 0x65 rest
    (.ofDecimal (whole ++ places) (exponent - places.length), rest)

/-- The number that a row of hexadecimal digits stands for. -/
def hexDigitsValue (t : Text) : Nat := Text.valueOf 16 (fun c => (Ascii.hexValue? c).getD 0) t

/-- Hexadecimal digits with an optional point and an optional binary exponent after `p`. -/
def takeHexadecimal? (t : Text) : Option (Magnitude × Text) :=
  (takeMantissa? (fun c => (Ascii.hexValue? c).isSome) t).map fun (whole, places, rest) =>
    let (exponent, rest) := takeExponent 0x70 rest
    let digits := whole ++ places
    (.ofBinary (hexDigitsValue digits) (4 * digits.length) (exponent - 4 * places.length), rest)

/-- What follows a word at the start of a text, in any case of its letters. -/
def dropWord? (word t : Text) : Option Text :=
  if Text.toLower (t.take word.length) = word then some (t.drop word.length) else none

/-- The payload of a NaN, a row of letters, digits and underscores in parentheses, is skipped. -/
def dropPayload (t : Text) : Text :=
  match t with
  | 0x28 :: rest =>
    match rest.dropWhile fun c => Ascii.isAlnum c || c = Ascii.underscore with
    | 0x29 :: rest => rest
    | _ => t
  | _ => t

/-- A numeral without a sign. -/
def takeUnsigned? (negative : Bool) (t : Text) : Option (Numeral × Text) :=
  match dropWord? "infinity" t, dropWord? "inf" t, dropWord? "nan" t with
  | some rest, _, _ => some (.infinite negative, rest)
  | none, some rest, _ => some (.infinite negative, rest)
  | none, none, some rest => some (.nan negative, dropPayload rest)
  | none, none, none =>
    match (dropWord? "0x" t).bind takeHexadecimal? with
    | some (m, rest) => some (.finite negative m, rest)
    | none => (takeDecimal? t).map fun (m, rest) => (.finite negative m, rest)

/-- The longest numeral at the start of a text, after white space, and what follows it. -/
def read? (t : Text) : Option (Numeral × Text) :=
  let (negative, rest) := takeSign t.trimLeft
  takeUnsigned? negative rest

/-- The number nearest to a numeral, unless it lies outside the range. -/
def value? : Numeral → Option Binary64
  | .finite negative m =>
    if m.Overflows ∨ m.Underflows then none else some (m.toBinary64 negative)
  | .infinite negative => some (.infinity negative)
  | .nan negative => some (.nan negative)

end Numeral

namespace Binary64

/-- The finite number that a whole text is a numeral of. -/
def ofText? (t : Text) : Option Binary64 :=
  match Numeral.read? t with
  | some (numeral, []) => numeral.value?.filter isFinite
  | _ => none

/-- The number that a whole text is a plain decimal numeral of: digits with an optional point and
exponent. A result too small for the range is rounded; one too large is refused. -/
def ofPlain? (t : Text) : Option Binary64 :=
  let (negative, rest) := Numeral.takeSign t.trimLeft
  match Numeral.takeDecimal? rest with
  | some (m, []) => if m.Overflows then none else some (m.toBinary64 negative)
  | _ => none

end Binary64

end TradeReentry
