import TradeReentry.Text.Digits

/-!
Integers read from texts.

An integer is optional white space, an optional sign and decimal digits. `Text.takeInteger?` takes
the longest one at the start of a text; the other readers fix a range and say how much of the text
has to be read.
-/

namespace TradeReentry.Text

/-- The sign, whether it is a minus, and the magnitude of the integer at the start of a text, and
what follows it. -/
def takeInteger? (t : Text) : Option (Bool × Nat × Text) :=
  let body := t.trimLeft
  let negative := body.head? = some Ascii.minus
  let body := if negative || body.head? = some Ascii.plus then body.tail else body
  let digits := body.takeWhile Ascii.isDigit
  if digits.isEmpty then none else some (negative, digitsValue digits, body.dropWhile Ascii.isDigit)

/-- The range of a 32-bit integer. -/
def inInt32 (i : Int) : Bool := -2 ^ 31 ≤ i && i < 2 ^ 31

/-- The 32-bit integer that a whole text is. -/
def toInt32? (t : Text) : Option Int :=
  match t.takeInteger? with
  | some (negative, n, []) =>
    let i : Int := if negative then -n else n
    if inInt32 i then some i else none
  | _ => none

/-- The unsigned 64-bit integer at the start of a text, and what follows it. A minus sign counts
down from 2^64; a magnitude of 2^64 or more is refused. -/
def takeUInt64? (t : Text) : Option (UInt64 × Text) :=
  match t.takeInteger? with
  | some (negative, n, rest) =>
    if n < 2 ^ 64 then
      some (if negative then -(UInt64.ofNat n) else UInt64.ofNat n, rest)
    else none
  | none => none

end TradeReentry.Text
