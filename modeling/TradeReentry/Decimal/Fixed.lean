import TradeReentry.Binary64.Basic
import TradeReentry.Text.Basic

/-!
Numbers written with a fixed count of decimal places, and the canonical form of ledger cells, which
drops the trailing zeros.

The written value is the exact one, rounded once to the given places; a tie goes to the even digit.
-/

namespace TradeReentry.Binary64

/-- The integer that counts units of the last of some decimal places, nearest to a magnitude. -/
def placesValue (places : Nat) (x : Binary64) : Nat :=
  roundQuotient (x.units * 10 ^ places) unitsInOne

/-- The digits of a count of units of the last place, with the point before that many of them. -/
def pointed (places n : Nat) : Text :=
  let digits := Text.padZeros (places + 1) (Text.ofNat n)
  let whole := digits.length - places
  if places = 0 then digits else digits.take whole ++ Ascii.dot :: digits.drop whole

/-- A number with a count of decimal places; the words `inf` and `nan` stand for what has none. -/
def fixedText (places : Nat) (x : Binary64) : Text :=
  let sign : Text := if x.isNegative then "-" else []
  if x.isNaN then sign ++ "nan"
  else if x.isInfinite then sign ++ "inf"
  else sign ++ pointed places (x.placesValue places)

/-- Drops the zeros at the end, and then a point at the end. -/
def dropTrailingZeros (t : Text) : Text :=
  match t.reverse.dropWhile (· = Ascii.zero) with
  | c :: rest => if c = Ascii.dot then rest.reverse else (c :: rest).reverse
  | [] => []

/-- The places from which on every number is written exactly: a unit has no more of them. -/
def exactPlaces : Nat := 1074

/-- The canonical text of a number: no trailing zero after the point, no trailing point, and no
minus sign on a zero. Places beyond the exact ones would only hold trailing zeros. -/
def decimalText (places : Nat) (x : Binary64) : Text :=
  let t := fixedText (min places exactPlaces) x
  let t := if t.contains Ascii.dot then dropTrailingZeros t else t
  if t = "-0" then "0" else t

/-- The places that a precision asks for; a negative one stands for six. -/
def placesOf (precision : Int) : Nat := if precision < 0 then 6 else precision.toNat

/-- The places of a cell of a ledger. -/
def cellPlaces : Nat := 8

/-- The canonical text with the places of a ledger cell. -/
def cellText (x : Binary64) : Text := decimalText cellPlaces x

end TradeReentry.Binary64
