import TradeReentry.Text.Digits

/-!
The texts that a ledger accepts as a point in time:
`YYYY-MM-DDTHH:MM:SS`, then an optional fraction of a second and an optional zone.
-/

namespace TradeReentry.Time.Timestamp

/-- Nothing, the letter `Z`, or an offset such as `+08:00`. -/
def isZone : Text → Bool
  | [] => true
  | [c] => c = 0x5A
  | [sign, h1, h2, c, m1, m2] =>
    (sign = Ascii.plus || sign = Ascii.minus) && Ascii.isDigit h1 && Ascii.isDigit h2 &&
      c = Ascii.colon && Ascii.isDigit m1 && Ascii.isDigit m2
  | _ => false

/-- An optional point with at least one digit after it, and then a zone. -/
def isFractionAndZone (t : Text) : Bool :=
  match t with
  | c :: rest =>
    if c = Ascii.dot then
      !(rest.takeWhile Ascii.isDigit).isEmpty && isZone (rest.dropWhile Ascii.isDigit)
    else isZone t
  | [] => true

/-- The ranges of the fields: a day is at most 31 in any month, and a second may be a leap second. -/
def inRange (month day hour minute second : Nat) : Bool :=
  1 ≤ month && month ≤ 12 && 1 ≤ day && day ≤ 31 && hour ≤ 23 && minute ≤ 59 && second ≤ 60

/-- Whether a text is a point in time; the date and the time are joined by `T` or a space. -/
def isTimestamp : Text → Bool
  | y1 :: y2 :: y3 :: y4 :: c1 :: m1 :: m2 :: c2 :: d1 :: d2 :: c3 :: h1 :: h2 :: c4 :: n1 :: n2 ::
      c5 :: s1 :: s2 :: rest =>
    [y1, y2, y3, y4, m1, m2, d1, d2, h1, h2, n1, n2, s1, s2].all Ascii.isDigit &&
      c1 = Ascii.minus && c2 = Ascii.minus && (c3 = 0x54 || c3 = Ascii.space) &&
      c4 = Ascii.colon && c5 = Ascii.colon &&
      inRange (Text.digitsValue [m1, m2]) (Text.digitsValue [d1, d2])
        (Text.digitsValue [h1, h2]) (Text.digitsValue [n1, n2]) (Text.digitsValue [s1, s2]) &&
      isFractionAndZone rest
  | _ => false

end TradeReentry.Time.Timestamp
