import TradeReentry.Text.Basic

/-!
Patterns with at most one wildcard, at the start or at the end.

`Pattern.check` accepts the well-formed patterns and `Pattern.isMatch` decides whether a value is
what a pattern becomes when its star is replaced by some text.
-/

namespace TradeReentry.Pattern

/-- Whether a value is the pattern with its star, if it has one, replaced by some text. -/
def isMatch (pattern value : Text) : Bool :=
  if pattern = "*" then true
  else if pattern.getLast? = some Ascii.star then pattern.dropLast.isPrefixOf value
  else if pattern.head? = some Ascii.star then pattern.tail.isSuffixOf value
  else value = pattern

/-- What is wrong with a pattern. -/
inductive PatternError where
  | empty
  | manyStars
  | innerStar
  | invalidByte (byte : UInt8)
deriving DecidableEq, Repr

def PatternError.reason : PatternError → Text
  | .empty => "模式为空"
  | .manyStars => "通配符 '*' 至多出现一次"
  | .innerStar => "通配符 '*' 只能位于首或尾"
  | .invalidByte byte => "包含非法字符 '" ++ [byte] ++ "'"

def PatternError.message (pattern : Text) (error : PatternError) : Text :=
  "非法匹配模式 '" ++ pattern ++ "': " ++ error.reason

/-- The bytes that a pattern holds apart from its star: letters, digits and the signs `_.-`. -/
def isLiteral (c : UInt8) : Bool :=
  Ascii.isAlnum c || c = Ascii.underscore || c = Ascii.dot || c = Ascii.minus

/-- Accepts a nonempty pattern of allowed bytes with at most one star, which has to be its first or
its last byte. -/
def check (pattern : Text) : Except PatternError Unit :=
  if pattern = [] then .error .empty
  else if 1 < pattern.count Ascii.star then .error .manyStars
  else if pattern.count Ascii.star = 1 ∧ pattern.head? ≠ some Ascii.star ∧
      pattern.getLast? ≠ some Ascii.star then .error .innerStar
  else
    match pattern.find? fun c => !(c = Ascii.star || isLiteral c) with
    | some c => .error (.invalidByte c)
    | none => .ok ()

end TradeReentry.Pattern
