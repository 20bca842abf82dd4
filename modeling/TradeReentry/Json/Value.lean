import TradeReentry.Binary64.Basic
import TradeReentry.Text.Basic

/-!
JSON values, the strict ways to take a value apart, and the quoted form of a text.

An object keeps its members in the order of the text; reading refuses a repeated key.
-/

namespace TradeReentry

inductive Json where
  | null
  | bool (value : Bool)
  | number (value : Binary64)
  | string (value : Text)
  | array (items : List Json)
  | object (members : List (Text × Json))
deriving Repr, Inhabited

namespace Json

/-- The member of an object with a key. -/
def field? (key : Text) : Json → Option Json
  | object members => (members.find? (·.1 = key)).map (·.2)
  | _ => none

def asString? : Json → Option Text
  | string value => some value
  | _ => none

def asNumber? : Json → Option Binary64
  | number value => some value
  | _ => none

/-- The 32-bit integer that a number is. -/
def asInt? : Json → Option Int
  | number value => value.toInt?.filter fun i => -2 ^ 31 ≤ i && i < 2 ^ 31
  | _ => none

def asBool? : Json → Option Bool
  | bool value => some value
  | _ => none

/-- Why an object is not accepted as a record with known keys. -/
inductive ShapeError where
  | notAnObject
  | unknownKey (key : Text)
deriving DecidableEq, Repr

def ShapeError.message : ShapeError → Text
  | .notAnObject => "期望 JSON 对象"
  | .unknownKey key => "未知字段: " ++ key

/-- The first of some texts in byte order. -/
def least? : List Text → Option Text
  | [] => none
  | t :: rest =>
    match least? rest with
    | none => some t
    | some u => some (if u < t then u else t)

/-- Accepts an object whose keys all belong to a list; of the others the first in byte order is
named. -/
def checkKeys (allowed : List Text) : Json → Except ShapeError Unit
  | object members =>
    match least? ((members.map (·.1)).filter (!allowed.contains ·)) with
    | none => .ok ()
    | some key => .error (.unknownKey key)
  | _ => .error .notAnObject

/-! ## Quoting -/

/-- The escaped form of a byte inside quotes. -/
def escape (c : UInt8) : Text :=
  match c with
  | 0x22 => "\\\""
  | 0x5C => "\\\\"
  | 0x0A => "\\n"
  | 0x0D => "\\r"
  | 0x09 => "\\t"
  | c =>
    if c < 0x20 then
      "\\u00" ++ [Ascii.hexDigit (c.toNat / 16), Ascii.hexDigit (c.toNat % 16)]
    else [c]

/-- A text between double quotes, with quotes, backslashes and control bytes escaped. -/
def quote (t : Text) : Text := Ascii.doubleQuote :: t.flatMap escape ++ [Ascii.doubleQuote]

end Json

end TradeReentry
