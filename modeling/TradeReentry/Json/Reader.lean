import TradeReentry.Decimal.Numeral
import TradeReentry.Files.Disk
import TradeReentry.Json.Value

/-!
Reading JSON texts.

A reader takes a value off the front of a text and returns what is left, which is shorter; that
bounds every loop. A failure carries the text that was left when it arose, from which the line and
the column follow. Values nest at most 64 deep, and no object repeats a key.
-/

namespace TradeReentry

namespace Json

/-- What is wrong with a text that is not JSON. -/
inductive SyntaxError where
  | trailingText
  | tooDeep
  | unexpectedEnd
  | valueStart
  | keyNotString
  | repeatedKey (key : Text)
  | missingColon
  | objectSeparator
  | arraySeparator
  | incompleteUnicode
  | invalidUnicode
  | controlByte
  | incompleteEscape
  | missingLowSurrogate
  | invalidLowSurrogate
  | loneLowSurrogate
  | invalidEscape
  | missingQuote
  | literal (expected : Text)
  | number
  | fraction
  | exponent
  | numberRange
deriving DecidableEq, Repr

def SyntaxError.message : SyntaxError → Text
  | .trailingText => "JSON 尾部存在多余字符"
  | .tooDeep => "JSON 嵌套层级过深"
  | .unexpectedEnd => "JSON 意外结束"
  | .valueStart => "JSON 非法值起始字符"
  | .keyNotString => "JSON 对象键必须是字符串"
  | .repeatedKey key => "JSON 对象存在重复键: " ++ key
  | .missingColon => "JSON 期望字符 ':'"
  | .objectSeparator => "JSON 对象缺少 ',' 或 '\x7d'"
  | .arraySeparator => "JSON 数组缺少 ',' 或 ']'"
  | .incompleteUnicode => "JSON unicode 转义不完整"
  | .invalidUnicode => "JSON unicode 转义非法"
  | .controlByte => "JSON 字符串包含未转义控制字符"
  | .incompleteEscape => "JSON 字符串转义不完整"
  | .missingLowSurrogate => "JSON 代理对缺少低位"
  | .invalidLowSurrogate => "JSON 代理对低位非法"
  | .loneLowSurrogate => "JSON 孤立的代理对低位"
  | .invalidEscape => "JSON 字符串转义字符非法"
  | .missingQuote => "JSON 字符串缺少结束引号"
  | .literal expected => "JSON 字面量非法，期望 " ++ expected
  | .number => "JSON 数字解析失败"
  | .fraction => "JSON 小数解析失败"
  | .exponent => "JSON 指数解析失败"
  | .numberRange => "JSON 数字超出范围"

/-- A cause and the text that was left when it arose. -/
structure Failure where
  cause : SyntaxError
  rest : Text
deriving DecidableEq, Repr

/-- What is left of a text after something was taken off its front. -/
abbrev Shorter (t : Text) := { rest : Text // rest.length < t.length }

/-- Takes something off the front of a text. -/
abbrev Reader (α : Type) := (t : Text) → Except Failure (α × Shorter t)

/-! ## Blanks and literals -/

theorem length_trimLeft_le (t : Text) : t.trimLeft.length ≤ t.length :=
  (List.dropWhile_sublist _).length_le

theorem length_lt_of_trimLeft {t rest : Text} {c : UInt8} (h : t.trimLeft = c :: rest) :
    rest.length < t.length := by
  have := length_trimLeft_le t
  rw [h] at this
  exact this

/-- A word that stands for a value. -/
def readLiteral (word : Text) (value : Json) (h : 0 < word.length) : Reader Json := fun t =>
  if hw : word <+: t then
    .ok (value, ⟨t.drop word.length, by
      have := hw.length_le
      rw [List.length_drop]; omega⟩)
  else .error ⟨.literal word, t⟩

/-! ## Strings -/

/-- The byte that an escape of one letter stands for. -/
def simpleEscape? (c : UInt8) : Option UInt8 :=
  match c with
  | 0x22 => some 0x22
  | 0x5C => some 0x5C
  | 0x2F => some 0x2F
  | 0x62 => some 0x08
  | 0x66 => some 0x0C
  | 0x6E => some 0x0A
  | 0x72 => some 0x0D
  | 0x74 => some 0x09
  | _ => none

/-- A number of hexadecimal digits, in either case, after those that make up a value so far. -/
def hexDigits (value : Nat) : (count : Nat) → (t : Text) →
    Except Failure (Nat × { rest : Text // rest.length ≤ t.length })
  | 0, t => .ok (value, ⟨t, Nat.le_refl _⟩)
  | _ + 1, [] => .error ⟨.incompleteUnicode, []⟩
  | count + 1, c :: rest =>
    match Ascii.hexValue? c with
    | none => .error ⟨.invalidUnicode, rest⟩
    | some digit =>
      match hexDigits (16 * value + digit) count rest with
      | .error e => .error e
      | .ok (n, ⟨left, h⟩) => .ok (n, ⟨left, Nat.le_succ_of_le h⟩)

/-- The code point of a surrogate pair. -/
def combineSurrogates (high low : Nat) : Nat := 0x10000 + (high - 0xD800) * 0x400 + (low - 0xDC00)

/-- The code point of an escape after its letter `u`: four digits, or a high surrogate and directly
after it the escape of a low one. -/
def unicodeEscape (t : Text) : Except Failure (Nat × { rest : Text // rest.length ≤ t.length }) :=
  match hexDigits 0 4 t with
  | .error e => .error e
  | .ok (high, ⟨rest, h⟩) =>
    if 0xD800 ≤ high ∧ high ≤ 0xDBFF then
      match rest with
      | 0x5C :: 0x75 :: rest =>
        match hexDigits 0 4 rest with
        | .error e => .error e
        | .ok (low, ⟨left, h'⟩) =>
          if 0xDC00 ≤ low ∧ low ≤ 0xDFFF then
            .ok (combineSurrogates high low, ⟨left, by simp at h; omega⟩)
          else .error ⟨.invalidLowSurrogate, left⟩
      | 0x5C :: rest => .error ⟨.missingLowSurrogate, rest⟩
      | rest => .error ⟨.missingLowSurrogate, rest⟩
    else if 0xDC00 ≤ high ∧ high ≤ 0xDFFF then .error ⟨.loneLowSurrogate, rest⟩
    else .ok (high, ⟨rest, h⟩)

/-- The rest of a string after its opening quote, with the bytes read so far in reverse. -/
def stringBody (start : Text) (read : Text) (t : Text) (h : t.length ≤ start.length) :
    Except Failure (Text × Shorter start) :=
  match t, h with
  | [], _ => .error ⟨.missingQuote, []⟩
  | c :: rest, h =>
    if c = Ascii.doubleQuote then .ok (read.reverse, ⟨rest, h⟩)
    else if c < 0x20 then .error ⟨.controlByte, rest⟩
    else if c ≠ Ascii.backslash then stringBody start (c :: read) rest (Nat.le_of_lt h)
    else
      match rest, h with
      | [], _ => .error ⟨.incompleteEscape, []⟩
      | letter :: rest, h =>
        match simpleEscape? letter with
        | some byte =>
          stringBody start (byte :: read) rest (by simp only [List.length_cons] at h; omega)
        | none =>
          if letter = 0x75 then
            match unicodeEscape rest with
            | .error e => .error e
            | .ok (codePoint, ⟨left, hleft⟩) =>
              stringBody start ((Text.ofCodePoint codePoint).reverse ++ read) left
                (by simp only [List.length_cons] at h; omega)
          else .error ⟨.invalidEscape, rest⟩
termination_by t.length

/-- The opening quote and the rest of a string. -/
def readString : Reader Text := fun t =>
  match t with
  | [] => .error ⟨.missingQuote, []⟩
  | c :: rest => stringBody (c :: rest) [] rest (Nat.le_succ _)

/-! ## Numbers -/

/-- The digits at the front of a text and what is left; there has to be one. -/
def digits (cause : SyntaxError) : Reader Text := fun t =>
  if h : t.takeWhile Ascii.isDigit = [] then .error ⟨cause, t⟩
  else .ok (t.takeWhile Ascii.isDigit, ⟨t.dropWhile Ascii.isDigit, by
    have := congrArg List.length (List.takeWhile_append_dropWhile (p := Ascii.isDigit) (l := t))
    have := List.length_pos_iff.2 h
    simp only [List.length_append] at *; omega⟩)

/-- An optional point and the digits after it. -/
def fractionDigits (t : Text) :
    Except Failure (Text × { rest : Text // rest.length ≤ t.length }) :=
  match t with
  | c :: rest =>
    if c = Ascii.dot then
      match digits .fraction rest with
      | .error e => .error e
      | .ok (places, ⟨left, h⟩) => .ok (places, ⟨left, Nat.le_succ_of_le (Nat.le_of_lt h)⟩)
    else .ok ([], ⟨c :: rest, Nat.le_refl _⟩)
  | [] => .ok ([], ⟨[], Nat.le_refl _⟩)

theorem length_takeSign_le (t : Text) : (Numeral.takeSign t).2.length ≤ t.length := by
  unfold Numeral.takeSign
  split
  · split
    · simp
    · split <;> simp
  · simp

/-- An optional exponent. -/
def exponentPart (t : Text) :
    Except Failure (Int × { rest : Text // rest.length ≤ t.length }) :=
  match t with
  | c :: rest =>
    if Ascii.toLower c = 0x65 then
      let signed := Numeral.takeSign rest
      match digits .exponent signed.2 with
      | .error e => .error e
      | .ok (ds, ⟨left, h⟩) =>
        let n : Int := Text.digitsValue ds
        .ok (if signed.1 then -n else n,
          ⟨left, Nat.le_succ_of_le (Nat.le_trans (Nat.le_of_lt h) (length_takeSign_le rest))⟩)
    else .ok (0, ⟨c :: rest, Nat.le_refl _⟩)
  | [] => .ok (0, ⟨[], Nat.le_refl _⟩)

/-- An optional minus sign, digits, an optional fraction and an optional exponent. -/
def readNumber : Reader Binary64 := fun t =>
  let negative := t.head? = some Ascii.minus
  let unsigned := if negative then t.tail else t
  have hu : unsigned.length ≤ t.length := by
    show (if t.head? = some Ascii.minus then t.tail else t).length ≤ t.length
    split <;> simp
  match digits .number unsigned with
  | .error e => .error e
  | .ok (whole, ⟨afterWhole, h⟩) =>
    match fractionDigits afterWhole with
    | .error e => .error e
    | .ok (places, ⟨afterPlaces, h'⟩) =>
      match exponentPart afterPlaces with
      | .error e => .error e
      | .ok (exponent, ⟨rest, h''⟩) =>
        let magnitude := Magnitude.ofDecimal (whole ++ places) (exponent - places.length)
        match Numeral.value? (.finite negative magnitude) with
        | none => .error ⟨.numberRange, rest⟩
        | some x => .ok (x, ⟨rest, by omega⟩)

/-! ## Values -/

/-- The items of an array and its closing bracket, from the start of an item. -/
def readItems (item : Reader Json) (start : Text) (read : List Json) (t : Text)
    (h : t.length ≤ start.length) : Except Failure (List Json × Shorter start) :=
  match item t.trimLeft with
  | .error e => .error e
  | .ok (value, ⟨rest, hr⟩) =>
    have hl := length_trimLeft_le t
    match hrest : Text.trimLeft rest with
    | [] => .error ⟨.arraySeparator, []⟩
    | c :: left =>
      have hc := length_lt_of_trimLeft hrest
      if c = Ascii.closeBracket then .ok ((value :: read).reverse, ⟨left, by omega⟩)
      else if c = Ascii.comma then readItems item start (value :: read) left (by omega)
      else .error ⟨.arraySeparator, c :: left⟩
termination_by t.length

/-- The members of an object and its closing brace, from the start of a member. -/
def readMembers (item : Reader Json) (start : Text) (read : List (Text × Json)) (t : Text)
    (h : t.length ≤ start.length) : Except Failure (List (Text × Json) × Shorter start) :=
  if t.trimLeft.head? ≠ some Ascii.doubleQuote then .error ⟨.keyNotString, t.trimLeft⟩
  else
    match readString t.trimLeft with
    | .error e => .error e
    | .ok (key, ⟨afterKey, hk⟩) =>
      have hl := length_trimLeft_le t
      if read.any (·.1 = key) then .error ⟨.repeatedKey key, afterKey⟩
      else
        match hcolon : afterKey.trimLeft with
        | [] => .error ⟨.missingColon, []⟩
        | colon :: afterColon =>
          have hc := length_lt_of_trimLeft hcolon
          if colon ≠ Ascii.colon then .error ⟨.missingColon, colon :: afterColon⟩
          else
            match item (Text.trimLeft afterColon) with
            | .error e => .error e
            | .ok (value, ⟨rest, hr⟩) =>
              have hl' := length_trimLeft_le afterColon
              match hrest : Text.trimLeft rest with
              | [] => .error ⟨.objectSeparator, []⟩
              | c :: left =>
                have hc' := length_lt_of_trimLeft hrest
                if c = Ascii.closeBrace then
                  .ok (((key, value) :: read).reverse, ⟨left, by omega⟩)
                else if c = Ascii.comma then
                  readMembers item start ((key, value) :: read) left (by omega)
                else .error ⟨.objectSeparator, c :: left⟩
termination_by t.length

/-- An array after its opening bracket, at the front of a text. -/
def readArray (item : Reader Json) (start rest : Text) (h : rest.length < start.length) :
    Except Failure (List Json × Shorter start) :=
  match hrest : Text.trimLeft rest with
  | c :: left =>
    have hl := length_lt_of_trimLeft hrest
    if c = Ascii.closeBracket then .ok ([], ⟨left, by omega⟩)
    else readItems item start [] rest (Nat.le_of_lt h)
  | [] => readItems item start [] rest (Nat.le_of_lt h)

/-- An object after its opening brace, at the front of a text. -/
def readObject (item : Reader Json) (start rest : Text) (h : rest.length < start.length) :
    Except Failure (List (Text × Json) × Shorter start) :=
  match hrest : Text.trimLeft rest with
  | c :: left =>
    have hl := length_lt_of_trimLeft hrest
    if c = Ascii.closeBrace then .ok ([], ⟨left, by omega⟩)
    else readMembers item start [] rest (Nat.le_of_lt h)
  | [] => readMembers item start [] rest (Nat.le_of_lt h)

/-- A value at the front of a text, which nests less deep than a number of levels. -/
def readValue : (levels : Nat) → Reader Json
  | 0 => fun t => .error ⟨.tooDeep, t⟩
  | levels + 1 => fun t =>
    match t with
    | [] => .error ⟨.unexpectedEnd, []⟩
    | c :: rest =>
      if c = Ascii.openBrace then
        (readObject (readValue levels) (c :: rest) rest (Nat.lt_succ_self _)).map fun (ms, left) =>
          (.object ms, left)
      else if c = Ascii.openBracket then
        (readArray (readValue levels) (c :: rest) rest (Nat.lt_succ_self _)).map fun (vs, left) =>
          (.array vs, left)
      else if c = Ascii.doubleQuote then
        (readString (c :: rest)).map fun (s, left) => (.string s, left)
      else if c = 0x74 then readLiteral "true" (.bool true) (by decide) (c :: rest)
      else if c = 0x66 then readLiteral "false" (.bool false) (by decide) (c :: rest)
      else if c = 0x6E then readLiteral "null" .null (by decide) (c :: rest)
      else if c = Ascii.minus || Ascii.isDigit c then
        (readNumber (c :: rest)).map fun (x, left) => (.number x, left)
      else .error ⟨.valueStart, c :: rest⟩

/-- The deepest level of a value, the outermost being level 0. -/
def maxDepth : Nat := 64

/-- The value that a whole text is, with blanks around it. -/
def parse (t : Text) : Except Failure Json :=
  match readValue (maxDepth + 1) t.trimLeft with
  | .error e => .error e
  | .ok (v, ⟨rest, _⟩) =>
    if rest.trimLeft.isEmpty then .ok v else .error ⟨.trailingText, rest.trimLeft⟩

/-! ## Messages -/

/-- The number of the line that a text ends in, from 1. -/
def lineAfter (consumed : Text) : Nat := 1 + consumed.count Ascii.newline

/-- The number of the column that follows a text in its last line, from 1. -/
def columnAfter (consumed : Text) : Nat :=
  1 + (consumed.reverse.takeWhile (· ≠ Ascii.newline)).length

/-- The message of a failure to read a text, with the place where it arose. -/
def Failure.message (text : Text) (failure : Failure) : Text :=
  let consumed := text.take (text.length - failure.rest.length)
  failure.cause.message ++ "（line=" ++ Text.ofNat (lineAfter consumed) ++ ", column=" ++
    Text.ofNat (columnAfter consumed) ++ "）"

/-- Why a file gives no value. -/
inductive FileError where
  | unreadable (path : Text)
  | invalid (path text : Text) (failure : Failure)
deriving DecidableEq, Repr

def FileError.message : FileError → Text
  | .unreadable path => "无法打开 JSON 文件: " ++ path
  | .invalid path text failure => path ++ ": " ++ failure.message text

/-- The value that a file holds. -/
def ofFile (disk : Disk) (path : Text) : Except FileError Json :=
  match disk.read? path with
  | none => .error (.unreadable path)
  | some text =>
    match parse text with
    | .error failure => .error (.invalid path text failure)
    | .ok v => .ok v

end Json

end TradeReentry
