import TradeReentry.Files.Disk
import TradeReentry.Settings.Entry
import TradeReentry.Step

/-!
Reading a settings file.

A line is blank, opens a section, opens the lot steps of single symbols, or sets one entry; its
indentation decides which of these it can be. Reading folds the lines over the settings it starts
from, and stops at the first line that it does not understand.
-/

namespace TradeReentry.Settings

/-- What is wrong with a line. -/
inductive LineError where
  | notASection
  | unknownSection (name : Text)
  | noSection
  | unknownSubsection (path : Text)
  | missingColon
  | missingValue (path : Text)
  | invalidLotStep (symbol : Text)
  | unknownEntry (path : Text)
  | invalidValue (path : Text)
deriving DecidableEq, Repr

def LineError.message : LineError → Text
  | .notASection => "顶层只允许 section 声明"
  | .unknownSection name => "未知配置段: " ++ name
  | .noSection => "配置项缺少所属 section"
  | .unknownSubsection path => "未知配置子段: " ++ path
  | .missingColon => "配置行缺少 ':'"
  | .missingValue path => path ++ " 缺少取值"
  | .invalidLotStep symbol => "processor.lot_steps." ++ symbol ++ " 解析失败"
  | .unknownEntry path => "未知配置项: " ++ path
  | .invalidValue path => path ++ " 解析失败"

/-- Why a file gives no settings. -/
inductive LoadError where
  | unreadable (path : Text)
  | line (number : Nat) (error : LineError)
  | rule (error : RuleError)
deriving DecidableEq, Repr

def LoadError.message : LoadError → Text
  | .unreadable path => "无法打开配置文件: " ++ path
  | .line number error => error.message ++ "，行号: " ++ Text.ofNat number
  | .rule error => error.message

/-! ## Lines -/

/-- The part of a line before a comment sign that stands outside quotes of either kind. -/
def stripComment (single double : Bool) : Text → Text
  | [] => []
  | c :: rest =>
    if c = Ascii.singleQuote && !double then c :: stripComment (!single) double rest
    else if c = Ascii.doubleQuote && !single then c :: stripComment single (!double) rest
    else if c = Ascii.hash && !single && !double then []
    else c :: stripComment single double rest

/-- The number of spaces that a line starts with. -/
def indentation (line : Text) : Nat := (line.takeWhile (· = Ascii.space)).length

/-- The text before a colon at its end. -/
def dropColon? (t : Text) : Option Text :=
  if t.getLast? = some Ascii.colon then some (Text.trim t.dropLast) else none

/-- The texts before and after the first colon. -/
def splitColon? (t : Text) : Option (Text × Text) :=
  match t.dropWhile (· ≠ Ascii.colon) with
  | [] => none
  | _ :: value => some (Text.trim (t.takeWhile (· ≠ Ascii.colon)), Text.trim value)

def sections : List Text := ["vocabulary", "resolver", "processor", "ledger", "service"]

/-- How far a file was read: the section that is open and whether the lot steps of symbols are open in it. -/
structure Progress where
  settings : Settings
  heading? : Option Text := none
  inLotSteps : Bool := false
deriving DecidableEq, Repr

/-- Sets the lot step of a symbol. -/
def setLotStep (settings : Settings) (symbol value : Text) : Except LineError Settings :=
  match Binary64.ofPlain? (Text.unquote value) with
  | none => .error (.invalidLotStep symbol)
  | some step =>
    .ok { settings with
      processor.lotSteps := settings.processor.lotSteps.insert (Text.unquote symbol) step }

/-- Sets the entry of a path. -/
def setEntry (settings : Settings) (path value : Text) : Except LineError Settings :=
  match entries.find? (·.path = path) with
  | none => .error (.unknownEntry path)
  | some entry =>
    let scalar := if value.head? = some Ascii.openBracket then value else Text.unquote value
    match entry.kind.read? scalar with
    | none => .error (.invalidValue path)
    | some v => .ok (entry.put v settings)

/-- Reads the line of an entry in a section. -/
def readEntry (progress : Progress) (name content : Text) : Except LineError Progress :=
  match splitColon? content with
  | none => .error .missingColon
  | some (key, value) =>
    if value.isEmpty then .error (.missingValue (name ++ "." ++ key))
    else if progress.inLotSteps then
      (setLotStep progress.settings key value).map fun settings => { progress with settings }
    else
      (setEntry progress.settings (name ++ "." ++ key) value).map fun settings =>
        { progress with settings }

/-- Reads the line that opens a section. -/
def readSection (progress : Progress) (content : Text) : Except LineError Progress :=
  match dropColon? content with
  | none => .error .notASection
  | some name =>
    if sections.contains name then
      .ok { progress with heading? := some name, inLotSteps := false }
    else .error (.unknownSection name)

/-- Reads one line. Only a section opens at the margin; at an indentation of two, a line that ends
in a colon opens the lot steps, and any other closes them. -/
def readLine (progress : Progress) (line : Text) : Except LineError Progress :=
  let content := Text.trim (stripComment false false line)
  if content.isEmpty then .ok progress
  else if indentation line = 0 then readSection progress content
  else
    match progress.heading?, dropColon? content with
    | none, _ => .error .noSection
    | some name, some subsection =>
      if indentation line = 2 then
        if name = "processor" ∧ subsection = "lot_steps" then
          .ok { progress with inLotSteps := true }
        else .error (.unknownSubsection (name ++ "." ++ subsection))
      else
        readEntry { progress with inLotSteps := progress.inLotSteps && 2 < indentation line }
          name content
    | some name, none =>
      readEntry { progress with inLotSteps := progress.inLotSteps && 2 < indentation line }
        name content

/-- Reads lines in order, the first having a number. -/
def readLines (number : Nat) (progress : Progress) : List Text → Except LoadError Progress
  | [] => .ok progress
  | line :: rest =>
    match readLine progress line with
    | .error e => .error (.line number e)
    | .ok progress => readLines (number + 1) progress rest

/-- The settings that a text makes of others. -/
def ofText (initial : Settings) (t : Text) : Except LoadError Settings :=
  match readLines 1 { settings := initial } (Text.splitOn Ascii.newline t) with
  | .error e => .error e
  | .ok progress =>
    match check progress.settings with
    | .error e => .error (.rule e)
    | .ok () => .ok progress.settings

/-- The settings that a file makes of others. -/
def ofFile (disk : Disk) (path : Text) (initial : Settings) : Except LoadError Settings :=
  match disk.read? path with
  | none => .error (.unreadable path)
  | some t => ofText initial t

/-- Reads a file into the settings that are held; they stay as they are if it is refused. -/
def load (disk : Disk) (path : Text) (held : Settings) : Step Settings (Except LoadError Unit) :=
  match ofFile disk path held with
  | .error e => { result := .error e, state := held }
  | .ok settings => { result := .ok (), state := settings }

end TradeReentry.Settings
