import TradeReentry.Text.Basic

/-!
The arguments of the command line: options anywhere, then a command and what it works on.
-/

namespace TradeReentry.Cli

structure Arguments where
  configPath? : Option Text := none
  inputPath : Text := []
  command : Text := []
  operands : List Text := []
deriving DecidableEq, Repr

namespace Arguments

/-- Why arguments are refused. -/
inductive UsageError where
  | unknownOption (option : Text)
  | missingCommand
deriving DecidableEq, Repr

/-- What is told about an error before the usage. -/
def UsageError.message : UsageError → Text
  | .unknownOption option => "未知选项: " ++ option ++ "\n"
  | .missingCommand => []

/-- What follows the start of a text. -/
def after? (start t : Text) : Option Text :=
  if start.isPrefixOf t then some (t.drop start.length) else none

/-- Adds the command or, after it, an operand. -/
def addWord (a : Arguments) (word : Text) : Arguments :=
  if a.command.isEmpty then { a with command := word }
  else { a with operands := a.operands ++ [word] }

/-- Reads a word that needs no other: an option with its value after an equals sign, the command or
an operand. -/
def readWord (a : Arguments) (word : Text) : Except UsageError Arguments :=
  match after? "--config=" word, after? "--input=" word with
  | some path, _ => .ok { a with configPath? := some path }
  | none, some path => .ok { a with inputPath := path }
  | none, none =>
    if (after? "--" word).isSome then .error (.unknownOption word) else .ok (a.addWord word)

/-- Reads words in order. An option without an equals sign takes its value from the next word. -/
def readWords (a : Arguments) : List Text → Except UsageError Arguments
  | [] => .ok a
  | [word] => readWord a word
  | word :: next :: others =>
    if word = "--config" then readWords { a with configPath? := some next } others
    else if word = "--input" then readWords { a with inputPath := next } others
    else
      match readWord a word with
      | .error e => .error e
      | .ok a => readWords a (next :: others)

/-- Refuses arguments without a command. -/
def requireCommand (a : Arguments) : Except UsageError Arguments :=
  if a.command.isEmpty then .error .missingCommand else .ok a

/-- The arguments that words spell; a word ends before its first zero byte. -/
def ofWords (words : List Text) : Except UsageError Arguments :=
  match readWords {} (words.map (·.takeWhile (· ≠ 0))) with
  | .error e => .error e
  | .ok a => requireCommand a

end Arguments

end TradeReentry.Cli
