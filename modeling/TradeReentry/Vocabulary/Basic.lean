import TradeReentry.Binary64.Basic
import TradeReentry.Text.Pattern

/-!
The vocabulary: the tokens that the parts of an identifier may be, the calendars and the
generations, and the rules that keep identifiers readable.

`Vocabulary.check` accepts a vocabulary whose tokens cannot be mistaken for each other, and
`Vocabulary.faults` lists what is wrong with the parts of one context.
-/

namespace TradeReentry

/-- A class of outcomes with its rank, a higher rank being a better outcome. -/
structure OutcomeBucket where
  token : Text
  rank : Int
  description : Text := []
deriving DecidableEq, Repr

/-- A class of durations up to a number of minutes, or without a limit. -/
structure DurationBucket where
  token : Text
  maxMinutes? : Option Int
  description : Text := []
deriving DecidableEq, Repr

/-- A window of minutes around an event. -/
structure ProximityBucket where
  token : Text
  firstMinute : Int
  lastMinute : Int
  description : Text := []
deriving DecidableEq, Repr

structure Vocabulary where
  outcomes : List OutcomeBucket
  durations : List DurationBucket
  proximities : List ProximityBucket
  directions : List Text
  generationMin : Int
  generationMax : Int
  strengthMin : Binary64
  strengthMax : Binary64
  calendarPatterns : List Text
  calendarMinLength : Nat
deriving DecidableEq, Repr

namespace Vocabulary

/-- The parts of a context whose tokens are listed. -/
inductive Dimension where
  | outcome
  | duration
  | proximity
  | direction
deriving DecidableEq, Repr

def Dimension.name : Dimension → Text
  | .outcome => "outcome"
  | .duration => "duration"
  | .proximity => "proximity"
  | .direction => "direction"

/-- The built-in vocabulary. -/
def builtin : Vocabulary where
  outcomes := [
    ⟨"W2", 2, "Strong win"⟩, ⟨"W1", 1, "Win"⟩, ⟨"BE", 0, "Break-even"⟩, ⟨"L1", -1, "Loss"⟩,
    ⟨"L2", -2, "Strong loss"⟩]
  durations := [
    ⟨"FLASH", some 5, "Very short burst; <= 5 minutes"⟩,
    ⟨"QUICK", some 30, "Short move; <= 30 minutes"⟩,
    ⟨"LONG", some 240, "Sustained move; <= 4 hours"⟩,
    ⟨"EXTENDED", none, "Prolonged; > 4 hours"⟩]
  proximities := [
    ⟨"PRE_1H", -60, 0, "Pre-event window"⟩, ⟨"AT_EVENT", 0, 5, "At event window"⟩,
    ⟨"POST_30M", 1, 30, "Post-event window"⟩]
  directions := ["LONG", "SHORT", "ANY"]
  generationMin := 1
  generationMax := 3
  strengthMin := .zero
  strengthMax := .one
  calendarPatterns := ["CAL8_*", "CAL5_*"]
  calendarMinLength := 8

instance : Inhabited Vocabulary := ⟨builtin⟩

/-- The tokens of a dimension, in the order of the vocabulary. -/
def tokens (v : Vocabulary) : Dimension → List Text
  | .outcome => v.outcomes.map (·.token)
  | .duration => v.durations.map (·.token)
  | .proximity => v.proximities.map (·.token)
  | .direction => v.directions

def isLegal (v : Vocabulary) (dimension : Dimension) (token : Text) : Bool :=
  (v.tokens dimension).contains token

def isValidGeneration (v : Vocabulary) (generation : Int) : Bool :=
  v.generationMin ≤ generation && generation ≤ v.generationMax

/-- The bytes of a token: capital letters, digits and underscores. -/
def isTokenByte (c : UInt8) : Bool := Ascii.isUpper c || Ascii.isDigit c || c = Ascii.underscore

/-- The calendar of a trade that belongs to none. -/
def noCalendar : Text := "NONE"

/-- A calendar is `NONE`, or a long enough text of token bytes that matches a pattern and in which
no underscore is followed by another one or by the end. -/
def isValidCalendar (v : Vocabulary) (calendar : Text) : Bool :=
  calendar = noCalendar ||
    (v.calendarMinLength ≤ calendar.length && Text.isNonemptyOf isTokenByte calendar &&
      !(Text.splitOn Ascii.underscore calendar).tail.any (·.isEmpty) &&
      v.calendarPatterns.any (Pattern.isMatch · calendar))

/-- The rank of an outcome token. -/
def rank? (v : Vocabulary) (token : Text) : Option Int :=
  (v.outcomes.find? (·.token = token)).map (·.rank)

def findDuration? (v : Vocabulary) (token : Text) : Option DurationBucket :=
  v.durations.find? (·.token = token)

def findProximity? (v : Vocabulary) (token : Text) : Option ProximityBucket :=
  v.proximities.find? (·.token = token)

/-! ## Contexts -/

/-- A part of a context that the vocabulary does not allow. -/
inductive Fault where
  | token (dimension : Dimension) (value : Text)
  | calendar (value : Text)
  | generation (value : Int)
deriving DecidableEq, Repr

def Fault.message : Fault → Text
  | .token dimension value => "Invalid " ++ dimension.name ++ ": " ++ value
  | .calendar value => "Invalid calendar: " ++ value
  | .generation value => "Invalid generation: " ++ Text.ofInt value

/-- The fault of a token, if it is not legal. -/
def tokenFaults (v : Vocabulary) (dimension : Dimension) (token : Text) : List Fault :=
  if v.isLegal dimension token then [] else [.token dimension token]

/-- What is wrong with the parts of a context, in the order of an identifier's parts. -/
def faults (v : Vocabulary) (outcome duration proximity calendar direction : Text)
    (generation : Int) : List Fault :=
  v.tokenFaults .outcome outcome ++ v.tokenFaults .duration duration ++
    v.tokenFaults .proximity proximity ++
    (if v.isValidCalendar calendar then [] else [.calendar calendar]) ++
    v.tokenFaults .direction direction ++
    (if v.isValidGeneration generation then [] else [.generation generation])

/-! ## Rules -/

/-- What is wrong with a token of a vocabulary. -/
inductive TokenError where
  | invalidBytes
  | underscore
  | onlyDigits
  | repeated
deriving DecidableEq, Repr

def TokenError.reason : TokenError → Text
  | .invalidBytes => "只能包含大写字母、数字与 '_'"
  | .underscore => "不能包含 '_'"
  | .onlyDigits => "不能为纯数字"
  | .repeated => "重复"

/-- A rule that a vocabulary breaks. -/
inductive RuleError where
  | noTokens (dimension : Dimension)
  | token (dimension : Dimension) (text : Text) (error : TokenError)
  | generationRange
  | strengthRange
  | noCalendarPatterns
  | calendarPattern (pattern : Text) (error : Pattern.PatternError)
deriving DecidableEq, Repr

def RuleError.message : RuleError → Text
  | .noTokens dimension => dimension.name ++ " 词表不能为空"
  | .token dimension text error => dimension.name ++ " token '" ++ text ++ "' " ++ error.reason
  | .generationRange => "generation_range 必须满足 1 <= min <= max"
  | .strengthRange => "strength_range 必须满足 min <= max"
  | .noCalendarPatterns => "calendar_patterns 不能为空"
  | .calendarPattern pattern error => Pattern.PatternError.message pattern error

/-- Whether a dimension takes one segment of an identifier, so that its tokens hold no
underscore. -/
def Dimension.isSingleSegment : Dimension → Bool
  | .proximity => false
  | _ => true

/-- What is wrong with a token that stands after others. -/
def tokenError? (dimension : Dimension) (seen : List Text) (token : Text) : Option TokenError :=
  if !Text.isNonemptyOf isTokenByte token then some .invalidBytes
  else if dimension.isSingleSegment && token.contains Ascii.underscore then some .underscore
  else if Text.isNonemptyOf Ascii.isDigit token then some .onlyDigits
  else if seen.contains token then some .repeated
  else none

/-- Refuses the first token that breaks a rule. -/
def checkTokensFrom (dimension : Dimension) (seen : List Text) : List Text → Except RuleError Unit
  | [] => .ok ()
  | token :: rest =>
    match tokenError? dimension seen token with
    | some error => .error (.token dimension token error)
    | none => checkTokensFrom dimension (token :: seen) rest

/-- Refuses a dimension without tokens, and one with a token that breaks a rule. -/
def checkTokens (v : Vocabulary) (dimension : Dimension) : Except RuleError Unit :=
  if v.tokens dimension = [] then .error (.noTokens dimension)
  else checkTokensFrom dimension [] (v.tokens dimension)

/-- Refuses the first ill-formed pattern. -/
def checkPatterns : List Text → Except RuleError Unit
  | [] => .ok ()
  | pattern :: rest =>
    match Pattern.check pattern with
    | .error error => .error (.calendarPattern pattern error)
    | .ok () => checkPatterns rest

/-- The first rule that a vocabulary breaks, if any. -/
def check (v : Vocabulary) : Except RuleError Unit := do
  v.checkTokens .outcome
  v.checkTokens .duration
  v.checkTokens .proximity
  v.checkTokens .direction
  if v.generationMin < 1 ∨ v.generationMax < v.generationMin then .error .generationRange
  if v.strengthMax < v.strengthMin then .error .strengthRange
  if v.calendarPatterns = [] then .error .noCalendarPatterns
  checkPatterns v.calendarPatterns

/-! ## Summary -/

def durationLine (b : DurationBucket) : Text :=
  "- **" ++ b.token ++ "**: " ++ b.description ++ " (max: " ++
    (match b.maxMinutes? with
      | some minutes => Text.ofInt minutes
      | none => "unlimited") ++ " minutes)\n"

def proximityLine (b : ProximityBucket) : Text :=
  "- **" ++ b.token ++ "**: " ++ b.description ++ " (" ++ Text.ofInt b.firstMinute ++ " to " ++
    Text.ofInt b.lastMinute ++ " minutes)\n"

def outcomeLine (b : OutcomeBucket) : Text :=
  "- **" ++ b.token ++ "** (rank " ++ Text.ofInt b.rank ++ "): " ++ b.description ++ "\n"

def directionLine (direction : Text) : Text := "- **" ++ direction ++ "**\n"

def patternLine (pattern : Text) : Text := "- " ++ pattern ++ "\n"

/-- The vocabulary as a page for people, section by section. -/
def summary (v : Vocabulary) : Text :=
  "# Re-entry Vocabulary Summary\n\n## Duration Buckets\n" ++ v.durations.flatMap durationLine ++
    "\n## Proximity Buckets\n" ++ v.proximities.flatMap proximityLine ++
    "\n## Outcome Buckets\n" ++ v.outcomes.flatMap outcomeLine ++
    "\n## Direction Options\n" ++ v.directions.flatMap directionLine ++
    "\n## Calendar Patterns\n- NONE\n" ++ v.calendarPatterns.flatMap patternLine ++
    "\n## Generation Range: " ++ Text.ofInt v.generationMin ++ " to " ++
    Text.ofInt v.generationMax ++ "\n"

end Vocabulary

end TradeReentry
