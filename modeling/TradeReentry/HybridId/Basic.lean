import TradeReentry.Text.Digits
import TradeReentry.Vocabulary.Basic

/-!
Hybrid identifiers: the parts of a trade's context joined by underscores,
`OUTCOME_DURATION_PROXIMITY_CALENDAR_DIRECTION_GENERATION` and an optional suffix.

`compose` accepts the parts that a vocabulary allows, and `parse` takes a text apart again. The
proximity and the calendar may hold underscores themselves: the proximity is the longest run of
segments that is a token of the vocabulary, and the generation is the last segment that can be one.
-/

namespace TradeReentry

/-- The parts of an identifier. -/
structure HybridId where
  outcome : Text
  duration : Text
  proximity : Text
  calendar : Text
  direction : Text
  generation : Int
  suffix? : Option Text := none
deriving DecidableEq, Repr

namespace HybridId

/-- The parts joined by underscores. -/
def toText (id : HybridId) : Text :=
  id.outcome ++ "_" ++ id.duration ++ "_" ++ id.proximity ++ "_" ++ id.calendar ++ "_" ++
    id.direction ++ "_" ++ Text.ofInt id.generation ++
    (match id.suffix? with
      | some suffix => "_" ++ suffix
      | none => [])

/-- Why parts do not make an identifier, or a text is none. -/
inductive Error where
  | invalidComponents (faults : List Vocabulary.Fault)
  | invalidSuffix (suffix : Text)
  | tooFewSegments (count : Nat)
  | emptySegment (text : Text)
  | noGeneration (text : Text)
  | invalidTrailing (segment : Text)
  | manyTrailing (text : Text)
  | invalidGeneration (generation : Int)
deriving DecidableEq, Repr

/-- The kind of an error, for programs. -/
def Error.code : Error → Text
  | .invalidComponents _ => "InvalidComponent"
  | .invalidSuffix _ => "InvalidSuffix"
  | .tooFewSegments _ | .emptySegment _ | .noGeneration _ | .invalidTrailing _
  | .manyTrailing _ => "MalformedIdentifier"
  | .invalidGeneration _ => "InvalidGeneration"

/-- The wording of an error, for people. -/
def Error.message : Error → Text
  | .invalidComponents faults => "Invalid components: " ++ Text.join "; " (faults.map (·.message))
  | .invalidSuffix suffix =>
    "Invalid suffix format: " ++ suffix ++ ". Must be 6 lowercase alphanumeric chars"
  | .tooFewSegments count =>
    "Hybrid ID must have at least 6 components, got " ++ Text.ofNat count
  | .emptySegment text => "Hybrid ID contains an empty component: " ++ text
  | .noGeneration text => "No valid generation found in hybrid ID: " ++ text
  | .invalidTrailing segment => "Invalid trailing component after generation: " ++ segment
  | .manyTrailing text => "Unexpected components after generation in hybrid ID: " ++ text
  | .invalidGeneration generation => "Invalid generation: " ++ Text.ofInt generation

/-- The kind and the wording. -/
def Error.fullMessage (error : Error) : Text := error.code ++ ": " ++ error.message

/-! ## Composing -/

/-- The length of a suffix and of a hash in a comment. -/
def suffixLength : Nat := 6

/-- Whether a text is six digits and small letters. -/
def isSuffix (t : Text) : Bool :=
  t.length = suffixLength && t.all fun c => Ascii.isDigit c || Ascii.isLower c

/-- What the vocabulary finds wrong with the parts. -/
def faults (v : Vocabulary) (id : HybridId) : List Vocabulary.Fault :=
  v.faults id.outcome id.duration id.proximity id.calendar id.direction id.generation

/-- Accepts parts that the vocabulary allows, and a suffix of the right form. -/
def compose (v : Vocabulary) (id : HybridId) : Except Error HybridId :=
  if id.faults v ≠ [] then .error (.invalidComponents (id.faults v))
  else
    match id.suffix? with
    | some suffix => if isSuffix suffix then .ok id else .error (.invalidSuffix suffix)
    | none => .ok id

/-! ## Parsing -/

/-- The pieces between the underscores of a text. -/
def segments (t : Text) : List Text := Text.splitOn Ascii.underscore t

/-- Segments with the underscores between them. -/
def joinSegments (segments : List Text) : Text := Text.join "_" segments

/-- The number that a segment of at most three digits without a leading zero stands for. -/
def canonicalNumber? (segment : Text) : Option Int :=
  if Text.isNonemptyOf Ascii.isDigit segment && segment.length ≤ 3 &&
      (segment.length = 1 || segment.head? ≠ some Ascii.zero) then
    some (Text.digitsValue segment)
  else none

/-- The generation of the vocabulary that a segment stands for. -/
def generationOf? (v : Vocabulary) (segment : Text) : Option Int :=
  (canonicalNumber? segment).filter v.isValidGeneration

/-- The number of leading segments, at most a bound, that are together the longest token; one if no
number gives a token. -/
def proximityLength (tokens : List Text) (segments : List Text) (bound : Nat) : Nat :=
  (tokens.filterMap fun token =>
    let parts := HybridId.segments token
    if parts.length ≤ bound && parts.isPrefixOf segments then some parts.length else none).foldl
    max 1

/-- The last item that a function has a value for, with the items before and after it. -/
def splitLast? {α β : Type} (f : α → Option β) : List α → Option (List α × β × List α)
  | [] => none
  | x :: rest =>
    match splitLast? f rest with
    | some (before, y, after) => some (x :: before, y, after)
    | none => (f x).map fun y => ([], y, rest)

/-- The suffix that follows the generation, if any. -/
def suffixOf (text : Text) : List Text → Except Error (Option Text)
  | [] => .ok none
  | [segment] => if isSuffix segment then .ok (some segment) else .error (.invalidTrailing segment)
  | _ => .error (.manyTrailing text)

/-- The parts of a text. The first two segments are the outcome and the duration; the proximity, a
calendar, a direction and the generation follow. -/
def parse (v : Vocabulary) (text : Text) : Except Error HybridId :=
  let all := segments text
  if all.length < 6 then .error (.tooFewSegments all.length)
  else if all.any (·.isEmpty) then .error (.emptySegment text)
  else
    match all with
    | outcome :: duration :: rest =>
      let size := proximityLength (v.tokens .proximity) rest (rest.length - 3)
      let proximity := joinSegments (rest.take size)
      match rest.drop size with
      | first :: second :: tail =>
        match splitLast? (generationOf? v) tail with
        | none => .error (.noGeneration text)
        | some (before, generation, after) => do
          let suffix? ← suffixOf text after
          .ok {
            outcome, duration, proximity, generation, suffix?
            calendar := joinSegments (first :: second :: before).dropLast
            direction := (second :: before).getLast (List.cons_ne_nil _ _) }
      | _ => .error (.noGeneration text)
    | _ => .error (.tooFewSegments all.length)

/-- Whether a text has parts and the vocabulary allows them. -/
def isValid (v : Vocabulary) (text : Text) : Bool :=
  match parse v text with
  | .ok id => id.faults v = []
  | .error _ => false

/-! ## Generations -/

/-- The position in a chain that a generation stands for. -/
def chainPosition (generation : Int) : Except Error Text :=
  if generation = 1 then .ok "O"
  else if generation = 2 then .ok "R1"
  else if generation = 3 then .ok "R2"
  else .error (.invalidGeneration generation)

/-- The generation after a valid one, unless that is the last. -/
def nextGeneration? (v : Vocabulary) (generation : Int) : Option Int :=
  if v.isValidGeneration generation && generation < v.generationMax then some (generation + 1)
  else none

end HybridId

end TradeReentry
