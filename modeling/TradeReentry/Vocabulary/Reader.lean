import TradeReentry.Json.Reader
import TradeReentry.Log
import TradeReentry.Settings.Basic
import TradeReentry.Vocabulary.Basic

/-!
Reading a vocabulary from a JSON file. A section that the file leaves out is the built-in one.
-/

namespace TradeReentry.Vocabulary

/-- What is wrong with a section of the file. -/
inductive SectionError where
  | shape (error : Json.ShapeError)
  | notAnArray
  | notTexts
  | outcomeFields
  | durationToken
  | durationLimit (token : Text)
  | proximityFields
  | proximityWindow (token : Text)
  | generationBounds
  | strengthBounds
  | calendarLength
deriving DecidableEq, Repr

def SectionError.reason : SectionError → Text
  | .shape error => error.message
  | .notAnArray => "必须是数组"
  | .notTexts => "必须是字符串数组"
  | .outcomeFields => "token(string)/rank(int) 必填"
  | .durationToken => "token(string) 必填"
  | .durationLimit token => token ++ ".max_minutes 必须为正整数或 null"
  | .proximityFields => "token 与 window_minutes[2] 必填"
  | .proximityWindow token => token ++ ".window_minutes 非法"
  | .generationBounds => "需要整数 min/max"
  | .strengthBounds => "需要数值 min/max"
  | .calendarLength => "必须为正整数"

/-- Why a file gives no vocabulary. A section is named by its key, the whole file by its path. -/
inductive LoadError where
  | file (error : Json.FileError)
  | place (name : Text) (error : SectionError)
  | rule (error : RuleError)
deriving DecidableEq, Repr

def LoadError.message : LoadError → Text
  | .file error => error.message
  | .place name error => "词表 " ++ name ++ ": " ++ error.reason
  | .rule error => error.message

/-- Refuses keys outside a list. -/
def checkShape (allowed : List Text) (node : Json) : Except SectionError Unit :=
  match node.checkKeys allowed with
  | .error error => .error (.shape error)
  | .ok () => .ok ()

/-- The description of a bucket; anything but a string counts as none. -/
def descriptionOf (node : Json) : Text := ((node.field? "desc").bind Json.asString?).getD []

def readOutcome (node : Json) : Except SectionError OutcomeBucket := do
  checkShape ["token", "rank", "desc"] node
  match (node.field? "token").bind Json.asString?, (node.field? "rank").bind Json.asInt? with
  | some token, some rank => .ok ⟨token, rank, descriptionOf node⟩
  | _, _ => .error .outcomeFields

/-- The limit of a duration: a positive integer, or none if it is left out or null. -/
def readLimit (token : Text) : Option Json → Except SectionError (Option Int)
  | none => .ok none
  | some .null => .ok none
  | some node =>
    match node.asInt? with
    | some minutes => if minutes ≤ 0 then .error (.durationLimit token) else .ok (some minutes)
    | none => .error (.durationLimit token)

def readDuration (node : Json) : Except SectionError DurationBucket := do
  checkShape ["token", "max_minutes", "iso_limit", "desc"] node
  match (node.field? "token").bind Json.asString? with
  | none => .error .durationToken
  | some token => .ok ⟨token, ← readLimit token (node.field? "max_minutes"), descriptionOf node⟩

def readProximity (node : Json) : Except SectionError ProximityBucket := do
  checkShape ["token", "window_minutes", "desc"] node
  match (node.field? "token").bind Json.asString?, node.field? "window_minutes" with
  | some token, some (.array [first, last]) =>
    match first.asInt?, last.asInt? with
    | some first, some last =>
      if last < first then .error (.proximityWindow token)
      else .ok ⟨token, first, last, descriptionOf node⟩
    | _, _ => .error (.proximityWindow token)
  | _, _ => .error .proximityFields

def readText (node : Json) : Except SectionError Text :=
  match node.asString? with
  | some t => .ok t
  | none => .error .notTexts

/-- The items of an array, read one by one; anything else is refused with an error. -/
def readItems {α : Type} (otherwise : SectionError) (read : Json → Except SectionError α) :
    Json → Except SectionError (List α)
  | .array items => items.mapM read
  | _ => .error otherwise

def readGenerations (node : Json) : Except SectionError (Int × Int) :=
  match (node.field? "min").bind Json.asInt?, (node.field? "max").bind Json.asInt?,
      node.checkKeys ["min", "max"] with
  | some min, some max, .ok () => .ok (min, max)
  | _, _, _ => .error .generationBounds

def readStrengths (node : Json) : Except SectionError (Binary64 × Binary64) :=
  match (node.field? "min").bind Json.asNumber?, (node.field? "max").bind Json.asNumber?,
      node.checkKeys ["min", "max"] with
  | some min, some max, .ok () => .ok (min, max)
  | _, _, _ => .error .strengthBounds

def readLength (node : Json) : Except SectionError Nat :=
  match node.asInt? with
  | some length => if length < 1 then .error .calendarLength else .ok length.toNat
  | none => .error .calendarLength

/-- The value of a section, or a default if the file leaves it out. -/
def readSection {α : Type} (root : Json) (key : Text) (default : α)
    (read : Json → Except SectionError α) : Except LoadError α :=
  match root.field? key with
  | none => .ok default
  | some node =>
    match read node with
    | .error error => .error (.place key error)
    | .ok value => .ok value

/-- The keys of the sections. -/
def sectionKeys : List Text := [
  "version", "duration_buckets", "proximity_buckets", "outcome_buckets", "direction_enum",
  "generation_range", "strength_range", "calendar_patterns", "calendar_min_length"]

/-- The vocabulary that a JSON value describes, not yet checked against the rules. -/
def ofJson (path : Text) (root : Json) : Except LoadError Vocabulary := do
  match root.checkKeys sectionKeys with
  | .error error => .error (.place path (.shape error))
  | .ok () => pure ()
  let outcomes ← readSection root "outcome_buckets" builtin.outcomes
    (readItems .notAnArray readOutcome)
  let durations ← readSection root "duration_buckets" builtin.durations
    (readItems .notAnArray readDuration)
  let proximities ← readSection root "proximity_buckets" builtin.proximities
    (readItems .notAnArray readProximity)
  let directions ← readSection root "direction_enum" builtin.directions
    (readItems .notTexts readText)
  let calendarPatterns ← readSection root "calendar_patterns" builtin.calendarPatterns
    (readItems .notTexts readText)
  let generations ← readSection root "generation_range"
    (builtin.generationMin, builtin.generationMax) readGenerations
  let strengths ← readSection root "strength_range" (builtin.strengthMin, builtin.strengthMax)
    readStrengths
  let calendarMinLength ← readSection root "calendar_min_length" builtin.calendarMinLength
    readLength
  .ok {
    outcomes, durations, proximities, directions, calendarPatterns, calendarMinLength
    generationMin := generations.1
    generationMax := generations.2
    strengthMin := strengths.1
    strengthMax := strengths.2 }

/-- The vocabulary of a file, which keeps the rules. -/
def ofFile (disk : Disk) (path : Text) : Except LoadError Vocabulary := do
  match Json.ofFile disk path with
  | .error error => .error (.file error)
  | .ok root =>
    let v ← ofJson path root
    match v.check with
    | .error error => .error (.rule error)
    | .ok () => .ok v

/-- The error text of settings that require a file which gives no vocabulary. -/
def requiredMessage (error : LoadError) : Text := "词表加载失败: " ++ error.message

/-- The vocabulary that settings ask for. Without a file it is the built-in one, which also stands
in for a file that cannot be used, unless that file is required. -/
def ofSettings (disk : Disk) (settings : VocabularySettings) :
    Except LoadError Vocabulary × List Log.Entry :=
  if settings.file.isEmpty then (.ok builtin, [])
  else
    match ofFile disk settings.file with
    | .ok v => (.ok v, [⟨.info, "VOCABULARY_LOADED: file=" ++ settings.file⟩])
    | .error error =>
      if settings.requireFile then (.error error, [])
      else (.ok builtin, [⟨.warn, "VOCABULARY_FALLBACK_DEFAULT: " ++ error.message⟩])

end TradeReentry.Vocabulary
