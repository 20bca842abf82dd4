import TradeReentry.Json.Reader
import TradeReentry.Parameters.Basic

/-!
Reading parameter sets from a JSON file. A field that the file leaves out takes its default; a
pattern that is exactly a star counts as not stated.
-/

namespace TradeReentry.ParameterSet

/-- What is wrong with the fields of one set. -/
inductive FieldError where
  | shape (error : Json.ShapeError)
  | missingNames
  | notText (key : Text)
  | notNumber (key : Text)
  | wrongKind (key kind : Text)
deriving DecidableEq, Repr

def FieldError.reason : FieldError → Text
  | .shape error => error.message
  | .missingNames => "id 与 tier 为必填字符串"
  | .notText key => key ++ " 必须是字符串或 null"
  | .notNumber key => key ++ " 必须是数值或 null"
  | .wrongKind key kind => key ++ " 必须是" ++ kind

/-- Why a file gives no sets. -/
inductive LoadError where
  | file (error : Json.FileError)
  | shape (error : Json.ShapeError)
  | notAnArray (path : Text)
  | notAnObject (index : Nat)
  | field (id : Text) (error : FieldError)
  | rule (fault : Fault)
deriving DecidableEq, Repr

def LoadError.message : LoadError → Text
  | .file error => error.message
  | .shape error => error.message
  | .notAnArray path => "parameter_sets 必须是数组: " ++ path
  | .notAnObject index => "parameter_sets[" ++ Text.ofNat index ++ "] 必须是对象"
  | .field id error => faultMessage id error.reason
  | .rule fault => fault.message

/-- The keys that a set may have. -/
def keys : List Text := [
  "id", "name", "tier", "outcome_class", "duration_class", "proximity_state", "calendar_pattern",
  "symbol_pattern", "reentry_enabled", "max_generation", "lot_size_multiplier", "stop_loss_pips",
  "take_profit_pips", "confidence_threshold", "min_wait_minutes", "max_wait_minutes",
  "volatility_threshold", "spread_threshold", "active", "created_at", "updated_at"]

/-- A text, or none if it is left out or null. -/
def readText? (node : Json) (key : Text) : Except FieldError (Option Text) :=
  match node.field? key with
  | none | some .null => .ok none
  | some value =>
    match value.asString? with
    | some t => .ok (some t)
    | none => .error (.notText key)

/-- A number, or none if it is left out or null. -/
def readNumber? (node : Json) (key : Text) : Except FieldError (Option Binary64) :=
  match node.field? key with
  | none | some .null => .ok none
  | some value =>
    match value.asNumber? with
    | some x => .ok (some x)
    | none => .error (.notNumber key)

/-- A value of a kind, or the default if it is left out. -/
def readField {α : Type} (node : Json) (key kind : Text) (read? : Json → Option α) (default : α) :
    Except FieldError α :=
  match node.field? key with
  | none => .ok default
  | some value =>
    match read? value with
    | some x => .ok x
    | none => .error (.wrongKind key kind)

def readFlag (node : Json) (key : Text) (default : Bool) : Except FieldError Bool :=
  readField node key "布尔值" Json.asBool? default

def readInteger (node : Json) (key : Text) (default : Int) : Except FieldError Int :=
  readField node key "整数" Json.asInt? default

def readNumber (node : Json) (key : Text) (default : Binary64) : Except FieldError Binary64 :=
  readField node key "数值" Json.asNumber? default

/-- A pattern that is exactly a star states nothing. -/
def dropBareStar (pattern? : Option Text) : Option Text := pattern?.filter (· ≠ "*")

/-- The set that a JSON object describes. -/
def ofJson (node : Json) : Except FieldError ParameterSet := do
  match node.checkKeys keys with
  | .error error => .error (.shape error)
  | .ok () => pure ()
  match (node.field? "id").bind Json.asString?, (node.field? "tier").bind Json.asString? with
  | some id, some tier =>
    let base : ParameterSet := {}
    let outcomeClass? ← readText? node "outcome_class"
    let durationClass? ← readText? node "duration_class"
    let proximityState? ← readText? node "proximity_state"
    let calendarPattern? ← readText? node "calendar_pattern"
    let symbolPattern? ← readText? node "symbol_pattern"
    let reentryEnabled ← readFlag node "reentry_enabled" base.reentryEnabled
    let maxGeneration ← readInteger node "max_generation" base.maxGeneration
    let lotSizeMultiplier ← readNumber node "lot_size_multiplier" base.lotSizeMultiplier
    let stopLossPips ← readNumber node "stop_loss_pips" base.stopLossPips
    let takeProfitPips ← readNumber node "take_profit_pips" base.takeProfitPips
    let confidenceThreshold ← readNumber node "confidence_threshold" base.confidenceThreshold
    let minWaitMinutes ← readInteger node "min_wait_minutes" base.minWaitMinutes
    let maxWaitMinutes ← readInteger node "max_wait_minutes" base.maxWaitMinutes
    let volatilityThreshold? ← readNumber? node "volatility_threshold"
    let spreadThreshold? ← readNumber? node "spread_threshold"
    let active ← readFlag node "active" base.active
    .ok {
      id, tier, outcomeClass?, durationClass?, proximityState?, reentryEnabled, maxGeneration
      lotSizeMultiplier, stopLossPips, takeProfitPips, confidenceThreshold, minWaitMinutes
      maxWaitMinutes, volatilityThreshold?, spreadThreshold?, active
      name := ((node.field? "name").bind Json.asString?).getD id
      calendarPattern? := dropBareStar calendarPattern?
      symbolPattern? := dropBareStar symbolPattern? }
  | _, _ => .error .missingNames

/-- The text of a key, empty if there is none. -/
def textOf (node : Json) (key : Text) : Text := ((node.field? key).bind Json.asString?).getD []

/-- Reads the items of the array in order, the first having an index. -/
def ofItems (index : Nat) : List Json → Except LoadError (List ParameterSet)
  | [] => .ok []
  | node :: rest =>
    match node with
    | .object _ =>
      match ofJson node with
      | .error error => .error (.field (textOf node "id") error)
      | .ok set => (ofItems (index + 1) rest).map (set :: ·)
    | _ => .error (.notAnObject index)

/-- The sets that a JSON value describes, not yet checked against the rules. -/
def listOfJson (path : Text) (root : Json) : Except LoadError (List ParameterSet) :=
  match root.checkKeys ["version", "last_updated", "parameter_sets"] with
  | .error error => .error (.shape error)
  | .ok () =>
    match root.field? "parameter_sets" with
    | some (.array items) => ofItems 0 items
    | _ => .error (.notAnArray path)

/-- The sets of a file, which keep the rules. -/
def ofFile (disk : Disk) (path : Text) (v : Vocabulary) (tiers : List Text) :
    Except LoadError (List ParameterSet) := do
  match Json.ofFile disk path with
  | .error error => .error (.file error)
  | .ok root =>
    let sets ← listOfJson path root
    match checkAll v tiers sets with
    | .error fault => .error (.rule fault)
    | .ok () => .ok sets

end TradeReentry.ParameterSet
