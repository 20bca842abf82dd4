import TradeReentry.Health
import TradeReentry.Parameters.Reader
import TradeReentry.Step

/-!
The tiered choice of a parameter set.

The first tier of the hierarchy in which an active set applies decides; inside it the more specific
set wins, then the one that states more predicates, then the one whose name comes first in byte
order. Where no set applies, the emergency parameters forbid a re-entry. Loading replaces the whole
list of sets or, on an error, nothing.
-/

namespace TradeReentry

/-- The parameters that a set gives to one decision. -/
structure ResolvedParameters where
  setId : Text
  setName : Text
  tier : Text
  specificity : Binary64
  reentryEnabled : Bool
  maxGeneration : Int
  lotSizeMultiplier : Binary64
  stopLossPips : Binary64
  takeProfitPips : Binary64
  confidenceThreshold : Binary64
  minWaitMinutes : Int
  maxWaitMinutes : Int
  volatilityThreshold? : Option Binary64
  spreadThreshold? : Option Binary64
  /-- Whether the generation asked for is at most the highest one of the set. -/
  generationAllowed : Bool
  /-- The generation after the one asked for, unless that is the highest one already. -/
  nextGeneration? : Option Int
deriving DecidableEq, Repr

namespace ResolvedParameters

/-- The values of a set for a generation. -/
def ofSet (set : ParameterSet) (tier : Text) (specificity : Binary64) (generation : Int) :
    ResolvedParameters where
  setId := set.id
  setName := set.name
  tier := tier
  specificity := specificity
  reentryEnabled := set.reentryEnabled
  maxGeneration := set.maxGeneration
  lotSizeMultiplier := set.lotSizeMultiplier
  stopLossPips := set.stopLossPips
  takeProfitPips := set.takeProfitPips
  confidenceThreshold := set.confidenceThreshold
  minWaitMinutes := set.minWaitMinutes
  maxWaitMinutes := set.maxWaitMinutes
  volatilityThreshold? := set.volatilityThreshold?
  spreadThreshold? := set.spreadThreshold?
  generationAllowed := generation ≤ set.maxGeneration
  nextGeneration? := if generation < set.maxGeneration then some (generation + 1) else none

/-- The name of the parameters where no set applies. -/
def emergencyId : Text := "emergency_fallback"

/-- The parameters where no set applies: no re-entry, and full confidence is needed. -/
def emergency (generation : Int) : ResolvedParameters :=
  ofSet
    { id := emergencyId, name := "Emergency Fallback", tier := emergencyTier
      reentryEnabled := false, confidenceThreshold := .one }
    emergencyTier .zero generation

end ResolvedParameters

/-- What a decision asks for. -/
structure ResolveRequest where
  criteria : Criteria
  generation : Int
deriving DecidableEq, Repr

namespace Resolver

/-- The sets in use, where they come from and when they were loaded; before the first load there
are none and the time is zero. -/
structure Snapshot where
  sets : List ParameterSet := []
  source : Text := []
  loadedAt : Instant := 0
deriving DecidableEq, Repr

structure Stats where
  resolves : Nat := 0
  emergencyFallbacks : Nat := 0
  reloads : Nat := 0
  reloadFailures : Nat := 0
  tierHits : NameMap Nat := .empty
deriving DecidableEq, Repr

/-- Why sets were not loaded. -/
inductive LoadError where
  | missingFile (path : Text)
  | file (error : ParameterSet.LoadError)
  | rule (fault : ParameterSet.Fault)
deriving DecidableEq, Repr

def LoadError.message : LoadError → Text
  | .missingFile path => "参数集文件不存在: " ++ path
  | .file error => error.message
  | .rule fault => fault.message

end Resolver

structure Resolver where
  settings : ResolverSettings
  vocabulary : Vocabulary
  snapshot : Resolver.Snapshot := {}
  stats : Resolver.Stats := {}
deriving DecidableEq, Repr

namespace Resolver

/-! ## Loading -/

/-- The resolver after a load that failed. -/
def countFailure (r : Resolver) : Resolver :=
  { r with stats.reloadFailures := r.stats.reloadFailures + 1 }

/-- Puts sets in place of the present ones if they keep the rules. -/
def load (r : Resolver) (now : Instant) (sets : List ParameterSet) (source : Text) :
    Step Resolver (Except LoadError Unit) :=
  match ParameterSet.checkAll r.vocabulary r.settings.tierHierarchy sets with
  | .error fault => { result := .error (.rule fault), state := r.countFailure }
  | .ok () =>
    { result := .ok ()
      state := { r with
        snapshot := { sets, source, loadedAt := now }
        stats.reloads := r.stats.reloads + 1 }
      log := [⟨.info, "RESOLVER_LOADED: count=" ++ Text.ofNat sets.length ++ " source=" ++
        source⟩] }

/-- The source of the built-in sets. -/
def builtinSource : Text := "builtin-defaults"

/-- Loads the sets of the file that the settings name, or the built-in ones where it is missing and
the settings allow that. -/
def reload (r : Resolver) (disk : Disk) (now : Instant) : Step Resolver (Except LoadError Unit) :=
  let path := r.settings.parameterSetsFile
  if disk.pathExists path then
    match ParameterSet.ofFile disk path r.vocabulary r.settings.tierHierarchy with
    | .error error =>
      { result := .error (.file error), state := r.countFailure
        log := [⟨.error, "RESOLVER_RELOAD_FAILED: file=" ++ path ++ " error=" ++
          error.message⟩] }
    | .ok sets => r.load now sets path
  else if r.settings.useDefaultsIfMissing then
    let step := r.load now ParameterSet.defaults builtinSource
    { step with log := ⟨.info, "RESOLVER_DEFAULTS_LOADED: missing_file=" ++ path⟩ :: step.log }
  else { result := .error (.missingFile path), state := r.countFailure }

/-! ## Resolving -/

/-- Whether one set that applies comes before another. -/
def outranks (a : ParameterSet × ParameterSet.Match) (b : ParameterSet × ParameterSet.Match) :
    Bool :=
  if a.2.specificity ≠ b.2.specificity then b.2.specificity < a.2.specificity
  else if a.2.declaredCount ≠ b.2.declaredCount then b.2.declaredCount < a.2.declaredCount
  else a.1.id < b.1.id

/-- The better of the best set so far and a set that applies. -/
def better (best? : Option (ParameterSet × ParameterSet.Match))
    (candidate : ParameterSet × ParameterSet.Match) : Option (ParameterSet × ParameterSet.Match) :=
  match best? with
  | none => some candidate
  | some best => some (if outranks candidate best then candidate else best)

/-- The sets of a tier that apply to a trade. -/
def candidates (sets : List ParameterSet) (tier : Text) (criteria : Criteria) :
    List (ParameterSet × ParameterSet.Match) :=
  (sets.filter (·.tier = tier)).filterMap fun set => (set.matchOf? criteria).map (set, ·)

/-- The best set of a tier that applies to a trade. -/
def bestIn? (sets : List ParameterSet) (criteria : Criteria) (tier : Text) :
    Option (ParameterSet × ParameterSet.Match) :=
  (candidates sets tier criteria).foldl better none

/-- The first tier with a set that applies, and its best set. -/
def choose? (sets : List ParameterSet) (criteria : Criteria) :
    (tiers : List Text) → Option (Text × ParameterSet × ParameterSet.Match)
  | [] => none
  | tier :: rest =>
    match bestIn? sets criteria tier with
    | some best => some (tier, best)
    | none => choose? sets criteria rest

/-- The resolver after a request that a tier answered. -/
def countResolve (r : Resolver) (tier : Text) : Resolver :=
  { r with
    stats.resolves := r.stats.resolves + 1
    stats.tierHits := r.stats.tierHits.modify tier 0 (· + 1)
    stats.emergencyFallbacks :=
      r.stats.emergencyFallbacks + if tier = emergencyTier then 1 else 0 }

/-- The alarm of a request that no set applies to. -/
def exhaustedMessage (request : ResolveRequest) (source : Text) : Text :=
  "RESOLVER_EXHAUSTED: outcome=" ++ request.criteria.outcome ++ " duration=" ++
    request.criteria.duration ++ " proximity=" ++ request.criteria.proximity ++ " calendar=" ++
    request.criteria.calendar ++ " symbol=" ++ request.criteria.symbol ++ " generation=" ++
    Text.ofInt request.generation ++ " source=" ++ source ++ " fallback=" ++
    ResolvedParameters.emergencyId

/-- The parameters for a request. -/
def resolve (r : Resolver) (request : ResolveRequest) : Step Resolver ResolvedParameters :=
  match choose? r.snapshot.sets request.criteria r.settings.tierHierarchy with
  | some (tier, set, found) =>
    { result := .ofSet set tier found.specificity request.generation
      state := r.countResolve tier }
  | none =>
    { result := .emergency request.generation
      state := r.countResolve emergencyTier
      log := [⟨.error, exhaustedMessage request r.snapshot.source⟩] }

/-! ## Reports -/

/-- The active sets of a tier. -/
def setsOfTier (r : Resolver) (tier : Text) : List ParameterSet :=
  r.snapshot.sets.filter fun set => set.tier = tier && set.active

structure Status where
  total : Nat
  active : Nat
  tierHierarchy : List Text
  /-- The number of active sets in each tier. -/
  tierCounts : NameMap Nat
  source : Text
  /-- Empty before the first load. -/
  loadedAt : Text
  stats : Stats
deriving DecidableEq, Repr

def status (r : Resolver) : Status :=
  let active := r.snapshot.sets.filter (·.active)
  { total := r.snapshot.sets.length
    active := active.length
    tierHierarchy := r.settings.tierHierarchy
    tierCounts := active.foldl (fun counts set => counts.modify set.tier 0 (· + 1))
      (.ofList (r.settings.tierHierarchy.map (·, 0)))
    source := r.snapshot.source
    loadedAt := if 0 < r.snapshot.loadedAt then r.snapshot.loadedAt.isoText else []
    stats := r.stats }

/-- No active set at all is unhealthy; none in the last tier, or a past emergency, is degraded. -/
def health (r : Resolver) : Health :=
  let status := r.status
  let lastTierIsEmpty := status.tierHierarchy.getLast?.any fun tier =>
    !tier.isEmpty && (status.tierCounts.find? tier).getD 0 = 0
  if status.active = 0 then ⟨"resolver", .unhealthy, "no active parameter sets"⟩
  else if lastTierIsEmpty then
    ⟨"resolver", .degraded, "no active parameter set in tier " ++
      (status.tierHierarchy.getLast?).getD []⟩
  else if 0 < status.stats.emergencyFallbacks then
    ⟨"resolver", .degraded, "emergency_fallbacks=" ++
      Text.ofNat status.stats.emergencyFallbacks⟩
  else
    ⟨"resolver", .healthy, "active=" ++ Text.ofNat status.active ++ " source=" ++ status.source⟩

end Resolver

end TradeReentry
