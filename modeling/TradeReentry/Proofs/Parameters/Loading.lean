import TradeReentry.Proofs.Parameters.Statements

/-!
# Sets that are loaded directly and from a file

A list of sets and a file that states it are loaded under the same conditions, and requests are answered from
the same tier under both. The file counts a pattern that is exactly a star as left out, the list as stated, so
that the answers are the same exactly if the winner of the request wins without such patterns as well
(`loads_of_stated`).
-/

namespace TradeReentry.Resolver

open ParameterSet

variable {r : Resolver} {sets : List ParameterSet} {tiers : List Text} {request : ResolveRequest}
  {direct read : ResolvedParameters}

/-- How an answer from a file is related to the one from the sets that it states. -/
structure AnsweredAlike (sets : List ParameterSet) (tiers : List Text) (request : ResolveRequest)
    (direct read : ResolvedParameters) : Prop where
  tier_eq : read.tier = direct.tier
  eq_iff : read = direct ↔ ∀ set, Winner sets request.criteria tiers set →
    WinsWithoutStars sets request.criteria tiers set
  eq_of_not_statesStar : (∀ set ∈ sets, set.applies request.criteria = true → ¬set.StatesStar) →
    read = direct

theorem Counterparts.answeredAlike (h : Counterparts sets tiers request direct read)
    (hids : (sets.map (·.id)).Nodup) : AnsweredAlike sets tiers request direct read where
  tier_eq := h.tier_eq
  eq_iff := h.eq_iff hids
  eq_of_not_statesStar := fun hnone =>
    (h.eq_iff hids).2 fun _ hwinner => winsWithoutStars_of_not_statesStar hwinner hnone

theorem load_result_eq_ok_iff_checkAll {now : Instant} {source : Text} :
    (r.load now sets source).result = .ok () ↔
      checkAll r.vocabulary r.settings.tierHierarchy sets = .ok () := by
  rw [load_result_eq_ok_iff, checkAll_eq_ok_iff]

/-- Sets without patterns that are exactly a star are loaded whenever the sets are, and the answers are
alike. -/
theorem answeredAlike_of_load {now now' : Instant} {source source' : Text}
    (hload : (r.load now sets source).result = .ok ()) :
    (r.load now' (sets.map withoutStars) source').result = .ok () ∧ ∀ request,
      AnsweredAlike sets r.settings.tierHierarchy request
        ((r.load now sets source).state.resolve request).result
        ((r.load now' (sets.map withoutStars) source').state.resolve request).result := by
  have hload' : (r.load now' (sets.map withoutStars) source').result = .ok () := by
    rw [load_result_eq_ok_iff_checkAll, checkAll_withoutStars]
    exact load_result_eq_ok_iff_checkAll.1 hload
  refine ⟨hload', fun request => ?_⟩
  exact (counterparts_of_answers (answer_resolve hload request)
    (answer_resolve hload' request)).answeredAlike (load_result_eq_ok_iff.1 hload).2

/-- Sets with finite numbers and 32-bit integers are stated by some text, and a file that states them is
loaded exactly if they are. It gives the sets without their patterns that are exactly a star, and answers
like them. -/
theorem loads_of_stated (r : Resolver) {sets : List ParameterSet} (hsets : ∀ set ∈ sets, set.IsWritable) :
    (∃ text root, Json.parse text = .ok root ∧ StatesAll root sets) ∧
      ∀ text root, Json.parse text = .ok root → StatesAll root sets →
        ∀ (disk : Disk) (path : Text), disk.read? path = some text → ∀ now source,
          ((∃ loaded, ofFile disk path r.vocabulary r.settings.tierHierarchy = .ok loaded) ↔
            (r.load now sets source).result = .ok ()) ∧
          ∀ loaded, ofFile disk path r.vocabulary r.settings.tierHierarchy = .ok loaded →
            loaded = sets.map withoutStars ∧
              ∀ now' source', (r.load now' loaded source').result = .ok () ∧ ∀ request,
                AnsweredAlike sets r.settings.tierHierarchy request
                  ((r.load now sets source).state.resolve request).result
                  ((r.load now' loaded source').state.resolve request).result := by
  refine ⟨exists_statesAll hsets, fun text root hparse hstates disk path hread now source => ?_⟩
  have hroot : Json.ofFile disk path = .ok root := by
    rw [Json.ofFile, hread]
    dsimp only
    rw [hparse]
  have hfile := ofFile_of_statesAll hroot hstates r.vocabulary r.settings.tierHierarchy
  rw [hfile, load_result_eq_ok_iff_checkAll]
  cases hcheck : checkAll r.vocabulary r.settings.tierHierarchy sets with
  | error fault => exact ⟨iff_of_false (by simp [Except.mapError, Except.map]) (by simp),
      by simp [Except.mapError, Except.map]⟩
  | ok _ =>
    refine ⟨iff_of_true ⟨_, rfl⟩ rfl, ?_⟩
    rintro loaded hloaded
    obtain rfl := Except.ok.inj hloaded
    exact ⟨rfl, fun now' source' => answeredAlike_of_load (load_result_eq_ok_iff_checkAll.2 hcheck)⟩

/-- A set for all trades, stated by a pattern that is exactly a star. -/
def starSet : ParameterSet where
  id := "p"
  name := "p"
  tier := "GLOBAL"
  calendarPattern? := some bareStar

/-- Loaded directly it is the more specific for its star, loaded from a file it is not. -/
theorem loads_of_stated_starSet :
    let r : Resolver := { settings := {}, vocabulary := .builtin }
    let request : ResolveRequest := ⟨⟨"WIN", "QUICK", "AT_EVENT", "NONE", "EURUSD"⟩, 1⟩
    (r.load 0 [starSet] []).result = .ok () ∧
      ((r.load 0 [starSet] []).state.resolve request).result = .ofSet starSet "GLOBAL" .one 1 ∧
      ∃ disk loaded, ofFile disk "p.json" r.vocabulary r.settings.tierHierarchy = .ok loaded ∧
        (r.load 0 loaded []).result = .ok () ∧
        ((r.load 0 loaded []).state.resolve request).result = .ofSet starSet "GLOBAL" .zero 1 := by
  intro r request
  have hwritable : ∀ set ∈ [starSet], set.IsWritable := by
    rw [List.forall_mem_singleton]
    constructor
    case integers => decide +kernel
    case amounts => decide +kernel
    case thresholds => simp [thresholds, starSet]
  have hload : (r.load 0 [starSet] []).result = .ok () := by decide +kernel
  obtain ⟨⟨text, root, hparse, hstates⟩, hloads⟩ := loads_of_stated r hwritable
  let disk : Disk := { working := .file "p.json" (.ofText text) .empty }
  have hread : disk.read? "p.json" = some text := by
    have hlookup : disk.lookup "p.json" = .ok (.file (.ofText text)) := rfl
    rw [Disk.read?, hlookup]
    simp
  obtain ⟨hiff, hloaded⟩ := hloads text root hparse hstates disk "p.json" hread 0 []
  obtain ⟨loaded, hfile⟩ := hiff.2 hload
  obtain ⟨rfl, halike⟩ := hloaded loaded hfile
  exact ⟨hload, by decide +kernel, disk, _, hfile, (halike 0 []).1, by decide +kernel⟩

end TradeReentry.Resolver
