import TradeReentry.Proofs.Parameters.Ranking

/-!
# Where resolved parameters come from

They are those of a set in use, under a tier of the hierarchy, or the emergency ones (`Origin`). The sets in
use keep the rules, whatever was loaded and whatever loading failed (`Checked`).
-/

namespace TradeReentry.Resolver

/-- Where the parameters for a request come from. -/
inductive Origin (r : Resolver) (request : ResolveRequest) : ResolvedParameters → Prop where
  /-- From a set in use. -/
  | set (tier : Text) (htier : tier ∈ r.settings.tierHierarchy) (set : ParameterSet)
      (hset : set ∈ r.snapshot.sets) (specificity : Binary64) :
      Origin r request (.ofSet set tier specificity request.generation)
  /-- From nowhere. -/
  | emergency : Origin r request (.emergency request.generation)

theorem origin_resolve (r : Resolver) (request : ResolveRequest) :
    Origin r request (r.resolve request).result := by
  have hchosen := chosen_choose? r.snapshot.sets request.criteria r.settings.tierHierarchy
  rw [resolve]
  generalize choose? r.snapshot.sets request.criteria r.settings.tierHierarchy = chosen? at hchosen
  cases hchosen with
  | best set hfirst hbest =>
    obtain ⟨before, after, htiers, -⟩ := hfirst
    exact .set set.tier (htiers ▸ List.mem_append_right _ List.mem_cons_self) set hbest.mem set.specificity
  | none => exact .emergency

/-- The state of a resolver after a request differs in its counts only. -/
theorem snapshot_resolve (r : Resolver) (request : ResolveRequest) :
    (r.resolve request).state.settings = r.settings ∧
      (r.resolve request).state.vocabulary = r.vocabulary ∧
      (r.resolve request).state.snapshot = r.snapshot := by
  unfold resolve
  split <;> exact ⟨rfl, rfl, rfl⟩

/-! ## The sets in use -/

/-- Whether the sets in use keep the rules. -/
def Checked (r : Resolver) : Prop :=
  ∀ set ∈ r.snapshot.sets, set.check r.vocabulary r.settings.tierHierarchy = .ok ()

theorem checked_of_empty {r : Resolver} (h : r.snapshot.sets = []) : r.Checked := by
  intro set hset
  rw [h] at hset
  exact absurd hset List.not_mem_nil

/-- Loading changes neither the settings nor the vocabulary. -/
theorem setup_load (r : Resolver) (now : Instant) (sets : List ParameterSet) (source : Text) :
    (r.load now sets source).state.settings = r.settings ∧
      (r.load now sets source).state.vocabulary = r.vocabulary := by
  unfold load
  split <;> exact ⟨rfl, rfl⟩

theorem setup_reload (r : Resolver) (disk : Disk) (now : Instant) :
    (r.reload disk now).state.settings = r.settings ∧
      (r.reload disk now).state.vocabulary = r.vocabulary := by
  unfold reload
  dsimp only
  split
  · split
    · exact ⟨rfl, rfl⟩
    · exact r.setup_load ..
  · split
    · exact r.setup_load ..
    · exact ⟨rfl, rfl⟩

namespace Checked

variable {r : Resolver}

/-- Sets that break a rule do not come into use. -/
theorem load (h : r.Checked) (now : Instant) (sets : List ParameterSet) (source : Text) :
    (r.load now sets source).state.Checked := by
  unfold Resolver.load
  split
  · exact h
  next hcheck => exact (ParameterSet.checkAll_eq_ok_iff.1 hcheck).1

theorem reload (h : r.Checked) (disk : Disk) (now : Instant) :
    (r.reload disk now).state.Checked := by
  unfold Resolver.reload
  dsimp only
  split
  · split
    · exact h
    · exact h.load _ _ _
  · split
    · exact h.load _ _ _
    · exact h

end Checked

end TradeReentry.Resolver
