import Mathlib.Data.List.Nodup
import TradeReentry.Proofs.Parameters.Predicates
import TradeReentry.Proofs.Parameters.Sets
import TradeReentry.Resolver

/-!
# Which set a request is answered from

The sets of a tier are ranked by a strict order (`ParameterSet.Precedes`), which is total on sets with different
names, so a request has at most one `Winner`: the first set, in that order, of the first tier with a set that
applies. Resolving finds it, whatever the order of the list of sets (`resolve_of_load`).
-/

namespace TradeReentry

namespace ParameterSet

variable {a b c : ParameterSet}

/-- The ranking of the sets of a tier that apply to a trade: by their specificity, then by the number of their
predicates, then by their names. -/
def Precedes (a b : ParameterSet) : Prop :=
  b.specificity < a.specificity ∨ a.specificity = b.specificity ∧
    (b.declaredCount < a.declaredCount ∨ a.declaredCount = b.declaredCount ∧ a.id < b.id)

instance : Decidable (Precedes a b) := inferInstanceAs (Decidable (_ ∨ _ ∧ (_ ∨ _ ∧ _)))

theorem not_specificity_lt_self (a : ParameterSet) : ¬a.specificity < a.specificity := by
  unfold specificity
  split
  · decide +kernel
  · decide +kernel

/-- The specificity of a set that applies says only whether it has predicates, so their number decides. -/
theorem precedes_iff : Precedes a b ↔
    b.declaredCount < a.declaredCount ∨ a.declaredCount = b.declaredCount ∧ a.id < b.id := by
  have hlt : Binary64.zero < Binary64.one := by decide +kernel
  have hzero : ¬Binary64.zero < Binary64.zero := by decide +kernel
  have hone : ¬Binary64.one < Binary64.one := by decide +kernel
  have hgt : ¬Binary64.one < Binary64.zero := by decide +kernel
  have hne : Binary64.zero ≠ Binary64.one := by decide +kernel
  unfold Precedes specificity
  by_cases ha : a.declaredCount = 0
  · by_cases hb : b.declaredCount = 0
    · simp [ha, hb, hzero]
    · simp [ha, hb, hgt, hne, Ne.symm hb]
  · by_cases hb : b.declaredCount = 0
    · simp [ha, hb, hlt, Nat.pos_of_ne_zero ha]
    · simp [ha, hb, hone]

theorem precedes_irrefl (a : ParameterSet) : ¬Precedes a a := by
  rw [precedes_iff]
  rintro (h | ⟨-, h⟩)
  · exact Nat.lt_irrefl _ h
  · exact List.lt_irrefl _ h

theorem precedes_trans (hab : Precedes a b) (hbc : Precedes b c) : Precedes a c := by
  rw [precedes_iff] at hab hbc ⊢
  rcases hab with hab | ⟨hab, hid⟩
  · left
    rcases hbc with hbc | ⟨hbc, -⟩
    · exact Nat.lt_trans hbc hab
    · exact hbc ▸ hab
  · rcases hbc with hbc | ⟨hbc, hid'⟩
    · exact .inl (hab ▸ hbc)
    · exact .inr ⟨hab.trans hbc, List.lt_trans hid hid'⟩

/-- Of two sets with different names one precedes the other. -/
theorem precedes_of_not_precedes (hid : a.id ≠ b.id) (h : ¬Precedes b a) : Precedes a b := by
  rw [precedes_iff] at h ⊢
  rw [not_or, not_and] at h
  rcases Nat.lt_trichotomy a.declaredCount b.declaredCount with hlt | heq | hgt
  · exact absurd hlt h.1
  · exact .inr ⟨heq, NameMap.lt_of_not_lt hid.symm (h.2 heq.symm)⟩
  · exact .inl hgt

end ParameterSet

namespace Resolver

open ParameterSet

variable {sets : List ParameterSet} {criteria : Criteria} {tier : Text} {tiers : List Text}

/-! ## The best set of a tier -/

/-- A set that applies, with how it does. -/
def entry (set : ParameterSet) : ParameterSet × Match := (set, ⟨set.specificity, set.declaredCount⟩)

theorem outranks_entry {a b : ParameterSet} : outranks (entry a) (entry b) = true ↔ Precedes a b := by
  unfold outranks entry Precedes
  dsimp only
  split
  · next hne => simp [hne]
  next heq =>
  rw [ne_eq, Decidable.not_not] at heq
  split
  · next hne => simp [heq, hne, not_specificity_lt_self]
  · next hcount =>
    rw [ne_eq, Decidable.not_not] at hcount
    simp [heq, hcount, not_specificity_lt_self]

theorem map_matchOf? (set : ParameterSet) :
    (set.matchOf? criteria).map (set, ·) = if set.applies criteria then some (entry set) else none := by
  rw [matchOf?_eq]
  split
  · rfl
  · rfl

theorem candidates_eq : candidates sets tier criteria =
    (sets.filter fun set => set.tier = tier && set.applies criteria).map entry := by
  simp only [candidates, map_matchOf?]
  induction sets with
  | nil => rfl
  | cons set rest ih =>
    by_cases htier : set.tier = tier
    · by_cases happlies : set.applies criteria = true
      · simp [htier, happlies, ih]
      · simp [htier, happlies, ih]
    · simp [htier, ih]

/-- Going through sets, the best one so far is the first or precedes it, and no set seen precedes the best
one. -/
theorem foldl_better_entry (rest : List ParameterSet) (best : ParameterSet) :
    ∃ winner, (rest.map entry).foldl better (some (entry best)) = some (entry winner) ∧
      (winner = best ∨ winner ∈ rest ∧ Precedes winner best) ∧ ∀ set ∈ rest, ¬Precedes set winner := by
  induction rest generalizing best with
  | nil => exact ⟨best, rfl, .inl rfl, by simp⟩
  | cons next rest ih =>
    rw [List.map_cons, List.foldl_cons, better]
    by_cases hnext : Precedes next best
    · rw [if_pos (outranks_entry.2 hnext)]
      obtain ⟨winner, heq, hwinner, hbest⟩ := ih next
      rcases hwinner with rfl | ⟨hmem, hwinner⟩
      · exact ⟨winner, heq, .inr ⟨List.mem_cons_self, hnext⟩,
          List.forall_mem_cons.2 ⟨precedes_irrefl winner, hbest⟩⟩
      · refine ⟨winner, heq, .inr ⟨List.mem_cons_of_mem _ hmem, precedes_trans hwinner hnext⟩, ?_⟩
        refine List.forall_mem_cons.2 ⟨fun h => ?_, hbest⟩
        exact precedes_irrefl next (precedes_trans h hwinner)
    · rw [if_neg (mt outranks_entry.1 hnext)]
      obtain ⟨winner, heq, hwinner, hbest⟩ := ih best
      rcases hwinner with rfl | ⟨hmem, hwinner⟩
      · exact ⟨winner, heq, .inl rfl, List.forall_mem_cons.2 ⟨hnext, hbest⟩⟩
      · refine ⟨winner, heq, .inr ⟨List.mem_cons_of_mem _ hmem, hwinner⟩, ?_⟩
        exact List.forall_mem_cons.2 ⟨fun h => hnext (precedes_trans h hwinner), hbest⟩

/-- A set of a tier that applies, and that no other such set precedes. -/
structure Best (sets : List ParameterSet) (criteria : Criteria) (set : ParameterSet) : Prop where
  mem : set ∈ sets
  applies : set.applies criteria = true
  unpreceded : ∀ other ∈ sets, other.applies criteria = true → other.tier = set.tier → ¬Precedes other set

/-- What `bestIn?` may find. -/
inductive Ranked (sets : List ParameterSet) (criteria : Criteria) (tier : Text) :
    Option (ParameterSet × Match) → Prop where
  | none (h : ∀ set ∈ sets, set.tier = tier → set.applies criteria = false) : Ranked sets criteria tier none
  | best (set : ParameterSet) (htier : set.tier = tier) (h : Best sets criteria set) :
      Ranked sets criteria tier (some (entry set))

theorem ranked_bestIn? (sets : List ParameterSet) (criteria : Criteria) (tier : Text) :
    Ranked sets criteria tier (bestIn? sets criteria tier) := by
  rw [bestIn?, candidates_eq]
  have hmem : ∀ set, set ∈ (sets.filter fun set => set.tier = tier && set.applies criteria) ↔
      set ∈ sets ∧ set.tier = tier ∧ set.applies criteria = true := by simp
  generalize (sets.filter fun set => set.tier = tier && set.applies criteria) = applying at hmem
  cases applying with
  | nil =>
    refine .none fun set hset htier => ?_
    rw [Bool.eq_false_iff]
    intro happlies
    exact List.not_mem_nil ((hmem set).2 ⟨hset, htier, happlies⟩)
  | cons first rest =>
    obtain ⟨winner, heq, hwinner, hbest⟩ := foldl_better_entry rest first
    rw [List.map_cons, List.foldl_cons, better, heq]
    have hfirst : winner ∈ first :: rest ∧ ¬Precedes first winner := by
      rcases hwinner with rfl | ⟨hrest, hwinner⟩
      · exact ⟨List.mem_cons_self, precedes_irrefl winner⟩
      · exact ⟨List.mem_cons_of_mem _ hrest, fun h => precedes_irrefl first (precedes_trans h hwinner)⟩
    obtain ⟨hsets, htier, happlies⟩ := (hmem winner).1 hfirst.1
    refine .best winner htier ⟨hsets, happlies, fun other hother hother_applies hother_tier => ?_⟩
    have := (hmem other).2 ⟨hother, hother_tier.trans htier, hother_applies⟩
    rcases List.mem_cons.1 this with rfl | hrest
    · exact hfirst.2
    · exact hbest other hrest

/-! ## The first tier -/

/-- Whether a tier stands in the hierarchy behind none in which a set applies. -/
def IsFirst (sets : List ParameterSet) (criteria : Criteria) (tiers : List Text) (tier : Text) : Prop :=
  ∃ before after, tiers = before ++ tier :: after ∧
    ∀ set ∈ sets, set.applies criteria = true → set.tier ∉ before

theorem isFirst_cons {first : Text} (h : IsFirst sets criteria tiers tier)
    (hfirst : ∀ set ∈ sets, set.tier = first → set.applies criteria = false) :
    IsFirst sets criteria (first :: tiers) tier := by
  obtain ⟨before, after, rfl, hbefore⟩ := h
  refine ⟨first :: before, after, rfl, fun set hset happlies hmem => ?_⟩
  rcases List.mem_cons.1 hmem with htier | hmem
  · exact Bool.false_ne_true ((hfirst set hset htier).symm.trans happlies)
  · exact hbefore set hset happlies hmem

/-- What `choose?` may find. -/
inductive Chosen (sets : List ParameterSet) (criteria : Criteria) (tiers : List Text) :
    Option (Text × ParameterSet × Match) → Prop where
  | none (h : ∀ set ∈ sets, set.tier ∈ tiers → set.applies criteria = false) : Chosen sets criteria tiers none
  | best (set : ParameterSet) (hfirst : IsFirst sets criteria tiers set.tier) (h : Best sets criteria set) :
      Chosen sets criteria tiers (some (set.tier, entry set))

theorem chosen_choose? (sets : List ParameterSet) (criteria : Criteria) (tiers : List Text) :
    Chosen sets criteria tiers (choose? sets criteria tiers) := by
  induction tiers with
  | nil => exact .none (by simp)
  | cons tier rest ih =>
    have hranked := ranked_bestIn? sets criteria tier
    rw [choose?]
    generalize bestIn? sets criteria tier = best? at hranked
    cases hranked with
    | best set htier hbest =>
      subst htier
      exact .best set ⟨[], rest, rfl, by simp⟩ hbest
    | none htier =>
      show Chosen _ _ _ (choose? sets criteria rest)
      generalize choose? sets criteria rest = chosen? at ih
      cases ih with
      | best set hfirst hbest => exact .best set (isFirst_cons hfirst htier) hbest
      | none hrest =>
        refine .none fun set hset hmem => ?_
        rcases List.mem_cons.1 hmem with hfirst | hmem
        · exact htier set hset hfirst
        · exact hrest set hset hmem

/-! ## The winner -/

/-- The set that a trade is to be answered from. -/
structure Winner (sets : List ParameterSet) (criteria : Criteria) (tiers : List Text)
    (set : ParameterSet) : Prop where
  mem : set ∈ sets
  applies : set.applies criteria = true
  first : IsFirst sets criteria tiers set.tier
  precedes : ∀ other ∈ sets, other.applies criteria = true → other.tier = set.tier → other ≠ set →
    Precedes set other

theorem winner_of_best {set : ParameterSet} (hids : (sets.map (·.id)).Nodup)
    (hfirst : IsFirst sets criteria tiers set.tier) (h : Best sets criteria set) :
    Winner sets criteria tiers set := by
  refine ⟨h.mem, h.applies, hfirst, fun other hother happlies htier hne => ?_⟩
  refine precedes_of_not_precedes (fun hid => hne ?_) (h.unpreceded other hother happlies htier)
  exact List.inj_on_of_nodup_map hids hother h.mem hid.symm

/-- Two items that each stand behind others than the other one are the same. -/
theorem eq_of_append_cons {α : Type} {x y : α} {before after before' after' : List α}
    (h : before ++ x :: after = before' ++ y :: after') (hx : x ∉ before') (hy : y ∉ before) : x = y := by
  induction before generalizing before' with
  | nil =>
    cases before' with
    | nil => exact (List.cons.inj h).1
    | cons z rest => exact absurd ((List.cons.inj h).1 ▸ List.mem_cons_self) hx
  | cons z rest ih =>
    cases before' with
    | nil => exact absurd ((List.cons.inj h).1 ▸ List.mem_cons_self) hy
    | cons z' rest' =>
      exact ih (List.cons.inj h).2 (fun hmem => hx (List.mem_cons_of_mem _ hmem))
        (fun hmem => hy (List.mem_cons_of_mem _ hmem))

/-- Sets that apply and whose tiers are the first are of the same tier. -/
theorem tier_eq_of_isFirst {set other : ParameterSet} (hset : set ∈ sets)
    (happlies : set.applies criteria = true) (hfirst : IsFirst sets criteria tiers set.tier)
    (hother : other ∈ sets) (happlies' : other.applies criteria = true)
    (hfirst' : IsFirst sets criteria tiers other.tier) : set.tier = other.tier := by
  obtain ⟨before, after, htiers, hbefore⟩ := hfirst
  obtain ⟨before', after', htiers', hbefore'⟩ := hfirst'
  exact eq_of_append_cons (htiers.symm.trans htiers') (hbefore' set hset happlies)
    (hbefore other hother happlies')

theorem Winner.unique {set other : ParameterSet} (h : Winner sets criteria tiers set)
    (hother : Winner sets criteria tiers other) : other = set := by
  have htier := tier_eq_of_isFirst h.mem h.applies h.first hother.mem hother.applies hother.first
  refine Decidable.not_not.1 fun hne => precedes_irrefl set (precedes_trans
    (h.precedes other hother.mem hother.applies htier.symm hne)
    (hother.precedes set h.mem h.applies htier (Ne.symm hne)))

theorem Winner.of_perm {sets' : List ParameterSet} {set : ParameterSet} (hperm : sets.Perm sets')
    (h : Winner sets criteria tiers set) : Winner sets' criteria tiers set := by
  obtain ⟨before, after, htiers, hbefore⟩ := h.first
  exact ⟨hperm.mem_iff.1 h.mem, h.applies,
    ⟨before, after, htiers, fun other hother => hbefore other (hperm.mem_iff.2 hother)⟩,
    fun other hother => h.precedes other (hperm.mem_iff.2 hother)⟩

/-! ## Resolving -/

theorem load_result_eq_ok_iff {r : Resolver} {now : Instant} {source : Text} :
    (r.load now sets source).result = .ok () ↔
      (∀ set ∈ sets, set.check r.vocabulary r.settings.tierHierarchy = .ok ()) ∧
        (sets.map (·.id)).Nodup := by
  rw [← checkAll_eq_ok_iff, load]
  split
  · next h => simp [h]
  · next h => simp [h]

/-- Parameters are those of the winner, or the emergency ones if no set applies. -/
inductive Answer (sets : List ParameterSet) (tiers : List Text) (request : ResolveRequest) :
    ResolvedParameters → Prop where
  | winner (set : ParameterSet) (h : Winner sets request.criteria tiers set) :
      Answer sets tiers request (.ofSet set set.tier set.specificity request.generation)
  | emergency (h : ∀ set ∈ sets, set.applies request.criteria = false) :
      Answer sets tiers request (.emergency request.generation)

theorem answer_resolve {r : Resolver} {now : Instant} {source : Text}
    (hload : (r.load now sets source).result = .ok ()) (request : ResolveRequest) :
    Answer sets r.settings.tierHierarchy request
      ((r.load now sets source).state.resolve request).result := by
  obtain ⟨hcheck, hids⟩ := load_result_eq_ok_iff.1 hload
  have hstate : (r.load now sets source).state.snapshot.sets = sets ∧
      (r.load now sets source).state.settings = r.settings := by
    rw [load] at hload ⊢
    split at hload
    · simp at hload
    · exact ⟨rfl, rfl⟩
  have hchosen := chosen_choose? sets request.criteria r.settings.tierHierarchy
  rw [resolve, hstate.1, hstate.2]
  generalize choose? sets request.criteria r.settings.tierHierarchy = chosen? at hchosen
  cases hchosen with
  | best set hfirst hbest => exact .winner set (winner_of_best hids hfirst hbest)
  | none h => exact .emergency fun set hset => h set hset (tier_mem_of_check (hcheck set hset))

/-- The answer under loaded sets. A set applies if the trade fits what it states, and is then as specific as
the share of its predicates that was counted. If a set applies, there is one winner, which gives its values; if
none does, a re-entry is forbidden. Loaded in another order, the sets give the same answers. -/
theorem resolve_of_load {r : Resolver} {now : Instant} {source : Text}
    (hload : (r.load now sets source).result = .ok ()) (request : ResolveRequest) :
    (∀ set ∈ sets, (set.applies request.criteria = true ↔ set.Fits request.criteria) ∧
      set.matchOf? request.criteria =
        if set.applies request.criteria then some ⟨set.specificity, set.declaredCount⟩ else none) ∧
      ((∃ set ∈ sets, set.applies request.criteria = true) →
        ∃ set, Winner sets request.criteria r.settings.tierHierarchy set ∧
          (∀ other, Winner sets request.criteria r.settings.tierHierarchy other → other = set) ∧
          ((r.load now sets source).state.resolve request).result =
            .ofSet set set.tier set.specificity request.generation) ∧
      ((∀ set ∈ sets, set.applies request.criteria = false) →
        ((r.load now sets source).state.resolve request).result = .emergency request.generation ∧
          ((r.load now sets source).state.resolve request).result.reentryEnabled = false) ∧
      ∀ sets' now' source', sets.Perm sets' →
        (r.load now' sets' source').result = .ok () ∧
          ((r.load now' sets' source').state.resolve request).result =
            ((r.load now sets source).state.resolve request).result := by
  have hanswer := answer_resolve hload request
  refine ⟨fun set hset => ⟨applies_iff_fits ((load_result_eq_ok_iff.1 hload).1 set hset),
    matchOf?_eq set request.criteria⟩, ?_, ?_, ?_⟩
  · rintro ⟨set, hset, happlies⟩
    generalize ((r.load now sets source).state.resolve request).result = parameters at hanswer
    cases hanswer with
    | winner set h => exact ⟨set, h, fun other hother => h.unique hother, rfl⟩
    | emergency h => exact absurd ((h set hset).symm.trans happlies) Bool.false_ne_true
  · intro hnone
    generalize ((r.load now sets source).state.resolve request).result = parameters at hanswer
    cases hanswer with
    | winner set h => exact absurd ((hnone set h.mem).symm.trans h.applies) Bool.false_ne_true
    | emergency h => exact ⟨rfl, rfl⟩
  · intro sets' now' source' hperm
    have hload' : (r.load now' sets' source').result = .ok () := by
      obtain ⟨hcheck, hids⟩ := load_result_eq_ok_iff.1 hload
      exact load_result_eq_ok_iff.2
        ⟨fun set hset => hcheck set (hperm.mem_iff.2 hset), (hperm.map _).nodup_iff.1 hids⟩
    refine ⟨hload', ?_⟩
    have hanswer' := answer_resolve hload' request
    generalize ((r.load now sets source).state.resolve request).result = parameters at hanswer
    generalize ((r.load now' sets' source').state.resolve request).result = parameters' at hanswer'
    cases hanswer with
    | winner set h =>
      cases hanswer' with
      | winner set' h' => rw [(h.of_perm hperm).unique h']
      | emergency h' =>
        have hfalse := h' set (hperm.mem_iff.1 h.mem)
        exact absurd (hfalse.symm.trans h.applies) Bool.false_ne_true
    | emergency h =>
      cases hanswer' with
      | winner set' h' =>
        have hfalse := h set' (hperm.mem_iff.2 h'.mem)
        exact absurd (hfalse.symm.trans h'.applies) Bool.false_ne_true
      | emergency h' => rfl

/-- A set for short wins. -/
def shortWins : ParameterSet where
  id := "short_a"
  tier := "TIER2"
  outcomeClass? := some (Text.ofString "WIN")
  durationClass? := some (Text.ofString "QUICK")

/-- Sets of which two of the second tier apply to a short win in euros with as many predicates; the one of
the first tier is not active. -/
def rankedSets : List ParameterSet := [
  { id := "wins", tier := "TIER2", outcomeClass? := some (Text.ofString "WIN") },
  { id := "short_b", tier := "TIER2", durationClass? := some (Text.ofString "QUICK")
    symbolPattern? := some (Text.ofString "EUR*") },
  { id := "everything", tier := "GLOBAL" },
  shortWins,
  { id := "exact", tier := "EXACT", outcomeClass? := some (Text.ofString "WIN"), active := false }]

/-- The first of the two by name wins, in whatever order they are loaded. -/
theorem resolve_of_load_rankedSets :
    let r : Resolver := { settings := {}, vocabulary := .builtin }
    let request : ResolveRequest := ⟨⟨"WIN", "QUICK", "AT_EVENT", "NONE", "EURUSD"⟩, 1⟩
    (r.load 0 rankedSets []).result = .ok () ∧
      ((r.load 0 rankedSets []).state.resolve request).result = .ofSet shortWins "TIER2" .one 1 ∧
      (r.load 0 rankedSets.reverse []).result = .ok () ∧
      ((r.load 0 rankedSets.reverse []).state.resolve request).result =
        .ofSet shortWins "TIER2" .one 1 := by
  intro r request
  have hload : (r.load 0 rankedSets []).result = .ok () := by decide +kernel
  have hmem : shortWins ∈ rankedSets := by decide +kernel
  have happlies : shortWins.applies request.criteria = true := by decide +kernel
  have hspecificity : shortWins.specificity = .one := by decide +kernel
  obtain ⟨-, hsome, -, hperm⟩ := resolve_of_load hload request
  obtain ⟨winner, -, hunique, hresult⟩ := hsome ⟨shortWins, hmem, happlies⟩
  have hwinner : Winner rankedSets request.criteria r.settings.tierHierarchy shortWins := by
    refine ⟨hmem, happlies, ⟨["EXACT", "TIER1"], ["TIER3", "GLOBAL"], rfl, ?_⟩, ?_⟩
    · decide +kernel
    · decide +kernel
  obtain rfl := hunique _ hwinner
  rw [hspecificity] at hresult
  obtain ⟨hload', hresult'⟩ := hperm _ 0 [] (List.reverse_perm rankedSets).symm
  exact ⟨hload, hresult, hload', hresult'.trans hresult⟩

end Resolver

end TradeReentry
