import TradeReentry.Proofs.Parameters.Resolving
import TradeReentry.Proofs.Text.Totals

/-!
# The books of a resolver

Loading takes all of the sets that a call offers or none of them (`Booked`): a refused load counts one
failure and changes nothing else, an accepted one puts just these sets in use and counts one load. Over any
calls the books then balance (`Balanced`): the requests are those that the tiers answered, and the
emergencies those of the emergency tier (`balanced_of_calls`).
-/

namespace TradeReentry

namespace Resolver

/-! ## Calls -/

/-- A call of a resolver. Initializing one is reloading it. -/
inductive Call where
  /-- With the files and the time at which it is made. -/
  | reload (disk : Disk) (now : Instant)
  | load (now : Instant) (sets : List ParameterSet) (source : Text)
  | resolve (request : ResolveRequest)

/-- The reply to a call. -/
inductive Reply where
  | loaded
  | refused (error : LoadError)
  | resolved (parameters : ResolvedParameters)

/-- The reply to a load. -/
def Reply.ofLoad : Except LoadError Unit → Reply
  | .ok () => .loaded
  | .error error => .refused error

/-- The reply to a call and the resolver after it. -/
def call (r : Resolver) : Call → Reply × Resolver
  | .reload disk now => (.ofLoad (r.reload disk now).result, (r.reload disk now).state)
  | .load now sets source => (.ofLoad (r.load now sets source).result, (r.load now sets source).state)
  | .resolve request => (.resolved (r.resolve request).result, (r.resolve request).state)

/-- The replies to calls made one after another, and the resolver after them. -/
def calls (r : Resolver) : List Call → List Reply × Resolver
  | [] => ([], r)
  | first :: rest =>
    ((r.call first).1 :: ((r.call first).2.calls rest).1, ((r.call first).2.calls rest).2)

/-- The resolver before any call. -/
def fresh (settings : ResolverSettings) (vocabulary : Vocabulary) : Resolver :=
  { settings, vocabulary }

/-! ## One call -/

/-- The snapshot that a call asks for. -/
inductive Offers (r : Resolver) : Call → Snapshot → Prop where
  | given (now : Instant) (sets : List ParameterSet) (source : Text) :
      Offers r (.load now sets source) { sets, source, loadedAt := now }
  | file {disk : Disk} (now : Instant) {sets : List ParameterSet}
      (hexists : disk.pathExists r.settings.parameterSetsFile = true)
      (hread : ParameterSet.ofFile disk r.settings.parameterSetsFile r.vocabulary
        r.settings.tierHierarchy = .ok sets) :
      Offers r (.reload disk now) { sets, source := r.settings.parameterSetsFile, loadedAt := now }
  | builtin {disk : Disk} (now : Instant)
      (hmissing : disk.pathExists r.settings.parameterSetsFile = false)
      (hallowed : r.settings.useDefaultsIfMissing = true) :
      Offers r (.reload disk now)
        { sets := ParameterSet.defaults, source := builtinSource, loadedAt := now }

/-- Whether the sets of a snapshot keep the rules. -/
def Snapshot.Kept (r : Resolver) (snapshot : Snapshot) : Prop :=
  ParameterSet.checkAll r.vocabulary r.settings.tierHierarchy snapshot.sets = .ok ()

/-- What a call replies and leaves behind. -/
inductive Booked (r : Resolver) : Call → Reply × Resolver → Prop where
  /-- The sets that were offered are in use. -/
  | loaded {call : Call} {snapshot : Snapshot} (hoffers : r.Offers call snapshot)
      (hkept : snapshot.Kept r) :
      Booked r call (.loaded, { r with snapshot, stats.reloads := r.stats.reloads + 1 })
  /-- No sets were offered, or some that break a rule. -/
  | refused {call : Call} (error : LoadError) (hload : ∀ request, call ≠ .resolve request)
      (hnone : ∀ snapshot, r.Offers call snapshot → ¬snapshot.Kept r) :
      Booked r call
        (.refused error, { r with stats.reloadFailures := r.stats.reloadFailures + 1 })
  /-- A tier answered, be it that of emergencies. -/
  | resolved (request : ResolveRequest) :
      Booked r (.resolve request)
        (.resolved (r.resolve request).result, r.countResolve (r.resolve request).result.tier)

theorem ne_resolve_of_offers {r : Resolver} {c : Call} {snapshot : Snapshot}
    (hoffers : r.Offers c snapshot) (request : ResolveRequest) : c ≠ .resolve request := by
  cases hoffers <;> simp

/-- A load of the one snapshot that a call offers. -/
theorem booked_load {r : Resolver} {c : Call} {snapshot : Snapshot} (hoffers : r.Offers c snapshot)
    (honly : ∀ other, r.Offers c other → other = snapshot) :
    Booked r c (.ofLoad (r.load snapshot.loadedAt snapshot.sets snapshot.source).result,
      (r.load snapshot.loadedAt snapshot.sets snapshot.source).state) := by
  rw [load]
  split
  · next fault hfault =>
    refine .refused _ (ne_resolve_of_offers hoffers) fun other hother hkept => ?_
    rw [honly other hother, Snapshot.Kept, hfault] at hkept
    simp at hkept
  · next hkept => exact .loaded hoffers hkept

theorem booked_reload (r : Resolver) (disk : Disk) (now : Instant) :
    Booked r (.reload disk now) (.ofLoad (r.reload disk now).result, (r.reload disk now).state) := by
  rw [reload]
  dsimp only
  split
  · next hexists =>
    split
    · next error hread =>
      refine .refused _ (by simp) fun snapshot hoffers => ?_
      cases hoffers with
      | file _ _ hok => simp [hread] at hok
      | builtin _ hmissing _ => simp [hexists] at hmissing
    · next sets hread =>
      refine booked_load (.file now hexists hread) fun snapshot hoffers => ?_
      cases hoffers with
      | file _ _ hok =>
        obtain rfl := Except.ok.inj (hread.symm.trans hok)
        rfl
      | builtin _ hmissing _ => simp [hexists] at hmissing
  · next hmissing =>
    rw [Bool.not_eq_true] at hmissing
    split
    · next hallowed =>
      refine booked_load (.builtin now hmissing hallowed) fun snapshot hoffers => ?_
      cases hoffers with
      | file _ hexists _ => simp [hexists] at hmissing
      | builtin _ _ _ => rfl
    · next hforbidden =>
      refine .refused _ (by simp) fun snapshot hoffers => ?_
      cases hoffers with
      | file _ hexists _ => simp [hexists] at hmissing
      | builtin _ _ hallowed => exact absurd hallowed hforbidden

theorem booked_call (r : Resolver) (c : Call) : Booked r c (r.call c) := by
  cases c with
  | reload disk now => exact r.booked_reload disk now
  | load now sets source =>
    refine booked_load (.given now sets source) fun snapshot hoffers => ?_
    cases hoffers
    rfl
  | resolve request =>
    have hstate : (r.resolve request).state = r.countResolve (r.resolve request).result.tier := by
      unfold resolve
      split <;> rfl
    rw [call, hstate]
    exact .resolved request

theorem setup_call (r : Resolver) (c : Call) :
    (r.call c).2.settings = r.settings ∧ (r.call c).2.vocabulary = r.vocabulary := by
  have hbooked := r.booked_call c
  generalize r.call c = outcome at hbooked
  cases hbooked <;> exact ⟨rfl, rfl⟩

/-! ## Any calls -/

theorem setup_calls (r : Resolver) (made : List Call) :
    (r.calls made).2.settings = r.settings ∧ (r.calls made).2.vocabulary = r.vocabulary := by
  induction made generalizing r with
  | nil => exact ⟨rfl, rfl⟩
  | cons first rest ih =>
    obtain ⟨hsettings, hvocabulary⟩ := ih (r.call first).2
    exact ⟨hsettings.trans (r.setup_call first).1, hvocabulary.trans (r.setup_call first).2⟩

/-- What holds of the sets in use and the counts after any calls. -/
structure Balanced (r : Resolver) : Prop where
  kept : r.snapshot.Kept r
  resolves : r.stats.resolves = r.stats.tierHits.total
  emergencies : r.stats.emergencyFallbacks = (r.stats.tierHits.find? emergencyTier).getD 0

theorem balanced_fresh (settings : ResolverSettings) (vocabulary : Vocabulary) :
    (fresh settings vocabulary).Balanced where
  kept := rfl
  resolves := rfl
  emergencies := rfl

theorem Balanced.call {r : Resolver} (h : r.Balanced) (c : Call) : (r.call c).2.Balanced := by
  have hbooked := r.booked_call c
  generalize r.call c = outcome at hbooked
  cases hbooked with
  | loaded _ hkept => exact ⟨hkept, h.resolves, h.emergencies⟩
  | refused _ _ _ => exact ⟨h.kept, h.resolves, h.emergencies⟩
  | resolved _ =>
    constructor
    case kept => exact h.kept
    case resolves =>
      simp only [countResolve]
      rw [NameMap.total_increment, h.resolves]
    case emergencies =>
      simp only [countResolve]
      rw [NameMap.find?_increment, h.emergencies]

theorem Balanced.calls {r : Resolver} (h : r.Balanced) (made : List Call) :
    (r.calls made).2.Balanced := by
  induction made generalizing r with
  | nil => exact h
  | cons first rest ih => exact ih (h.call first)

/-- In each report the counts of the tiers add up to the number of active sets. -/
theorem total_tierCounts (r : Resolver) : r.status.tierCounts.total = r.status.active := by
  simp only [status, NameMap.total_foldl_increment, NameMap.total_ofList_zero, Nat.zero_add]

/-- How often each kind of reply was given between two states of the counts. -/
structure Tallied (before : Stats) (replies : List Reply) (after : Stats) : Prop where
  reloads : after.reloads = before.reloads + replies.countP (· matches .loaded)
  reloadFailures : after.reloadFailures = before.reloadFailures + replies.countP (· matches .refused _)
  resolves : after.resolves = before.resolves + replies.countP (· matches .resolved _)

theorem tallied_calls (r : Resolver) (made : List Call) :
    Tallied r.stats (r.calls made).1 (r.calls made).2.stats := by
  induction made generalizing r with
  | nil => exact ⟨rfl, rfl, rfl⟩
  | cons first rest ih =>
    obtain ⟨hreloads, hfailures, hresolves⟩ := ih (r.call first).2
    have hbooked := r.booked_call first
    simp only [calls]
    generalize r.call first = outcome at hbooked hreloads hfailures hresolves ⊢
    cases hbooked with
    | loaded _ _ =>
      refine ⟨?_, hfailures, hresolves⟩
      rw [List.countP_cons_of_pos rfl]
      exact hreloads.trans (Nat.add_right_comm _ 1 _)
    | refused _ _ _ =>
      refine ⟨hreloads, ?_, hresolves⟩
      rw [List.countP_cons_of_pos rfl]
      exact hfailures.trans (Nat.add_right_comm _ 1 _)
    | resolved _ =>
      refine ⟨hreloads, hfailures, ?_⟩
      rw [List.countP_cons_of_pos rfl]
      exact hresolves.trans (Nat.add_right_comm _ 1 _)

/-- Whatever calls were made, a load that fails leaves the sets in use, their source and their time as they
are and counts one failure, one that succeeds puts the sets in use that it was offered, and the books
balance. -/
theorem balanced_of_calls (settings : ResolverSettings) (vocabulary : Vocabulary) (made : List Call)
    (next : Call) :
    let reached := (fresh settings vocabulary).calls made
    Booked reached.2 next (reached.2.call next) ∧
      Tallied {} reached.1 reached.2.stats ∧
      reached.2.Balanced ∧
      ParameterSet.checkAll vocabulary settings.tierHierarchy reached.2.snapshot.sets = .ok () ∧
      (reached.2.snapshot.sets.map (·.id)).Nodup ∧
      (∀ set ∈ reached.2.snapshot.sets, set.tier ∈ settings.tierHierarchy) ∧
      reached.2.status.tierCounts.total = reached.2.status.active := by
  have hbalanced := (balanced_fresh settings vocabulary).calls made
  have hsetup := (fresh settings vocabulary).setup_calls made
  have hkept := hbalanced.kept
  rw [Snapshot.Kept, hsetup.1, hsetup.2] at hkept
  obtain ⟨hchecked, hdistinct⟩ := ParameterSet.checkAll_eq_ok_iff.1 hkept
  exact ⟨booked_call _ next, tallied_calls (fresh settings vocabulary) made, hbalanced, hkept, hdistinct,
    fun set hset => ParameterSet.tier_mem_of_check (hchecked set hset), total_tierCounts _⟩

end Resolver

end TradeReentry
