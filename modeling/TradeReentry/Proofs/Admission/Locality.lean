import TradeReentry.Proofs.Admission.History

/-!
# What a symbol's admission changes

Asking for a symbol and ending its admission read no more of a tracker than the settings and the
state of that symbol, and they change no more than that state and the counts. `Tracker.Change` is
such a change as data, found from what is read (`Tracker.acquire_local`, `Tracker.settle_local`);
changes of two symbols can be made in either order (`Tracker.apply_comm`).
-/

namespace TradeReentry

namespace Tracker

/-! ## Counts -/

/-- The counts of two stretches of requests together. -/
instance : Add Stats where
  add a b := {
    checks := a.checks + b.checks
    allowed := a.allowed + b.allowed
    cooldownRejects := a.cooldownRejects + b.cooldownRejects
    dailyLimitRejects := a.dailyLimitRejects + b.dailyLimitRejects
    commits := a.commits + b.commits
    releases := a.releases + b.releases }

namespace Stats

theorem add_def (a b : Stats) : a + b = {
    checks := a.checks + b.checks
    allowed := a.allowed + b.allowed
    cooldownRejects := a.cooldownRejects + b.cooldownRejects
    dailyLimitRejects := a.dailyLimitRejects + b.dailyLimitRejects
    commits := a.commits + b.commits
    releases := a.releases + b.releases } := rfl

theorem add_assoc (a b c : Stats) : a + b + c = a + (b + c) := by
  simp only [add_def, Nat.add_assoc]

theorem add_right_comm (a b c : Stats) : a + b + c = a + c + b := by
  simp only [add_def, Nat.add_right_comm]

end Stats

/-! ## Changes -/

/-- What becomes of a symbol, if anything, and what is counted. -/
structure Change where
  state? : Option SymbolState := none
  counts : Stats := {}

/-- One change after another one. -/
def Change.andThen (first second : Change) : Change where
  state? := second.state?.or first.state?
  counts := first.counts + second.counts

/-- The tracker after a change of a symbol. -/
def apply (t : Tracker) (symbol : Text) (change : Change) : Tracker :=
  { t with
    symbols := match change.state? with
      | some state => t.symbols.insert symbol state
      | none => t.symbols
    stats := t.stats + change.counts }

theorem apply_apply (t : Tracker) (symbol : Text) (first second : Change) :
    (t.apply symbol first).apply symbol second = t.apply symbol (first.andThen second) := by
  obtain ⟨state?, counts⟩ := first
  obtain ⟨later?, more⟩ := second
  cases state? <;> cases later? <;>
    simp [apply, Change.andThen, Stats.add_assoc, NameMap.insert_insert]

theorem state_apply (t : Tracker) (symbol other : Text) (change : Change) :
    (t.apply symbol change).state other =
      if symbol = other then change.state?.getD (t.state symbol) else t.state other := by
  obtain ⟨state?, counts⟩ := change
  cases state? with
  | none =>
    by_cases heq : symbol = other
    · rw [if_pos heq, ← heq]
      rfl
    · rw [if_neg heq]
      rfl
  | some state => exact state_insert ..

/-- The changes of two symbols can be made in either order. -/
theorem apply_comm (t : Tracker) {symbol other : Text} (hne : symbol ≠ other)
    (change more : Change) :
    (t.apply symbol change).apply other more = (t.apply other more).apply symbol change := by
  unfold apply
  rw [Stats.add_right_comm]
  cases change.state? with
  | none => rfl
  | some state =>
    cases more.state? with
    | none => rfl
    | some later => simp only [NameMap.insert_comm _ hne]

/-! ## What is read -/

/-- Whether two trackers treat a symbol alike: they have the same settings and the same state of the
symbol. -/
structure Alike (symbol : Text) (t t' : Tracker) : Prop where
  cooldown : t'.cooldownMinutes = t.cooldownMinutes
  cap : t'.maxAttemptsPerDay = t.maxAttemptsPerDay
  state : t'.state symbol = t.state symbol

namespace Alike

variable {symbol : Text} {t t' : Tracker}

theorem isCooling (h : Alike symbol t t') (now : Instant) :
    t'.isCooling (t'.state symbol) now = t.isCooling (t.state symbol) now := by
  simp only [Tracker.isCooling, Tracker.inCooldown, h.cooldown, h.state]

/-- A change of another symbol is not seen. -/
theorem apply {other : Text} (h : Alike symbol t t') (hne : other ≠ symbol) (change : Change) :
    Alike symbol t (t'.apply other change) :=
  ⟨h.cooldown, h.cap, by rw [state_apply, if_neg hne, h.state]⟩

/-- The same change leaves trackers that treat the symbol alike. -/
theorem apply_apply (h : Alike symbol t t') (change : Change) :
    Alike symbol (t.apply symbol change) (t'.apply symbol change) :=
  ⟨h.cooldown, h.cap, by rw [state_apply, state_apply, if_pos rfl, if_pos rfl, h.state]⟩

end Alike

/-- What asking for a symbol answers and changes depends only on what is known of the symbol. -/
theorem acquire_local (t : Tracker) (symbol : Text) (now : Instant) :
    ∃ answer change, ∀ t', Alike symbol t t' →
      t'.acquire symbol now = (answer, t'.apply symbol change) := by
  cases hc : t.isCooling (t.state symbol) now with
  | true =>
    refine ⟨.error .cooldown, ⟨none, { checks := 1, cooldownRejects := 1 }⟩, ?_⟩
    intro t' h
    rw [acquire_of_cooling ((h.isCooling now).trans hc)]
    rfl
  | false =>
    rcases Int.lt_or_le ((t.state symbol).onDay now.dayIndex).attempts t.maxAttemptsPerDay
      with hroom | hfull
    · refine ⟨.ok (), ⟨some { (t.state symbol).onDay now.dayIndex with inFlight := true },
        { checks := 1, allowed := 1 }⟩, ?_⟩
      intro t' h
      rw [acquire_of_room ((h.isCooling now).trans hc) (by rwa [h.state, h.cap]), h.state]
      rfl
    · refine ⟨.error .dailyLimit, ⟨some ((t.state symbol).onDay now.dayIndex),
        { checks := 1, dailyLimitRejects := 1 }⟩, ?_⟩
      intro t' h
      rw [acquire_of_full ((h.isCooling now).trans hc) (by rwa [h.state, h.cap]), h.state]
      rfl

/-- What the end of an admission changes depends only on what is known of the symbol. -/
theorem settle_local (t : Tracker) (symbol : Text) (now : Instant) (settlement : Settlement) :
    ∃ change, ∀ t', Alike symbol t t' →
      t'.settle symbol now settlement = t'.apply symbol change := by
  cases settlement with
  | release =>
    refine ⟨⟨some { t.state symbol with inFlight := false }, { releases := 1 }⟩, ?_⟩
    intro t' h
    rw [settle, h.state]
    rfl
  | commit counts =>
    refine ⟨⟨some { (t.state symbol).onDay now.dayIndex with
        inFlight := false
        lastDecision? := some now
        attempts :=
          if counts then ((t.state symbol).onDay now.dayIndex).attempts + 1
          else ((t.state symbol).onDay now.dayIndex).attempts }, { commits := 1 }⟩, ?_⟩
    intro t' h
    rw [settle, h.state]
    rfl

end Tracker

end TradeReentry
