import TradeReentry.Proofs.Admission.History

/-!
# Trackers that answer alike

Two trackers agree from a day on if every symbol has the same latest decision, is in flight in both or
in neither, and has the same attempts on that day and on all later ones. Trackers that agree answer all
later requests alike (`Agree.answers_eq`), and a symbol that was refused or released leaves a tracker
that agrees with the one before (`agree_of_refused`, `agree_of_released`).
-/

namespace TradeReentry

namespace Tracker

/-- What may be asked of a tracker. -/
inductive Request where
  | acquire (symbol : Text) (now : Instant)
  | settle (symbol : Text) (now : Instant) (settlement : Settlement)
deriving DecidableEq, Repr

def Request.instant : Request → Instant
  | .acquire _ now => now
  | .settle _ now _ => now

/-- The answers to the symbols that are asked for, in order. -/
def answers (t : Tracker) : List Request → List (Except Refusal Unit)
  | [] => []
  | .acquire symbol now :: rest =>
    (t.acquire symbol now).1 :: answers (t.acquire symbol now).2 rest
  | .settle symbol now settlement :: rest =>
    answers (t.settle symbol now settlement) rest

/-! ## Agreement about a symbol -/

/-- Whether two states of a symbol cannot be told apart from a day on. -/
structure SymbolState.Agree (today : Int) (s s' : SymbolState) : Prop where
  lastDecision?_eq : s.lastDecision? = s'.lastDecision?
  inFlight_eq : s.inFlight = s'.inFlight
  attempts_eq : ∀ day, today ≤ day → (s.onDay day).attempts = (s'.onDay day).attempts

namespace SymbolState.Agree

variable {today day : Int} {s s' : SymbolState}

theorem refl (today : Int) (s : SymbolState) : s.Agree today s := ⟨rfl, rfl, fun _ _ => rfl⟩

theorem symm (h : s.Agree today s') : s'.Agree today s :=
  ⟨h.lastDecision?_eq.symm, h.inFlight_eq.symm, fun day hday => (h.attempts_eq day hday).symm⟩

theorem mono (h : s.Agree today s') (hday : today ≤ day) : s.Agree day s' :=
  ⟨h.lastDecision?_eq, h.inFlight_eq, fun _ hlater => h.attempts_eq _ (Int.le_trans hday hlater)⟩

/-- A day that begins is the same in both. -/
theorem onDay (h : s.Agree today s') (hday : today ≤ day) : (s.onDay day).Agree day (s'.onDay day) := by
  refine ⟨by simp [h.lastDecision?_eq], by simp [h.inFlight_eq], fun later _ => ?_⟩
  rw [attempts_onDay, attempts_onDay _ later, onDay_day?, onDay_day?, h.attempts_eq day hday]

/-- Forgetting an earlier day cannot be noticed. -/
theorem onDay_self (h : ∀ d, s.day? = some d → d ≤ today) : s.Agree today (s.onDay today) :=
  ⟨by simp, by simp, fun _ hday => (attempts_onDay_onDay s h hday).symm⟩

theorem inFlight (h : s.Agree today s') (flag : Bool) :
    ({ s with inFlight := flag } : SymbolState).Agree today { s' with inFlight := flag } := by
  refine ⟨h.lastDecision?_eq, rfl, fun day hday => ?_⟩
  have := h.attempts_eq day hday
  simpa only [attempts_onDay] using this

/-- A commit is counted alike. -/
theorem commit (h : s.Agree day s') (hs : s.day? = some day) (hs' : s'.day? = some day)
    (now : Instant) (more : Int) :
    ({ s with inFlight := false, lastDecision? := some now, attempts := s.attempts + more } :
      SymbolState).Agree day
      { s' with inFlight := false, lastDecision? := some now, attempts := s'.attempts + more } := by
  refine ⟨rfl, rfl, ?_⟩
  intro later _
  have hsame := h.attempts_eq day (Int.le_refl day)
  simp only [attempts_onDay, hs, hs', if_true] at hsame ⊢
  rw [hsame]

end SymbolState.Agree

/-! ## Agreement of trackers -/

/-- Whether two trackers cannot be told apart from a day on. -/
structure Agree (today : Int) (t t' : Tracker) : Prop where
  cooldown_eq : t.cooldownMinutes = t'.cooldownMinutes
  cap_eq : t.maxAttemptsPerDay = t'.maxAttemptsPerDay
  state : ∀ symbol, (t.state symbol).Agree today (t'.state symbol)

namespace Agree

variable {today : Int} {t t' : Tracker}

theorem symm (h : Agree today t t') : Agree today t' t :=
  ⟨h.cooldown_eq.symm, h.cap_eq.symm, fun symbol => (h.state symbol).symm⟩

theorem isCooling_eq (h : Agree today t t') (symbol : Text) (now : Instant) :
    t.isCooling (t.state symbol) now = t'.isCooling (t'.state symbol) now := by
  simp only [isCooling, inCooldown, (h.state symbol).lastDecision?_eq, h.cooldown_eq]

/-- Asking for a symbol gets the same answer and leaves trackers that agree. -/
theorem acquire (h : Agree today t t') {now : Instant} (hnow : today ≤ now.dayIndex) (symbol : Text) :
    (t.acquire symbol now).1 = (t'.acquire symbol now).1 ∧
      Agree now.dayIndex (t.acquire symbol now).2 (t'.acquire symbol now).2 := by
  have hcooling := h.isCooling_eq symbol now
  have hday := (h.state symbol).onDay hnow
  have hattempts := (h.state symbol).attempts_eq now.dayIndex hnow
  have hlater : ∀ other, (t.state other).Agree now.dayIndex (t'.state other) :=
    fun other => (h.state other).mono hnow
  rcases t.acquire_cases symbol now with ⟨hc, hanswer, hstate⟩ | ⟨hc, hfull, hanswer, hstate⟩ |
    ⟨hc, hroom, hanswer, hstate⟩
  · rcases t'.acquire_cases symbol now with ⟨hc', hanswer', hstate'⟩ | ⟨hc', -⟩ | ⟨hc', -⟩
    · refine ⟨by rw [hanswer, hanswer'], by simp [h.cooldown_eq], by simp [h.cap_eq], ?_⟩
      intro other
      rw [hstate, hstate']
      exact hlater other
    · simp [hcooling, hc'] at hc
    · simp [hcooling, hc'] at hc
  · rcases t'.acquire_cases symbol now with ⟨hc', -⟩ | ⟨hc', hfull', hanswer', hstate'⟩ |
      ⟨hc', hroom', -⟩
    · simp [hcooling, hc'] at hc
    · refine ⟨by rw [hanswer, hanswer'], by simp [h.cooldown_eq], by simp [h.cap_eq], ?_⟩
      intro other
      rw [hstate, hstate']
      split
      · exact hday
      · exact hlater other
    · rw [h.cap_eq, hattempts] at hfull
      omega
  · rcases t'.acquire_cases symbol now with ⟨hc', -⟩ | ⟨hc', hfull', -⟩ |
      ⟨hc', hroom', hanswer', hstate'⟩
    · simp [hcooling, hc'] at hc
    · rw [h.cap_eq, hattempts] at hroom
      omega
    · refine ⟨by rw [hanswer, hanswer'], by simp [h.cooldown_eq], by simp [h.cap_eq], ?_⟩
      intro other
      rw [hstate, hstate']
      split
      · exact hday.inFlight true
      · exact hlater other

/-- Ending an admission leaves trackers that agree. -/
theorem settle (h : Agree today t t') {now : Instant} (hnow : today ≤ now.dayIndex) (symbol : Text)
    (settlement : Settlement) :
    Agree now.dayIndex (t.settle symbol now settlement) (t'.settle symbol now settlement) := by
  refine ⟨by simp [h.cooldown_eq], by simp [h.cap_eq], ?_⟩
  intro other
  have hlater := (h.state other).mono hnow
  cases settlement with
  | release =>
    rw [state_release, state_release]
    split
    · exact ((h.state symbol).mono hnow).inFlight false
    · exact hlater
  | commit counts =>
    rw [state_commit, state_commit]
    split
    · exact ((h.state symbol).onDay hnow).commit (by simp) (by simp) now _
    · exact hlater

/-- The requests of a clock that does not go back get the same answers. -/
theorem answers_eq (h : Agree today t t') {requests : List Request}
    (hlater : ∀ r ∈ requests, today ≤ r.instant.dayIndex)
    (hclock : (requests.map (·.instant)).Pairwise (· ≤ ·)) : t.answers requests = t'.answers requests := by
  induction requests generalizing today t t' with
  | nil => rfl
  | cons r rest ih =>
    obtain ⟨hfirst, hrest⟩ := List.pairwise_cons.1 hclock
    have hnow : today ≤ r.instant.dayIndex := hlater r List.mem_cons_self
    have hafter : ∀ r' ∈ rest, r.instant.dayIndex ≤ r'.instant.dayIndex :=
      fun r' hr' => dayIndex_mono (hfirst _ (List.mem_map_of_mem hr'))
    cases r with
    | acquire symbol now =>
      obtain ⟨hanswer, hagree⟩ := h.acquire (show today ≤ now.dayIndex from hnow) symbol
      rw [answers, answers, hanswer]
      exact congrArg _ (ih hagree hafter hrest)
    | settle symbol now settlement => exact ih (h.settle hnow symbol settlement) hafter hrest

end Agree

/-! ## Calls that change nothing -/

variable {t : Tracker} {symbol : Text} {now : Instant}

/-- A symbol that is refused leaves a tracker that agrees with the one before. -/
theorem agree_of_refused (hdays : ∀ d, (t.state symbol).day? = some d → d ≤ now.dayIndex)
    {refusal : Refusal} (h : (t.acquire symbol now).1 = .error refusal) :
    Agree now.dayIndex t (t.acquire symbol now).2 := by
  refine ⟨by simp, by simp, ?_⟩
  intro other
  rcases t.acquire_cases symbol now with ⟨-, -, hstate⟩ | ⟨-, -, -, hstate⟩ | ⟨-, -, hanswer, -⟩
  · rw [hstate]
    exact .refl ..
  · rw [hstate]
    split
    · next heq => exact heq ▸ .onDay_self hdays
    · exact .refl ..
  · simp [hanswer] at h

/-- A symbol that is admitted and released leaves a tracker that agrees with the one before. -/
theorem agree_of_released (hdays : ∀ d, (t.state symbol).day? = some d → d ≤ now.dayIndex)
    (hflight : (t.state symbol).inFlight = false) (h : (t.acquire symbol now).1 = .ok ())
    (later : Instant) :
    Agree now.dayIndex t ((t.acquire symbol now).2.settle symbol later .release) := by
  refine ⟨by simp, by simp, ?_⟩
  intro other
  rcases t.acquire_cases symbol now with ⟨-, hanswer, -⟩ | ⟨-, -, hanswer, -⟩ | ⟨-, -, -, hstate⟩
  · simp [hanswer] at h
  · simp [hanswer] at h
  · rw [state_release, hstate, hstate]
    by_cases heq : symbol = other
    · subst heq
      simp only [if_true]
      have hsame : ({ (t.state symbol).onDay now.dayIndex with inFlight := false } : SymbolState) =
          (t.state symbol).onDay now.dayIndex := by
        rw [← (t.state symbol).onDay_inFlight now.dayIndex] at hflight
        rw [← hflight]
      rw [hsame]
      exact .onDay_self hdays
    · simp only [heq, if_false]
      exact .refl ..

/-! ## What stays true -/

@[simp] theorem commits_acquire (t : Tracker) (symbol : Text) (now : Instant) :
    (t.acquire symbol now).2.stats.commits = t.stats.commits := by
  unfold acquire
  dsimp only
  split
  · rfl
  · split <;> rfl

@[simp] theorem commits_release (t : Tracker) (symbol : Text) (now : Instant) :
    (t.settle symbol now .release).stats.commits = t.stats.commits := rfl

@[simp] theorem commits_commit (t : Tracker) (symbol : Text) (now : Instant) (counts : Bool) :
    (t.settle symbol now (.commit counts)).stats.commits = t.stats.commits + 1 := rfl

theorem day_acquire {P : Int → Prop} (h : ∀ other d, (t.state other).day? = some d → P d)
    (hnow : P now.dayIndex) (symbol : Text) :
    ∀ other d, ((t.acquire symbol now).2.state other).day? = some d → P d := by
  intro other d hday
  rcases t.acquire_cases symbol now with ⟨-, -, hstate⟩ | ⟨-, -, -, hstate⟩ | ⟨-, -, -, hstate⟩
  · exact h other d (hstate other ▸ hday)
  · rw [hstate] at hday
    split at hday
    · rw [SymbolState.onDay_day?, Option.some.injEq] at hday
      exact hday ▸ hnow
    · exact h other d hday
  · rw [hstate] at hday
    split at hday
    · simp only [SymbolState.onDay_day?, Option.some.injEq] at hday
      exact hday ▸ hnow
    · exact h other d hday

theorem day_settle {P : Int → Prop} (h : ∀ other d, (t.state other).day? = some d → P d)
    (hnow : P now.dayIndex) (symbol : Text) (settlement : Settlement) :
    ∀ other d, ((t.settle symbol now settlement).state other).day? = some d → P d := by
  intro other d hday
  cases settlement with
  | release =>
    rw [state_release] at hday
    split at hday
    · exact h symbol d hday
    · exact h other d hday
  | commit counts =>
    rw [state_commit] at hday
    split at hday
    · simp only [SymbolState.onDay_day?, Option.some.injEq] at hday
      exact hday ▸ hnow
    · exact h other d hday

/-- The symbols that are in flight after one was refused are those before. -/
theorem inFlight_of_refused {refusal : Refusal} (h : (t.acquire symbol now).1 = .error refusal)
    (other : Text) : ((t.acquire symbol now).2.state other).inFlight = (t.state other).inFlight := by
  rw [Bool.eq_iff_iff, inFlight_acquire, h]
  simp

end Tracker

end TradeReentry
