import Mathlib.Tactic.Common
import TradeReentry.Admission.Tracker
import TradeReentry.Proofs.Time.Views

/-!
# What a tracker knows of its history

`Tracker.Follows` ties the state of a symbol to the commits that were made under a clock that never
goes back: the latest decision, and the attempts of the day on which they were counted. Asking for a
symbol and ending its admission keep it, whatever day they fall on (`Tracker.Knows.acquire`,
`Tracker.Knows.settle`).
-/

namespace TradeReentry

namespace Tracker

/-- A commit of an admission, and whether it counts as an attempt. -/
structure Commit where
  symbol : Text
  instant : Instant
  counts : Bool
deriving DecidableEq, Repr

/-- The commit that the end of an admission makes. -/
def commitsOf (symbol : Text) (now : Instant) : Settlement → List Commit
  | .commit counts => [⟨symbol, now, counts⟩]
  | .release => []

/-- The commits of a symbol that count, on a UTC day. -/
def attemptsOn (history : List Commit) (symbol : Text) (day : Int) : Nat :=
  history.countP fun c => c.symbol = symbol && c.counts && c.instant.dayIndex = day

theorem attemptsOn_concat (history : List Commit) (c : Commit) (symbol : Text) (day : Int) :
    attemptsOn (history ++ [c]) symbol day = attemptsOn history symbol day +
      if c.symbol = symbol ∧ c.counts = true ∧ c.instant.dayIndex = day then 1 else 0 := by
  simp [attemptsOn, List.countP_append, List.countP_cons, and_assoc]

/-- A later instant falls on the same day or a later one. -/
theorem dayIndex_mono {now later : Instant} (h : now ≤ later) : now.dayIndex ≤ later.dayIndex := by
  rw [Instant.dayIndex_eq, Instant.dayIndex_eq]
  exact Int.ediv_le_ediv (by decide) h

/-! ## What the operations do to the state of a symbol -/

theorem state_insert (t : Tracker) (symbol other : Text) (state : SymbolState) (stats : Stats) :
    ({ t with symbols := t.symbols.insert symbol state, stats } : Tracker).state other =
      if symbol = other then state else t.state other := by
  simp only [Tracker.state, NameMap.find?_insert]
  split <;> rfl

/-- A symbol in its cooldown is refused, and nothing but the counts changes. -/
theorem acquire_of_cooling {t : Tracker} {symbol : Text} {now : Instant}
    (h : t.isCooling (t.state symbol) now = true) :
    t.acquire symbol now =
      (.error .cooldown, { t with
        stats.checks := t.stats.checks + 1
        stats.cooldownRejects := t.stats.cooldownRejects + 1 }) := if_pos h

/-- A symbol that has used up its day is refused, with an earlier day forgotten. -/
theorem acquire_of_full {t : Tracker} {symbol : Text} {now : Instant}
    (hc : t.isCooling (t.state symbol) now = false)
    (h : t.maxAttemptsPerDay ≤ ((t.state symbol).onDay now.dayIndex).attempts) :
    t.acquire symbol now =
      (.error .dailyLimit, { t with
        symbols := t.symbols.insert symbol ((t.state symbol).onDay now.dayIndex)
        stats.checks := t.stats.checks + 1
        stats.dailyLimitRejects := t.stats.dailyLimitRejects + 1 }) :=
  (if_neg (ne_true_of_eq_false hc)).trans (if_pos h)

/-- Any other symbol is admitted. -/
theorem acquire_of_room {t : Tracker} {symbol : Text} {now : Instant}
    (hc : t.isCooling (t.state symbol) now = false)
    (h : ((t.state symbol).onDay now.dayIndex).attempts < t.maxAttemptsPerDay) :
    t.acquire symbol now =
      (.ok (), { t with
        symbols := t.symbols.insert symbol
          { (t.state symbol).onDay now.dayIndex with inFlight := true }
        stats.checks := t.stats.checks + 1
        stats.allowed := t.stats.allowed + 1 }) :=
  (if_neg (ne_true_of_eq_false hc)).trans (if_neg (Int.not_le.2 h))

/-- What asking for a symbol can do. -/
theorem acquire_cases (t : Tracker) (symbol : Text) (now : Instant) :
    (t.isCooling (t.state symbol) now = true ∧
      (t.acquire symbol now).1 = .error .cooldown ∧
      ∀ other, (t.acquire symbol now).2.state other = t.state other) ∨
    (t.isCooling (t.state symbol) now = false ∧
      t.maxAttemptsPerDay ≤ ((t.state symbol).onDay now.dayIndex).attempts ∧
      (t.acquire symbol now).1 = .error .dailyLimit ∧
      ∀ other, (t.acquire symbol now).2.state other =
        if symbol = other then (t.state symbol).onDay now.dayIndex else t.state other) ∨
    (t.isCooling (t.state symbol) now = false ∧
      ((t.state symbol).onDay now.dayIndex).attempts < t.maxAttemptsPerDay ∧
      (t.acquire symbol now).1 = .ok () ∧
      ∀ other, (t.acquire symbol now).2.state other =
        if symbol = other then { (t.state symbol).onDay now.dayIndex with inFlight := true }
        else t.state other) := by
  cases hc : t.isCooling (t.state symbol) now with
  | true =>
    rw [acquire_of_cooling hc]
    exact .inl ⟨rfl, rfl, fun _ => rfl⟩
  | false =>
    rcases Int.lt_or_le ((t.state symbol).onDay now.dayIndex).attempts t.maxAttemptsPerDay
      with h | h
    · rw [acquire_of_room hc h]
      exact .inr (.inr ⟨rfl, h, rfl, fun other => state_insert ..⟩)
    · rw [acquire_of_full hc h]
      exact .inr (.inl ⟨rfl, h, rfl, fun other => state_insert ..⟩)

theorem state_commit (t : Tracker) (symbol other : Text) (now : Instant) (counts : Bool) :
    (t.settle symbol now (.commit counts)).state other =
      if symbol = other then
        { (t.state symbol).onDay now.dayIndex with
          inFlight := false
          lastDecision? := some now
          attempts := ((t.state symbol).onDay now.dayIndex).attempts + if counts then 1 else 0 }
      else t.state other := by
  unfold settle
  simp only [state_insert]
  split
  · cases counts <;> simp
  · rfl

theorem state_release (t : Tracker) (symbol other : Text) (now : Instant) :
    (t.settle symbol now .release).state other =
      if symbol = other then { t.state symbol with inFlight := false } else t.state other := by
  unfold settle
  exact state_insert ..

@[simp] theorem cooldownMinutes_acquire (t : Tracker) (symbol : Text) (now : Instant) :
    (t.acquire symbol now).2.cooldownMinutes = t.cooldownMinutes := by
  unfold acquire
  dsimp only
  split
  · rfl
  · split <;> rfl

@[simp] theorem maxAttemptsPerDay_acquire (t : Tracker) (symbol : Text) (now : Instant) :
    (t.acquire symbol now).2.maxAttemptsPerDay = t.maxAttemptsPerDay := by
  unfold acquire
  dsimp only
  split
  · rfl
  · split <;> rfl

@[simp] theorem cooldownMinutes_settle (t : Tracker) (symbol : Text) (now : Instant)
    (settlement : Settlement) :
    (t.settle symbol now settlement).cooldownMinutes = t.cooldownMinutes := by
  cases settlement <;> rfl

@[simp] theorem maxAttemptsPerDay_settle (t : Tracker) (symbol : Text) (now : Instant)
    (settlement : Settlement) :
    (t.settle symbol now settlement).maxAttemptsPerDay = t.maxAttemptsPerDay := by
  cases settlement <;> rfl

theorem inCooldown_eq_true_iff (t : Tracker) (last now : Instant) :
    t.inCooldown last now = true ↔
      last ≤ now ∧ now < last + t.cooldownMinutes * Instant.millisPerMinute := by
  simp only [inCooldown, Bool.and_eq_true, decide_eq_true_eq]
  constructor <;> intro h <;> constructor <;> lia

theorem cooldownMinutes_pos_of_inCooldown {t : Tracker} {last now : Instant}
    (h : t.inCooldown last now = true) : 0 < t.cooldownMinutes := by
  obtain ⟨hle, hlt⟩ := (inCooldown_eq_true_iff ..).1 h
  unfold Instant.millisPerMinute at hlt
  lia

/-- The symbols that are counted are those that would be refused: only a positive cooldown holds an
instant. -/
theorem isCounted_eq_isCooling (t : Tracker) (state : SymbolState) (now : Instant) :
    t.isCounted state now = t.isCooling state now := by
  rw [isCooling, isCounted]
  cases hany : state.lastDecision?.any (t.inCooldown · now) with
  | false => rw [Bool.and_false]
  | true =>
    obtain ⟨last, -, hin⟩ := (Option.any_eq_true ..).1 hany
    rw [Bool.and_true, decide_eq_true (cooldownMinutes_pos_of_inCooldown hin)]

theorem isCooling_eq_true_iff (t : Tracker) (state : SymbolState) (now : Instant) :
    t.isCooling state now = true ↔ ∃ last, state.lastDecision? = some last ∧ last ≤ now ∧
      now < last + t.cooldownMinutes * Instant.millisPerMinute := by
  rw [← isCounted_eq_isCooling, isCounted]
  simp only [Option.any_eq_true, inCooldown_eq_true_iff]

@[simp] theorem SymbolState.onDay_lastDecision? (state : SymbolState) (day : Int) :
    (state.onDay day).lastDecision? = state.lastDecision? := by
  unfold onDay
  split <;> rfl

@[simp] theorem SymbolState.onDay_inFlight (state : SymbolState) (day : Int) :
    (state.onDay day).inFlight = state.inFlight := by
  unfold onDay
  split <;> rfl

@[simp] theorem SymbolState.onDay_day? (state : SymbolState) (day : Int) :
    (state.onDay day).day? = some day := by
  unfold onDay
  split
  · assumption
  · rfl

/-- Asking for a symbol puts at most that one in flight. -/
theorem inFlight_acquire (t : Tracker) (symbol other : Text) (now : Instant) :
    ((t.acquire symbol now).2.state other).inFlight = true ↔
      (t.state other).inFlight = true ∨
        (t.acquire symbol now).1 = .ok () ∧ symbol = other := by
  rcases acquire_cases t symbol now with ⟨-, hanswer, hstate⟩ | ⟨-, -, hanswer, hstate⟩ |
    ⟨-, -, hanswer, hstate⟩
  · simp [hanswer, hstate]
  · rw [hanswer, hstate]
    split
    · next heq => simp [heq]
    · simp
  · rw [hanswer, hstate]
    split
    · next heq => simp [heq]
    · next hne => simp [hne]

theorem inFlight_settle (t : Tracker) (symbol : Text) (now : Instant) (settlement : Settlement)
    (other : Text) : ((t.settle symbol now settlement).state other).inFlight =
      if symbol = other then false else (t.state other).inFlight := by
  cases settlement with
  | release =>
    rw [state_release]
    split <;> rfl
  | commit counts =>
    rw [state_commit]
    split <;> rfl

/-- The attempts count only on their day. -/
theorem SymbolState.attempts_onDay (state : SymbolState) (day : Int) :
    (state.onDay day).attempts = if state.day? = some day then state.attempts else 0 := by
  unfold onDay
  split <;> rfl

/-- The attempts of a day are forgotten only when a later one begins. -/
theorem SymbolState.attempts_onDay_onDay (state : SymbolState) {today day : Int}
    (hstate : ∀ d, state.day? = some d → d ≤ today) (h : today ≤ day) :
    ((state.onDay today).onDay day).attempts = (state.onDay day).attempts := by
  simp only [attempts_onDay, onDay_day?, Option.some.injEq]
  by_cases heq : today = day
  · simp [heq]
  · have hday : state.day? ≠ some day := by
      intro hd
      have := hstate day hd
      omega
    simp [heq, hday]

/-! ## The state of a symbol and the history -/

/-- What a tracker with a cap and a cooldown knows of a symbol at an instant, and the commits that
were made until then. -/
structure Follows (cooldown cap : Int) (history : List Commit) (symbol : Text)
    (state : SymbolState) (now : Instant) : Prop where
  /-- The latest decision is not in the future. -/
  last_le : ∀ last, state.lastDecision? = some last → last ≤ now
  /-- No commit is later than the latest decision. -/
  le_last : ∀ c ∈ history, c.symbol = symbol →
    ∃ last, state.lastDecision? = some last ∧ c.instant ≤ last
  /-- The day of the attempts is not in the future. -/
  day_le : ∀ day, state.day? = some day → day ≤ now.dayIndex
  /-- From that day on, the attempts are those of the history. -/
  attempts_eq : ∀ day, (∀ d, state.day? = some d → d ≤ day) →
    (state.onDay day).attempts = attemptsOn history symbol day
  capped : ∀ day, (attemptsOn history symbol day : Int) ≤ cap
  /-- A symbol in flight was admitted below the cap and after its cooldown. -/
  room : state.inFlight = true → state.attempts < cap ∧ 0 < cap
  cooled : state.inFlight = true → ∀ last, state.lastDecision? = some last →
    last + cooldown * Instant.millisPerMinute ≤ now

namespace Follows

variable {cooldown cap : Int} {history : List Commit} {symbol : Text} {state : SymbolState}
  {now later : Instant}

/-- Nothing is known of a symbol at the start. -/
theorem start (cooldown : Int) (hcap : 0 ≤ cap) (symbol : Text) (now : Instant) :
    Follows cooldown cap [] symbol {} now where
  last_le := by simp
  le_last := by simp
  day_le := by simp
  attempts_eq := by simp [SymbolState.onDay, attemptsOn]
  capped := by simpa [attemptsOn] using hcap
  room := by simp
  cooled := by simp

/-- Time goes by. -/
theorem wait (h : Follows cooldown cap history symbol state now) (hle : now ≤ later) :
    Follows cooldown cap history symbol state later where
  last_le last hl := Int.le_trans (h.last_le last hl) hle
  le_last := h.le_last
  day_le day hd := Int.le_trans (h.day_le day hd) (dayIndex_mono hle)
  attempts_eq := h.attempts_eq
  capped := h.capped
  room := h.room
  cooled hf last hl := Int.le_trans (h.cooled hf last hl) hle

/-- A day begins for a symbol that is not in flight. -/
theorem onDay (h : Follows cooldown cap history symbol state now)
    (hf : state.inFlight = false) :
    Follows cooldown cap history symbol (state.onDay now.dayIndex) now where
  last_le := by simpa using h.last_le
  le_last := by simpa using h.le_last
  day_le day hd := by
    rw [SymbolState.onDay_day?, Option.some.injEq] at hd
    exact Int.le_of_eq hd.symm
  attempts_eq day hday := by
    have hle := hday now.dayIndex (SymbolState.onDay_day? ..)
    rw [SymbolState.attempts_onDay_onDay state h.day_le hle]
    exact h.attempts_eq day fun d hd => Int.le_trans (h.day_le d hd) hle
  capped := h.capped
  room := by simp [hf]
  cooled := by simp [hf]

/-- A symbol is admitted. -/
theorem admission (h : Follows cooldown cap history symbol state now)
    (hf : state.inFlight = false)
    (hroom : (state.onDay now.dayIndex).attempts < cap)
    (hcooled : ∀ last, state.lastDecision? = some last →
      last + cooldown * Instant.millisPerMinute ≤ now) :
    Follows cooldown cap history symbol
      { state.onDay now.dayIndex with inFlight := true } now where
  last_le := (h.onDay hf).last_le
  le_last := (h.onDay hf).le_last
  day_le := (h.onDay hf).day_le
  attempts_eq day hday := by
    rw [← (h.onDay hf).attempts_eq day hday]
    simp only [SymbolState.attempts_onDay]
  capped := h.capped
  room _ := by
    have hcount := (h.onDay hf).attempts_eq now.dayIndex (by simp)
    rw [SymbolState.attempts_onDay_onDay state h.day_le (Int.le_refl _)] at hcount
    exact ⟨hroom, by omega⟩
  cooled _ last hl := by
    rw [SymbolState.onDay_lastDecision?] at hl
    exact hcooled last hl

/-- An admission ends without a commit. -/
theorem release (h : Follows cooldown cap history symbol state now) :
    Follows cooldown cap history symbol { state with inFlight := false } now where
  last_le := h.last_le
  le_last := h.le_last
  day_le := h.day_le
  attempts_eq day hday := by
    rw [← h.attempts_eq day hday]
    simp only [SymbolState.attempts_onDay]
  capped := h.capped
  room := by simp
  cooled := by simp

/-- A commit of another symbol changes nothing. -/
theorem commitOther (h : Follows cooldown cap history symbol state now) {c : Commit}
    (hne : c.symbol ≠ symbol) : Follows cooldown cap (history ++ [c]) symbol state now := by
  have hattempts : attemptsOn (history ++ [c]) symbol = attemptsOn history symbol := by
    funext day
    rw [attemptsOn_concat, if_neg fun hc => hne hc.1, Nat.add_zero]
  refine ⟨h.last_le, ?_, h.day_le, ?_, ?_, h.room, h.cooled⟩
  · intro e he hsymbol
    rcases List.mem_append.1 he with he | he
    · exact h.le_last e he hsymbol
    · rw [List.mem_singleton.1 he] at hsymbol
      exact absurd hsymbol hne
  · rw [hattempts]
    exact h.attempts_eq
  · rw [hattempts]
    exact h.capped

/-- The attempts of the present day leave room for one more while the symbol is in flight, even if
it was admitted on an earlier day. -/
theorem room_today (h : Follows cooldown cap history symbol state now)
    (hf : state.inFlight = true) : (attemptsOn history symbol now.dayIndex : Int) < cap := by
  rw [← h.attempts_eq _ h.day_le, SymbolState.attempts_onDay]
  split
  · exact (h.room hf).1
  · exact (h.room hf).2

/-- The commit of an admission. -/
theorem commit (h : Follows cooldown cap history symbol state now)
    (hf : state.inFlight = true) (counts : Bool) :
    Follows cooldown cap (history ++ [⟨symbol, now, counts⟩]) symbol
      { state.onDay now.dayIndex with
        inFlight := false
        lastDecision? := some now
        attempts := (state.onDay now.dayIndex).attempts + if counts then 1 else 0 } now where
  last_le last hl := Int.le_of_eq (Option.some.inj hl).symm
  le_last c hc hsymbol := by
    refine ⟨now, rfl, ?_⟩
    rcases List.mem_append.1 hc with hc | hc
    · obtain ⟨last, hl, hle⟩ := h.le_last c hc hsymbol
      exact Int.le_trans hle (h.last_le last hl)
    · obtain rfl := List.mem_singleton.1 hc
      exact Int.le_refl _
  day_le day hd := by
    rw [SymbolState.onDay_day?, Option.some.injEq] at hd
    exact Int.le_of_eq hd.symm
  attempts_eq day hday := by
    have hle := hday now.dayIndex (SymbolState.onDay_day? ..)
    have hbefore := h.attempts_eq day fun d hd => Int.le_trans (h.day_le d hd) hle
    rw [← SymbolState.attempts_onDay_onDay state h.day_le hle] at hbefore
    rw [attemptsOn_concat]
    simp only [SymbolState.attempts_onDay, SymbolState.onDay_day?, Option.some.injEq,
      true_and] at hbefore ⊢
    by_cases heq : now.dayIndex = day
    · subst heq
      rw [if_pos rfl] at hbefore ⊢
      rw [hbefore]
      cases counts <;> simp
    · rw [if_neg heq] at hbefore ⊢
      simp [heq, ← hbefore]
  capped day := by
    have hroom := h.room_today hf
    have hcap := h.capped day
    rw [attemptsOn_concat]
    by_cases heq : now.dayIndex = day
    · subst heq
      split <;> omega
    · rw [if_neg fun hc => heq hc.2.2]
      exact hcap
  room := by simp
  cooled := by simp

end Follows

/-- What a tracker knows of a symbol. -/
abbrev Knows (t : Tracker) (history : List Commit) (symbol : Text) (now : Instant) : Prop :=
  Follows t.cooldownMinutes t.maxAttemptsPerDay history symbol (t.state symbol) now

/-- Asking for a symbol that is not in flight, whatever the answer. -/
theorem Knows.acquire {t : Tracker} {history : List Commit} {now : Instant}
    (h : ∀ symbol, t.Knows history symbol now) {symbol : Text}
    (hf : (t.state symbol).inFlight = false) (other : Text) :
    (t.acquire symbol now).2.Knows history other now := by
  have hsymbol := h symbol
  unfold Knows
  rw [cooldownMinutes_acquire, maxAttemptsPerDay_acquire]
  rcases acquire_cases t symbol now with ⟨-, -, hstate⟩ | ⟨-, -, -, hstate⟩ |
    ⟨hcool, hroom, -, hstate⟩
  · rw [hstate]
    exact h other
  · rw [hstate]
    split
    · next heq => exact heq ▸ hsymbol.onDay hf
    · exact h other
  · rw [hstate]
    split
    · next heq =>
      refine heq ▸ hsymbol.admission hf hroom ?_
      intro last hl
      by_contra hlt
      have := (isCooling_eq_true_iff t (t.state symbol) now).2
        ⟨last, hl, hsymbol.last_le last hl, Int.not_le.1 hlt⟩
      simp [hcool] at this
    · exact h other

/-- Ending the admission of a symbol in flight. -/
theorem Knows.settle {t : Tracker} {history : List Commit} {now : Instant}
    (h : ∀ symbol, t.Knows history symbol now) {symbol : Text}
    (hf : (t.state symbol).inFlight = true) (settlement : Settlement) (other : Text) :
    (t.settle symbol now settlement).Knows (history ++ commitsOf symbol now settlement) other
      now := by
  unfold Knows
  rw [cooldownMinutes_settle, maxAttemptsPerDay_settle]
  cases settlement with
  | release =>
    rw [state_release, commitsOf, List.append_nil]
    split
    · next heq => exact heq ▸ (h symbol).release
    · exact h other
  | commit counts =>
    rw [state_commit, commitsOf]
    split
    · next heq => exact heq ▸ (h symbol).commit hf counts
    · next hne => exact (h other).commitOther hne

end Tracker

end TradeReentry
