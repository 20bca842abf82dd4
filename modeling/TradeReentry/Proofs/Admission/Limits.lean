import Mathlib.Data.Set.Card
import TradeReentry.Proofs.Admission.Holding

/-!
# Admission limits over whole runs

`Slots.Reached` is a run of requests on slots under a clock that never goes back, together with the
commits that were made. Every request keeps `Slots.Sound`: the tracker knows the history, and each
symbol in flight is held by one slot. So the daily cap and the cooldown hold of the whole history
and not only of the counters, and the reports of the tracker are those of the history
(`Slots.limits_of_reached`).
-/

namespace TradeReentry

/-! ## Runs of requests on slots -/

namespace Slots

/-- What callers ask of slots. -/
inductive Request where
  | acquire (slot symbol : Text)
  | settle (slot : Text) (settlement : Tracker.Settlement)
  | move (slot target : Text)
deriving DecidableEq, Repr

/-- The slots after a request. -/
def perform (s : Slots) (now : Instant) : Request → Slots
  | .acquire slot symbol => (s.acquire slot symbol now).2
  | .settle slot settlement => s.settle slot now settlement
  | .move slot target => s.move slot target now

/-- The commit that a request makes: that of a slot which holds an admission. -/
def commits (s : Slots) (now : Instant) : Request → List Tracker.Commit
  | .settle slot settlement =>
    match s.held.find? slot with
    | some symbol => Tracker.commitsOf symbol now settlement
    | none => []
  | .acquire .. | .move .. => []

/-- Whether a request can be answered at once: asking for a held symbol waits. -/
def Ready (s : Slots) : Request → Prop
  | .acquire _ symbol => s.isHeld symbol = false
  | _ => True

/-- The slots that requests lead to from a fresh tracker, with the commits made on the way and the
latest reading of a clock that never goes back. -/
inductive Reached (cooldown cap : Int) : List Tracker.Commit → Slots → Instant → Prop
  | start (now : Instant) : Reached cooldown cap []
      { tracker := { cooldownMinutes := cooldown, maxAttemptsPerDay := cap } } now
  | step {history : List Tracker.Commit} {s : Slots} {now later : Instant} (request : Request) :
      Reached cooldown cap history s now → now ≤ later → s.Ready request →
      Reached cooldown cap (history ++ s.commits later request) (s.perform later request) later

/-- What holds of slots between requests, apart from a symbol that was admitted and that no slot
holds yet: the tracker knows the history, and each symbol in flight is held by one slot. -/
structure Sound (history : List Tracker.Commit) (s : Slots) (now : Instant)
    (pending? : Option Text) : Prop where
  knows : ∀ symbol, s.tracker.Knows history symbol now
  inFlight_iff : ∀ symbol, (s.tracker.state symbol).inFlight = true ↔
    (∃ slot, s.held.find? slot = some symbol) ∨ pending? = some symbol
  once : ∀ slot other symbol, s.held.find? slot = some symbol →
    s.held.find? other = some symbol → slot = other
  pending_free : ∀ slot, s.held.find? slot ≠ none → s.held.find? slot ≠ pending?

namespace Sound

variable {history : List Tracker.Commit} {s : Slots} {now later : Instant} {pending? : Option Text}

theorem wait (h : Sound history s now pending?) (hle : now ≤ later) :
    Sound history s later pending? :=
  ⟨fun symbol => (h.knows symbol).wait hle, h.inFlight_iff, h.once, h.pending_free⟩

theorem owned (h : Sound history s now pending?) : Owned s pending? :=
  ⟨h.inFlight_iff, h.once, h.pending_free⟩

/-- Emptying a slot. -/
theorem settle (h : Sound history s now pending?) (slot : Text)
    (settlement : Tracker.Settlement) :
    Sound (history ++ s.commits now (.settle slot settlement)) (s.settle slot now settlement) now
      pending? := by
  obtain ⟨hinFlight, honce, hpending⟩ := h.owned.settle slot now settlement
  refine ⟨?_, hinFlight, honce, hpending⟩
  intro other
  rw [commits]
  cases hslot : s.held.find? slot with
  | none =>
    rw [settle_of_empty hslot, List.append_nil]
    exact h.knows other
  | some symbol =>
    rw [settle_of_held hslot]
    have hf : (s.tracker.state symbol).inFlight = true :=
      (h.inFlight_iff symbol).2 (.inl ⟨slot, hslot⟩)
    exact Tracker.Knows.settle h.knows hf settlement other

/-- What a request does without a commit. -/
theorem kept (history : List Tracker.Commit) (now : Instant) :
    Kept now (fun s pending? => Sound history s now pending?) where
  asked := by
    intro s symbol h hfree
    obtain ⟨hinFlight, honce, hpending⟩ := h.owned.asked hfree now
    exact ⟨Tracker.Knows.acquire h.knows (h.owned.inFlight_eq_false hfree), hinFlight, honce,
      hpending⟩
  release := by
    intro s pending? slot h
    have hs := h.settle slot .release
    have hc : s.commits now (.settle slot .release) = [] := by
      cases hslot : s.held.find? slot <;> simp [commits, Tracker.commitsOf, hslot]
    rwa [hc, List.append_nil] at hs
  seated := by
    intro s slot symbol h hslot
    obtain ⟨hinFlight, honce, hpending⟩ := h.owned.seated hslot
    exact ⟨h.knows, hinFlight, honce, hpending⟩
  unseated := by
    intro s slot symbol h hslot
    obtain ⟨hinFlight, honce, hpending⟩ := h.owned.unseated hslot
    exact ⟨h.knows, hinFlight, honce, hpending⟩

end Sound

namespace Reached

variable {cooldown cap : Int} {history : List Tracker.Commit} {s : Slots} {now : Instant}

theorem tracker_eq (h : Reached cooldown cap history s now) :
    s.tracker.cooldownMinutes = cooldown ∧ s.tracker.maxAttemptsPerDay = cap := by
  induction h with
  | start => exact ⟨rfl, rfl⟩
  | @step history s now later request _ _ _ ih =>
    have hsettle : ∀ (s : Slots) slot settlement,
        (s.settle slot later settlement).tracker.cooldownMinutes = s.tracker.cooldownMinutes ∧
        (s.settle slot later settlement).tracker.maxAttemptsPerDay =
          s.tracker.maxAttemptsPerDay := by
      intro s slot settlement
      unfold Slots.settle
      split <;> simp
    rw [← ih.1, ← ih.2]
    cases request with
    | acquire slot symbol =>
      have := hsettle { s with tracker := (s.tracker.acquire symbol later).2 } slot .release
      simp only [Tracker.cooldownMinutes_acquire, Tracker.maxAttemptsPerDay_acquire] at this
      simp only [perform, Slots.acquire]
      split <;> exact this
    | settle slot settlement => exact hsettle s slot settlement
    | move slot target =>
      simp only [perform, Slots.move]
      split
      · exact ⟨rfl, rfl⟩
      · split <;> exact hsettle s target .release

/-- Every run keeps what ties the slots to the history. -/
theorem sound (hcap : 0 ≤ cap) (h : Reached cooldown cap history s now) :
    Sound history s now none := by
  induction h with
  | start now =>
    refine ⟨fun symbol => .start cooldown hcap symbol now, ?_, ?_, ?_⟩
    · intro symbol
      simp [Tracker.state]
    · simp
    · simp
  | @step history s now later request _ hle hready ih =>
    have hs := ih.wait hle
    cases request with
    | acquire slot symbol =>
      rw [commits, List.append_nil]
      exact (Sound.kept history later).acquire hs slot hready
    | settle slot settlement => exact hs.settle slot settlement
    | move slot target =>
      rw [commits, List.append_nil]
      exact (Sound.kept history later).move hs slot target

end Reached

/-! ## What the tracker reports -/

section Reports

variable {history : List Tracker.Commit} {s : Slots} {now : Instant}

/-- The attempts reported for a symbol are those committed on the day, of the symbols with any. -/
theorem Sound.mem_dailyAttempts_iff (h : Sound history s now none) (symbol : Text)
    (attempts : Int) :
    (symbol, attempts) ∈ s.tracker.dailyAttempts now ↔
      0 < attempts ∧ attempts = Tracker.attemptsOn history symbol now.dayIndex := by
  have hknows := h.knows symbol
  have hcount := hknows.attempts_eq now.dayIndex hknows.day_le
  rw [Tracker.SymbolState.attempts_onDay] at hcount
  rw [Tracker.dailyAttempts, List.mem_filterMap]
  constructor
  · rintro ⟨⟨other, state⟩, hmem, hif⟩
    dsimp only at hif
    split at hif
    · next hday =>
      obtain ⟨rfl, rfl⟩ := Prod.mk.inj (Option.some.inj hif)
      have hstate : s.tracker.state other = state := by
        simp [Tracker.state, (NameMap.mem_entries_iff ..).1 hmem]
      rw [hstate, if_pos hday.1] at hcount
      exact ⟨hday.2, hcount⟩
    · cases hif
  · rintro ⟨hpos, rfl⟩
    have hday : (s.tracker.state symbol).day? = some now.dayIndex := by
      by_contra hday
      rw [if_neg hday] at hcount
      omega
    rw [if_pos hday] at hcount
    cases hfind : s.tracker.symbols.find? symbol with
    | none => simp [Tracker.state, hfind] at hday
    | some state =>
      have hstate : s.tracker.state symbol = state := by simp [Tracker.state, hfind]
      rw [hstate] at hday hcount
      refine ⟨(symbol, state), (NameMap.mem_entries_iff ..).2 hfind, ?_⟩
      rw [← hcount] at hpos ⊢
      exact if_pos ⟨hday, hpos⟩

/-- A held symbol is not in its cooldown. -/
theorem Sound.isHeld_eq_false_of_cooling (h : Sound history s now none) {symbol : Text}
    (hc : s.tracker.isCooling (s.tracker.state symbol) now = true) : s.isHeld symbol = false := by
  rw [Bool.eq_false_iff]
  intro hheld
  have hf := (h.inFlight_iff symbol).2 (.inl ((isHeld_eq_true_iff s symbol).1 hheld))
  obtain ⟨last, hlast, -, hlt⟩ := (Tracker.isCooling_eq_true_iff ..).1 hc
  exact absurd ((h.knows symbol).cooled hf last hlast) (Int.not_le.2 hlt)

/-- The cooldowns reported are the symbols that would be refused for theirs. -/
theorem Sound.activeCooldowns_eq (h : Sound history s now none) :
    s.tracker.activeCooldowns now =
      {symbol | s.isHeld symbol = false ∧
        (s.tracker.acquire symbol now).1 = .error .cooldown}.ncard := by
  have hcooling : ∀ symbol, (s.isHeld symbol = false ∧
      (s.tracker.acquire symbol now).1 = .error .cooldown) ↔
      s.tracker.isCooling (s.tracker.state symbol) now = true := by
    intro symbol
    rcases Tracker.acquire_cases s.tracker symbol now with ⟨hc, ha, -⟩ | ⟨hc, -, ha, -⟩ |
      ⟨hc, -, ha, -⟩
    · simp [hc, ha, h.isHeld_eq_false_of_cooling hc]
    · simp [hc, ha]
    · simp [hc, ha]
  have hnames : ∀ symbol, s.tracker.isCooling (s.tracker.state symbol) now = true ↔
      symbol ∈ (s.tracker.symbols.entries.filter (s.tracker.isCooling ·.2 now)).map (·.1) := by
    intro symbol
    simp only [List.mem_map, List.mem_filter, Prod.exists, exists_and_right, exists_eq_right,
      NameMap.mem_entries_iff]
    cases hfind : s.tracker.symbols.find? symbol with
    | none => simp [Tracker.state, Tracker.isCooling, hfind]
    | some state => simp [Tracker.state, hfind]
  have hnodup : ((s.tracker.symbols.entries.filter (s.tracker.isCooling ·.2 now)).map
      (·.1)).Nodup := by
    rw [List.Nodup, List.pairwise_map]
    apply (s.tracker.symbols.sorted.filter _).imp
    rintro ⟨one, _⟩ ⟨other, _⟩ hlt rfl
    exact List.lt_irrefl one hlt
  simp only [hcooling, hnames]
  rw [Tracker.activeCooldowns]
  simp only [Tracker.isCounted_eq_isCooling]
  rw [← List.coe_toFinset, Set.ncard_coe_finset, List.toFinset_card_of_nodup hnodup,
    List.length_map]

end Reports

/-! ## The limits -/

/-- Whatever callers do with their slots, at most the cap of commits counts on a day, a symbol is
admitted only after the cooldown of its every commit, and the reports of the tracker are those of
the history. -/
theorem limits_of_reached {cooldown cap : Int} (hcap : 0 ≤ cap) {history : List Tracker.Commit}
    {s : Slots} {now : Instant} (h : Reached cooldown cap history s now) :
    (∀ symbol day, (Tracker.attemptsOn history symbol day : Int) ≤ cap) ∧
    ∀ later, now ≤ later →
      (∀ slot symbol, (s.acquire slot symbol later).1 = .ok () →
        ∀ c ∈ history, c.symbol = symbol →
          c.instant + cooldown * Instant.millisPerMinute ≤ later) ∧
      (∀ symbol attempts, (symbol, attempts) ∈ s.tracker.dailyAttempts later ↔
        0 < attempts ∧ attempts = Tracker.attemptsOn history symbol later.dayIndex) ∧
      s.tracker.activeCooldowns later =
        {symbol | s.isHeld symbol = false ∧
          (s.tracker.acquire symbol later).1 = .error .cooldown}.ncard := by
  have hs := h.sound hcap
  obtain ⟨hcooldown, hmax⟩ := h.tracker_eq
  refine ⟨?_, fun later hle => ⟨?_,
    (hs.wait hle).mem_dailyAttempts_iff, (hs.wait hle).activeCooldowns_eq⟩⟩
  · intro symbol day
    rw [← hmax]
    exact (hs.knows symbol).capped day
  · intro slot symbol hok c hc hsymbol
    obtain ⟨last, hlast, hcl⟩ := (hs.knows symbol).le_last c hc hsymbol
    have hll := ((hs.wait hle).knows symbol).last_le last hlast
    by_contra hlt
    have hcool : s.tracker.isCooling (s.tracker.state symbol) later = true := by
      refine (Tracker.isCooling_eq_true_iff ..).2 ⟨last, hlast, hll, ?_⟩
      rw [hcooldown]
      lia
    rw [Slots.acquire, Tracker.acquire_of_cooling hcool] at hok
    cases hok

/-- The slots of a cap of one attempt a day and a cooldown of 15 minutes, after a symbol was
admitted a second before midnight and committed a second after it. -/
theorem limits_overMidnight :
    (0 : Int) ≤ 1 ∧
    ∃ s, Reached 15 1 [⟨[0x41], 86401000, true⟩] s 86401000 ∧
      (Tracker.attemptsOn [⟨[0x41], 86401000, true⟩] [0x41] 1 : Int) ≤ 1 ∧
      (([0x41], 1) ∈ s.tracker.dailyAttempts 86401000 ↔
        0 < (1 : Int) ∧ (1 : Int) = Tracker.attemptsOn [⟨[0x41], 86401000, true⟩] [0x41] 1) ∧
      (s.acquire [0x61] [0x41] 86402000).1 ≠ .ok () := by
  have hrun : Reached 15 1 [⟨[0x41], 86401000, true⟩] _ 86401000 :=
    .step (.settle [0x61] (.commit true))
      (.step (.acquire [0x61] [0x41]) (.start 86399000) (Int.le_refl _) rfl) (by decide)
      trivial
  obtain ⟨hcap, hlater⟩ := limits_of_reached (by decide) hrun
  refine ⟨by decide, _, hrun, hcap [0x41] 1, (hlater 86401000 (by decide)).2.1 [0x41] 1,
    ?_⟩
  intro hok
  have := (hlater 86402000 (by decide)).1 [0x61] [0x41] hok _ (List.mem_singleton_self _) rfl
  exact absurd this (by decide)

end Slots

end TradeReentry
