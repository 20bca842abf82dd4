import TradeReentry.Proofs.Admission.Limits

/-!
# Every admission is settled once

`Slots.Used` is a run of requests on slots under any clock. A request is made of the parts of
`Slots.Kept`, and each part keeps the account of the tracker (`Slots.Balanced`): a check was allowed
or rejected, and what was allowed was committed, was released, or still stands in a slot. Slots that
were settled or moved from hold nothing, so that settling them again changes nothing
(`Slots.settled_once`).
-/

namespace TradeReentry

namespace Slots

/-! ## Runs of requests -/

/-- Whether a request is answered at once: asking waits while the symbol is in flight. -/
def Answers (s : Slots) : Request → Prop
  | .acquire _ symbol => (s.tracker.state symbol).inFlight = false
  | .settle .. | .move .. => True

/-- The slots that requests lead to from a fresh tracker, each at an instant of its own. -/
inductive Used (cooldown cap : Int) : Slots → Prop
  | start : Used cooldown cap
      { tracker := { cooldownMinutes := cooldown, maxAttemptsPerDay := cap } }
  | step {s : Slots} (request : Request) (now : Instant) :
      Used cooldown cap s → s.Answers request → Used cooldown cap (s.perform now request)

/-! ## The account -/

/-- The checks of a tracker are those it allowed and those it rejected, and what it allowed was
settled or is outstanding. -/
structure Balanced (s : Slots) (pending? : Option Text) : Prop extends Owned s pending? where
  checks_eq : s.tracker.stats.checks = s.tracker.stats.allowed + s.tracker.stats.cooldownRejects +
    s.tracker.stats.dailyLimitRejects
  allowed_eq : s.tracker.stats.allowed = s.tracker.stats.commits + s.tracker.stats.releases +
    (s.held.size + pending?.toList.length)

/-- Every check is allowed or rejected, and an allowed one is outstanding. -/
theorem stats_asked (s : Slots) (symbol : Text) (now : Instant) :
    (s.asked symbol now).tracker.stats =
      match (s.tracker.acquire symbol now).1 with
      | .ok () => { s.tracker.stats with
          checks := s.tracker.stats.checks + 1
          allowed := s.tracker.stats.allowed + 1 }
      | .error .cooldown => { s.tracker.stats with
          checks := s.tracker.stats.checks + 1
          cooldownRejects := s.tracker.stats.cooldownRejects + 1 }
      | .error .dailyLimit => { s.tracker.stats with
          checks := s.tracker.stats.checks + 1
          dailyLimitRejects := s.tracker.stats.dailyLimitRejects + 1 } := by
  unfold asked Tracker.acquire
  dsimp only
  split
  · rfl
  · split <;> rfl

namespace Balanced

variable {s : Slots} {pending? : Option Text} {now : Instant}

theorem asked (h : Balanced s none) {symbol : Text} (hfree : s.isHeld symbol = false) :
    Balanced (s.asked symbol now) (s.admitted? symbol now) := by
  have howned := h.toOwned.asked hfree now
  have hchecks := h.checks_eq
  have hallowed := h.allowed_eq
  rw [Option.toList_none, List.length_nil] at hallowed
  refine ⟨howned, ?_, ?_⟩
  · rw [stats_asked]
    split <;> simp <;> omega
  · rw [stats_asked, admitted?]
    cases (s.tracker.acquire symbol now).1 with
    | ok =>
      simp [Slots.asked]
      omega
    | error refusal => cases refusal <;> simpa [Slots.asked] using hallowed

theorem settle (h : Balanced s pending?) (slot : Text) (settlement : Tracker.Settlement) :
    Balanced (s.settle slot now settlement) pending? := by
  have howned := h.toOwned.settle slot now settlement
  have hchecks := h.checks_eq
  have hallowed := h.allowed_eq
  refine ⟨howned, ?_, ?_⟩
  all_goals
    cases hslot : s.held.find? slot with
    | none =>
      rw [settle_of_empty hslot]
      assumption
    | some symbol =>
      have hsize := NameMap.size_erase hslot
      rw [settle_of_held hslot]
      cases settlement <;> simp [Tracker.settle] <;> omega

theorem seated {slot symbol : Text} (h : Balanced s (some symbol))
    (hslot : s.held.find? slot = none) : Balanced (s.seated slot symbol) none := by
  refine ⟨h.toOwned.seated hslot, h.checks_eq, ?_⟩
  have hallowed := h.allowed_eq
  simp only [Slots.seated, NameMap.size_insert hslot]
  simpa [Nat.add_assoc] using hallowed

theorem unseated {slot symbol : Text} (h : Balanced s none)
    (hslot : s.held.find? slot = some symbol) : Balanced (s.unseated slot) (some symbol) := by
  refine ⟨h.toOwned.unseated hslot, h.checks_eq, ?_⟩
  have hallowed := h.allowed_eq
  rw [← NameMap.size_erase hslot] at hallowed
  exact hallowed

theorem kept (now : Instant) : Kept now Balanced :=
  ⟨fun h hfree => h.asked hfree, fun slot h => h.settle slot .release, seated, unseated⟩

/-- What every request keeps. -/
theorem perform (h : Balanced s none) {request : Request} (hanswers : s.Answers request) :
    Balanced (s.perform now request) none := by
  cases request with
  | acquire slot symbol =>
    refine (kept now).acquire h slot ?_
    rw [Bool.eq_false_iff, ne_eq, isHeld_eq_true_iff]
    intro hheld
    have hinFlight := (h.inFlight_iff symbol).2 (.inl hheld)
    rw [Answers] at hanswers
    exact absurd (hanswers.symm.trans hinFlight) (by decide)
  | settle slot settlement => exact h.settle slot settlement
  | move slot target => exact (kept now).move h slot target

end Balanced

/-- The account of a run balances after every request. -/
theorem Used.balanced {cooldown cap : Int} {s : Slots} (h : Used cooldown cap s) :
    Balanced s none := by
  induction h with
  | start => exact ⟨⟨by simp [Tracker.state], by simp, by simp⟩, rfl, rfl⟩
  | step request now _ hanswers ih => exact ih.perform hanswers

/-! ## Slots that hold nothing -/

/-- What a slot held that something else is put into was released, once. -/
theorem stats_settle_release {s : Slots} {slot symbol : Text}
    (hslot : s.held.find? slot = some symbol) (now : Instant) :
    (s.settle slot now .release).tracker.stats =
        { s.tracker.stats with releases := s.tracker.stats.releases + 1 } ∧
      ((s.settle slot now .release).tracker.state symbol).inFlight = false := by
  rw [settle_of_held hslot]
  refine ⟨rfl, ?_⟩
  rw [Tracker.inFlight_settle, if_pos rfl]

theorem find?_move_self {s : Slots} {slot target : Text} (hne : slot ≠ target) (now : Instant) :
    (s.move slot target now).held.find? slot = none := by
  rw [move, if_neg hne]
  dsimp only
  split
  · next h => exact h
  · rw [NameMap.find?_insert, if_neg (Ne.symm hne), NameMap.find?_erase, if_pos rfl]

theorem tracker_move {s : Slots} {slot target : Text} (hne : slot ≠ target) (now : Instant) :
    (s.move slot target now).tracker = (s.settle target now .release).tracker := by
  rw [move, if_neg hne]
  dsimp only
  split <;> rfl

theorem tracker_acquire (s : Slots) (slot symbol : Text) (now : Instant) :
    (s.acquire slot symbol now).2.tracker =
      ((s.asked symbol now).settle slot now .release).tracker := by
  unfold acquire asked
  cases s.tracker.acquire symbol now with
  | mk answer tracker => cases answer <;> rfl

/-- The slot that a request puts something else into. -/
def Request.overwritten? : Request → Option Text
  | .acquire slot _ => some slot
  | .settle .. => none
  | .move slot target => if slot = target then none else some target

/-- An admission that is overwritten is released, once. -/
theorem released_of_overwritten {s : Slots} {request : Request} {slot symbol : Text}
    (hrequest : request.overwritten? = some slot) (hslot : s.held.find? slot = some symbol)
    (now : Instant) :
    (s.perform now request).tracker.stats.releases = s.tracker.stats.releases + 1 ∧
      (s.perform now request).tracker.stats.commits = s.tracker.stats.commits ∧
      ((s.perform now request).tracker.state symbol).inFlight = false := by
  cases request with
  | acquire target other =>
    obtain rfl := Option.some.inj hrequest
    obtain ⟨hstats, hfree⟩ := stats_settle_release (s := s.asked other now) hslot now
    rw [perform, tracker_acquire, hstats, stats_asked]
    refine ⟨?_, ?_, hfree⟩
    all_goals split <;> rfl
  | settle => cases hrequest
  | move source target =>
    rw [Request.overwritten?] at hrequest
    split at hrequest
    · cases hrequest
    · next hne =>
      obtain rfl := Option.some.inj hrequest
      obtain ⟨hstats, hfree⟩ := stats_settle_release hslot now
      rw [perform, tracker_move hne, hstats]
      exact ⟨rfl, rfl, hfree⟩

/-- Whatever callers do with their slots, the account of the tracker balances, and a symbol is in
flight exactly while one slot holds it. A slot that was settled or moved from has nothing left to
settle, and an admission that is overwritten is released once. -/
theorem settled_once {cooldown cap : Int} {s : Slots} (h : Used cooldown cap s) :
    s.tracker.stats.checks = s.tracker.stats.allowed + s.tracker.stats.cooldownRejects +
      s.tracker.stats.dailyLimitRejects ∧
    s.tracker.stats.allowed = s.tracker.stats.commits + s.tracker.stats.releases + s.held.size ∧
    (∀ symbol, (s.tracker.state symbol).inFlight = true ↔
      ∃! slot, s.held.find? slot = some symbol) ∧
    (∀ slot other symbol, s.held.find? slot = some symbol → s.held.find? other = some symbol →
      slot = other) ∧
    ∀ now later : Instant,
      (∀ slot settlement again, (s.settle slot now settlement).settle slot later again =
        s.settle slot now settlement) ∧
      (∀ slot target settlement, slot ≠ target →
        (s.move slot target now).settle slot later settlement = s.move slot target now) ∧
      (∀ request slot symbol, Request.overwritten? request = some slot →
        s.held.find? slot = some symbol →
        (s.perform now request).tracker.stats.releases = s.tracker.stats.releases + 1 ∧
        (s.perform now request).tracker.stats.commits = s.tracker.stats.commits ∧
        ((s.perform now request).tracker.state symbol).inFlight = false) := by
  have hb := h.balanced
  refine ⟨hb.checks_eq, by simpa using hb.allowed_eq, ?_, hb.once, ?_⟩
  · intro symbol
    rw [hb.inFlight_iff]
    constructor
    · rintro (⟨slot, hslot⟩ | hpending)
      · exact ⟨slot, hslot, fun other hother => hb.once _ _ _ hother hslot⟩
      · cases hpending
    · rintro ⟨slot, hslot, -⟩
      exact .inl ⟨slot, hslot⟩
  · intro now later
    refine ⟨?_, ?_, ?_⟩
    · intro slot settlement again
      exact settle_of_empty (find?_settle_self ..) later again
    · intro slot target settlement hne
      exact settle_of_empty (find?_move_self hne now) later settlement
    · intro request slot symbol hrequest hslot
      exact released_of_overwritten hrequest hslot now

/-- Two symbols are admitted, and the slot of the second one takes the admission of the first. -/
theorem settled_once_overTheSecond :
    ∃ s, Used 15 3 s ∧ s.held.size = 2 ∧
      s.tracker.stats.allowed = s.tracker.stats.commits + s.tracker.stats.releases + s.held.size ∧
      (s.move [0x61] [0x62] 2000).tracker.stats.releases = s.tracker.stats.releases + 1 ∧
      ((s.move [0x61] [0x62] 2000).tracker.state [0x47]).inFlight = false ∧
      (s.move [0x61] [0x62] 2000).settle [0x61] 3000 .release = s.move [0x61] [0x62] 2000 := by
  have hrun : Used 15 3 _ :=
    .step (.acquire [0x62] [0x47]) 1000
      (.step (.acquire [0x61] [0x45]) 1000 .start rfl) rfl
  obtain ⟨-, hallowed, -, -, hlater⟩ := settled_once hrun
  obtain ⟨-, hmoved, hover⟩ := hlater 2000 3000
  obtain ⟨hreleases, -, hfree⟩ :=
    hover (.move [0x61] [0x62]) [0x62] [0x47] (by decide) (by decide)
  exact ⟨_, hrun, by decide, hallowed, hreleases, hfree, hmoved _ _ _ (by decide)⟩

end Slots

end TradeReentry
