import TradeReentry.Admission.Slots
import TradeReentry.Proofs.Admission.History

/-!
# Which slots hold what is in flight

Asking for a symbol or moving an admission takes a few parts, and between them one admission may
stand in no slot at all. `Slots.Owned` counts that one in: the symbols in flight are those that
slots hold, each symbol once, and the pending one. Each part keeps it, and `Slots.Kept` puts the
parts together for anything else that they keep.
-/

namespace TradeReentry

namespace Slots

variable {s : Slots} {pending? : Option Text} {now : Instant}

theorem isHeld_eq_true_iff (s : Slots) (symbol : Text) :
    s.isHeld symbol = true ↔ ∃ slot, s.held.find? slot = some symbol := by
  simp only [isHeld, List.any_eq_true, decide_eq_true_eq, Prod.exists]
  constructor
  · rintro ⟨slot, held, hmem, rfl⟩
    exact ⟨slot, (s.held.mem_entries_iff slot held).1 hmem⟩
  · rintro ⟨slot, hfind⟩
    exact ⟨slot, symbol, (s.held.mem_entries_iff slot symbol).2 hfind, rfl⟩

/-! ## The parts of a request -/

/-- The tracker has answered, and no slot has the answer yet. -/
def asked (s : Slots) (symbol : Text) (now : Instant) : Slots :=
  { s with tracker := (s.tracker.acquire symbol now).2 }

/-- The symbol that the tracker admits, if it does. -/
def admitted? (s : Slots) (symbol : Text) (now : Instant) : Option Text :=
  match (s.tracker.acquire symbol now).1 with
  | .ok () => some symbol
  | .error _ => none

/-- An empty slot takes an admission. -/
def seated (s : Slots) (slot symbol : Text) : Slots :=
  { s with held := s.held.insert slot symbol }

/-- A slot gives its admission away. -/
def unseated (s : Slots) (slot : Text) : Slots := { s with held := s.held.erase slot }

theorem settle_of_empty {slot : Text} (h : s.held.find? slot = none) (now : Instant)
    (settlement : Tracker.Settlement) : s.settle slot now settlement = s := by
  rw [settle, h]

theorem settle_of_held {slot symbol : Text} (h : s.held.find? slot = some symbol) (now : Instant)
    (settlement : Tracker.Settlement) :
    s.settle slot now settlement =
      { tracker := s.tracker.settle symbol now settlement, held := s.held.erase slot } := by
  rw [settle, h]

/-- A settled slot is empty, and the other ones hold what they held. -/
theorem find?_settle (s : Slots) (slot other : Text) (now : Instant)
    (settlement : Tracker.Settlement) :
    (s.settle slot now settlement).held.find? other =
      if slot = other then none else s.held.find? other := by
  cases h : s.held.find? slot with
  | none =>
    rw [settle_of_empty h]
    split
    · next heq => exact heq ▸ h
    · rfl
  | some symbol =>
    rw [settle_of_held h]
    exact NameMap.find?_erase ..

theorem find?_settle_self (s : Slots) (slot : Text) (now : Instant)
    (settlement : Tracker.Settlement) :
    (s.settle slot now settlement).held.find? slot = none := by
  rw [find?_settle, if_pos rfl]

/-- Something that the parts of asking and of moving keep; the name is the pending admission. -/
structure Kept (now : Instant) (P : Slots → Option Text → Prop) : Prop where
  asked : ∀ {s : Slots} {symbol : Text}, P s none → s.isHeld symbol = false →
    P (s.asked symbol now) (s.admitted? symbol now)
  release : ∀ {s : Slots} {pending? : Option Text} (slot : Text), P s pending? →
    P (s.settle slot now .release) pending?
  seated : ∀ {s : Slots} {slot symbol : Text}, P s (some symbol) → s.held.find? slot = none →
    P (s.seated slot symbol) none
  unseated : ∀ {s : Slots} {slot symbol : Text}, P s none → s.held.find? slot = some symbol →
    P (s.unseated slot) (some symbol)

namespace Kept

variable {P : Slots → Option Text → Prop}

theorem acquire (h : Kept now P) (hs : P s none) (slot : Text) {symbol : Text}
    (hfree : s.isHeld symbol = false) : P (s.acquire slot symbol now).2 none := by
  have hreleased := h.release slot (h.asked hs hfree)
  unfold Slots.acquire
  rw [admitted?] at hreleased
  rw [Slots.asked] at hreleased
  cases hanswer : s.tracker.acquire symbol now with
  | mk answer tracker =>
    rw [hanswer] at hreleased
    cases answer with
    | ok => exact h.seated hreleased (find?_settle_self ..)
    | error refusal => exact hreleased

theorem move (h : Kept now P) (hs : P s none) (slot target : Text) :
    P (s.move slot target now) none := by
  unfold Slots.move
  split
  · exact hs
  · next hne =>
    have hreleased := h.release target hs
    dsimp only
    split
    · exact hreleased
    · next symbol hslot =>
      have hempty : ((s.settle target now .release).unseated slot).held.find? target = none := by
        rw [Slots.unseated, NameMap.find?_erase, if_neg hne, find?_settle_self]
      exact h.seated (h.unseated hreleased hslot) hempty

end Kept

/-! ## Owners -/

/-- Which symbols are in flight: those that slots hold, each in one slot, and one that was admitted
and that no slot holds yet. -/
structure Owned (s : Slots) (pending? : Option Text) : Prop where
  inFlight_iff : ∀ symbol, (s.tracker.state symbol).inFlight = true ↔
    (∃ slot, s.held.find? slot = some symbol) ∨ pending? = some symbol
  once : ∀ slot other symbol, s.held.find? slot = some symbol →
    s.held.find? other = some symbol → slot = other
  pending_free : ∀ slot, s.held.find? slot ≠ none → s.held.find? slot ≠ pending?

namespace Owned

/-- Emptying a slot leaves no two slots with one symbol. -/
theorem once_erase (h : Owned s pending?) (slot : Text) {one other symbol : Text}
    (hone : (s.held.erase slot).find? one = some symbol)
    (hother : (s.held.erase slot).find? other = some symbol) : one = other := by
  rw [NameMap.find?_erase] at hone hother
  split at hone
  · simp at hone
  · split at hother
    · simp at hother
    · exact h.once _ _ _ hone hother

/-- The tracker does not wait for a symbol that no slot holds. -/
theorem inFlight_eq_false (h : Owned s none) {symbol : Text} (hfree : s.isHeld symbol = false) :
    (s.tracker.state symbol).inFlight = false := by
  rw [Bool.eq_false_iff, ne_eq, h.inFlight_iff, ← isHeld_eq_true_iff]
  simp [hfree]

theorem asked (h : Owned s none) {symbol : Text} (hfree : s.isHeld symbol = false) (now : Instant) :
    Owned (s.asked symbol now) (s.admitted? symbol now) := by
  have hnone : ∀ slot, s.held.find? slot ≠ some symbol := fun slot hslot => by
    simp [(isHeld_eq_true_iff s symbol).2 ⟨slot, hslot⟩] at hfree
  refine ⟨?_, h.once, ?_⟩
  · intro other
    rw [Slots.asked, Tracker.inFlight_acquire, h.inFlight_iff, admitted?]
    cases (s.tracker.acquire symbol now).1 with
    | ok => simp
    | error refusal => simp
  · intro slot hslot
    rw [admitted?]
    cases (s.tracker.acquire symbol now).1 with
    | ok => exact hnone slot
    | error refusal => exact hslot

theorem settle (h : Owned s pending?) (slot : Text) (now : Instant)
    (settlement : Tracker.Settlement) : Owned (s.settle slot now settlement) pending? := by
  cases hslot : s.held.find? slot with
  | none =>
    rw [settle_of_empty hslot]
    exact h
  | some symbol =>
    rw [settle_of_held hslot]
    refine ⟨?_, ?_, ?_⟩
    · intro other
      rw [Tracker.inFlight_settle]
      simp only [NameMap.find?_erase]
      split
      · next heq =>
        subst heq
        have hpending := h.pending_free slot (by simp [hslot])
        rw [hslot] at hpending
        simp only [Bool.false_eq_true, false_iff, not_or, not_exists]
        refine ⟨?_, fun hp => hpending hp.symm⟩
        intro one hone
        split at hone
        · simp at hone
        · next hne => exact hne (h.once _ _ _ hslot hone)
      · next hne =>
        rw [h.inFlight_iff other]
        apply or_congr_left
        apply exists_congr
        intro one
        split
        · next heq =>
          subst heq
          simp [hslot, hne]
        · rfl
    · intro one other held hone hother
      exact h.once_erase slot hone hother
    · intro other hother
      simp only [NameMap.find?_erase] at hother ⊢
      split
      · next heq => simp [heq] at hother
      · next hne =>
        rw [if_neg hne] at hother
        exact h.pending_free other hother

theorem seated {slot symbol : Text} (h : Owned s (some symbol))
    (hslot : s.held.find? slot = none) : Owned (s.seated slot symbol) none := by
  rw [Slots.seated]
  refine ⟨?_, ?_, ?_⟩
  · intro other
    rw [h.inFlight_iff other]
    simp only [NameMap.find?_insert, reduceCtorEq, or_false]
    constructor
    · rintro (⟨one, hone⟩ | hp)
      · refine ⟨one, ?_⟩
        rw [if_neg]
        · exact hone
        · rintro rfl
          simp [hslot] at hone
      · exact ⟨slot, by rw [if_pos rfl, hp]⟩
    · rintro ⟨one, hone⟩
      split at hone
      · exact .inr hone
      · exact .inl ⟨one, hone⟩
  · intro one other held hone hother
    simp only [NameMap.find?_insert] at hone hother
    have hfree : ∀ slot, s.held.find? slot = some held → held ≠ symbol := by
      rintro slot hheld rfl
      exact h.pending_free slot (by simp [hheld]) hheld
    split at hone <;> split at hother
    · next h1 h2 => exact h1.symm.trans h2
    · exact absurd (Option.some.inj hone).symm (hfree _ hother)
    · exact absurd (Option.some.inj hother).symm (hfree _ hone)
    · exact h.once _ _ _ hone hother
  · intro other hother
    simpa using hother

theorem unseated {slot symbol : Text} (h : Owned s none)
    (hslot : s.held.find? slot = some symbol) : Owned (s.unseated slot) (some symbol) := by
  rw [Slots.unseated]
  refine ⟨?_, ?_, ?_⟩
  · intro other
    rw [h.inFlight_iff other]
    simp only [NameMap.find?_erase, reduceCtorEq, or_false, Option.some.injEq]
    constructor
    · rintro ⟨one, hone⟩
      by_cases heq : slot = one
      · exact .inr (Option.some.inj (hslot.symm.trans (heq ▸ hone)))
      · exact .inl ⟨one, by rw [if_neg heq, hone]⟩
    · rintro (⟨one, hone⟩ | rfl)
      · split at hone
        · simp at hone
        · exact ⟨one, hone⟩
      · exact ⟨slot, hslot⟩
  · intro one other held hone hother
    exact h.once_erase slot hone hother
  · intro other hother
    simp only [NameMap.find?_erase] at hother ⊢
    split
    · next heq => simp [heq] at hother
    · next hne => exact fun hother => hne (h.once _ _ _ hslot hother)

end Owned

end Slots

end TradeReentry
