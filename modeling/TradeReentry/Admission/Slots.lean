import TradeReentry.Admission.Tracker

/-!
Holders of admissions.

A slot holds the admission of one symbol, or nothing. A slot that is emptied or overwritten without
a commit releases what it holds, and one that was moved from holds nothing.
-/

namespace TradeReentry

/-- A tracker and the slots, by name, that hold its admissions. -/
structure Slots where
  tracker : Tracker
  held : NameMap Text := .empty
deriving DecidableEq, Repr

namespace Slots

/-- Whether some slot holds a symbol, so that asking for it again would wait. -/
def isHeld (s : Slots) (symbol : Text) : Bool := s.held.entries.any (·.2 = symbol)

/-- Ends the admission in a slot, if it holds one, and empties it. -/
def settle (s : Slots) (slot : Text) (now : Instant) (settlement : Tracker.Settlement) : Slots :=
  match s.held.find? slot with
  | none => s
  | some symbol =>
    { tracker := s.tracker.settle symbol now settlement, held := s.held.erase slot }

/-- Asks for a symbol that no slot holds and puts the answer into a slot, which releases what it
held. -/
def acquire (s : Slots) (slot symbol : Text) (now : Instant) :
    Except Tracker.Refusal Unit × Slots :=
  let (answer, tracker) := s.tracker.acquire symbol now
  let s := { s with tracker }.settle slot now .release
  match answer with
  | .ok () => (.ok (), { s with held := s.held.insert slot symbol })
  | .error refusal => (.error refusal, s)

/-- Moves what a slot holds into another one, which releases what it held. -/
def move (s : Slots) (slot target : Text) (now : Instant) : Slots :=
  if slot = target then s
  else
    let s := s.settle target now .release
    match s.held.find? slot with
    | none => s
    | some symbol => { s with held := (s.held.erase slot).insert target symbol }

end Slots

end TradeReentry
