import TradeReentry.Text.Basic

/-!
Rows of digits as numbers.

`Text.valueOf` gathers digits in blocks before they join the number, so that a long row takes few
operations on large numbers. `valueOf_nil` and `valueOf_concat` say that each digit counts as if it
were read on its own.
-/

namespace TradeReentry

-- Powers of numbers are those of the core library, whatever is imported beside it.
attribute [scoped instance (high), default_instance (high + 1)] instPowNat

namespace Text

/-- A row of digits that was read in part: the number of the finished blocks, and the number and
the length of the open one. -/
structure DigitBlocks where
  finished : Nat := 0
  block : Nat := 0
  length : Nat := 0
deriving DecidableEq, Repr

namespace DigitBlocks

/-- The length from which a block is finished. -/
def limit : Nat := 256

/-- The number of all that was read, in a base. -/
def value (base : Nat) (r : DigitBlocks) : Nat := r.finished * base ^ r.length + r.block

/-- Reads the number of one more digit. -/
def push (base : Nat) (r : DigitBlocks) (digit : Nat) : DigitBlocks :=
  if r.length < limit then { r with block := base * r.block + digit, length := r.length + 1 }
  else { finished := r.value base, block := digit, length := 1 }

theorem value_push (base : Nat) (r : DigitBlocks) (digit : Nat) :
    (r.push base digit).value base = base * r.value base + digit := by
  unfold push
  split
  · simp only [value, Nat.pow_succ]
    grind
  · simp only [value, Nat.pow_one]
    grind

end DigitBlocks

/-- The number that a row of digits stands for in a base, given the number of each digit. -/
def valueOf (base : Nat) (digit : UInt8 → Nat) (t : Text) : Nat :=
  (t.foldl (fun r c => r.push base (digit c)) ({} : DigitBlocks)).value base

theorem valueOf_nil (base : Nat) (digit : UInt8 → Nat) : valueOf base digit [] = 0 := by
  simp [valueOf, DigitBlocks.value]

/-- A digit at the end multiplies the number before it by the base and adds its own. -/
theorem valueOf_concat (base : Nat) (digit : UInt8 → Nat) (t : Text) (c : UInt8) :
    valueOf base digit (t ++ [c]) = base * valueOf base digit t + digit c := by
  simp only [valueOf, List.foldl_append, List.foldl_cons, List.foldl_nil,
    DigitBlocks.value_push]

/-- The number that a row of decimal digits stands for. -/
def digitsValue (t : Text) : Nat := valueOf 10 (fun c => c.toNat - 0x30) t

end Text

end TradeReentry
