import TradeReentry.Text.Basic

/-!
What a file holds, in the pieces in which it was written.

`Content.text` is the view of a content; `text_append` and the two theorems after it say what the
operations do to it. Adding to the end takes as long as what is added, however much is there.
-/

namespace TradeReentry.Files

structure Content where
  /-- The texts that were written one after the other, the latest first. -/
  pieces : List Text
  /-- The number of their bytes. -/
  size : Nat
  size_eq : size = pieces.flatten.length
deriving DecidableEq, Repr

namespace Content

/-- The content that was written at once. -/
def ofText (t : Text) : Content := ⟨[t], t.length, by simp⟩

/-- The bytes of a content, in order. -/
def text (c : Content) : Text := c.pieces.foldl (fun later piece => piece ++ later) []

/-- Adds to the end of a content. -/
def append (c : Content) (t : Text) : Content :=
  ⟨t :: c.pieces, t.length + c.size, by simp [c.size_eq]⟩

/-- The last byte of a content that has any. -/
def last? (c : Content) : Option UInt8 := c.pieces.findSome? List.getLast?

theorem foldl_pieces (pieces : List Text) (later : Text) :
    pieces.foldl (fun later piece => piece ++ later) later =
      pieces.foldl (fun later piece => piece ++ later) [] ++ later := by
  induction pieces generalizing later with
  | nil => rfl
  | cons piece rest ih =>
    simp only [List.foldl_cons, List.append_nil]
    rw [ih (piece ++ later), ih piece, List.append_assoc]

@[simp] theorem text_ofText (t : Text) : (ofText t).text = t := by simp [ofText, text]

@[simp] theorem text_append (c : Content) (t : Text) : (c.append t).text = c.text ++ t := by
  simp only [text, append, List.foldl_cons, List.append_nil]
  exact foldl_pieces c.pieces t

theorem length_text (c : Content) : c.text.length = c.size := by
  rw [c.size_eq, text]
  induction c.pieces with
  | nil => rfl
  | cons piece rest ih =>
    rw [List.foldl_cons, foldl_pieces]
    simp [Nat.add_comm]

theorem getLast?_text (c : Content) : c.text.getLast? = c.last? := by
  rw [text, last?]
  induction c.pieces with
  | nil => rfl
  | cons piece rest ih =>
    rw [List.foldl_cons, foldl_pieces, List.getLast?_append, ih, List.findSome?_cons]
    cases h : piece.getLast? <;> simp_all

end Content

end TradeReentry.Files
