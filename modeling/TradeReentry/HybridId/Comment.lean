import TradeReentry.Digest.Sha256
import TradeReentry.HybridId.Basic

/-!
Order comments: a short form of an identifier that ends in a hash of the whole of it.
-/

namespace TradeReentry.HybridId

/-- The first six hexadecimal digits of the identifier's digest. -/
def commentHash (text : Text) : Text := (Digest.Sha256.hex text).take suffixLength

/-- The longest order comment, in bytes. -/
def maxCommentLength : Nat := 31

/-- The comment of a text: outcome, the starts of duration and proximity, generation and hash; if
that is too long, outcome, generation and hash; for a text that is no identifier, the hash alone. -/
def comment (v : Vocabulary) (text : Text) : Text :=
  match parse v text with
  | .error _ => commentHash text
  | .ok id =>
    let generation := Text.ofInt id.generation
    let long := joinSegments
      [id.outcome, id.duration.take 4, id.proximity.take 2, generation, commentHash text]
    if maxCommentLength < long.length then
      joinSegments [id.outcome, generation, commentHash text]
    else long

/-- Whether a suffix is the hash of an identifier. -/
def hasCommentHash (text suffix : Text) : Bool := commentHash text = suffix

theorem length_commentHash (text : Text) : (commentHash text).length = suffixLength := by
  simp [commentHash, Digest.Sha256.length_hex, suffixLength]

end TradeReentry.HybridId
