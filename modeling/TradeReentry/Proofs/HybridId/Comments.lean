import TradeReentry.HybridId.Comment
import TradeReentry.Proofs.HybridId.Language
import TradeReentry.Proofs.Ledger.Rows

/-!
# Order comments

Each form of a comment ends in the hash of the whole text (`exists_comment_eq`), so that its last six bytes
are a suffix that is told to belong to the text. The second form is always shorter than the first one
(`length_shortForm_le`) and is measured no more; a comment is too long exactly if outcome and generation
are too long for it (`linked_and_fits_iff`).
-/

namespace TradeReentry.HybridId

open Ascii

variable {v : Vocabulary} {text : Text} {id : HybridId}

/-! ## The hash -/

theorem isSuffix_commentHash (text : Text) : isSuffix (commentHash text) = true := by
  have hletter : ∀ c : UInt8, Cell.isChecksumDigit c = true → (isDigit c || isLower c) = true := by
    intro c hc
    simp only [Cell.isChecksumDigit, isDigit, isLower, Bool.or_eq_true, Bool.and_eq_true,
      decide_eq_true_eq, UInt8.le_iff_toNat_le] at hc ⊢
    have htop : (0x66 : UInt8).toNat ≤ (0x7A : UInt8).toNat := by decide
    omega
  have hhex := Cell.isChecksum_hex text
  rw [Cell.isChecksum, Bool.and_eq_true, List.all_eq_true] at hhex
  rw [isSuffix, length_commentHash, decide_eq_true rfl, Bool.true_and, List.all_eq_true]
  intro c hc
  exact hletter c (hhex.2 c (List.mem_of_mem_take hc))

/-! ## The forms -/

/-- The first form: outcome, the starts of duration and proximity, generation and hash. -/
def longForm (id : HybridId) (hash : Text) : Text :=
  joinSegments [id.outcome, id.duration.take 4, id.proximity.take 2, Text.ofInt id.generation, hash]

/-- The second form: outcome, generation and hash. -/
def shortForm (id : HybridId) (hash : Text) : Text :=
  joinSegments [id.outcome, Text.ofInt id.generation, hash]

theorem comment_of_parse (h : parse v text = .ok id) :
    comment v text = if maxCommentLength < (id.longForm (commentHash text)).length then
      id.shortForm (commentHash text) else id.longForm (commentHash text) := by
  rw [comment, h, longForm, shortForm]

theorem comment_of_not_parse {e : Error} (h : parse v text = .error e) :
    comment v text = commentHash text := by
  rw [comment, h]

theorem length_shortForm (id : HybridId) (text : Text) :
    (id.shortForm (commentHash text)).length =
      id.outcome.length + (Text.ofInt id.generation).length + 8 := by
  have hone : ("_" : Text).length = 1 := rfl
  simp only [shortForm, joinSegments, Text.join, List.length_append, hone, length_commentHash, suffixLength]
  omega

theorem length_shortForm_le (id : HybridId) (hash : Text) :
    (id.shortForm hash).length ≤ (id.longForm hash).length := by
  simp only [shortForm, longForm, joinSegments, Text.join, List.length_append]
  omega

/-- Whatever its form, a comment ends in the hash. -/
theorem exists_comment_eq (v : Vocabulary) (text : Text) :
    ∃ start, comment v text = start ++ commentHash text := by
  cases h : parse v text with
  | error e => exact ⟨[], comment_of_not_parse h⟩
  | ok id =>
    rw [comment_of_parse h, longForm, shortForm]
    split
    · exact ⟨joinSegments [id.outcome, Text.ofInt id.generation] ++ "_", by simp [joinSegments, Text.join]⟩
    · refine ⟨joinSegments [id.outcome, id.duration.take 4, id.proximity.take 2,
        Text.ofInt id.generation] ++ "_", ?_⟩
      simp [joinSegments, Text.join]

/-- The last bytes of a text, as many as a suffix has. -/
def ending (t : Text) : Text := t.drop (t.length - suffixLength)

theorem ending_comment (v : Vocabulary) (text : Text) : ending (comment v text) = commentHash text := by
  obtain ⟨start, hstart⟩ := exists_comment_eq v text
  rw [ending, hstart, List.length_append, length_commentHash, Nat.add_sub_cancel, List.drop_left]

/-! ## The length -/

/-- The comment of an identifier fits exactly if its second form does. -/
theorem length_comment_le_iff (h : parse v text = .ok id) :
    (comment v text).length ≤ maxCommentLength ↔
      id.outcome.length + (Text.ofInt id.generation).length + 8 ≤ maxCommentLength := by
  have hle := id.length_shortForm_le (commentHash text)
  rw [comment_of_parse h, ← length_shortForm id text]
  split
  · rfl
  · next hlong =>
    rw [Nat.not_lt] at hlong
    exact iff_of_true hlong (Nat.le_trans hle hlong)

/-- The generation of an identifier has at most three digits. -/
theorem length_generation_le (h : parse v text = .ok id) : (Text.ofInt id.generation).length ≤ 3 := by
  obtain ⟨numeral, after, hlayout⟩ := layout_of_parse h
  rw [ofInt_of_generationOf? hlayout.generation]
  rw [← Nat.not_lt]
  intro hlong
  have hnone := canonicalNumber?_of_three_lt_length hlong
  have hgeneration := hlayout.generation
  rw [generationOf?, hnone] at hgeneration
  simp at hgeneration

/-- Whatever the vocabulary and the text: the last six bytes of the comment are a suffix that belongs to the
text. The comment is at most 31 bytes long exactly if the text is no identifier or its outcome and its
generation leave room for the hash; and it is for every identifier that a vocabulary allows whose outcomes
have at most 20 bytes. -/
theorem linked_and_fits_iff (v : Vocabulary) (text : Text) :
    isSuffix (ending (comment v text)) = true ∧ hasCommentHash text (ending (comment v text)) = true ∧
    ((comment v text).length ≤ maxCommentLength ↔ ∀ id, parse v text = .ok id →
      id.outcome.length + (Text.ofInt id.generation).length + 8 ≤ maxCommentLength) ∧
    ((∀ token ∈ v.tokens .outcome, token.length ≤ 20) → isValid v text = true →
      (comment v text).length ≤ maxCommentLength) := by
  rw [ending_comment]
  refine ⟨isSuffix_commentHash text, decide_eq_true rfl, ?_, ?_⟩
  · cases h : parse v text with
    | error e =>
      rw [comment_of_not_parse h, length_commentHash]
      exact iff_of_true (by decide) (by simp)
    | ok id =>
      rw [length_comment_le_iff h]
      constructor
      · rintro hle _ ⟨⟩
        exact hle
      · intro hall
        exact hall id rfl
  · intro htokens hvalid
    obtain ⟨id, h, hfaults⟩ := isValid_eq_true_iff.1 hvalid
    have houtcome := htokens _ (faults_eq_nil_iff.1 hfaults).outcome
    have hgeneration := length_generation_le h
    rw [length_comment_le_iff h, maxCommentLength]
    omega

example : (comment .builtin "ABCDEFGHIJKLMNOPQRSTUVWXYZ_QUICK_AT_EVENT_NONE_LONG_1").length = 35 := by
  decide +kernel

end TradeReentry.HybridId
