import TradeReentry.Text.Basic

/-!
# Splitting and joining texts

`Text.splitOn` and `Text.join` are the operations of the core library (`splitOn_eq`, `join_eq`), whose laws
hold of them. Splitting a join splits each of its pieces (`splitOn_intercalate`).
-/

namespace TradeReentry.Text

theorem splitOn_go (separator : UInt8) (pieces : List Text) (piece t : Text) :
    splitOn.go separator pieces piece t =
      pieces.reverse ++ List.splitOnPPrepend (· == separator) t piece := by
  induction t generalizing pieces piece with
  | nil => simp [splitOn.go]
  | cons c t ih =>
    rw [splitOn.go, List.splitOnPPrepend_cons_eq_if]
    by_cases hc : c = separator
    · simp [hc, ih]
    · simp [hc, ih]

theorem splitOn_eq (separator : UInt8) (t : Text) : splitOn separator t = List.splitOn separator t :=
  splitOn_go separator [] [] t

theorem join_eq (separator : Text) (pieces : List Text) :
    join separator pieces = separator.intercalate pieces := by
  induction pieces with
  | nil => simp [join, List.intercalate]
  | cons piece rest ih =>
    cases rest with
    | nil => simp [join]
    | cons next rest => rw [join, ih, List.intercalate_cons_cons]; simp

/-- No piece of a split text holds the separator. -/
theorem not_mem_of_mem_splitOn {separator : UInt8} {t piece : Text}
    (h : piece ∈ List.splitOn separator t) : separator ∉ piece := by
  induction t generalizing piece with
  | nil =>
    rw [List.splitOn_nil, List.mem_singleton] at h
    simp [h]
  | cons c t ih =>
    rw [List.splitOn_cons_eq_if_modifyHead] at h
    split at h
    · rcases List.mem_cons.1 h with rfl | h
      · simp
      · exact ih h
    · next hc =>
      obtain ⟨first, rest, hsplit⟩ := List.exists_cons_of_ne_nil (List.splitOn_ne_nil separator t)
      rw [hsplit, List.modifyHead_cons, List.mem_cons] at h
      rw [hsplit] at ih
      rcases h with rfl | h
      · have hfirst : separator ∉ first := ih List.mem_cons_self
        have hne : separator ≠ c := by
          rintro rfl
          simp at hc
        simp [hne, hfirst]
      · exact ih (List.mem_cons_of_mem first h)

theorem intercalate_append (separator : Text) {before after : List Text} (hbefore : before ≠ [])
    (hafter : after ≠ []) :
    separator.intercalate (before ++ after) =
      separator.intercalate before ++ separator ++ separator.intercalate after := by
  induction before with
  | nil => exact absurd rfl hbefore
  | cons piece rest ih =>
    cases rest with
    | nil =>
      rw [List.singleton_append, List.intercalate_cons_of_ne_nil hafter, List.intercalate_singleton]
    | cons next rest =>
      rw [List.cons_append, List.cons_append, List.intercalate_cons_cons, ← List.cons_append,
        ih (List.cons_ne_nil next rest), List.intercalate_cons_cons]
      simp only [List.append_assoc]

/-- Each piece but the last is followed by the separator. -/
theorem intercalate_concat (separator last : Text) (pieces : List Text) :
    separator.intercalate (pieces ++ [last]) = pieces.flatMap (· ++ separator) ++ last := by
  induction pieces with
  | nil => simp
  | cons piece rest ih =>
    have hne : rest ++ [last] ≠ [] := by simp
    rw [List.cons_append, List.intercalate_cons_of_ne_nil hne, ih, List.flatMap_cons]
    simp only [List.append_assoc]

/-- There is one piece more than separators. -/
theorem length_splitOn (separator : UInt8) (t : Text) :
    (List.splitOn separator t).length = t.count separator + 1 := by
  induction t with
  | nil => simp
  | cons c t ih =>
    rw [List.splitOn_cons_eq_if_modifyHead, List.count_cons]
    split
    · simp [ih]
    · simp [ih, List.length_modifyHead]

/-- Splitting joined pieces splits each of them. -/
theorem splitOn_intercalate (separator : UInt8) {pieces : List Text} (hne : pieces ≠ []) :
    List.splitOn separator ([separator].intercalate pieces) =
      pieces.flatMap (List.splitOn separator) := by
  induction pieces with
  | nil => exact absurd rfl hne
  | cons piece rest ih =>
    cases rest with
    | nil => simp
    | cons next rest =>
      rw [List.intercalate_cons_cons, List.append_assoc, List.singleton_append,
        List.splitOn_append_cons_self, ih (List.cons_ne_nil next rest)]
      rfl

/-- What stands before and after one of joined pieces does not depend on it. -/
theorem exists_intercalate_eq (separator : Text) (before after : List Text) :
    ∃ left right, ∀ piece, separator.intercalate (before ++ piece :: after) = left ++ piece ++ right := by
  obtain ⟨right, hright⟩ : ∃ right, ∀ piece, separator.intercalate (piece :: after) = piece ++ right := by
    by_cases hafter : after = []
    · exact ⟨[], fun piece => by simp [hafter]⟩
    · exact ⟨separator ++ separator.intercalate after, fun piece => by
        rw [List.intercalate_cons_of_ne_nil hafter, List.append_assoc]⟩
  by_cases hbefore : before = []
  · exact ⟨[], right, fun piece => by rw [hbefore, List.nil_append, hright, List.nil_append]⟩
  · refine ⟨separator.intercalate before ++ separator, right, fun piece => ?_⟩
    rw [intercalate_append separator hbefore (List.cons_ne_nil piece after), hright,
      List.append_assoc _ piece]

end TradeReentry.Text
