import Mathlib.Logic.Basic
import TradeReentry.Proofs.Results
import TradeReentry.Text.Pattern

/-!
# The texts that a pattern stands for

A pattern stands for what becomes of it when some text takes the place of its star (`fill`). Matching looks only
at the two ends of a pattern, which finds these texts where the pattern is `Placed`: its star, if it has one, is
its only one and stands at an end (`Placed.isMatch_iff`). The check accepts placed patterns of allowed bytes and
no others (`check_eq_ok_iff`), so each pattern that it accepts is matched by the texts that it stands for
(`isMatch_of_check`).
-/

namespace TradeReentry.Pattern

open Ascii (star)

variable {before after pattern value filling : Text}

/-! ## Filling a pattern -/

/-- A pattern with a text in the place of its star, or of each of them. -/
def fill (pattern filling : Text) : Text :=
  pattern.flatMap fun c => if c = star then filling else [c]

theorem fill_append : fill (before ++ after) filling = fill before filling ++ fill after filling :=
  List.flatMap_append

theorem fill_star : fill [star] filling = filling := by
  simp [fill]

theorem fill_of_not_mem (h : star ∉ pattern) : fill pattern filling = pattern := by
  induction pattern with
  | nil => rfl
  | cons c rest ih =>
    obtain ⟨hc, hrest⟩ := not_or.1 (mt List.mem_cons.2 h)
    rw [← List.singleton_append, fill_append, ih hrest]
    simp [fill, Ne.symm hc]

theorem fill_cons_star (h : star ∉ after) : fill (star :: after) filling = filling ++ after := by
  rw [← List.singleton_append, fill_append, fill_star, fill_of_not_mem h]

theorem fill_concat_star (h : star ∉ before) : fill (before ++ [star]) filling = before ++ filling := by
  rw [fill_append, fill_star, fill_of_not_mem h]

/-! ## Where the star stands -/

/-- The patterns without a star, and those with one star, at the start or at the end. -/
inductive Placed : Text → Prop where
  | literal {text : Text} (h : star ∉ text) : Placed text
  | leading {text : Text} (h : star ∉ text) : Placed (star :: text)
  | trailing {text : Text} (h : star ∉ text) : Placed (text ++ [star])

theorem Placed.count_le_one (h : Placed pattern) : pattern.count star ≤ 1 := by
  cases h with
  | literal h => simp [List.count_eq_zero.2 h]
  | leading h => simp [List.count_eq_zero.2 h]
  | trailing h => simp [List.count_eq_zero.2 h]

theorem Placed.ends (h : Placed pattern) (hmem : star ∈ pattern) :
    pattern.head? = some star ∨ pattern.getLast? = some star := by
  cases h with
  | literal h => exact absurd hmem h
  | leading _ => exact .inl List.head?_cons
  | trailing _ => exact .inr List.getLast?_concat

/-- Counting the stars and looking at both ends tells whether a pattern is placed. -/
theorem placed_iff : Placed pattern ↔ ¬1 < pattern.count star ∧
    ¬(pattern.count star = 1 ∧ pattern.head? ≠ some star ∧ pattern.getLast? ≠ some star) := by
  constructor
  · intro h
    refine ⟨Nat.not_lt.2 h.count_le_one, ?_⟩
    rintro ⟨hone, hhead, hlast⟩
    exact (h.ends (List.count_pos_iff.1 (hone ▸ Nat.one_pos))).elim hhead hlast
  · rintro ⟨hcount, hinner⟩
    by_cases hhead : pattern.head? = some star
    · obtain ⟨after, rfl⟩ := List.head?_eq_some_iff.1 hhead
      rw [List.count_cons_self] at hcount
      exact .leading (List.count_eq_zero.1 (by omega))
    by_cases hlast : pattern.getLast? = some star
    · obtain ⟨before, rfl⟩ := List.getLast?_eq_some_iff.1 hlast
      rw [List.count_append, List.count_singleton_self] at hcount
      exact .trailing (List.count_eq_zero.1 (by omega))
    have hone : pattern.count star ≠ 1 := fun hone => hinner ⟨hone, hhead, hlast⟩
    exact .literal (List.count_eq_zero.1 (by omega))

/-! ## Matching -/

theorem isMatch_concat_star : isMatch (before ++ [star]) value = true ↔ before <+: value := by
  rw [isMatch]
  split
  next hbare =>
    -- The pattern that is only a star has nothing before it, which every text begins with.
    have hstar : before ++ [star] = [] ++ [star] := hbare
    obtain rfl : before = [] := List.append_cancel_right hstar
    simp
  · rw [if_pos List.getLast?_concat, List.dropLast_concat, List.isPrefixOf_iff_prefix]

theorem isMatch_cons_star (h : star ∉ after) : isMatch (star :: after) value = true ↔ after <:+ value := by
  cases after with
  | nil =>
    have hbare : isMatch ([] ++ [star]) value = true := isMatch_concat_star.2 List.nil_prefix
    exact iff_of_true hbare List.nil_suffix
  | cons c rest =>
    have hlast : (star :: c :: rest).getLast? ≠ some star := by
      rw [List.getLast?_cons_cons]
      exact fun hlast => h (List.mem_of_getLast? hlast)
    have hbare : star :: c :: rest ≠ "*" := List.cons_ne_nil c rest ∘ List.tail_eq_of_cons_eq
    rw [isMatch, if_neg hbare, if_neg hlast, if_pos List.head?_cons, List.tail_cons,
      List.isSuffixOf_iff_suffix]

theorem isMatch_of_not_mem (h : star ∉ pattern) : isMatch pattern value = true ↔ value = pattern := by
  have hbare : pattern ≠ "*" := by
    rintro rfl
    exact h (by decide)
  have hlast : pattern.getLast? ≠ some star := fun hlast => h (List.mem_of_getLast? hlast)
  have hhead : pattern.head? ≠ some star := fun hhead => h (List.mem_of_head? hhead)
  rw [isMatch, if_neg hbare, if_neg hlast, if_neg hhead, decide_eq_true_eq]

/-- A placed pattern is matched by the texts that it stands for. -/
theorem Placed.isMatch_iff (h : Placed pattern) (value : Text) :
    isMatch pattern value = true ↔ ∃ filling, value = fill pattern filling := by
  cases h with
  | literal h =>
    rw [isMatch_of_not_mem h]
    simp only [fill_of_not_mem h, exists_const]
  | leading h =>
    rw [isMatch_cons_star h]
    simp only [fill_cons_star h]
    exact exists_congr fun _ => eq_comm
  | trailing h =>
    rw [isMatch_concat_star]
    simp only [fill_concat_star h]
    exact exists_congr fun _ => eq_comm

/-! ## Accepted patterns -/

/-- The check accepts the placed patterns of allowed bytes that are not empty. -/
theorem check_eq_ok_iff : check pattern = .ok () ↔
    pattern ≠ [] ∧ Placed pattern ∧ ∀ c ∈ pattern, c = star ∨ isLiteral c = true := by
  have hbytes : (∀ c ∈ pattern, c = star ∨ isLiteral c = true) ↔
      (pattern.find? fun c => !(c = star || isLiteral c)) = none := by
    simp only [List.find?_eq_none, Bool.not_eq_true', Bool.not_eq_false, Bool.or_eq_true,
      decide_eq_true_eq]
  rw [hbytes, placed_iff, check]
  simp only [ite_eq_iff, reduceCtorEq, and_false, false_or, and_assoc]
  cases pattern.find? fun c => !(c = star || isLiteral c) with
  | none => simp
  | some c => simp

theorem placed_of_check (h : check pattern = .ok ()) : Placed pattern :=
  (check_eq_ok_iff.1 h).2.1

/-- A pattern that the check accepts is matched by the texts that it becomes when its star, if it has one, is
replaced by some text: without a star only by itself. It has at most one star, at its start or its end. -/
theorem isMatch_of_check (h : check pattern = .ok ()) :
    (∀ value, isMatch pattern value = true ↔ ∃ filling, value = fill pattern filling) ∧
    (star ∉ pattern → ∀ value, isMatch pattern value = true ↔ value = pattern) ∧
    pattern.count star ≤ 1 ∧
    (star ∈ pattern → pattern.head? = some star ∨ pattern.getLast? = some star) := by
  have hplaced := placed_of_check h
  exact ⟨hplaced.isMatch_iff, fun hplain _ => isMatch_of_not_mem hplain, hplaced.count_le_one, hplaced.ends⟩

/-- A suffix that overlaps itself, against a text that holds it twice and one that is only its end. -/
theorem isMatch_of_check_overlap :
    check "*AB-AB" = .ok () ∧ (∃ filling, "AB-AB-AB" = fill "*AB-AB" filling) ∧
      ¬∃ filling, "-AB" = fill "*AB-AB" filling := by
  have hcheck : check "*AB-AB" = .ok () := by decide
  have hfill := (isMatch_of_check hcheck).1
  exact ⟨hcheck, (hfill "AB-AB-AB").1 (by decide), mt (hfill "-AB").2 (by decide)⟩

end TradeReentry.Pattern
