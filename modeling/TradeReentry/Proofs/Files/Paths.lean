import Mathlib.Data.List.TakeWhile
import TradeReentry.Files.Path
import TradeReentry.Proofs.Text.Pieces

/-!
# The path of a name in a directory

The names of such a path are those of the directory and the name itself (`Path.names_join`), and its
last name is the name (`Path.fileName_join`).
-/

namespace TradeReentry

namespace Files.Path

theorem names_append (t u : Text) :
    names (t ++ Ascii.slash :: u) = names t ++ names u := by
  rw [names, Text.splitOn_eq, List.splitOn_append_cons_self, List.filter_append, names, names,
    Text.splitOn_eq, Text.splitOn_eq]

@[simp] theorem names_nil : names [] = [] := rfl

/-- Whether a text is the name of something that lies in a directory. -/
structure IsName (name : Text) : Prop where
  ne_nil : name ≠ []
  not_slash : Ascii.slash ∉ name
  not_zero : 0 ∉ name
  not_dots : isDots name = false

theorem names_of_not_slash {name : Text} (hne : name ≠ []) (h : Ascii.slash ∉ name) :
    names name = [name] := by
  rw [names, Text.splitOn_eq, List.splitOn_eq_singleton h]
  simp [hne]

/-- The joined path is the directory, perhaps with a slash, and then the name. -/
theorem join_eq (directory name : Text) :
    (directory = [] ∧ join directory name = name) ∨
      ∃ above, directory = above ++ [Ascii.slash] ∧
        join directory name = above ++ Ascii.slash :: name ∨
      (directory ≠ [] ∧ join directory name = directory ++ Ascii.slash :: name) := by
  unfold join
  by_cases hempty : directory = []
  · simp [hempty]
  · right
    by_cases hslash : endsInSlash directory
    · obtain ⟨above, habove⟩ : ∃ above, above ++ [Ascii.slash] = directory := by
        rw [endsInSlash, decide_eq_true_eq] at hslash
        exact List.getLast?_eq_some_iff.1 hslash |>.imp fun _ h => h.symm
      exact ⟨above, .inl ⟨habove.symm, by rw [if_pos (by simp [hslash]), ← habove]; simp⟩⟩
    · refine ⟨[], .inr ⟨hempty, ?_⟩⟩
      have hs : ("/" : Text) = [Ascii.slash] := rfl
      simp [hempty, hslash, hs]

theorem names_join {directory name : Text} (h : IsName name) :
    names (join directory name) = names directory ++ [name] := by
  have hname := names_of_not_slash h.ne_nil h.not_slash
  rcases join_eq directory name with ⟨hd, hj⟩ | ⟨above, ⟨hd, hj⟩ | ⟨-, hj⟩⟩
  · rw [hj, hd, hname, names_nil, List.nil_append]
  · rw [hj, hd, names_append, names_append, hname, names_nil, List.append_nil]
  · rw [hj, names_append, hname]

theorem isAbsolute_join {directory name : Text} (h : IsName name) :
    isAbsolute (join directory name) = isAbsolute directory := by
  have hname : isAbsolute name = false := by
    obtain ⟨c, rest, rfl⟩ := List.exists_cons_of_ne_nil h.ne_nil
    have := h.not_slash
    simp only [List.mem_cons, not_or] at this
    simp [isAbsolute, Ne.symm this.1]
  rcases join_eq directory name with ⟨hd, hj⟩ | ⟨above, ⟨hd, hj⟩ | ⟨hd, hj⟩⟩
  · rw [hj, hd, hname]
    rfl
  · rw [hj, hd]
    cases above <;> rfl
  · rw [hj]
    cases directory with
    | nil => exact absurd rfl hd
    | cons c rest => rfl

theorem visible_of_not_zero {path : Text} (h : (0 : UInt8) ∉ path) : visible path = path := by
  apply List.takeWhile_eq_self_iff.2
  intro c hc
  rw [decide_eq_true_eq]
  rintro rfl
  exact h hc

theorem not_zero_join {directory name : Text} (hd : (0 : UInt8) ∉ directory) (h : IsName name) :
    (0 : UInt8) ∉ join directory name := by
  have hslash : (0 : UInt8) ≠ Ascii.slash := by decide
  rcases join_eq directory name with ⟨-, hj⟩ | ⟨above, ⟨rfl, hj⟩ | ⟨-, hj⟩⟩
  · rw [hj]
    exact h.not_zero
  · rw [hj]
    simpa [hslash, h.not_zero] using hd
  · rw [hj]
    simpa [hslash, h.not_zero] using hd

/-- What follows a zero byte is not seen. -/
theorem visible_append {t : Text} (h : (0 : UInt8) ∈ t) (u : Text) :
    visible (t ++ u) = visible t := by
  induction t with
  | nil => simp at h
  | cons c t ih =>
    by_cases hc : c = 0
    · simp [visible, hc]
    · have ht : (0 : UInt8) ∈ t := by simpa [Ne.symm hc] using h
      rw [List.cons_append, visible, visible, List.takeWhile_cons_of_pos (by simpa using hc),
        List.takeWhile_cons_of_pos (by simpa using hc)]
      exact congrArg (c :: ·) (ih ht)

theorem visible_join {directory : Text} (h : (0 : UInt8) ∈ directory) (name : Text) :
    visible (join directory name) = visible directory := by
  rcases join_eq directory name with ⟨hd, -⟩ | ⟨above, ⟨hd, hj⟩ | ⟨-, hj⟩⟩
  · simp [hd] at h
  · rw [hj, show above ++ Ascii.slash :: name = directory ++ name by simp [hd], visible_append h]
  · rw [hj, visible_append h]

theorem endsInSlash_join {directory name : Text} (h : IsName name) :
    endsInSlash (join directory name) = false := by
  have hlast : ∀ above : Text, (above ++ name).getLast? ≠ some Ascii.slash := by
    intro above heq
    have hc := List.getLast?_eq_some_getLast h.ne_nil
    rw [List.getLast?_append, hc, Option.some_or, Option.some.injEq] at heq
    exact h.not_slash (heq ▸ List.getLast_mem h.ne_nil)
  rw [endsInSlash, decide_eq_false_iff_not]
  rcases join_eq directory name with ⟨-, hj⟩ | ⟨above, ⟨-, hj⟩ | ⟨-, hj⟩⟩
  · rw [hj]
    exact hlast []
  · rw [hj, List.append_cons]
    exact hlast _
  · rw [hj, List.append_cons]
    exact hlast _

theorem ne_slash_of_mem_reverse {name : Text} (h : Ascii.slash ∉ name) :
    ∀ c ∈ name.reverse, decide (c ≠ Ascii.slash) = true := by
  intro c hc
  rw [decide_eq_true_eq]
  rintro rfl
  exact h (List.mem_reverse.1 hc)

theorem fileName_join {name : Text} (h : Ascii.slash ∉ name) (directory : Text) :
    fileName (join directory name) = name := by
  have hafter : ∀ above : Text, fileName (above ++ Ascii.slash :: name) = name := by
    intro above
    rw [fileName, List.reverse_append, List.reverse_cons, List.append_assoc,
      List.takeWhile_append_of_pos (ne_slash_of_mem_reverse h)]
    simp
  rcases join_eq directory name with ⟨-, hj⟩ | ⟨above, ⟨-, hj⟩ | ⟨-, hj⟩⟩
  · rw [hj, fileName, List.takeWhile_eq_self_iff.2 (ne_slash_of_mem_reverse h), List.reverse_reverse]
  · rw [hj, hafter]
  · rw [hj, hafter]

theorem join_ne_nil {name : Text} (hne : name ≠ []) (directory : Text) :
    join directory name ≠ [] := by
  rcases join_eq directory name with ⟨-, hj⟩ | ⟨above, ⟨-, hj⟩ | ⟨-, hj⟩⟩ <;> rw [hj]
  · exact hne
  · simp
  · simp

/-- Adding to the name adds to the path. -/
theorem join_append (directory name suffix : Text) :
    join directory (name ++ suffix) = join directory name ++ suffix := by
  unfold join
  split <;> simp

end Files.Path

end TradeReentry
