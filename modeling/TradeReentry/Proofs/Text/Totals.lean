import Mathlib.Algebra.Ring.Nat
import TradeReentry.Text.NameMap

/-!
# Totals of counts by name

The sum of the values of a map grows by one with each name that is counted (`total_increment`), so that over many
it is their number (`total_foldl_increment`).
-/

namespace TradeReentry.NameMap

/-- The sum of the values. -/
def total (m : NameMap Nat) : Nat := (m.entries.map (·.2)).sum

theorem sum_insertEntry {name : Text} (value : Nat) {entries : List (Text × Nat)}
    (hsorted : entries.Pairwise (·.1 < ·.1)) :
    ((insertEntry name value entries).map (·.2)).sum + (lookup name entries).getD 0 =
      (entries.map (·.2)).sum + value := by
  induction entries with
  | nil => simp [insertEntry, lookup]
  | cons head rest ih =>
    obtain ⟨other, held⟩ := head
    obtain ⟨hhead, hrest⟩ := List.pairwise_cons.1 hsorted
    have hlater := ih hrest
    rw [insertEntry]
    split
    · next heq =>
      simp only [lookup, heq, List.map_cons, List.sum_cons, List.find?_cons_of_pos, decide_true,
        Option.map_some, Option.getD_some]
      omega
    next hne =>
    have hskip : lookup name ((other, held) :: rest) = lookup name rest := by
      simp [lookup, Ne.symm hne]
    split
    · next hlt =>
      -- The names are sorted, so that one before the first is not among them.
      have hnone : lookup name rest = none := by
        simp only [lookup, Option.map_eq_none_iff, List.find?_eq_none, decide_eq_true_eq]
        rintro e he rfl
        exact List.lt_asymm hlt (hhead e he)
      simp only [hskip, hnone, List.map_cons, List.sum_cons, Option.getD_none]
      omega
    · simp only [hskip, List.map_cons, List.sum_cons]
      omega

/-- Putting a value in adds what it is more than the value that it replaces. -/
theorem total_insert (m : NameMap Nat) (name : Text) (value : Nat) :
    (m.insert name value).total + (m.find? name).getD 0 = m.total + value :=
  sum_insertEntry value m.sorted

theorem total_increment (m : NameMap Nat) (name : Text) :
    (m.modify name 0 (· + 1)).total = m.total + 1 := by
  have h := m.total_insert name ((m.find? name).getD 0 + 1)
  rw [modify]
  omega

theorem find?_increment (m : NameMap Nat) (name other : Text) :
    ((m.modify name 0 (· + 1)).find? other).getD 0 =
      (m.find? other).getD 0 + if name = other then 1 else 0 := by
  rw [modify, find?_insert]
  split
  · next h => rw [h, Option.getD_some]
  · rfl

theorem total_foldl_increment {α : Type} (f : α → Text) (items : List α) (m : NameMap Nat) :
    (items.foldl (fun counts item => counts.modify (f item) 0 (· + 1)) m).total =
      m.total + items.length := by
  induction items generalizing m with
  | nil => rfl
  | cons item rest ih =>
    rw [List.foldl_cons, ih, total_increment, List.length_cons]
    omega

theorem total_ofList_zero (names : List Text) : (ofList (names.map (·, 0))).total = 0 := by
  have hfold : ∀ m : NameMap Nat, m.total = 0 →
      ((names.map fun name => (name, 0)).foldl (fun m e => m.insert e.1 e.2) m).total = 0 := by
    induction names with
    | nil => exact fun _ h => h
    | cons name rest ih =>
      intro m hm
      have hinsert := m.total_insert name 0
      exact ih (m.insert name 0) (by omega)
  exact hfold empty rfl

end TradeReentry.NameMap
