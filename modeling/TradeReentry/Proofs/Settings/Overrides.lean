import Mathlib.Data.List.Pairwise
import TradeReentry.Proofs.Settings.Directives

/-!
# What a settings file makes of the settings held before

After a file was read, every entry has the value of the last line that names it, and the value that it had before if
no line does; the lot steps of single symbols likewise (`Overrides`). `load_iff` says when a file is read, and that a
file that is refused changes nothing.
-/

namespace TradeReentry.Settings

/-! ## Fields -/

theorem get_put {e : Entry} (h : e ∈ entries) (v : e.kind.Value) (s : Settings) : e.get (e.put v s) = v := by
  have hall : ∀ e ∈ entries, ∀ v s, e.get (e.put v s) = v := by
    simp [entries, vocabularyEntries, resolverEntries, processorEntries, ledgerEntries, serviceEntries]
  exact hall e h v s

/-- Whether neither of two entries sees what is put into the other. -/
def Apart (e other : Entry) : Prop :=
  (∀ v s, e.get (other.put v s) = e.get s) ∧ ∀ v s, other.get (e.put v s) = other.get s

instance : Std.Symm Apart := ⟨fun _ _ h => h.symm⟩

/-- Each entry has a field of its own. -/
theorem pairwise_apart : entries.Pairwise Apart := by
  simp only [entries, vocabularyEntries, resolverEntries, processorEntries, ledgerEntries, serviceEntries,
    List.cons_append, List.nil_append, List.pairwise_cons, List.forall_mem_cons, List.Pairwise.nil,
    List.not_mem_nil, false_imp_iff, implies_true, and_true]
  repeat' apply And.intro
  all_goals exact fun _ _ => rfl

theorem get_put_of_ne {e other : Entry} (he : e ∈ entries) (hother : other ∈ entries) (hne : e ≠ other)
    (v : other.kind.Value) (s : Settings) : e.get (other.put v s) = e.get s :=
  (pairwise_apart.forall he hother hne).1 v s

theorem lotSteps_put {e : Entry} (h : e ∈ entries) (v : e.kind.Value) (s : Settings) :
    (e.put v s).processor.lotSteps = s.processor.lotSteps := by
  have hall : ∀ e ∈ entries, ∀ v s, (e.put v s).processor.lotSteps = s.processor.lotSteps := by
    simp [entries, vocabularyEntries, resolverEntries, processorEntries, ledgerEntries, serviceEntries]
  exact hall e h v s

theorem get_lotSteps {e : Entry} (h : e ∈ entries) (steps : NameMap Binary64) (s : Settings) :
    e.get { s with processor.lotSteps := steps } = e.get s := by
  have hall : ∀ e ∈ entries, ∀ steps s, e.get { s with processor.lotSteps := steps } = e.get s := by
    simp [entries, vocabularyEntries, resolverEntries, processorEntries, ledgerEntries, serviceEntries]
  exact hall e h steps s

/-- The entries and the lot steps of symbols are all that settings hold. -/
theorem ext_get {s s' : Settings} (hget : ∀ e ∈ entries, e.get s = e.get s')
    (hsteps : s.processor.lotSteps = s'.processor.lotSteps) : s = s' := by
  obtain ⟨⟨⟩, ⟨⟩, ⟨⟩, ⟨⟩, ⟨⟩⟩ := s
  obtain ⟨⟨⟩, ⟨⟩, ⟨⟩, ⟨⟩, ⟨⟩⟩ := s'
  simp [entries, vocabularyEntries, resolverEntries, processorEntries, ledgerEntries, serviceEntries] at hget
  simp_all

/-! ## The last of some directives -/

/-- Whether a directive is the last one with a property. -/
def IsLast (p : Directive → Prop) (d : Directive) (ds : List Directive) : Prop :=
  p d ∧ ∃ before after, ds = before ++ d :: after ∧ ∀ later ∈ after, ¬p later

theorem exists_isLast {p : Directive → Prop} {ds : List Directive} (h : ∃ d ∈ ds, p d) : ∃ d, IsLast p d ds := by
  induction ds with
  | nil => simp at h
  | cons first rest ih =>
    by_cases hrest : ∃ d ∈ rest, p d
    · obtain ⟨d, hd, before, after, rfl, hafter⟩ := ih hrest
      exact ⟨d, hd, first :: before, after, rfl, hafter⟩
    · push Not at hrest
      have hfirst : p first := by
        obtain ⟨d, hmem, hd⟩ := h
        obtain rfl | hmem := List.mem_cons.1 hmem
        · exact hd
        · exact absurd hd (hrest d hmem)
      exact ⟨first, hfirst, [], rest, rfl, hrest⟩

section

variable {α : Type} (look : Settings → α) {p : Directive → Prop} {ds : List Directive}
  (hframe : ∀ d s, ¬p d → look (d.apply s) = look s)

include hframe

/-- Directives without a property leave alone what only those with it change. -/
theorem look_foldl_of_forall_not (h : ∀ d ∈ ds, ¬p d) (s : Settings) :
    look (ds.foldl Directive.apply s) = look s := by
  induction ds generalizing s with
  | nil => rfl
  | cons d rest ih =>
    have hrest : ∀ d ∈ rest, ¬p d := fun d hd => h d (List.mem_cons_of_mem _ hd)
    rw [List.foldl_cons, ih hrest, hframe d s (h d (List.mem_cons_self ..))]

/-- Of the directives with a property, the last one counts. -/
theorem look_foldl_of_isLast {d : Directive} {a : α} (hlast : IsLast p d ds) (hset : ∀ s, look (d.apply s) = a)
    (s : Settings) : look (ds.foldl Directive.apply s) = a := by
  obtain ⟨-, before, after, rfl, hafter⟩ := hlast
  rw [List.foldl_append, List.foldl_cons, look_foldl_of_forall_not look hframe hafter, hset]

end

namespace Directive

/-- Whether a directive gives a value to an entry. -/
def Sets (e : Entry) : Directive → Prop
  | entry other _ _ => other = e
  | _ => False

/-- Whether a directive gives a lot step to a symbol. -/
def Steps (symbol : Text) : Directive → Prop
  | lotStep other _ => other = symbol
  | _ => False

theorem get_apply_of_not_sets {e : Entry} (he : e ∈ entries) (d : Directive) (s : Settings) (h : ¬d.Sets e) :
    e.get (d.apply s) = e.get s := by
  cases d with
  | entry other known v => exact get_put_of_ne he known (fun heq => h heq.symm) v s
  | lotStep symbol step => exact get_lotSteps he _ s
  | blank | heading _ | lotSteps => rfl

theorem lotStep_apply_of_not_steps (symbol : Text) (d : Directive) (s : Settings) (h : ¬d.Steps symbol) :
    (d.apply s).processor.lotSteps.find? symbol = s.processor.lotSteps.find? symbol := by
  cases d with
  | entry e known v => rw [apply, lotSteps_put known]
  | lotStep other step =>
    rw [apply, NameMap.find?_insert]
    exact if_neg h
  | blank | heading _ | lotSteps => rfl

end Directive

/-! ## Settings after directives -/

/-- What directives make of settings: every entry and every lot step of a symbol is what the last directive for it
says, and what it was if there is none. -/
structure Overrides (initial : Settings) (ds : List Directive) (settings : Settings) : Prop where
  get_of_last : ∀ e (known : e ∈ entries) v, IsLast (·.Sets e) (.entry e known v) ds → e.get settings = v
  get_of_none : ∀ e ∈ entries, (∀ d ∈ ds, ¬d.Sets e) → e.get settings = e.get initial
  step_of_last : ∀ symbol step, IsLast (·.Steps symbol) (.lotStep symbol step) ds →
    settings.processor.lotSteps.find? symbol = some step
  step_of_none : ∀ symbol, (∀ d ∈ ds, ¬d.Steps symbol) →
    settings.processor.lotSteps.find? symbol = initial.processor.lotSteps.find? symbol

theorem overrides_foldl (initial : Settings) (ds : List Directive) :
    Overrides initial ds (ds.foldl Directive.apply initial) where
  get_of_last e known v hlast :=
    look_foldl_of_isLast e.get (Directive.get_apply_of_not_sets known) hlast (get_put known v) initial
  get_of_none e known h := look_foldl_of_forall_not e.get (Directive.get_apply_of_not_sets known) h initial
  step_of_last symbol step hlast := by
    refine look_foldl_of_isLast (·.processor.lotSteps.find? symbol)
      (Directive.lotStep_apply_of_not_steps symbol) hlast (fun s => ?_) initial
    rw [Directive.apply, NameMap.find?_insert, if_pos rfl]
  step_of_none symbol h :=
    look_foldl_of_forall_not (·.processor.lotSteps.find? symbol)
      (Directive.lotStep_apply_of_not_steps symbol) h initial

/-- Directives make only one thing of settings. -/
theorem Overrides.unique {initial s s' : Settings} {ds : List Directive} (h : Overrides initial ds s)
    (h' : Overrides initial ds s') : s = s' := by
  refine ext_get (fun e known => ?_) (NameMap.ext_find? fun symbol => ?_)
  · by_cases hset : ∃ d ∈ ds, d.Sets e
    · obtain ⟨d, hlast⟩ := exists_isLast hset
      cases d with
      | entry other known' v =>
        obtain rfl : other = e := hlast.1
        rw [h.get_of_last _ known v hlast, h'.get_of_last _ known v hlast]
      | blank | heading _ | lotSteps | lotStep _ _ => exact hlast.1.elim
    · push Not at hset
      rw [h.get_of_none e known hset, h'.get_of_none e known hset]
  · by_cases hset : ∃ d ∈ ds, d.Steps symbol
    · obtain ⟨d, hlast⟩ := exists_isLast hset
      cases d with
      | lotStep other step =>
        obtain rfl : other = symbol := hlast.1
        rw [h.step_of_last _ step hlast, h'.step_of_last _ step hlast]
      | blank | heading _ | lotSteps | entry _ _ _ => exact hlast.1.elim
    · push Not at hset
      rw [h.step_of_none symbol hset, h'.step_of_none symbol hset]

theorem overrides_iff {initial settings : Settings} {ds : List Directive} :
    Overrides initial ds settings ↔ settings = ds.foldl Directive.apply initial :=
  ⟨fun h => h.unique (overrides_foldl initial ds), fun h => h ▸ overrides_foldl initial ds⟩

/-! ## Files -/

theorem ofFile_eq_ok_iff {disk : Disk} {path : Text} {initial settings : Settings} :
    ofFile disk path initial = .ok settings ↔ ∃ t, disk.read? path = some t ∧ ofText initial t = .ok settings := by
  rw [ofFile]
  cases disk.read? path <;> simp

theorem load_eq_ok_iff {disk : Disk} {path : Text} {held settings : Settings} :
    load disk path held = { result := .ok (), state := settings } ↔ ofFile disk path held = .ok settings := by
  rw [load]
  cases ofFile disk path held <;> simp

/-- A file is read exactly if every line says something where it stands, and the settings that the lines make of
those held keep the rules. A file that is refused leaves the settings as they were. -/
theorem load_iff (disk : Disk) (path : Text) (held : Settings) :
    (∀ settings, load disk path held = { result := .ok (), state := settings } ↔
      ∃ t ds, disk.read? path = some t ∧ SaysAll {} (Text.splitOn Ascii.newline t) ds ∧
        Overrides held ds settings ∧ settings.check = .ok ()) ∧
      ((load disk path held).result ≠ .ok () → (load disk path held).state = held) := by
  constructor
  · intro settings
    rw [load_eq_ok_iff, ofFile_eq_ok_iff]
    constructor
    · rintro ⟨t, hread, htext⟩
      obtain ⟨hcheck, ds, hsays, hfold⟩ := ofText_eq_ok_iff.1 htext
      exact ⟨t, ds, hread, hsays, overrides_iff.2 hfold, hcheck⟩
    · rintro ⟨t, ds, hread, hsays, hover, hcheck⟩
      exact ⟨t, hread, ofText_eq_ok_iff.2 ⟨hcheck, ds, hsays, overrides_iff.1 hover⟩⟩
  · intro hrefused
    rw [load] at hrefused ⊢
    split
    · rfl
    · next hread => simp [hread] at hrefused

/-- Two lot steps of one symbol, the comment of which is left out. -/
def stepsText : Text :=
  "processor:\n  lot_steps:\n    EURUSD: 0.1\n    'EURUSD': 0.2  # the later one\n  lot_step: 0.05\n"

theorem load_iff_steps :
    let disk : Disk :=
      { working := .file "steps.yaml" (.ofText stepsText) (.file "bare.yaml" (.ofText "lot") .empty) }
    let settings : Settings :=
      { processor := { lotStep := .ofDecimal 5 2, lotSteps := .ofList [("EURUSD", .ofDecimal 2 1)] } }
    load disk "steps.yaml" {} = { result := .ok (), state := settings } ∧
      (∃ ds, SaysAll {} (Text.splitOn Ascii.newline stepsText) ds ∧ Overrides {} ds settings) ∧
      (load disk "bare.yaml" {}).state = {} := by
  intro disk settings
  have hload : load disk "steps.yaml" {} = { result := .ok (), state := settings } :=
    load_eq_ok_iff.2 (by decide +kernel)
  have hread : disk.read? "steps.yaml" = some stepsText := by decide +kernel
  obtain ⟨t, ds, ht, hsays, hover, -⟩ := ((load_iff disk "steps.yaml" {}).1 settings).1 hload
  obtain rfl := Option.some.inj (ht.symm.trans hread)
  exact ⟨hload, ⟨ds, hsays, hover⟩, (load_iff disk "bare.yaml" {}).2 (by decide +kernel)⟩

end TradeReentry.Settings
