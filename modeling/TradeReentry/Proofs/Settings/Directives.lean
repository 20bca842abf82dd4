import Mathlib.Data.List.Nodup
import Mathlib.Data.List.TakeWhile
import TradeReentry.Proofs.Results
import TradeReentry.Settings.Reader

/-!
# What the lines of a settings file say

`Says` tells what a line says at its place, whether by its indentation, by the colon that it ends in or by the key
before its first colon. A line is read exactly if it says something (`exists_says_of_readLine`, `readLine_eq_ok`),
and lines are read exactly if each of them does, at the place where those before it lead (`readLines_eq_ok_iff`).
-/

namespace TradeReentry.Settings

/-! ## The parts of a line -/

/-- A line without its comment and without the white space at its ends. -/
def content (line : Text) : Text := Text.trim (stripComment false false line)

/-- Whether a text is a name with a colon after it. -/
def Opens (t name : Text) : Prop := ∃ before, t = before ++ [Ascii.colon] ∧ Text.trim before = name

/-- Whether a text is a key and a value with the first colon between them. -/
def Assigns (t key value : Text) : Prop :=
  ∃ before after, t = before ++ Ascii.colon :: after ∧ Ascii.colon ∉ before ∧ Text.trim before = key ∧
    Text.trim after = value

/-- The text of a value that is read: a list in brackets as it stands, anything else without its quotes. -/
def scalar (value : Text) : Text :=
  if value.head? = some Ascii.openBracket then value else Text.unquote value

theorem dropColon?_eq_some_iff {t name : Text} : dropColon? t = some name ↔ Opens t name := by
  rw [dropColon?, Opens]
  constructor
  · intro h
    split at h
    · next hlast => exact ⟨t.dropLast, (List.dropLast_append_getLast? _ hlast).symm, Option.some.inj h⟩
    · simp at h
  · rintro ⟨before, rfl, rfl⟩
    simp

theorem splitColon?_eq_some_iff {t key value : Text} :
    splitColon? t = some (key, value) ↔ Assigns t key value := by
  rw [splitColon?]
  constructor
  · intro h
    split at h
    · simp at h
    next c after hdrop =>
      obtain ⟨rfl, rfl⟩ := Prod.mk.inj (Option.some.inj h)
      obtain rfl : c = Ascii.colon := by
        have hhead := List.head?_dropWhile_not (· ≠ Ascii.colon) t
        rw [hdrop] at hhead
        simpa using hhead
      refine ⟨t.takeWhile (· ≠ Ascii.colon), after, ?_, ?_, rfl, rfl⟩
      · rw [← hdrop, List.takeWhile_append_dropWhile]
      · intro hmem
        simpa using List.mem_takeWhile_imp hmem
  · rintro ⟨before, after, rfl, hbefore, rfl, rfl⟩
    have hall : ∀ c ∈ before, decide (c ≠ Ascii.colon) = true := by
      intro c hc
      simpa using fun heq : c = Ascii.colon => hbefore (heq ▸ hc)
    rw [List.dropWhile_append_of_pos hall, List.takeWhile_append_of_pos hall]
    simp

theorem Opens.ne_nil {t name : Text} (h : Opens t name) : t ≠ [] := by
  obtain ⟨before, rfl, -⟩ := h
  simp

theorem Assigns.ne_nil {t key value : Text} (h : Assigns t key value) : t ≠ [] := by
  obtain ⟨before, after, rfl, -⟩ := h
  simp

theorem Opens.unique {t name name' : Text} (h : Opens t name) (h' : Opens t name') : name = name' :=
  Option.some.inj ((dropColon?_eq_some_iff.2 h).symm.trans (dropColon?_eq_some_iff.2 h'))

theorem Assigns.unique {t key key' value value' : Text} (h : Assigns t key value) (h' : Assigns t key' value') :
    key = key' ∧ value = value' :=
  Prod.mk.inj (Option.some.inj ((splitColon?_eq_some_iff.2 h).symm.trans (splitColon?_eq_some_iff.2 h')))

/-! ## Directives -/

/-- What a line says. -/
inductive Directive where
  | blank
  | heading (name : Text)
  | lotSteps
  | lotStep (symbol : Text) (step : Binary64)
  | entry (e : Entry) (known : e ∈ entries) (value : e.kind.Value)

/-- Where a line stands: the section that is open and whether the lot steps of symbols are open in it. -/
structure Place where
  heading? : Option Text := none
  inLotSteps : Bool := false

def Progress.place (p : Progress) : Place := ⟨p.heading?, p.inLotSteps⟩

namespace Directive

/-- The settings that a directive makes of others. -/
def apply (s : Settings) : Directive → Settings
  | lotStep symbol step => { s with processor.lotSteps := s.processor.lotSteps.insert symbol step }
  | entry e _ value => e.put value s
  | blank | heading _ | lotSteps => s

/-- The place after a directive. -/
def move (place : Place) : Directive → Place
  | heading name => { heading? := some name }
  | lotSteps => { place with inLotSteps := true }
  | entry _ _ _ => { place with inLotSteps := false }
  | blank | lotStep _ _ => place

end Directive

/-- Whether a line at an indentation stands among the lot steps of symbols. -/
def Place.HasLotStep (place : Place) (line : Text) : Prop := place.inLotSteps = true ∧ 2 < indentation line

/-- Whether a line opens a section, or a part of one. -/
def IsOpening (line : Text) : Prop :=
  indentation line = 0 ∨ indentation line = 2 ∧ (content line).getLast? = some Ascii.colon

/-- What a line says at a place. -/
inductive Says (place : Place) (line : Text) : Directive → Prop where
  | blank (hcontent : content line = []) : Says place line .blank
  | heading {name : Text} (hmargin : indentation line = 0) (hopens : Opens (content line) name)
      (hknown : name ∈ sections) : Says place line (.heading name)
  | lotSteps (hindented : indentation line = 2) (hopens : Opens (content line) "lot_steps")
      (hsection : place.heading? = some ("processor" : Text)) : Says place line .lotSteps
  | lotStep {name key value : Text} {step : Binary64} (hsection : place.heading? = some name)
      (hamong : place.HasLotStep line) (hassigns : Assigns (content line) key value) (hvalue : value ≠ [])
      (hstep : Binary64.ofPlain? (Text.unquote value) = some step) :
      Says place line (.lotStep (Text.unquote key) step)
  | entry {name key value : Text} {e : Entry} {v : e.kind.Value} (hsection : place.heading? = some name)
      (hopening : ¬IsOpening line) (hamong : ¬place.HasLotStep line)
      (hassigns : Assigns (content line) key value) (hvalue : value ≠ []) (known : e ∈ entries)
      (hpath : e.path = name ++ "." ++ key) (hread : e.kind.read? (scalar value) = some v) :
      Says place line (.entry e known v)

/-! ## One line -/

theorem nodup_paths : (entries.map (·.path)).Nodup := by decide +kernel

/-- A path names one entry. -/
theorem find?_entries_eq_some_iff {path : Text} {e : Entry} :
    entries.find? (·.path = path) = some e ↔ e ∈ entries ∧ e.path = path := by
  constructor
  · intro h
    exact ⟨List.mem_of_find?_eq_some h, by simpa using List.find?_some h⟩
  · rintro ⟨hmem, rfl⟩
    obtain ⟨found, hfound⟩ : ∃ found, entries.find? (·.path = e.path) = some found :=
      Option.isSome_iff_exists.1 (List.find?_isSome.2 ⟨e, hmem, by simp⟩)
    have hpath : found.path = e.path := by simpa using List.find?_some hfound
    rw [hfound, List.inj_on_of_nodup_map nodup_paths (List.mem_of_find?_eq_some hfound) hmem hpath]

theorem setEntry_eq_ok_iff {s s' : Settings} {path value : Text} :
    setEntry s path value = .ok s' ↔ ∃ e v, e ∈ entries ∧ e.path = path ∧
      e.kind.read? (scalar value) = some v ∧ s' = e.put v s := by
  rw [setEntry]
  constructor
  · intro h
    split at h
    · simp at h
    next e hfound =>
      obtain ⟨hmem, hpath⟩ := find?_entries_eq_some_iff.1 hfound
      dsimp only at h
      split at h
      · simp at h
      · next v hread => exact ⟨e, v, hmem, hpath, hread, (Except.ok.inj h).symm⟩
  · rintro ⟨e, v, hmem, hpath, hread, rfl⟩
    rw [find?_entries_eq_some_iff.2 ⟨hmem, hpath⟩]
    dsimp only
    rw [← scalar, hread]

theorem setLotStep_eq_ok_iff {s s' : Settings} {symbol value : Text} :
    setLotStep s symbol value = .ok s' ↔ ∃ step, Binary64.ofPlain? (Text.unquote value) = some step ∧
      s' = (Directive.lotStep (Text.unquote symbol) step).apply s := by
  rw [setLotStep]
  split
  · next h => simp [h]
  · next step h => simp [h, Directive.apply, eq_comm]

/-- A line that gives a value to a key, once the place of the line is settled. -/
theorem readEntry_eq_ok_iff {p p' : Progress} {name t : Text} :
    readEntry p name t = .ok p' ↔ ∃ key value, Assigns t key value ∧ value ≠ [] ∧
      ∃ s, p' = { p with settings := s } ∧
        if p.inLotSteps then setLotStep p.settings key value = .ok s
        else setEntry p.settings (name ++ "." ++ key) value = .ok s := by
  rw [readEntry]
  constructor
  · intro h
    split at h
    · simp at h
    next key value hsplit =>
      split at h
      · simp at h
      next hvalue =>
        refine ⟨key, value, splitColon?_eq_some_iff.1 hsplit, by simpa using hvalue, ?_⟩
        split at h
        · next hlots =>
          obtain ⟨s, hs, rfl⟩ := map_eq_ok_iff.1 h
          exact ⟨s, rfl, by rwa [if_pos hlots]⟩
        · next hlots =>
          obtain ⟨s, hs, rfl⟩ := map_eq_ok_iff.1 h
          exact ⟨s, rfl, by rwa [if_neg hlots]⟩
  · rintro ⟨key, value, hassigns, hvalue, s, rfl, hs⟩
    rw [splitColon?_eq_some_iff.2 hassigns]
    dsimp only
    rw [if_neg (by simpa using hvalue)]
    split at hs
    · next hlots => rw [if_pos hlots, hs]; rfl
    · next hlots => rw [if_neg hlots, hs]; rfl

theorem readSection_eq_ok_iff {p p' : Progress} {t : Text} :
    readSection p t = .ok p' ↔ ∃ name, Opens t name ∧ name ∈ sections ∧
      p' = { p with heading? := some name, inLotSteps := false } := by
  rw [readSection]
  constructor
  · intro h
    split at h
    · simp at h
    next name hopens =>
      split at h
      · next hknown =>
        exact ⟨name, dropColon?_eq_some_iff.1 hopens, List.contains_iff_mem.1 hknown, (Except.ok.inj h).symm⟩
      · simp at h
  · rintro ⟨name, hopens, hknown, rfl⟩
    rw [dropColon?_eq_some_iff.2 hopens]
    dsimp only
    rw [if_pos (List.contains_iff_mem.2 hknown)]

theorem readLine_of_blank {p : Progress} {line : Text} (h : content line = []) : readLine p line = .ok p := by
  rw [readLine, ← content, h]
  rfl

section

variable {p : Progress} {line : Text} (hcontent : content line ≠ [])

include hcontent

theorem readLine_of_margin (hmargin : indentation line = 0) : readLine p line = readSection p (content line) := by
  rw [readLine, ← content, if_neg (by simpa using hcontent), if_pos hmargin]

theorem readLine_of_no_section (hindented : indentation line ≠ 0) (hsection : p.heading? = none) :
    readLine p line = .error .noSection := by
  rw [readLine, ← content, if_neg (by simpa using hcontent), if_neg hindented, hsection]

theorem readLine_of_opening {name part : Text} (hindented : indentation line = 2)
    (hsection : p.heading? = some name) (hopens : Opens (content line) part) :
    readLine p line = if name = "processor" ∧ part = "lot_steps" then .ok { p with inLotSteps := true }
      else .error (.unknownSubsection (name ++ "." ++ part)) := by
  rw [readLine, ← content, if_neg (by simpa using hcontent), if_neg (by omega), hsection,
    dropColon?_eq_some_iff.2 hopens]
  dsimp only
  rw [if_pos hindented]

theorem readLine_of_not_opening {name : Text} (hopening : ¬IsOpening line) (hsection : p.heading? = some name) :
    readLine p line =
      readEntry { p with inLotSteps := p.inLotSteps && 2 < indentation line } name (content line) := by
  simp only [IsOpening, not_or, not_and] at hopening
  rw [readLine, ← content, if_neg (by simpa using hcontent), if_neg hopening.1, hsection]
  cases hdrop : dropColon? (content line) with
  | none => rfl
  | some part =>
    obtain ⟨before, hlast, -⟩ := dropColon?_eq_some_iff.1 hdrop
    have hindented : indentation line ≠ 2 := fun h => hopening.2 h (by rw [hlast, List.getLast?_concat])
    dsimp only
    rw [if_neg hindented]

end

theorem Progress.hasLotStep_iff {p : Progress} {line : Text} :
    (p.inLotSteps && decide (2 < indentation line)) = true ↔ p.place.HasLotStep line := by
  rw [Bool.and_eq_true, decide_eq_true_eq]
  exact Iff.rfl

/-- A line that is read says something, and does to the settings and to the place what it says. -/
theorem exists_says_of_readLine {p p' : Progress} {line : Text} (h : readLine p line = .ok p') :
    ∃ d, Says p.place line d ∧ p'.settings = d.apply p.settings ∧ p'.place = d.move p.place := by
  by_cases hcontent : content line = []
  · rw [readLine_of_blank hcontent] at h
    obtain rfl := Except.ok.inj h
    exact ⟨.blank, .blank hcontent, rfl, rfl⟩
  by_cases hmargin : indentation line = 0
  · rw [readLine_of_margin hcontent hmargin] at h
    obtain ⟨name, hopens, hknown, rfl⟩ := readSection_eq_ok_iff.1 h
    exact ⟨.heading name, .heading hmargin hopens hknown, rfl, rfl⟩
  cases hsection : p.heading? with
  | none =>
    rw [readLine_of_no_section hcontent hmargin hsection] at h
    simp at h
  | some name =>
    by_cases hopening : IsOpening line
    · obtain ⟨hindented, hlast⟩ := hopening.resolve_left hmargin
      have hopens : Opens (content line) _ :=
        ⟨(content line).dropLast, (List.dropLast_append_getLast? _ hlast).symm, rfl⟩
      rw [readLine_of_opening hcontent hindented hsection hopens] at h
      split at h
      · next hlots =>
        obtain rfl := Except.ok.inj h
        rw [hlots.2] at hopens
        exact ⟨.lotSteps, .lotSteps hindented hopens (by rw [← hlots.1]; exact hsection), rfl, rfl⟩
      · simp at h
    · rw [readLine_of_not_opening hcontent hopening hsection] at h
      obtain ⟨key, value, hassigns, hvalue, s, rfl, hs⟩ := readEntry_eq_ok_iff.1 h
      dsimp only at hs
      split at hs
      · next hamong =>
        obtain ⟨step, hstep, rfl⟩ := setLotStep_eq_ok_iff.1 hs
        refine ⟨_, .lotStep hsection (Progress.hasLotStep_iff.1 hamong) hassigns hvalue hstep, rfl, ?_⟩
        have hlots : p.inLotSteps = true := (Progress.hasLotStep_iff.1 hamong).1
        simp only [Progress.place, Directive.move, hamong]
        rw [hlots]
      · next hamong =>
        obtain ⟨e, v, known, hpath, hread, rfl⟩ := setEntry_eq_ok_iff.1 hs
        refine ⟨_, .entry hsection hopening (mt Progress.hasLotStep_iff.2 hamong) hassigns hvalue known hpath
          hread, rfl, ?_⟩
        simp only [Progress.place, Directive.move, hamong]

/-- A line that says something is read. -/
theorem readLine_eq_ok {p : Progress} {line : Text} {d : Directive} (h : Says p.place line d) :
    readLine p line = .ok ⟨d.apply p.settings, (d.move p.place).heading?, (d.move p.place).inLotSteps⟩ := by
  cases h with
  | blank hcontent => exact readLine_of_blank hcontent
  | heading hmargin hopens hknown =>
    rw [readLine_of_margin hopens.ne_nil hmargin]
    exact readSection_eq_ok_iff.2 ⟨_, hopens, hknown, rfl⟩
  | lotSteps hindented hopens hsection =>
    rw [readLine_of_opening hopens.ne_nil hindented hsection hopens, if_pos ⟨rfl, rfl⟩]
    rfl
  | @lotStep name key value step hsection hamong hassigns hvalue hstep =>
    have hlots : p.inLotSteps = true := hamong.1
    have hindented := hamong.2
    have hopening : ¬IsOpening line := by rintro (h | ⟨h, -⟩) <;> omega
    have hstays : (p.inLotSteps && decide (2 < indentation line)) = p.inLotSteps := by
      rw [decide_eq_true hindented, Bool.and_true]
    rw [readLine_of_not_opening hassigns.ne_nil hopening hsection, hstays]
    refine readEntry_eq_ok_iff.2 ⟨key, value, hassigns, hvalue,
      (Directive.lotStep (Text.unquote key) step).apply p.settings, rfl, ?_⟩
    rw [if_pos hlots]
    exact setLotStep_eq_ok_iff.2 ⟨_, hstep, rfl⟩
  | @entry name key value e v hsection hopening hamong hassigns hvalue known hpath hread =>
    have hcloses : (p.inLotSteps && decide (2 < indentation line)) = false :=
      eq_false_of_ne_true (mt Progress.hasLotStep_iff.1 hamong)
    rw [readLine_of_not_opening hassigns.ne_nil hopening hsection, hcloses]
    refine readEntry_eq_ok_iff.2 ⟨key, value, hassigns, hvalue, e.put v p.settings, rfl, ?_⟩
    rw [if_neg Bool.false_ne_true]
    exact setEntry_eq_ok_iff.2 ⟨_, _, known, hpath, hread, rfl⟩

/-! ## Many lines -/

/-- What lines say, each at the place where those before it lead. -/
inductive SaysAll : Place → List Text → List Directive → Prop where
  | nil (place : Place) : SaysAll place [] []
  | cons {place : Place} {line : Text} {d : Directive} {lines : List Text} {ds : List Directive}
      (hline : Says place line d) (hrest : SaysAll (d.move place) lines ds) :
      SaysAll place (line :: lines) (d :: ds)

theorem SaysAll.exists_append {place : Place} {before after : List Text} {ds : List Directive}
    (h : SaysAll place (before ++ after) ds) : ∃ first second, ds = first ++ second ∧
      SaysAll place before first ∧ SaysAll (first.foldl Directive.move place) after second := by
  induction before generalizing place ds with
  | nil => exact ⟨[], ds, rfl, .nil place, h⟩
  | cons line before ih =>
    cases h with
    | @cons _ _ d _ ds hline hrest =>
      obtain ⟨first, second, rfl, hfirst, hsecond⟩ := ih hrest
      exact ⟨d :: first, second, rfl, .cons hline hfirst, hsecond⟩

/-- Lines are read exactly if each of them says something, and do to the settings what they say. -/
theorem readLines_eq_ok_iff {number : Nat} {p : Progress} {lines : List Text} {s : Settings} :
    (readLines number p lines).map (·.settings) = .ok s ↔
      ∃ ds, SaysAll p.place lines ds ∧ s = ds.foldl Directive.apply p.settings := by
  induction lines generalizing number p with
  | nil =>
    rw [readLines, map_eq_ok_iff]
    constructor
    · rintro ⟨p, hp, rfl⟩
      obtain rfl := Except.ok.inj hp
      exact ⟨[], .nil _, rfl⟩
    · rintro ⟨ds, hds, rfl⟩
      cases hds
      exact ⟨p, rfl, rfl⟩
  | cons line rest ih =>
    rw [readLines]
    constructor
    · intro h
      split at h
      · simp [Except.map] at h
      next after hline =>
        obtain ⟨d, hsays, hsettings, hplace⟩ := exists_says_of_readLine hline
        obtain ⟨ds, hds, rfl⟩ := ih.1 h
        rw [hplace] at hds
        exact ⟨d :: ds, .cons hsays hds, by rw [hsettings, List.foldl_cons]⟩
    · rintro ⟨ds, hds, rfl⟩
      cases hds with
      | @cons _ _ d _ ds hsays hds =>
        rw [readLine_eq_ok hsays]
        exact ih.2 ⟨ds, hds, rfl⟩

/-- A text makes settings of others if its lines can be read and the outcome keeps the rules. -/
theorem ofText_eq_ok_iff {initial s : Settings} {t : Text} :
    ofText initial t = .ok s ↔ s.check = .ok () ∧
      ∃ ds, SaysAll {} (Text.splitOn Ascii.newline t) ds ∧ s = ds.foldl Directive.apply initial := by
  have hread : (readLines 1 { settings := initial } (Text.splitOn Ascii.newline t)).map (·.settings) = .ok s ↔
      ∃ ds, SaysAll {} (Text.splitOn Ascii.newline t) ds ∧ s = ds.foldl Directive.apply initial :=
    readLines_eq_ok_iff
  rw [← hread, ofText]
  cases readLines 1 { settings := initial } (Text.splitOn Ascii.newline t) with
  | error e => simp [Except.map]
  | ok p =>
    dsimp only
    split
    · next e hcheck =>
      refine iff_of_false (by simp) ?_
      rintro ⟨hok, heq⟩
      rw [← Except.ok.inj heq, hcheck] at hok
      simp at hok
    · next hcheck =>
      constructor
      · intro h
        obtain rfl := Except.ok.inj h
        exact ⟨hcheck, rfl⟩
      · rintro ⟨-, h⟩
        exact h

end TradeReentry.Settings
