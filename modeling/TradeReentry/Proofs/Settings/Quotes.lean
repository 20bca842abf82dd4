import TradeReentry.Proofs.Settings.Overrides

/-!
# Values between double quotes

A line that gives a key a text between double quotes says that text, whatever comment signs, colons and brackets
are in it (`content_of_isQuoted`), but the quotes of a text are taken off twice: by the reader of the line and by
that of the value. So an entry holds what stands between the double quotes exactly if this is not itself a text
between single quotes (`get_of_onlySets`).
-/

namespace TradeReentry

/-! ## White space and comments -/

theorem Text.trim_between {u before t after : Text} (h : u = before ++ (t ++ after))
    (hbefore : ∀ c ∈ before, Ascii.isSpace c = true) (hafter : ∀ c ∈ after, Ascii.isSpace c = true) (hne : t ≠ [])
    (hfirst : ∀ c ∈ t.head?, Ascii.isSpace c = false) (hlast : ∀ c ∈ t.getLast?, Ascii.isSpace c = false) :
    Text.trim u = t := by
  have hleft : (t ++ after).dropWhile Ascii.isSpace = t ++ after := by
    obtain ⟨c, rest, rfl⟩ := List.exists_cons_of_ne_nil hne
    exact List.dropWhile_cons_of_neg (by simp [hfirst c rfl])
  have hright : t.reverse.dropWhile Ascii.isSpace = t.reverse := by
    obtain ⟨c, rest, hreverse⟩ := List.exists_cons_of_ne_nil (List.reverse_ne_nil_iff.2 hne)
    have hc : c ∈ t.getLast? := by rw [← List.head?_reverse, hreverse]; rfl
    rw [hreverse]
    exact List.dropWhile_cons_of_neg (by simp [hlast c hc])
  rw [h, Text.trim, Text.trimLeft, Text.trimRight, List.dropWhile_append_of_pos hbefore, hleft,
    List.reverse_append, List.dropWhile_append_of_pos (fun c hc => hafter c (List.mem_reverse.1 hc)), hright,
    List.reverse_reverse]

namespace Settings

/-- A text between double quotes. -/
def quoted (s : Text) : Text := Ascii.doubleQuote :: (s ++ [Ascii.doubleQuote])

theorem getLast?_append_quoted (t s : Text) : (t ++ quoted s).getLast? = some Ascii.doubleQuote := by
  rw [quoted, ← List.cons_append, ← List.append_assoc, List.getLast?_concat]

/-- Whether a byte is neither a quote nor a comment sign. -/
def IsPlain (c : UInt8) : Prop := c ≠ Ascii.singleQuote ∧ c ≠ Ascii.doubleQuote ∧ c ≠ Ascii.hash

instance (c : UInt8) : Decidable (IsPlain c) := inferInstanceAs (Decidable (_ ∧ _))

theorem isPlain_of_isSpace {c : UInt8} (h : Ascii.isSpace c = true) : IsPlain c := by
  refine ⟨?_, ?_, ?_⟩ <;> rintro rfl <;> revert h <;> decide

theorem stripComment_plain {t : Text} (h : ∀ c ∈ t, IsPlain c) (rest : Text) :
    stripComment false false (t ++ rest) = t ++ stripComment false false rest := by
  induction t with
  | nil => rfl
  | cons c t ih =>
    obtain ⟨hsingle, hdouble, hhash⟩ := h c (List.mem_cons_self ..)
    rw [List.cons_append, stripComment, ih fun c hc => h c (List.mem_cons_of_mem _ hc)]
    simp [hsingle, hdouble, hhash]

/-- Between double quotes nothing is a comment. -/
theorem stripComment_quoted {s : Text} (h : Ascii.doubleQuote ∉ s) (rest : Text) :
    stripComment false false (quoted s ++ rest) = quoted s ++ stripComment false false rest := by
  have hinside : stripComment false true (s ++ Ascii.doubleQuote :: rest) =
      s ++ Ascii.doubleQuote :: stripComment false false rest := by
    induction s with
    | nil => simp [stripComment]
    | cons c s ih =>
      rw [List.mem_cons, not_or] at h
      rw [List.cons_append, stripComment, ih h.2]
      simp [Ne.symm h.1]
  simp only [quoted, List.cons_append, List.append_assoc, List.nil_append]
  rw [stripComment]
  exact congrArg (Ascii.doubleQuote :: ·) hinside

theorem stripComment_comment {comment : Text} (h : ∀ c ∈ comment.head?, c = Ascii.hash) :
    stripComment false false comment = [] := by
  cases comment with
  | nil => rfl
  | cons c rest =>
    obtain rfl := h c rfl
    rfl

/-! ## Quotes -/

theorem unquote_quoted {quote : UInt8} (h : quote = Ascii.singleQuote ∨ quote = Ascii.doubleQuote) (t : Text) :
    Text.unquote (quote :: (t ++ [quote])) = t := by
  simp [Text.unquote, h]

/-- A text without double quotes stays as it is unless it stands between single quotes. -/
theorem unquote_eq_self_iff {s : Text} (h : Ascii.doubleQuote ∉ s) :
    Text.unquote s = s ↔ ¬∃ inner, s = Ascii.singleQuote :: (inner ++ [Ascii.singleQuote]) := by
  constructor
  · rintro heq ⟨inner, rfl⟩
    rw [unquote_quoted (.inl rfl)] at heq
    have hlength := congrArg List.length heq
    simp only [List.length_cons, List.length_append] at hlength
    omega
  · intro hnot
    cases s with
    | nil => rfl
    | cons c rest =>
      refine if_neg fun hquotes => hnot ?_
      simp only [Bool.and_eq_true, Bool.or_eq_true, decide_eq_true_eq] at hquotes
      obtain ⟨rfl | rfl, hlast⟩ := hquotes
      · exact ⟨rest.dropLast, by rw [List.dropLast_append_getLast? _ hlast]⟩
      · exact absurd (List.mem_cons_self ..) h

/-! ## A line with a quoted value -/

/-- Whether a line gives a key a text between double quotes. -/
def IsQuoted (key s line : Text) : Prop :=
  ∃ indent before after blank comment : Text,
    line = indent ++ (key ++ before ++ Ascii.colon :: after ++ (quoted s ++ (blank ++ comment))) ∧
    (∀ c ∈ indent ++ before ++ after ++ blank, Ascii.isSpace c = true) ∧ ∀ c ∈ comment.head?, c = Ascii.hash

/-- What the names of entries are written with. -/
def IsKey (key : Text) : Prop := key ≠ [] ∧ ∀ c ∈ key, Ascii.isSpace c = false ∧ IsPlain c ∧ c ≠ Ascii.colon

theorem stripComment_isQuoted {before s blank comment : Text} (hbefore : ∀ c ∈ before, IsPlain c)
    (hs : Ascii.doubleQuote ∉ s) (hblank : ∀ c ∈ blank, Ascii.isSpace c = true)
    (hcomment : ∀ c ∈ comment.head?, c = Ascii.hash) :
    stripComment false false (before ++ (quoted s ++ (blank ++ comment))) = before ++ (quoted s ++ blank) := by
  rw [stripComment_plain hbefore, stripComment_quoted hs,
    stripComment_plain fun c hc => isPlain_of_isSpace (hblank c hc), stripComment_comment hcomment,
    List.append_nil]

/-- The content of a line that gives a key a quoted text is what it has between the indentation and the comment. -/
theorem content_of_isQuoted {key s line : Text} (hkey : IsKey key) (hs : Ascii.doubleQuote ∉ s)
    (h : IsQuoted key s line) : ∃ before after, (∀ c ∈ before ++ after, Ascii.isSpace c = true) ∧
      content line = key ++ before ++ Ascii.colon :: after ++ quoted s := by
  obtain ⟨indent, before, after, blank, comment, rfl, hblank, hcomment⟩ := h
  simp only [List.forall_mem_append] at hblank
  obtain ⟨⟨⟨hindent, hbefore⟩, hafter⟩, htrailing⟩ := hblank
  have hplain : ∀ c ∈ indent ++ (key ++ before ++ Ascii.colon :: after), IsPlain c := by
    simp only [List.forall_mem_append, List.forall_mem_cons]
    exact ⟨fun c hc => isPlain_of_isSpace (hindent c hc),
      ⟨fun c hc => (hkey.2 c hc).2.1, fun c hc => isPlain_of_isSpace (hbefore c hc)⟩,
      by decide, fun c hc => isPlain_of_isSpace (hafter c hc)⟩
  refine ⟨before, after, List.forall_mem_append.2 ⟨hbefore, hafter⟩, ?_⟩
  rw [content, ← List.append_assoc indent, stripComment_isQuoted hplain hs htrailing hcomment]
  refine Text.trim_between ?_ hindent htrailing (by simp) (fun c hc => ?_) (fun c hc => ?_)
  · simp [quoted]
  · rw [List.append_assoc, List.append_assoc, List.head?_append_of_ne_nil _ hkey.1] at hc
    exact (hkey.2 c (List.mem_of_mem_head? hc)).1
  · rw [getLast?_append_quoted] at hc
    obtain rfl := Option.some.inj hc
    decide

theorem assigns_of_isQuoted {key s line : Text} (hkey : IsKey key) (hs : Ascii.doubleQuote ∉ s)
    (h : IsQuoted key s line) : Assigns (content line) key (quoted s) := by
  obtain ⟨before, after, hblank, hcontent⟩ := content_of_isQuoted hkey hs h
  obtain ⟨hbefore, hafter⟩ := List.forall_mem_append.1 hblank
  refine ⟨key ++ before, after ++ quoted s, ?_, ?_, ?_, ?_⟩
  · rw [hcontent, List.append_assoc, List.cons_append]
  · rw [List.mem_append, not_or]
    refine ⟨fun hmem => (hkey.2 _ hmem).2.2 rfl, fun hmem => ?_⟩
    exact absurd (hbefore _ hmem) (by decide)
  · exact Text.trim_between rfl (List.forall_mem_nil _) hbefore hkey.1
      (fun c hc => (hkey.2 c (List.mem_of_mem_head? hc)).1) (fun c hc => (hkey.2 c (List.mem_of_mem_getLast? hc)).1)
  · refine Text.trim_between ?_ hafter (List.forall_mem_nil _) (List.cons_ne_nil _ _) (fun c hc => ?_)
      (fun c hc => ?_)
    · rw [List.append_nil]
    · obtain rfl := Option.some.inj hc
      decide
    · rw [← List.nil_append (quoted s), getLast?_append_quoted] at hc
      obtain rfl := Option.some.inj hc
      decide

theorem not_opens_of_isQuoted {key s line name : Text} (hkey : IsKey key) (hs : Ascii.doubleQuote ∉ s)
    (h : IsQuoted key s line) : ¬Opens (content line) name := by
  obtain ⟨before, after, -, hcontent⟩ := content_of_isQuoted hkey hs h
  rintro ⟨front, hopens, -⟩
  have hlast := getLast?_append_quoted (key ++ before ++ Ascii.colon :: after) s
  rw [← hcontent, hopens, List.getLast?_concat] at hlast
  exact absurd (Option.some.inj hlast) (by decide)

/-! ## A file with one setting -/

/-- Whether a line sets nothing: it is blank or opens a section, or a part of one. -/
def IsSilent (line : Text) : Prop := content line = [] ∨ IsOpening line

theorem Says.eq_blank {place : Place} {line : Text} {d : Directive} (h : Says place line d)
    (hblank : content line = []) : d = .blank := by
  cases h with
  | blank _ => rfl
  | heading _ hopens _ | lotSteps _ hopens _ => exact absurd hblank hopens.ne_nil
  | lotStep _ _ hassigns _ _ | entry _ _ _ hassigns _ _ _ _ => exact absurd hblank hassigns.ne_nil

theorem Says.apply_of_isSilent {place : Place} {line : Text} {d : Directive} (h : Says place line d)
    (hsilent : IsSilent line) (s : Settings) : d.apply s = s := by
  obtain hblank | hopening := hsilent
  · rw [h.eq_blank hblank]
    rfl
  · cases h with
    | blank _ | heading _ _ _ | lotSteps _ _ _ => rfl
    | lotStep _ hamong _ _ _ =>
      have hindented := hamong.2
      obtain hmargin | ⟨hpart, -⟩ := hopening <;> omega
    | entry _ hnot _ _ _ _ _ _ => exact absurd hopening hnot

theorem SaysAll.apply_of_isSilent {place : Place} {lines : List Text} {ds : List Directive}
    (h : SaysAll place lines ds) (hsilent : ∀ line ∈ lines, IsSilent line) (s : Settings) :
    ds.foldl Directive.apply s = s := by
  induction h generalizing s with
  | nil => rfl
  | cons hline _ ih =>
    obtain ⟨hfirst, hrest⟩ := List.forall_mem_cons.1 hsilent
    rw [List.foldl_cons, hline.apply_of_isSilent hfirst, ih hrest]

theorem SaysAll.move_of_blank {place : Place} {lines : List Text} {ds : List Directive}
    (h : SaysAll place lines ds) (hblank : ∀ line ∈ lines, content line = []) :
    ds.foldl Directive.move place = place := by
  induction h with
  | nil => rfl
  | cons hline _ ih =>
    obtain ⟨hfirst, hrest⟩ := List.forall_mem_cons.1 hblank
    obtain rfl := hline.eq_blank hfirst
    exact ih hrest

theorem Says.eq_heading {place : Place} {line name : Text} {d : Directive} (h : Says place line d)
    (hmargin : indentation line = 0) (hopens : Opens (content line) name) : d = .heading name := by
  cases h with
  | blank hcontent => exact absurd hcontent hopens.ne_nil
  | heading _ hopens' _ => rw [hopens'.unique hopens]
  | lotSteps hindented _ _ => omega
  | lotStep _ hamong _ _ _ =>
    have hindented := hamong.2
    omega
  | entry _ hnot _ _ _ _ _ _ => exact absurd (.inl hmargin) hnot

/-- Whether lines set nothing but a key of a section, to a text between double quotes. -/
inductive OnlySets (name key s : Text) : List Text → Prop where
  | intro {before between after : List Text} {heading line : Text} (hbefore : ∀ line ∈ before, IsSilent line)
      (hmargin : indentation heading = 0) (hopens : Opens (content heading) name)
      (hbetween : ∀ line ∈ between, content line = []) (hquoted : IsQuoted key s line)
      (hafter : ∀ line ∈ after, IsSilent line) :
      OnlySets name key s (before ++ heading :: (between ++ line :: after))

theorem isKey_of_path {e : Entry} (known : e ∈ entries) {name key : Text} (hpath : e.path = name ++ "." ++ key) :
    IsKey key := by
  have hbytes : ∀ e ∈ entries, ∀ c ∈ e.path, Ascii.isSpace c = false ∧ IsPlain c ∧ c ≠ Ascii.colon := by
    decide +kernel
  have hends : ∀ e ∈ entries, e.path.getLast? ≠ some Ascii.dot := by decide +kernel
  constructor
  · rintro rfl
    refine hends e known ?_
    rw [hpath, List.append_nil]
    exact List.getLast?_concat
  · intro c hc
    exact hbytes e known c (by rw [hpath]; exact List.mem_append_right _ hc)

section

variable {path name key s : Text} {get : Settings → Text} {put : Text → Settings → Settings}
  (known : (⟨path, .text, get, put⟩ : Entry) ∈ entries) (hpath : path = name ++ "." ++ key)
  (hs : Ascii.doubleQuote ∉ s)

include known hpath hs

/-- In its section, a line with a quoted value says that value without two pairs of quotes. -/
theorem Says.eq_entry {line : Text} (hquoted : IsQuoted key s line) {d : Directive}
    (h : Says { heading? := some name } line d) : d = .entry ⟨path, .text, get, put⟩ known (Text.unquote s) := by
  have hkey : IsKey key := isKey_of_path known hpath
  have hassigns := assigns_of_isQuoted hkey hs hquoted
  cases h with
  | blank hcontent => exact absurd hcontent hassigns.ne_nil
  | heading _ hopens _ | lotSteps _ hopens _ => exact absurd hopens (not_opens_of_isQuoted hkey hs hquoted)
  | lotStep _ hamong _ _ _ => exact absurd hamong.1 (by simp)
  | entry hsection _ _ hassigns' _ known' hpath' hread =>
    obtain rfl := Option.some.inj hsection
    obtain ⟨rfl, rfl⟩ := hassigns'.unique hassigns
    obtain rfl := List.inj_on_of_nodup_map nodup_paths known' known (hpath'.trans hpath.symm)
    -- What is left for the reader of texts has lost its double quotes, and is unquoted once more.
    have hscalar : scalar (quoted s) = s := by
      have hne : (quoted s).head? ≠ some Ascii.openBracket := by
        rw [quoted, List.head?_cons]
        decide
      rw [scalar, if_neg hne, quoted, unquote_quoted (.inr rfl)]
    rw [hscalar] at hread
    rw [Option.some.inj hread]

/-- A file that sets nothing but a text between double quotes gives the entry that text, unless it is a text
between single quotes: these are taken off as well. -/
theorem get_of_onlySets {t : Text} (honly : OnlySets name key s (Text.splitOn Ascii.newline t))
    {initial settings : Settings} (hload : ofText initial t = .ok settings) :
    settings = put (Text.unquote s) initial ∧
      (get settings = s ↔ ¬∃ inner, s = Ascii.singleQuote :: (inner ++ [Ascii.singleQuote])) := by
  obtain ⟨-, ds, hsays, hfold⟩ := ofText_eq_ok_iff.1 hload
  have hsettings : settings = put (Text.unquote s) initial := by
    generalize Text.splitOn Ascii.newline t = lines at honly hsays
    obtain ⟨hbefore, hmargin, hopens, hbetween, hquoted, hafter⟩ := honly
    -- The heading and the line cut the file into three parts, none of which sets anything.
    obtain ⟨first, rest, rfl, hfirst, hrest⟩ := hsays.exists_append
    cases hrest with
    | cons hheading hsection =>
      obtain rfl := hheading.eq_heading hmargin hopens
      obtain ⟨second, rest, rfl, hsecond, hrest⟩ := hsection.exists_append
      rw [hsecond.move_of_blank hbetween] at hrest
      cases hrest with
      | cons hline hlast =>
        obtain rfl := Says.eq_entry known hpath hs hquoted hline
        rw [hfold, List.foldl_append, hfirst.apply_of_isSilent hbefore, List.foldl_cons, List.foldl_append,
          hsecond.apply_of_isSilent fun line h => .inl (hbetween line h), List.foldl_cons,
          hlast.apply_of_isSilent hafter]
        rfl
  refine ⟨hsettings, ?_⟩
  have hget : get settings = Text.unquote s := by
    rw [hsettings]
    exact get_put known _ initial
  rw [hget, unquote_eq_self_iff hs]

end

/-- A name with signs that mean something elsewhere in a file, and a name between single quotes. -/
theorem get_of_onlySets_signs :
    let lineOf (name : Text) : Text := "  name: " ++ quoted name ++ "  # the name"
    let fileOf (name : Text) : Text := "service:\n" ++ lineOf name ++ "\n"
    (∃ settings, ofText {} (fileOf "'#1': [it's] ") = .ok settings ∧ settings.service.name = "'#1': [it's] ") ∧
      ∃ settings, ofText {} (fileOf "'a: b'") = .ok settings ∧ settings.service.name = "a: b" ∧
        settings.service.name ≠ "'a: b'" := by
  intro lineOf fileOf
  have hquoted : ∀ name, IsQuoted "name" name (lineOf name) := by
    intro name
    have hfront : ("  name: " : Text) = ("  " : Text) ++ (("name" : Text) ++ [] ++ Ascii.colon :: (" " : Text)) := by
      decide +kernel
    have hback : ("  # the name" : Text) = ("  " : Text) ++ ("# the name" : Text) := by decide +kernel
    refine ⟨"  ", [], " ", "  ", "# the name", ?_, by decide +kernel, by decide +kernel⟩
    rw [← hback, ← List.append_assoc, ← hfront, ← List.append_assoc]
  have hopens : Opens (content "service:") "service" := ⟨"service", by decide +kernel, by decide +kernel⟩
  have honly : ∀ name, Text.splitOn Ascii.newline (fileOf name) = [("service:" : Text), lineOf name, []] →
      OnlySets "service" "name" name (Text.splitOn Ascii.newline (fileOf name)) := by
    intro name hlines
    rw [hlines]
    exact @OnlySets.intro _ _ _ [] [] [[]] "service:" _ (List.forall_mem_nil _) (by decide +kernel) hopens
      (List.forall_mem_nil _) (hquoted name) (List.forall_mem_singleton.2 (.inl rfl))
  have known : (⟨"service.name", .text, (·.service.name), fun v s => { s with service.name := v }⟩ : Entry) ∈
      entries := by
    simp [entries, serviceEntries]
  have hsigns : ofText {} (fileOf "'#1': [it's] ") = .ok { service.name := "'#1': [it's] " } := by decide +kernel
  have hquotes : ofText {} (fileOf "'a: b'") = .ok { service.name := "a: b" } := by decide +kernel
  refine ⟨⟨_, hsigns, ?_⟩, _, hquotes, rfl, fun heq => ?_⟩
  · refine (get_of_onlySets known rfl (by decide +kernel) (honly _ (by decide +kernel)) hsigns).2.2 ?_
    rintro ⟨inner, hinner⟩
    have hlast := congrArg List.getLast? hinner
    rw [← List.cons_append, List.getLast?_concat] at hlast
    exact absurd hlast (by decide +kernel)
  · refine (get_of_onlySets known rfl (by decide +kernel) (honly _ (by decide +kernel)) hquotes).2.1 heq ?_
    exact ⟨"a: b", by decide +kernel⟩

end Settings

end TradeReentry
