import Mathlib.Data.List.Chain
import TradeReentry.Proofs.Csv
import TradeReentry.Proofs.Ledger.Audits
import TradeReentry.Proofs.Ledger.Steps

/-!
# The files of a directory over whole runs

Rows are appended through one ledger after another, at any instants of the era, while nobody else
touches the ledger files. `Kept` relates the ledger and the disk to the entries so far: each file holds
the header and the entries whose receipts name it, in order, and the next sequence number is above
those of the file in use. Every step keeps it, so that the files read back as what was written and pass
an audit (`files_of_reached`).
-/

namespace TradeReentry

namespace Ledger

open Files Ascii

/-! ## Sequence numbers of a file that is continued -/

theorem sequenceOf?_cells {schema : Schema} (hs : schema.Standard) (e : Entry) :
    sequenceOf? (e.cells schema) = some e.receipt.sequence := by
  rw [sequenceOf?, e.head?_cells hs, Option.bind_some, Text.takeUInt64?_ofNat]
  rfl

/-! ## Runs -/

/-- The entries that were written to a path, in order. -/
def entriesAt (path : Text) (history : List Entry) : List Entry :=
  history.filter (·.receipt.path = path)

/-- The entry of a row that was appended, if it was written. -/
def entryOf (row : Row) : Except WriteError Receipt → List Entry
  | .ok receipt => [⟨receipt, row⟩]
  | .error _ => []

theorem row_eq_of_mem_entryOf {row : Row} {result : Except WriteError Receipt} {e : Entry}
    (h : e ∈ entryOf row result) : e.row = row := by
  cases result with
  | ok receipt => exact List.mem_singleton.1 h ▸ rfl
  | error cause => simp [entryOf] at h

/-- The entries, the ledger and the disk after a run that began with a disk. -/
inductive Reached (schema : Schema) (directory : Text) (origin : Disk) :
    List Entry → Ledger → Disk → Prop where
  | start (settings : LedgerSettings) (hsettings : settings.outputDirectory = directory) :
    Reached schema directory origin [] { settings, schema } origin
  /-- Another ledger takes over. -/
  | restart {history : List Entry} {ledger : Ledger} {disk : Disk}
      (h : Reached schema directory origin history ledger disk) (settings : LedgerSettings)
      (hsettings : settings.outputDirectory = directory) :
    Reached schema directory origin history { settings, schema } disk
  /-- Others use the disk and leave the directory and its ledger files alone. -/
  | elsewhere {history : List Entry} {ledger : Ledger} {disk : Disk}
      (h : Reached schema directory origin history ledger disk) (disk' : Disk)
      (hdirectory : disk'.isDirectory directory = true)
      (hfiles : ∀ name, FileName.recordType? name = some schema.recordType →
        disk'.file? (Path.join directory name) = disk.file? (Path.join directory name)) :
    Reached schema directory origin history ledger disk'
  | append {history : List Entry} {ledger : Ledger} {disk : Disk}
      (h : Reached schema directory origin history ledger disk) (now : Instant) (hera : now.InEra)
      (row : Row) :
    Reached schema directory origin
      (history ++ entryOf row (ledger.append disk now row).result)
      (ledger.append disk now row).state.1 (ledger.append disk now row).state.2

/-! ## The invariant -/

/-- How the sequence numbers of the entries and the next one stand to each other, as long as no number
has come round. -/
structure Numbered (history : List Entry) (ledger : Ledger) : Prop where
  bound : history.length < 2 ^ 64 → ∀ e ∈ history, e.receipt.sequence.toNat ≤ history.length
  ascending : history.length < 2 ^ 64 → ∀ path,
    ((entriesAt path history).map (·.receipt.sequence)).Pairwise (· < ·)
  next : history.length + 1 < 2 ^ 64 → ledger.nextSequence.toNat ≤ history.length + 1
  above : history.length + 1 < 2 ^ 64 → ∀ e ∈ history, e.receipt.path = ledger.currentFile →
    e.receipt.sequence < ledger.nextSequence

/-- How the ledger and the disk stand to the entries so far. -/
structure Kept (schema : Schema) (directory : Text) (history : List Entry) (ledger : Ledger)
    (disk : Disk) : Prop where
  settings_eq : ledger.settings.outputDirectory = directory
  schema_eq : ledger.schema = schema
  isDirectory : disk.isDirectory directory = true
  current : ledger.currentFile = [] ∨ ∃ name,
    FileName.recordType? name = some schema.recordType ∧ ledger.currentFile = Path.join directory name
  genuine : ∀ e ∈ history, e.Genuine schema
  files : ∀ name, FileName.recordType? name = some schema.recordType → ∀ t,
    disk.file? (Path.join directory name) = some t →
      Csv.Lines t (schema.header ::
        (entriesAt (Path.join directory name) history).map (·.cells schema))
  placed : ∀ e ∈ history, ∃ name, FileName.recordType? name = some schema.recordType ∧
    e.receipt.path = Path.join directory name ∧
    (disk.file? (Path.join directory name)).isSome = true
  numbered : Numbered history ledger

variable {schema : Schema} {directory : Text} {history : List Entry} {ledger : Ledger} {disk : Disk}

theorem entriesAt_append (path : Text) (history more : List Entry) :
    entriesAt path (history ++ more) = entriesAt path history ++ entriesAt path more :=
  List.filter_append ..

theorem mem_entriesAt {path : Text} {e : Entry} :
    e ∈ entriesAt path history ↔ e ∈ history ∧ e.receipt.path = path := by
  simp [entriesAt]

theorem pathAt_eq {now : Instant} (hs : schema.Standard) (h : Kept schema directory history ledger disk)
    (hera : now.InEra) : ∃ name, FileName.recordType? name = some schema.recordType ∧
      ledger.pathAt now = Path.join directory name := by
  refine ⟨FileName.ofInstant schema.recordType now,
    FileName.recordType?_ofInstant hs.named hera, ?_⟩
  rw [pathAt, h.settings_eq, h.schema_eq]

/-- A ledger that was just opened has numbers left. -/
theorem Numbered.restart (h : Numbered history ledger) (settings : LedgerSettings)
    (hplaced : ∀ e ∈ history, e.receipt.path ≠ []) :
    Numbered history { settings, schema } where
  bound := h.bound
  ascending := h.ascending
  next _ := by
    show (1 : UInt64).toNat ≤ _
    simp
  above _ e he hpath := absurd hpath (hplaced e he)

theorem toNat_succ {n : UInt64} (h : n.toNat + 1 < 2 ^ 64) : (n + 1).toNat = n.toNat + 1 := by
  rw [UInt64.toNat_add]
  exact Nat.mod_eq_of_lt h

/-- An entry that takes the next number of the file in use. -/
theorem Numbered.append (h : Numbered history ledger) {e : Entry}
    (hsequence : e.receipt.sequence = ledger.nextSequence)
    (hpath : e.receipt.path = ledger.currentFile) {after : Ledger}
    (hfile : after.currentFile = ledger.currentFile)
    (hnext : after.nextSequence = ledger.nextSequence + 1) : Numbered (history ++ [e]) after := by
  have hlength : (history ++ [e]).length = history.length + 1 := by simp
  have hsucc : history.length + 1 + 1 < 2 ^ 64 →
      after.nextSequence.toNat = ledger.nextSequence.toNat + 1 := by
    intro hlt
    have hle := h.next (by omega)
    rw [hnext, toNat_succ (by omega)]
  constructor
  case bound =>
    intro hlt e' he'
    rw [hlength] at hlt ⊢
    rcases List.mem_append.1 he' with he' | he'
    · have := h.bound (by omega) e' he'
      omega
    · rw [List.mem_singleton.1 he', hsequence]
      exact h.next hlt
  case ascending =>
    intro hlt path
    rw [hlength] at hlt
    rw [entriesAt_append, List.map_append, List.pairwise_append]
    refine ⟨h.ascending (by omega) path, ?_, ?_⟩
    · by_cases hplace : e.receipt.path = path <;> simp [entriesAt, hplace]
    · intro sequence hmem sequence' hmem'
      obtain ⟨e', he', rfl⟩ := List.mem_map.1 hmem
      obtain ⟨e'', he'', rfl⟩ := List.mem_map.1 hmem'
      obtain ⟨he', hplace⟩ := mem_entriesAt.1 he'
      obtain ⟨he'', hplace'⟩ := mem_entriesAt.1 he''
      rw [List.mem_singleton] at he''
      subst he''
      rw [hsequence]
      exact h.above hlt e' he' (by rw [hplace, ← hplace', hpath])
  case next =>
    intro hlt
    rw [hlength] at hlt ⊢
    have := h.next (by omega)
    have := hsucc hlt
    omega
  case above =>
    intro hlt e' he' hplace
    rw [hlength] at hlt
    rw [UInt64.lt_iff_toNat_lt, hsucc hlt]
    rcases List.mem_append.1 he' with he' | he'
    · have := UInt64.lt_iff_toNat_lt.1 (h.above (by omega) e' he' (hplace.trans hfile))
      omega
    · rw [List.mem_singleton.1 he', hsequence]
      omega

/-- The numbers go on above those of a file that is continued. -/
theorem Numbered.adopt {schema : Schema} (hs : schema.Standard) (h : Numbered history ledger)
    {path : Text} {highest : UInt64}
    (hhighest : highestSequence path 1 0 ((entriesAt path history).map (·.cells schema)) =
      .ok highest)
    {after : Ledger} (hfile : after.currentFile = path)
    (hnext : after.nextSequence =
      if ledger.nextSequence ≤ highest then highest + 1 else ledger.nextSequence) :
    Numbered history after := by
  obtain ⟨-, hall, hsome⟩ := highestSequence_spec hhighest
  have hbound : history.length + 1 < 2 ^ 64 → highest.toNat ≤ history.length := by
    intro hlength
    rcases hsome with rfl | ⟨record, hrecord, hsequence⟩
    · simp
    · obtain ⟨e, he, rfl⟩ := List.mem_map.1 hrecord
      rw [sequenceOf?_cells hs, Option.some.injEq] at hsequence
      exact hsequence ▸ h.bound (by omega) e (mem_entriesAt.1 he).1
  constructor
  case bound => exact h.bound
  case ascending => exact h.ascending
  case next =>
    intro hlength
    have hle := hbound hlength
    rw [hnext]
    split
    · rw [toNat_succ (by omega)]
      omega
    · exact h.next hlength
  case above =>
    intro hlength e he hplace
    have hle := hbound hlength
    have hmem := List.mem_map_of_mem (f := (·.cells schema))
      (mem_entriesAt.2 ⟨he, hplace.trans hfile⟩)
    obtain ⟨sequence, hfound, hsequence⟩ := hall _ hmem
    obtain rfl := Option.some.inj (hfound.symm.trans (sequenceOf?_cells hs e))
    rw [hnext]
    simp only [UInt64.lt_iff_toNat_lt, UInt64.le_iff_toNat_le] at hsequence ⊢
    split
    · rw [toNat_succ (by omega)]
      omega
    · omega

namespace Kept

theorem path_ne_nil (hs : schema.Standard) (h : Kept schema directory history ledger disk) {e : Entry}
    (he : e ∈ history) : e.receipt.path ≠ [] := by
  obtain ⟨name, hname, hpath, -⟩ := h.placed e he
  rw [hpath]
  exact Path.join_ne_nil (FileName.isName_of_recordType? hs.plain hname).ne_nil directory

theorem restart (hs : schema.Standard) (h : Kept schema directory history ledger disk)
    (settings : LedgerSettings) (hsettings : settings.outputDirectory = directory) :
    Kept schema directory history { settings, schema } disk where
  settings_eq := hsettings
  schema_eq := rfl
  isDirectory := h.isDirectory
  current := .inl rfl
  genuine := h.genuine
  files := h.files
  placed := h.placed
  numbered := h.numbered.restart settings fun _ he => h.path_ne_nil hs he

theorem elsewhere (h : Kept schema directory history ledger disk) {disk' : Disk}
    (hdirectory : disk'.isDirectory directory = true)
    (hfiles : ∀ name, FileName.recordType? name = some schema.recordType →
      disk'.file? (Path.join directory name) = disk.file? (Path.join directory name)) :
    Kept schema directory history ledger disk' where
  settings_eq := h.settings_eq
  schema_eq := h.schema_eq
  isDirectory := hdirectory
  current := h.current
  genuine := h.genuine
  files name hname t ht := h.files name hname t (hfiles name hname ▸ ht)
  placed e he := by
    obtain ⟨name, hname, hpath, hfile⟩ := h.placed e he
    exact ⟨name, hname, hpath, by rw [hfiles name hname, hfile]⟩
  numbered := h.numbered

theorem countFailure (h : Kept schema directory history ledger disk) :
    Kept schema directory history ledger.countFailure disk where
  settings_eq := h.settings_eq
  schema_eq := h.schema_eq
  isDirectory := h.isDirectory
  current := h.current
  genuine := h.genuine
  files := h.files
  placed := h.placed
  numbered := ⟨h.numbered.bound, h.numbered.ascending, h.numbered.next, h.numbered.above⟩

/-- A file that is not there has no entries. -/
theorem entriesAt_eq_nil (h : Kept schema directory history ledger disk) {path : Text}
    (hfile : disk.file? path = none) : entriesAt path history = [] := by
  rw [entriesAt, List.filter_eq_nil_iff]
  intro e he hpath
  obtain ⟨name, -, hplace, hsome⟩ := h.placed e he
  rw [decide_eq_true_eq] at hpath
  rw [← hplace, hpath, hfile] at hsome
  simp at hsome

/-- The ledger with the file for a row: its numbers go on above those of the file. -/
theorem choice (hs : schema.Standard) (h : Kept schema directory history ledger disk) {now : Instant}
    (hera : now.InEra) {chosen : Ledger} (hchoice : Choice ledger disk now chosen) :
    Kept schema directory history chosen disk ∧ ∃ name,
      FileName.recordType? name = some schema.recordType ∧
        chosen.currentFile = Path.join directory name := by
  obtain ⟨name, hname, hpath⟩ := pathAt_eq hs h hera
  cases hchoice with
  | keep hfile _ hchosen =>
    subst hchosen
    exact ⟨h, h.current.resolve_left hfile⟩
  | create hfile hchosen =>
    have hempty := h.entriesAt_eq_nil (Disk.file?_eq_none_of_not_pathExists hfile)
    subst hchosen
    refine ⟨⟨h.settings_eq, h.schema_eq, h.isDirectory, .inr ⟨name, hname, hpath⟩, h.genuine,
      h.files, h.placed, h.numbered.bound, h.numbered.ascending, h.numbered.next, ?_⟩,
      name, hname, hpath⟩
    intro _ e he hplace
    have hmem : e ∈ entriesAt (ledger.pathAt now) history := mem_entriesAt.2 ⟨he, hplace⟩
    rw [hempty] at hmem
    simp at hmem
  | adopt t records highest hfile hdecode hhighest hchosen =>
    have hlines := (h.files name hname t (hpath ▸ hfile)).decode_eq
    rw [hlines, Except.ok.injEq, ← hpath] at hdecode
    rw [← (List.cons.inj hdecode).2] at hhighest
    subst hchosen
    exact ⟨⟨h.settings_eq, h.schema_eq, h.isDirectory, .inr ⟨name, hname, hpath⟩, h.genuine,
      h.files, h.placed, h.numbered.adopt hs hhighest rfl rfl⟩, name, hname, hpath⟩

/-- The file of a written row holds one more line. -/
theorem lines_continued (hs : schema.Standard) (h : Kept schema directory history ledger disk)
    {name : Text} (hname : FileName.recordType? name = some schema.recordType) {e : Entry}
    (hpath : e.receipt.path = Path.join directory name) :
    Csv.Lines (continued schema (lineOf (e.cells schema)) (disk.file? (Path.join directory name)))
      (schema.header ::
        (entriesAt (Path.join directory name) (history ++ [e])).map (·.cells schema)) := by
  have hnew : entriesAt (Path.join directory name) [e] = [e] := by simp [entriesAt, hpath]
  rw [entriesAt_append, hnew, List.map_append, List.map_singleton, ← List.cons_append]
  refine Ledger.lines_continued hs.many (e.length_cells schema) ⟨?_, ?_⟩
  · intro hfile
    rw [h.entriesAt_eq_nil hfile]
    rfl
  · intro t hfile
    exact h.files name hname t hfile

/-- A row that is written. -/
theorem written (hs : schema.Standard) (h : Kept schema directory history ledger disk) {name : Text}
    (hname : FileName.recordType? name = some schema.recordType)
    (hcurrent : ledger.currentFile = Path.join directory name) {e : Entry}
    (hgenuine : e.Genuine schema) (hsequence : e.receipt.sequence = ledger.nextSequence)
    (hpath : e.receipt.path = ledger.currentFile) {disk' : Disk} {size : Nat} {log : List Log.Entry}
    (hwrite : ledger.writeLine disk (lineOf (e.cells schema)) = .ok (disk', size, log)) :
    Kept schema directory (history ++ [e])
      { ledger with
        nextSequence := ledger.nextSequence + 1, currentSize := size, lastWriteFailed := false }
      disk' := by
  have hplain := FileName.isName_of_recordType? hs.plain hname
  have hadded := lineAdded_of_writeLine (not_zero_of_writeLine h.isDirectory hcurrent hwrite) hplain
    hcurrent hwrite
  rw [h.schema_eq] at hadded
  have hother : ∀ other, FileName.recordType? other = some schema.recordType → other ≠ name →
      disk'.file? (Path.join directory other) = disk.file? (Path.join directory other) :=
    fun other hother hne => hadded.others other (FileName.isName_of_recordType? hs.plain hother) hne
      (FileName.ne_append_tmp hother name)
  constructor
  case settings_eq => exact h.settings_eq
  case schema_eq => exact h.schema_eq
  case isDirectory => rw [hadded.directories, h.isDirectory]
  case current => exact .inr ⟨name, hname, hcurrent⟩
  case genuine =>
    intro e' he'
    rcases List.mem_append.1 he' with he' | he'
    · exact h.genuine e' he'
    · exact List.mem_singleton.1 he' ▸ hgenuine
  case files =>
    intro other hrecord t ht
    by_cases hne : other = name
    · subst hne
      rw [hadded.file, Option.some.injEq] at ht
      exact ht ▸ h.lines_continued hs hname (hpath.trans hcurrent)
    · have hapart : Path.join directory name ≠ Path.join directory other := by
        intro heq
        have hslash := (FileName.isName_of_recordType? hs.plain hrecord).not_slash
        rw [← Path.fileName_join hslash directory, ← heq,
          Path.fileName_join hplain.not_slash] at hne
        exact hne rfl
      have hnone : entriesAt (Path.join directory other) [e] = [] := by
        simp [entriesAt, hpath, hcurrent, hapart]
      rw [entriesAt_append, hnone, List.append_nil]
      exact h.files other hrecord t (hother other hrecord hne ▸ ht)
  case placed =>
    intro e' he'
    rcases List.mem_append.1 he' with he' | he'
    · obtain ⟨other, hrecord, hplace, hsome⟩ := h.placed e' he'
      refine ⟨other, hrecord, hplace, ?_⟩
      by_cases hne : other = name
      · rw [hne, hadded.file]
        rfl
      · rw [hother other hrecord hne, hsome]
    · obtain rfl := List.mem_singleton.1 he'
      exact ⟨name, hname, hpath.trans hcurrent, by rw [hadded.file]; rfl⟩
  case numbered => exact h.numbered.append hsequence hpath rfl rfl

theorem append (hs : schema.Standard) (h : Kept schema directory history ledger disk) {now : Instant}
    (hera : now.InEra) (row : Row) :
    Kept schema directory (history ++ entryOf row (ledger.append disk now row).result)
      (ledger.append disk now row).state.1 (ledger.append disk now row).state.2 := by
  cases ledger.append_outcome disk now row with
  | refused e hresult hstate =>
    rw [hresult, hstate, entryOf, List.append_nil]
    exact h
  | unplaced e hresult hstate =>
    rw [hresult, hstate, entryOf, List.append_nil]
    exact h.countFailure
  | unwritten e chosen hchoice hwrite hresult hstate =>
    rw [hresult, hstate, entryOf, List.append_nil]
    exact (h.choice hs hera hchoice).1.countFailure
  | written chosen disk' size log hnames hchoice hwrite hresult hstate =>
    obtain ⟨hchosen, name, hname, hcurrent⟩ := h.choice hs hera hchoice
    rw [hresult, hstate, entryOf]
    rw [h.schema_eq] at hnames hwrite
    exact hchosen.written hs hname hcurrent ⟨hnames, now, hera, rfl, rfl⟩ rfl rfl hwrite

end Kept

/-- Every step of a run keeps the invariant. -/
theorem kept_of_reached (hs : schema.Standard) {origin : Disk} {names : List Text}
    (hnames : origin.fileNames directory = .ok names)
    (hempty : ∀ name ∈ names, FileName.recordType? name ≠ some schema.recordType)
    (h : Reached schema directory origin history ledger disk) :
    Kept schema directory history ledger disk := by
  induction h with
  | start settings hsettings =>
    refine ⟨hsettings, rfl, Disk.isDirectory_of_fileNames hnames, .inl rfl, by simp, ?_, by simp,
      by simp, ?_, ?_, by simp⟩
    · intro name hname t ht
      rw [Disk.file?_join_of_not_mem hnames (FileName.isName_of_recordType? hs.plain hname)
        fun hmem => hempty name hmem hname] at ht
      simp at ht
    · simp [entriesAt]
    · intro _
      show (1 : UInt64).toNat ≤ _
      simp
  | restart _ settings hsettings ih => exact ih.restart hs settings hsettings
  | elsewhere _ disk' hdirectory hfiles ih => exact ih.elsewhere hdirectory hfiles
  | append _ now hera row ih => exact ih.append hs hera row

namespace Kept

/-- A file passes an audit if its business cells are of their kinds and no number came round. -/
theorem passed_iff (hs : schema.Standard) (h : Kept schema directory history ledger disk) {name t : Text}
    (hname : FileName.recordType? name = some schema.recordType)
    (hfile : disk.file? (Path.join directory name) = some t) :
    (Audit.ofFile disk (Path.join directory name)).passed = true ↔
      (∀ e ∈ entriesAt (Path.join directory name) history, schema.Fits e.row) ∧
        ((entriesAt (Path.join directory name) history).map (·.receipt.sequence)).IsChain (· < ·) := by
  refine Audit.ofFile_passed_iff hs ?_ hfile
    (fun e he => h.genuine e (mem_entriesAt.1 he).1) (h.files name hname t hfile).decode_eq
  rw [Path.fileName_join (FileName.isName_of_recordType? hs.plain hname).not_slash, hname]

/-- Appending leaves what a ledger file held as a prefix. -/
theorem prefix_of_append (hs : schema.Standard) (h : Kept schema directory history ledger disk)
    {now : Instant} (hera : now.InEra) (row : Row) {name t : Text}
    (hname : FileName.recordType? name = some schema.recordType)
    (hfile : disk.file? (Path.join directory name) = some t) :
    ∃ t', (ledger.append disk now row).state.2.file? (Path.join directory name) = some t' ∧
      t <+: t' := by
  cases ledger.append_outcome disk now row with
  | refused e hresult hstate => exact ⟨t, by rw [hstate, hfile], List.prefix_rfl⟩
  | unplaced e hresult hstate => exact ⟨t, by rw [hstate, hfile], List.prefix_rfl⟩
  | unwritten e chosen hchoice hwrite hresult hstate =>
    exact ⟨t, by rw [hstate, hfile], List.prefix_rfl⟩
  | written chosen disk' size log hnames hchoice hwrite hresult hstate =>
    obtain ⟨hchosen, current, hrecord, hcurrent⟩ := h.choice hs hera hchoice
    have hplain := FileName.isName_of_recordType? hs.plain hrecord
    have hadded := lineAdded_of_writeLine (not_zero_of_writeLine h.isDirectory hcurrent hwrite)
      hplain hcurrent hwrite
    rw [hstate]
    by_cases hne : name = current
    · subst hne
      exact ⟨_, hadded.file, by rw [hfile]; exact prefix_continued ..⟩
    · refine ⟨t, ?_, List.prefix_rfl⟩
      rw [hadded.others name (FileName.isName_of_recordType? hs.plain hname) hne
        (FileName.ne_append_tmp hname current), hfile]

end Kept

/-- At every point of a run that began with a directory without ledger files, whichever settings the
ledgers have and wherever the clock jumps in the era: a ledger file holds the header and the entries
whose receipts name it, in order and with the cells that the receipts tell; it passes an audit as long
as there are numbers left; every entry is in the file that its receipt names; and another row leaves
the bytes of every file as a prefix. -/
theorem files_of_reached (hschema : schema ∈ Schema.builtin) {origin : Disk} {names : List Text}
    (hnames : origin.fileNames directory = .ok names)
    (hempty : ∀ name ∈ names, FileName.recordType? name ≠ some schema.recordType)
    (h : Reached schema directory origin history ledger disk)
    (hfits : ∀ e ∈ history, schema.Fits e.row) :
    (∀ name, FileName.recordType? name = some schema.recordType → ∀ t,
      disk.file? (Path.join directory name) = some t →
        Csv.decode t = .ok (schema.header ::
          (entriesAt (Path.join directory name) history).map (·.cells schema)) ∧
        (history.length < 2 ^ 64 →
          (Audit.ofFile disk (Path.join directory name)).passed = true) ∧
        ∀ now : Instant, now.InEra → ∀ row, ∃ t',
          (ledger.append disk now row).state.2.file? (Path.join directory name) = some t' ∧
            t <+: t') ∧
    ∀ e ∈ history, ∃ name, FileName.recordType? name = some schema.recordType ∧
      e.receipt.path = Path.join directory name ∧
      (disk.file? (Path.join directory name)).isSome = true := by
  have hs := Schema.standard_of_mem_builtin hschema
  have hkept := kept_of_reached hs hnames hempty h
  refine ⟨fun name hname t hfile => ⟨(hkept.files name hname t hfile).decode_eq, ?_,
    fun now hera row => hkept.prefix_of_append hs hera row hname hfile⟩, hkept.placed⟩
  intro hlength
  rw [hkept.passed_iff hs hname hfile]
  exact ⟨fun e he => hfits e (mem_entriesAt.1 he).1, (hkept.numbered.ascending hlength _).isChain⟩

/-- Two ledgers, the second one opened within the second of the first one's file, which it continues:
the file holds both rows and passes. -/
theorem files_of_reached_secondLedger :
    let origin : Disk := { working := .directory "d" .empty .empty }
    let row : Row := .ofList [
      ("trade_id", "T1"), ("hybrid_id", "W1_QUICK"), ("symbol", "EURUSD"), ("outcome_class", "WIN"),
      ("duration_class", "QUICK"), ("reentry_action", "R1"), ("parameter_set_id", "P1"),
      ("resolved_tier", "EXACT"), ("chain_position", "R1"), ("lot_size", "0.1"),
      ("stop_loss", "20"), ("take_profit", "40")]
    let ledger : Ledger := { settings := { outputDirectory := "d" }, schema := .reentryDecisions }
    let now : Instant := 1768471200000
    let first := ledger.append origin now row
    let second := ledger.append first.state.2 now row
    let path := Path.join "d" "reentry_decisions_20260115_100000.csv"
    (entriesAt path (entryOf row first.result ++ entryOf row second.result)).length = 2 ∧
      (Audit.ofFile second.state.2 path).passed = true := by
  intro origin row ledger now first second path
  have hera : now.InEra := by decide +kernel
  have hstart : Reached .reentryDecisions "d" origin [] ledger origin := .start _ rfl
  have hfirst := hstart.append now hera row
  rw [List.nil_append] at hfirst
  have hrestart : Reached .reentryDecisions "d" origin (entryOf row first.result) ledger
      first.state.2 := hfirst.restart { outputDirectory := "d" } rfl
  have hreached := hrestart.append now hera row
  have hrow : Schema.reentryDecisions.Fits row := by decide +kernel
  have hfits : ∀ e ∈ entryOf row first.result ++ entryOf row second.result,
      Schema.reentryDecisions.Fits e.row := by
    intro e he
    rcases List.mem_append.1 he with he | he <;> exact row_eq_of_mem_entryOf he ▸ hrow
  have hnames : origin.fileNames "d" = .ok [] := rfl
  have hwritten : (second.state.2.file? path).isSome = true ∧
      (entriesAt path (entryOf row first.result ++ entryOf row second.result)).length = 2 := by
    decide +kernel
  obtain ⟨t, ht⟩ := Option.isSome_iff_exists.1 hwritten.1
  have hfiles := files_of_reached (by decide) hnames (by simp) hreached hfits
  have hfile := hfiles.1 "reentry_decisions_20260115_100000.csv" (by decide +kernel) t ht
  exact ⟨hwritten.2, hfile.2.1 (by decide +kernel)⟩

end Ledger

end TradeReentry
