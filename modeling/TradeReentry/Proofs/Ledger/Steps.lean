import TradeReentry.Ledger.Writer
import TradeReentry.Proofs.Csv
import TradeReentry.Proofs.Files.Writes
import TradeReentry.Proofs.Ledger.Names
import TradeReentry.Proofs.Ledger.Rows

/-!
# What appending a row does

A row that is refused leaves the disk alone (`append_error`). One that is written adds a line to the
file in use (`append_ok`), and of the other files of the directory none changes but the unfinished one
that a new file begins as (`LineAdded`). Where its file is a directory, the program ends: no row is told
to fail because its file cannot be read (`append_unreadable_iff`).
-/

namespace TradeReentry.Ledger

open Files

/-! ## Adding a line -/

/-- The text of a file after one more line. A file that is not there yet begins with the header, and a
last line without an end gets it first. -/
def continued (schema : Schema) (line : Text) : Option Text → Text
  | none => lineOf schema.header ++ line
  | some t => t ++ if t.getLast?.any (· ≠ Ascii.newline) then Ascii.newline :: line else line

/-- The file at a path goes on at its end. -/
theorem prefix_continued (schema : Schema) (line t : Text) :
    t <+: continued schema line (some t) := List.prefix_append ..

/-- A file that holds some records holds one more; one that is not there yet counts as a header. -/
theorem lines_continued {schema : Schema} (hmany : 2 ≤ schema.header.length) {cells : List Text}
    (hlength : cells.length = schema.header.length) {text? : Option Text}
    {records : List (List Text)}
    (h : (text? = none → records = [schema.header]) ∧
      ∀ t, text? = some t → Csv.Lines t records) :
    Csv.Lines (continued schema (lineOf cells) text?) (records ++ [cells]) := by
  obtain ⟨hcells, hblank⟩ := not_blank_of_length hmany hlength
  obtain ⟨hheader, hheader'⟩ := not_blank_of_length hmany (rfl : schema.header.length = _)
  cases text? with
  | none =>
    rw [h.1 rfl]
    exact (Csv.Lines.nil.concat hheader hheader').concat hcells hblank
  | some t =>
    have hlines := h.2 t rfl
    rw [continued, hlines.getLast?_eq]
    exact hlines.concat hcells hblank

/-- What adding a line to the file of a name does to a directory. -/
structure LineAdded (schema : Schema) (directory name line : Text) (disk disk' : Disk) : Prop where
  file : disk'.file? (Path.join directory name) =
    some (continued schema line (disk.file? (Path.join directory name)))
  others : ∀ other, Path.IsName other → other ≠ name → other ≠ name ++ ".tmp" →
    disk'.file? (Path.join directory other) = disk.file? (Path.join directory other)
  directories : ∀ path, disk'.isDirectory path = disk.isDirectory path

theorem appendLine_spec {disk disk' : Disk} {path line : Text} {size : Nat}
    (h : appendLine disk path line = .ok (disk', size)) :
    ∃ place content content', disk.lookup path = .ok (.file content) ∧
      disk.place? path = some place ∧ disk.Wrote disk' place content' ∧
      ∀ schema, content'.text = continued schema line (some content.text) := by
  rw [appendLine] at h
  split at h
  · simp at h
  · simp at h
  · next content hlookup =>
    simp only at h
    split at h
    · simp at h
    · next after happend =>
      obtain ⟨rfl, -⟩ := Prod.mk.inj (Except.ok.inj h)
      obtain ⟨place, held, hplace, hsight, hwrote⟩ := Disk.append_spec happend
      obtain rfl : held = content := by
        obtain ⟨hfile, -⟩ := Disk.lookup_eq_file_iff.1 hlookup
        obtain ⟨place', hplace', hsight'⟩ := Disk.sightAt_eq_file_iff.1 hfile
        obtain rfl : place = place' := Option.some.inj (hplace.symm.trans hplace')
        exact Sight.file.inj (hsight.symm.trans hsight')
      refine ⟨place, held, _, hlookup, hplace, hwrote, ?_⟩
      intro schema
      rw [Content.text_append, continued, Content.getLast?_text]

theorem createFile_spec {disk disk' : Disk} {path text : Text} {size : Nat}
    (h : createFile disk path text = .ok (disk', size)) :
    ∃ place temporary, disk.place? path = some place ∧
      disk.place? (path ++ ".tmp") = some temporary ∧ disk.sight place ≠ .directory ∧
      disk.sight temporary ≠ .directory ∧
      ∀ other, disk'.sight other =
        if other = place then .file (.ofText text)
        else if other = temporary then .nothing else disk.sight other := by
  rw [createFile] at h
  split at h
  · simp at h
  · next created hcreate =>
    split at h
    · simp at h
    · next after hrename =>
      obtain ⟨rfl, -⟩ := Prod.mk.inj (Except.ok.inj h)
      obtain ⟨temporary, htemporary, hwrote, -⟩ := Disk.create_spec hcreate
      have hplaces := Disk.place?_congr hwrote.directory_iff
      have hsource : created.sightAt (path ++ ".tmp") = .file (.ofText text) := by
        rw [Disk.sightAt_eq_file_iff]
        exact ⟨temporary, by rw [hplaces, htemporary], by rw [hwrote.sight_eq, if_pos rfl]⟩
      obtain ⟨old, place, hold, hplace, hplain, hsight⟩ := Disk.rename_spec hrename hsource
      rw [hplaces] at hold hplace
      obtain rfl : temporary = old := Option.some.inj (htemporary.symm.trans hold)
      refine ⟨place, temporary, hplace, htemporary, ?_, hwrote.not_directory, ?_⟩
      · rwa [Ne, ← hwrote.directory_iff]
      · intro other
        rw [hsight, hwrote.sight_eq]
        grind

variable {ledger : Ledger} {disk disk' : Disk} {directory name line : Text} {size : Nat}
  {log : List Log.Entry}

/-- What writing a line to a path does to the places of a disk: one holds the text with it, and no other
changes but that of the unfinished file, where nothing lies. -/
structure LineWritten (schema : Schema) (path line : Text) (disk disk' : Disk) : Prop where
  directories : ∀ other, disk'.sight other = .directory ↔ disk.sight other = .directory
  places : ∃ place content, disk.place? path = some place ∧ disk'.sight place = .file content ∧
    content.text = continued schema line (disk.file? path) ∧
    ∀ other, other ≠ place → disk'.sight other = disk.sight other ∨
      (disk.place? (path ++ ".tmp") = some other ∧ disk'.sight other = .nothing)

theorem lineWritten_of_writeLine (h : ledger.writeLine disk line = .ok (disk', size, log)) :
    LineWritten ledger.schema ledger.currentFile line disk disk' := by
  simp only [writeLine] at h
  split at h
  · obtain ⟨⟨after, size'⟩, happend, h⟩ := map_eq_ok_iff.1 h
    obtain ⟨rfl, -⟩ := Prod.mk.inj h
    obtain ⟨place, content, content', hlookup, hplace, hwrote, htext⟩ := appendLine_spec happend
    have hfile : disk.file? ledger.currentFile = some content.text :=
      Disk.file?_eq_some_iff.2 ⟨content, hlookup, rfl⟩
    refine ⟨hwrote.directory_iff, place, content', hplace, ?_, ?_, ?_⟩
    · rw [hwrote.sight_eq, if_pos rfl]
    · rw [hfile, htext ledger.schema]
    · intro other hne
      rw [hwrote.sight_eq, if_neg hne]
      exact .inl rfl
  · next hexists =>
    obtain ⟨⟨after, size'⟩, hcreate, h⟩ := map_eq_ok_iff.1 h
    obtain ⟨rfl, -⟩ := Prod.mk.inj h
    obtain ⟨place, temporary, hplace, htemporary, hplain, hplain', hsight⟩ := createFile_spec hcreate
    have hfile : disk.file? ledger.currentFile = none :=
      Disk.file?_eq_none_of_not_pathExists (by simpa using hexists)
    refine ⟨?_, place, .ofText (lineOf ledger.schema.header ++ line), hplace, ?_, ?_, ?_⟩
    · intro other
      rw [hsight]
      grind
    · rw [hsight, if_pos rfl]
    · rw [hfile, Content.text_ofText, continued]
    · intro other hne
      rw [hsight, if_neg hne]
      split
      · next htmp => exact .inr ⟨by rw [htemporary, htmp], rfl⟩
      · exact .inl rfl

namespace LineWritten

variable {schema : Schema} {path : Text}

/-- No directory appears or goes. -/
theorem isDirectory_eq (h : LineWritten schema path line disk disk') (other : Text) :
    disk'.isDirectory other = disk.isDirectory other := Disk.isDirectory_congr h.directories other

/-- The file at a path was there before, or is the one that the line was added to. -/
theorem file?_cases (h : LineWritten schema path line disk disk') {other t : Text}
    (hfile : disk'.file? other = some t) :
    disk.file? other = some t ∨ ∃ place, disk.place? other = some place ∧
      disk.place? path = some place ∧ t = continued schema line (disk.file? path) := by
  obtain ⟨place, content, hplace, hsight, htext, hothers⟩ := h.places
  obtain ⟨held, hlookup, rfl⟩ := Disk.file?_eq_some_iff.1 hfile
  obtain ⟨hshown, hslash⟩ := Disk.lookup_eq_file_iff.1 hlookup
  obtain ⟨place', hplace', hheld⟩ := Disk.sightAt_eq_file_iff.1 hshown
  rw [Disk.place?_congr h.directories] at hplace'
  by_cases hne : place' = place
  · subst hne
    obtain rfl : content = held := Sight.file.inj (hsight.symm.trans hheld)
    exact .inr ⟨place', hplace', hplace, htext⟩
  · rcases hothers place' hne with hsame | ⟨-, hnothing⟩
    · rw [hsame] at hheld
      exact .inl (Disk.file?_eq_some_iff.2 ⟨held, Disk.lookup_eq_file_iff.2
        ⟨Disk.sightAt_eq_file_iff.2 ⟨place', hplace', hheld⟩, hslash⟩, rfl⟩)
    · rw [hnothing] at hheld
      exact absurd hheld (by simp)

/-- A line that is written is added to the file of its name. -/
theorem lineAdded (h : LineWritten schema (Path.join directory name) line disk disk')
    (hzero : (0 : UInt8) ∉ directory) (hname : Path.IsName name) :
    LineAdded schema directory name line disk disk' := by
  obtain ⟨place, content, hplace, hsight, htext, hothers⟩ := h.places
  have hplaces := Disk.place?_congr h.directories
  refine ⟨?_, ?_, h.isDirectory_eq⟩
  · rw [Disk.file?_join_eq_some_iff hzero hname]
    exact ⟨content, Disk.sightAt_eq_file_iff.2 ⟨place, by rw [hplaces, hplace], hsight⟩, htext⟩
  · intro other hother hne htmp
    apply Option.ext
    intro t
    have hsame : disk'.sightAt (Path.join directory other) =
        disk.sightAt (Path.join directory other) := by
      rw [Disk.sightAt, Disk.sightAt, hplaces]
      cases hplace' : disk.place? (Path.join directory other) with
      | none => rfl
      | some place' =>
        have hapart : place' ≠ place := by
          rintro rfl
          exact hne (Disk.place?_join_inj hzero hother hname hplace' hplace)
        rcases hothers place' hapart with hsame | ⟨hplace'', -⟩
        · exact hsame
        · rw [← Path.join_append] at hplace''
          exact absurd (Disk.place?_join_inj hzero hother (FileName.isName_append_tmp hname)
            hplace' hplace'') htmp
    rw [Disk.file?_join_eq_some_iff hzero hother, Disk.file?_join_eq_some_iff hzero hother, hsame]

end LineWritten

/-- A line that is written is added to the file in use. -/
theorem lineAdded_of_writeLine (hzero : (0 : UInt8) ∉ directory) (hname : Path.IsName name)
    (hcurrent : ledger.currentFile = Path.join directory name)
    (h : ledger.writeLine disk line = .ok (disk', size, log)) :
    LineAdded ledger.schema directory name line disk disk' := by
  have hwritten := lineWritten_of_writeLine h
  rw [hcurrent] at hwritten
  exact hwritten.lineAdded hzero hname

/-- No line is written to a directory whose path holds a zero byte: the paths of its names are the
directory itself. -/
theorem not_zero_of_writeLine (hdirectory : disk.isDirectory directory = true)
    (hcurrent : ledger.currentFile = Path.join directory name)
    (h : ledger.writeLine disk line = .ok (disk', size, log)) : (0 : UInt8) ∉ directory := by
  intro hzero
  rw [Disk.isDirectory_iff, ← Disk.sightAt_join_of_zero hzero name,
    ← Disk.exists_lookup_directory_iff] at hdirectory
  obtain ⟨inside, hlookup⟩ := hdirectory
  simp [writeLine, hcurrent, Disk.pathExists, hlookup, appendLine, Except.map] at h

/-! ## Choosing the file -/

/-- How the file for a row at an instant is chosen. -/
inductive Choice (ledger : Ledger) (disk : Disk) (now : Instant) (chosen : Ledger) : Prop where
  /-- The file in use is kept. -/
  | keep (hfile : ledger.currentFile ≠ [])
      (hkeep : ledger.keepsFile now = true ∨ ledger.pathAt now = ledger.currentFile)
      (hchosen : chosen = ledger)
  /-- A file that lies there is continued after its highest sequence number. -/
  | adopt (t : Text) (records : List (List Text)) (highest : UInt64)
      (hfile : disk.file? (ledger.pathAt now) = some t)
      (hdecode : Csv.decode t = .ok (ledger.schema.header :: records))
      (hhighest : highestSequence (ledger.pathAt now) 1 0 records = .ok highest)
      (hchosen : chosen = { ledger with
        nextSequence := if ledger.nextSequence ≤ highest then highest + 1 else ledger.nextSequence
        currentSize := t.length, currentFile := ledger.pathAt now, startedAt := now })
  /-- Nothing lies there yet. -/
  | create (hfile : disk.pathExists (ledger.pathAt now) = false)
      (hchosen : chosen = { ledger with
        currentSize := 0, currentFile := ledger.pathAt now, startedAt := now })

theorem pathAt_ne_nil (ledger : Ledger) (now : Instant) : ledger.pathAt now ≠ [] := by
  have hcsv : (".csv" : Text) ≠ [] := by decide
  exact Path.join_ne_nil (by simp [FileName.ofInstant, hcsv]) _

/-- A file that is continued has the header and records with sequence numbers. -/
theorem adopt_spec {path content : Text} {adopted : Ledger}
    (h : ledger.adopt path content = .ok (adopted, log)) :
    ∃ records highest, Csv.decode content = .ok (ledger.schema.header :: records) ∧
      highestSequence path 1 0 records = .ok highest ∧
      adopted = { ledger with
        nextSequence := if ledger.nextSequence ≤ highest then highest + 1 else ledger.nextSequence
        currentSize := content.length } := by
  rw [adopt] at h
  split at h
  · simp at h
  next records hdecode =>
  split at h
  · simp at h
  next hhead =>
  split at h
  · simp at h
  next highest hhighest =>
  obtain ⟨rfl, -⟩ := Prod.mk.inj (Except.ok.inj h)
  rw [not_not] at hhead
  cases records with
  | nil => simp at hhead
  | cons first rest =>
    obtain rfl := Option.some.inj hhead
    exact ⟨rest, highest, hdecode, hhighest, rfl⟩

theorem choice_of_chooseFile {now : Instant} {chosen : Ledger}
    (h : ledger.chooseFile disk now = .ok (chosen, log)) : Choice ledger disk now chosen := by
  simp only [chooseFile] at h
  split at h
  · next hkeep =>
    obtain ⟨rfl, -⟩ := Prod.mk.inj (Except.ok.inj h)
    rw [Bool.or_eq_true, decide_eq_true_eq] at hkeep
    refine .keep ?_ hkeep rfl
    rcases hkeep with hkeep | hkeep
    · simp only [keepsFile, Bool.and_eq_true, Bool.not_eq_true'] at hkeep
      simpa using hkeep.1.1
    · exact hkeep ▸ ledger.pathAt_ne_nil now
  split at h
  · split at h
    · simp at h
    · next content hfile =>
      split at h
      · simp at h
      · next adopted log' hadopt =>
        obtain ⟨records, highest, hdecode, hhighest, rfl⟩ := adopt_spec hadopt
        obtain ⟨rfl, -⟩ := Prod.mk.inj (Except.ok.inj h)
        exact .adopt content records highest hfile hdecode hhighest rfl
  · next hexists =>
    obtain ⟨rfl, -⟩ := Prod.mk.inj (Except.ok.inj h)
    exact .create (by simpa using hexists) rfl

/-- A file that is continued has a sequence number in each row, and the highest one is found. -/
theorem highestSequence_spec {path : Text} {row : Nat} {least highest : UInt64}
    {records : List (List Text)} (h : highestSequence path row least records = .ok highest) :
    least ≤ highest ∧
      (∀ record ∈ records, ∃ sequence, sequenceOf? record = some sequence ∧ sequence ≤ highest) ∧
      (highest = least ∨ ∃ record ∈ records, sequenceOf? record = some highest) := by
  induction records generalizing row least with
  | nil =>
    obtain rfl := Except.ok.inj h
    simp
  | cons record rest ih =>
    rw [highestSequence] at h
    split at h
    · simp at h
    · next sequence hsequence =>
      obtain ⟨hleast, hall, hsome⟩ := ih h
      have hmax : least ≤ max least sequence ∧ sequence ≤ max least sequence ∧
          (max least sequence = least ∨ max least sequence = sequence) := by
        by_cases hle : least ≤ sequence
        · rw [show max least sequence = sequence from if_pos hle]
          exact ⟨hle, UInt64.le_refl _, .inr rfl⟩
        · rw [show max least sequence = least from if_neg hle]
          exact ⟨UInt64.le_refl _, UInt64.le_of_lt (UInt64.not_le.1 hle), .inl rfl⟩
      refine ⟨UInt64.le_trans hmax.1 hleast, ?_, ?_⟩
      · exact List.forall_mem_cons.2
          ⟨⟨sequence, hsequence, UInt64.le_trans hmax.2.1 hleast⟩, hall⟩
      · rcases hsome with hsome | ⟨other, hother, hfound⟩
        · rcases hmax.2.2 with heq | heq
          · exact .inl (hsome.trans heq)
          · exact .inr ⟨record, List.mem_cons_self, by rw [hsequence, hsome, heq]⟩
        · exact .inr ⟨other, List.mem_cons_of_mem _ hother, hfound⟩

theorem Choice.schema_eq {now : Instant} {chosen : Ledger} (h : Choice ledger disk now chosen) :
    chosen.schema = ledger.schema ∧ chosen.settings = ledger.settings := by
  cases h with
  | keep _ _ hchosen => exact hchosen ▸ ⟨rfl, rfl⟩
  | adopt _ _ _ _ _ _ hchosen => exact hchosen ▸ ⟨rfl, rfl⟩
  | create _ hchosen => exact hchosen ▸ ⟨rfl, rfl⟩

/-- A line can be added to every file that is there. -/
theorem writeLine_of_file? {t : Text} (h : disk.file? ledger.currentFile = some t) (line : Text) :
    ∃ written, ledger.writeLine disk line = .ok written := by
  obtain ⟨content, hlookup, rfl⟩ := Disk.file?_eq_some_iff.1 h
  obtain ⟨⟨place, hplace, hnode⟩, -⟩ := Disk.lookup_eq_ok_iff.1 hlookup
  have hlocate := (disk.locate_eq_ok_iff ledger.currentFile (place, disk.node? place)).2
    ⟨hplace, rfl⟩
  simp only [writeLine, Disk.pathExists, hlookup, if_true, appendLine, Disk.append, hlocate, bind,
    Except.bind]
  exact ⟨_, rfl⟩

/-! ## Appending a row -/

/-- The receipt of a row that a ledger writes at an instant. -/
def receiptFor (ledger : Ledger) (row : Row) (now : Instant) : Receipt where
  sequence := ledger.nextSequence
  checksum := ((sealRow row ledger.nextSequence now).find? Schema.checksumName).getD []
  path := ledger.currentFile
  timestamp := now.isoText

theorem cells_receiptFor (ledger : Ledger) (schema : Schema) (row : Row) (now : Instant) :
    (ledger.receiptFor row now).cells schema row =
      cellsOf schema (sealRow row ledger.nextSequence now) := (cellsOf_sealRow rfl rfl rfl).symm

/-- How appending a row ends. -/
inductive Outcome (ledger : Ledger) (disk : Disk) (now : Instant) (row : Row)
    (step : Step (Ledger × Disk) (Except WriteError Receipt)) : Prop where
  /-- The row does not have the columns of the schema. -/
  | refused (e : WriteError) (hresult : step.result = .error e) (hstate : step.state = (ledger, disk))
  /-- There is no file for the row. -/
  | unplaced (e : WriteError) (hresult : step.result = .error e)
      (hstate : step.state = (ledger.countFailure, disk))
  /-- The row cannot be written to its file. -/
  | unwritten (e : WriteError) (chosen : Ledger) (hchoice : Choice ledger disk now chosen)
      (hwrite : chosen.writeLine disk
        (lineOf ((chosen.receiptFor row now).cells ledger.schema row)) = .error e)
      (hresult : step.result = .error e) (hstate : step.state = (chosen.countFailure, disk))
  | written (chosen : Ledger) (disk' : Disk) (size : Nat) (warnings : List Log.Entry)
      (hnames : checkNames ledger.schema row = .ok ()) (hchoice : Choice ledger disk now chosen)
      (hwrite : chosen.writeLine disk
        (lineOf ((chosen.receiptFor row now).cells ledger.schema row)) = .ok (disk', size, warnings))
      (hresult : step.result = .ok (chosen.receiptFor row now))
      (hstate : step.state = ({ chosen with
        nextSequence := chosen.nextSequence + 1, currentSize := size, lastWriteFailed := false },
        disk'))

theorem append_outcome (ledger : Ledger) (disk : Disk) (now : Instant) (row : Row) :
    Outcome ledger disk now row (ledger.append disk now row) := by
  unfold append
  cases hnames : checkNames ledger.schema row with
  | error e => exact .refused e rfl rfl
  | ok _ =>
    cases hchoose : ledger.chooseFile disk now with
    | error e => exact .unplaced e rfl rfl
    | ok result =>
      obtain ⟨chosen, log⟩ := result
      have hchoice := choice_of_chooseFile hchoose
      have hschema := hchoice.schema_eq.1
      simp only
      cases hwrite : chosen.writeLine disk
          (lineOf (cellsOf chosen.schema (sealRow row chosen.nextSequence now))) with
      | error e =>
        rw [hschema, ← cells_receiptFor] at hwrite
        exact .unwritten e chosen hchoice hwrite rfl rfl
      | ok result =>
        obtain ⟨disk', size, warnings⟩ := result
        rw [hschema, ← cells_receiptFor] at hwrite
        exact .written chosen disk' size warnings hnames hchoice hwrite rfl rfl

variable {now : Instant} {row : Row}

/-- A row that is not written leaves the disk alone and takes no number. -/
theorem append_error {e : WriteError}
    (h : (ledger.append disk now row).result = .error e) :
    (ledger.append disk now row).state.2 = disk ∧
      (ledger.append disk now row).state.1.lastSequence = ledger.lastSequence := by
  cases ledger.append_outcome disk now row with
  | refused _ _ hstate => simp [hstate]
  | unplaced _ _ hstate =>
    rw [hstate]
    exact ⟨rfl, rfl⟩
  | unwritten _ chosen hchoice hwrite _ hstate =>
    rw [hstate]
    refine ⟨rfl, ?_⟩
    cases hchoice with
    | keep _ _ hchosen => rw [hchosen]; rfl
    | create _ hchosen => rw [hchosen]; rfl
    | adopt t records highest hfile _ _ hchosen =>
      -- A file that is continued is there, so that the line could be added.
      have hcurrent : disk.file? chosen.currentFile = some t := by rw [hchosen]; exact hfile
      obtain ⟨written, hwritten⟩ := writeLine_of_file? hcurrent
        (lineOf ((chosen.receiptFor row now).cells ledger.schema row))
      rw [hwrite] at hwritten
      simp at hwritten
  | written _ _ _ _ _ _ _ hresult _ => simp [hresult] at h

/-! ## The file in use -/

/-- Whether the file in use, if there is one, has the name of an instant. -/
def InUse (ledger : Ledger) : Prop :=
  ledger.currentFile = [] ∨ ∃ opened, ledger.currentFile = ledger.pathAt opened

theorem inUse_choice (h : ledger.InUse) {chosen : Ledger} (hchoice : Choice ledger disk now chosen) :
    ∃ opened, chosen.currentFile = chosen.pathAt opened := by
  cases hchoice with
  | keep hfile _ hchosen => exact hchosen ▸ h.resolve_left hfile
  | adopt t records highest _ _ _ hchosen => exact ⟨now, by rw [hchosen]; rfl⟩
  | create _ hchosen => exact ⟨now, by rw [hchosen]; rfl⟩

theorem inUse_append (h : ledger.InUse) (disk : Disk) (now : Instant) (row : Row) :
    (ledger.append disk now row).state.1.schema = ledger.schema ∧
      (ledger.append disk now row).state.1.settings = ledger.settings ∧
      (ledger.append disk now row).state.1.InUse := by
  cases ledger.append_outcome disk now row with
  | refused _ _ hstate => rw [hstate]; exact ⟨rfl, rfl, h⟩
  | unplaced _ _ hstate => rw [hstate]; exact ⟨rfl, rfl, h⟩
  | unwritten _ chosen hchoice _ _ hstate =>
    obtain ⟨opened, hcurrent⟩ := inUse_choice h hchoice
    rw [hstate]
    exact ⟨hchoice.schema_eq.1, hchoice.schema_eq.2, .inr ⟨opened, hcurrent⟩⟩
  | written chosen _ _ _ _ hchoice _ _ hstate =>
    obtain ⟨opened, hcurrent⟩ := inUse_choice h hchoice
    rw [hstate]
    exact ⟨hchoice.schema_eq.1, hchoice.schema_eq.2, .inr ⟨opened, hcurrent⟩⟩

/-- A row that is written goes as one line with the cells of its receipt to the file in use. -/
theorem append_written (h : ledger.InUse)
    (hdirectory : disk.isDirectory ledger.settings.outputDirectory = true) {receipt : Receipt}
    (happend : (ledger.append disk now row).result = .ok receipt) :
    receipt.path = (ledger.append disk now row).state.1.currentFile ∧
      receipt.timestamp = now.isoText ∧ (0 : UInt8) ∉ ledger.settings.outputDirectory ∧
      ∃ opened, receipt.path = ledger.pathAt opened ∧
        LineWritten ledger.schema receipt.path (lineOf (receipt.cells ledger.schema row)) disk
          (ledger.append disk now row).state.2 := by
  cases ledger.append_outcome disk now row with
  | refused _ hresult _ => simp [hresult] at happend
  | unplaced _ hresult _ => simp [hresult] at happend
  | unwritten _ _ _ _ hresult _ => simp [hresult] at happend
  | written chosen disk' size warnings _ hchoice hwrite hresult hstate =>
    obtain ⟨opened, hopened⟩ := inUse_choice h hchoice
    obtain ⟨hschema, hsettings⟩ := hchoice.schema_eq
    have hcurrent : chosen.currentFile = ledger.pathAt opened := by
      rw [hopened, pathAt, hschema, hsettings]
      rfl
    have hwritten := lineWritten_of_writeLine hwrite
    rw [hresult, Except.ok.injEq] at happend
    subst happend
    rw [hstate]
    exact ⟨rfl, rfl, not_zero_of_writeLine hdirectory hcurrent hwrite, opened, hcurrent,
      hschema ▸ hwritten⟩

/-- A row that is written adds one line with the cells of its receipt to the file in use. -/
theorem append_ok (hplain : FileName.IsPlain ledger.schema.recordType) (h : ledger.InUse)
    (hdirectory : disk.isDirectory ledger.settings.outputDirectory = true) {receipt : Receipt}
    (happend : (ledger.append disk now row).result = .ok receipt) :
    receipt.path = (ledger.append disk now row).state.1.currentFile ∧
      receipt.timestamp = now.isoText ∧
      ∃ opened, receipt.path = ledger.pathAt opened ∧
        LineAdded ledger.schema ledger.settings.outputDirectory
          (FileName.ofInstant ledger.schema.recordType opened)
          (lineOf (receipt.cells ledger.schema row)) disk (ledger.append disk now row).state.2 := by
  obtain ⟨hpath, htime, hzero, opened, hopened, hwritten⟩ := append_written h hdirectory happend
  refine ⟨hpath, htime, opened, hopened, ?_⟩
  rw [hopened] at hwritten
  exact hwritten.lineAdded hzero (FileName.isName_ofInstant hplain opened)

/-! ## Directories in place of files -/

/-- Whether a step does not fail for a file that cannot be read. -/
def Reads {α : Type} (result : Except WriteError α) : Prop :=
  ∀ path, result ≠ .error (.unreadable path)

namespace Reads

variable {α β : Type} {result : Except WriteError α}

/-- The error of such a step is the error of no unreadable file further on either. -/
theorem of_error {e : WriteError} (h : Reads result) (he : result = .error e) :
    Reads (.error e : Except WriteError β) :=
  fun path heq => h path (he.trans (congrArg Except.error (Except.error.inj heq)))

theorem map (h : Reads result) (f : α → β) : Reads (result.map f) := by
  cases result with
  | error e => exact h.of_error rfl
  | ok a => simp [Reads, Except.map]

end Reads

theorem reads_checkNames (schema : Schema) (row : Row) : Reads (checkNames schema row) := by
  unfold checkNames
  split
  · simp [Reads]
  split
  · simp [Reads]
  split <;> simp [Reads]

theorem reads_highestSequence (path : Text) (row : Nat) (highest : UInt64) (records : List (List Text)) :
    Reads (highestSequence path row highest records) := by
  induction records generalizing row highest with
  | nil => simp [Reads, highestSequence]
  | cons record rest ih =>
    rw [highestSequence]
    split
    · simp [Reads]
    · exact ih (row + 1) _

theorem reads_adopt (ledger : Ledger) (path content : Text) : Reads (ledger.adopt path content) := by
  unfold adopt
  split
  · simp [Reads]
  split
  · simp [Reads]
  split
  · next e he => exact (reads_highestSequence _ _ _ _).of_error he
  · simp [Reads]

theorem reads_appendLine (disk : Disk) (path line : Text) : Reads (appendLine disk path line) := by
  unfold appendLine
  split
  · simp [Reads]
  · simp [Reads]
  · dsimp only
    split <;> simp [Reads]

theorem reads_createFile (disk : Disk) (path content : Text) : Reads (createFile disk path content) := by
  unfold createFile
  dsimp only
  split
  · simp [Reads]
  · split <;> simp [Reads]

theorem reads_writeLine (ledger : Ledger) (disk : Disk) (line : Text) :
    Reads (ledger.writeLine disk line) := by
  unfold writeLine
  dsimp only
  split
  · exact (reads_appendLine _ _ _).map _
  · exact (reads_createFile _ _ _).map _

/-- A file for a row is found unreadable exactly where it is a directory. -/
theorem chooseFile_unreadable_iff :
    (∃ path, ledger.chooseFile disk now = .error (.unreadable path)) ↔
      ledger.keepsFile now = false ∧ ledger.pathAt now ≠ ledger.currentFile ∧
        disk.isDirectory (ledger.pathAt now) = true := by
  unfold chooseFile
  dsimp only
  by_cases hkeep : (ledger.keepsFile now || ledger.pathAt now = ledger.currentFile) = true
  · rw [if_pos hkeep]
    simp only [reduceCtorEq, exists_false, false_iff]
    rintro ⟨hkeeps, hne, -⟩
    simp [hkeeps, hne] at hkeep
  rw [if_neg hkeep]
  have hmoves : ledger.keepsFile now = false ∧ ledger.pathAt now ≠ ledger.currentFile := by
    simpa using hkeep
  simp only [hmoves, ne_eq, not_false_eq_true, true_and]
  by_cases hexists : disk.pathExists (ledger.pathAt now) = true
  · rw [if_pos hexists, ← Disk.file?_eq_none_iff_isDirectory hexists]
    cases hfile : disk.file? (ledger.pathAt now) with
    | none => simp
    | some content =>
      simp only [reduceCtorEq, iff_false, not_exists]
      intro path
      split
      · next e he => exact (reads_adopt _ _ _).of_error he path
      · simp
  · rw [if_neg hexists]
    simp only [reduceCtorEq, exists_false, false_iff]
    exact mt Disk.pathExists_of_isDirectory hexists

/-- No row is told to fail because its file cannot be read: where that would be, it meets a directory. -/
theorem append_unreadable_iff :
    (∃ path, (ledger.append disk now row).result = .error (.unreadable path)) ↔
      ledger.meetsDirectory disk now row = true := by
  unfold append meetsDirectory
  cases hnames : checkNames ledger.schema row with
  | error e =>
    have hreads : Reads (.error e : Except WriteError Receipt) := (reads_checkNames _ _).of_error hnames
    simpa [Except.isOk, Except.toBool, Reads] using hreads
  | ok _ =>
    have hchoice := @chooseFile_unreadable_iff ledger disk now
    simp only [Except.isOk, Except.toBool, Bool.true_and, Bool.and_eq_true, Bool.not_eq_true',
      decide_eq_true_eq, and_assoc]
    rw [← hchoice]
    cases hchoose : ledger.chooseFile disk now with
    | error e => simp
    | ok chosen =>
      simp only [reduceCtorEq, exists_false, iff_false, not_exists]
      intro path
      split
      · next e he => exact (reads_writeLine _ _ _).of_error he path
      · simp

end TradeReentry.Ledger
