import TradeReentry.Proofs.Ledger.Steps

/-!
# Rows that are written one after the other

Every row goes to the end of the file of a name. `RowsAdded` says what all rows together do to a disk: each
file of the directory goes on with the rows that are placed in it, in their order, and no other place shows
anything new. Nothing is added by no row (`RowsAdded.nil`), and one line more is added in front
(`RowsAdded.cons`). The rows are then read back after the records that a file held
(`RowsAdded.recordsAdded`).
-/

namespace TradeReentry.Ledger

open Files

/-- A row and the name of the file that it goes to. -/
structure Placement where
  name : Text
  cells : List Text
deriving DecidableEq, Repr

/-- The rows that go to the file of a name. -/
def cellsAt (name : Text) (rows : List Placement) : List (List Text) :=
  (rows.filter (·.name = name)).map (·.cells)

/-- What a file holds after some more rows. -/
def continuedBy (schema : Schema) (text? : Option Text) (rows : List (List Text)) : Option Text :=
  rows.foldl (fun text? cells => some (continued schema (lineOf cells) text?)) text?

/-- What rows do to a disk that are placed in the files of a directory, one after the other. -/
structure RowsAdded (schema : Schema) (directory : Text) (rows : List Placement) (disk disk' : Disk) :
    Prop where
  /-- A file goes on with its rows, unless it has the name of one that is not finished yet. -/
  files : ∀ name, Path.IsName name → (∀ row ∈ rows, name ≠ row.name ++ ".tmp") →
    disk'.file? (Path.join directory name) =
      continuedBy schema (disk.file? (Path.join directory name)) (cellsAt name rows)
  /-- What shows something new is the place of a file or of one that is not finished yet. -/
  elsewhere : ∀ place, disk'.sight place ≠ disk.sight place → ∃ row ∈ rows,
    disk.place? (Path.join directory row.name) = some place ∨
      disk.place? (Path.join directory row.name ++ ".tmp") = some place
  directories : ∀ place, disk'.sight place = .directory ↔ disk.sight place = .directory

/-- Whether the files of a directory, where they held records, are read back as these and the rows that
are placed in them. A file that is not there yet counts as a header. -/
def RecordsAdded (schema : Schema) (directory : Text) (rows : List Placement) (disk disk' : Disk) :
    Prop :=
  ∀ name, Path.IsName name → (∀ row ∈ rows, name ≠ row.name ++ ".tmp") →
    ∀ records, (disk.file? (Path.join directory name) = none → records = [schema.header]) →
      (∀ t, disk.file? (Path.join directory name) = some t → Csv.Lines t records) →
      ∀ t', disk'.file? (Path.join directory name) = some t' →
        Csv.decode t' = .ok (records ++ cellsAt name rows)

variable {schema : Schema} {directory : Text} {rows : List Placement} {disk disk' disk'' : Disk}

theorem cellsAt_cons (name : Text) (row : Placement) (rows : List Placement) :
    cellsAt name (row :: rows) =
      if row.name = name then row.cells :: cellsAt name rows else cellsAt name rows := by
  rw [cellsAt, List.filter_cons]
  split <;> simp_all [cellsAt]

theorem mem_cellsAt {name : Text} {cells : List Text} (h : cells ∈ cellsAt name rows) :
    ∃ row ∈ rows, row.cells = cells := by
  obtain ⟨row, hrow, hcells⟩ := List.mem_map.1 h
  exact ⟨row, (List.mem_filter.1 hrow).1, hcells⟩

/-- A file that holds records holds its rows after them; one that is not there yet counts as a header. -/
theorem lines_continuedBy (hmany : 2 ≤ schema.header.length) {rows : List (List Text)}
    (hlength : ∀ cells ∈ rows, cells.length = schema.header.length) {text? : Option Text}
    {records : List (List Text)}
    (h : (text? = none → records = [schema.header]) ∧ ∀ t, text? = some t → Csv.Lines t records)
    {t' : Text} (hfile : continuedBy schema text? rows = some t') :
    Csv.Lines t' (records ++ rows) := by
  induction rows generalizing text? records with
  | nil =>
    rw [List.append_nil]
    exact h.2 t' hfile
  | cons cells rest ih =>
    obtain ⟨hcells, hrest⟩ := List.forall_mem_cons.1 hlength
    have hfirst : ∀ t, some (continued schema (lineOf cells) text?) = some t →
        Csv.Lines t (records ++ [cells]) := by
      intro t ht
      exact Option.some.inj ht ▸ lines_continued hmany hcells h
    rw [List.append_cons]
    exact ih hrest ⟨by simp, hfirst⟩ hfile

namespace RowsAdded

theorem nil (disk : Disk) : RowsAdded schema directory [] disk disk where
  files _ _ _ := rfl
  elsewhere _ hne := absurd rfl hne
  directories _ := .rfl

theorem cons {row : Placement} (hzero : (0 : UInt8) ∉ directory) (hname : Path.IsName row.name)
    (hwritten : LineWritten schema (Path.join directory row.name) (lineOf row.cells) disk disk')
    (hrest : RowsAdded schema directory rows disk' disk'') :
    RowsAdded schema directory (row :: rows) disk disk'' where
  files := by
    intro name hplain htmp
    obtain ⟨hfirst, hothers⟩ := List.forall_mem_cons.1 htmp
    have hadded := hwritten.lineAdded hzero hname
    rw [hrest.files name hplain hothers, cellsAt_cons]
    by_cases hsame : row.name = name
    · subst hsame
      rw [hadded.file, if_pos rfl]
      rfl
    · rw [hadded.others name hplain (Ne.symm hsame) hfirst, if_neg hsame]
  elsewhere := by
    intro place hne
    by_cases hlater : disk''.sight place = disk'.sight place
    · obtain ⟨held, content, hplace, -, -, hothers⟩ := hwritten.places
      refine ⟨row, List.mem_cons_self, ?_⟩
      by_cases hheld : place = held
      · exact .inl (hheld ▸ hplace)
      · rcases hothers place hheld with hsame | ⟨htmp, -⟩
        · exact absurd (hlater.trans hsame) hne
        · exact .inr htmp
    · obtain ⟨other, hother, hplace⟩ := hrest.elsewhere place hlater
      rw [Disk.place?_congr hwritten.directories, Disk.place?_congr hwritten.directories] at hplace
      exact ⟨other, List.mem_cons_of_mem _ hother, hplace⟩
  directories place := (hrest.directories place).trans (hwritten.directories place)

/-- Read back, every file that held records has gone on with its rows. -/
theorem recordsAdded (h : RowsAdded schema directory rows disk disk')
    (hmany : 2 ≤ schema.header.length)
    (hlength : ∀ row ∈ rows, row.cells.length = schema.header.length) :
    RecordsAdded schema directory rows disk disk' := by
  intro name hname htmp records hnone hsome t' hfile
  rw [h.files name hname htmp] at hfile
  refine (lines_continuedBy hmany ?_ ⟨hnone, hsome⟩ hfile).decode_eq
  intro cells hcells
  obtain ⟨row, hrow, rfl⟩ := mem_cellsAt hcells
  exact hlength row hrow

end RowsAdded

end TradeReentry.Ledger
