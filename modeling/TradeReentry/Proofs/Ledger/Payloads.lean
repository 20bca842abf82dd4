import TradeReentry.Proofs.Ledger.Bars
import TradeReentry.Proofs.Ledger.Passing
import TradeReentry.Proofs.Results
import TradeReentry.Proofs.Text.Pieces

/-!
# What a checksum tells apart

The text that a checksum covers is the same for two rows exactly if their cells have the same pieces between
bars (`payload_eq_iff`). A bar that moves from one text cell to another is not seen (`payload_of_movedBar`); any
other difference of rows that fit their schema is: in particular that of a single cell, and any in which no
text cell gains or loses a bar (`payload_of_differing`).
-/

namespace TradeReentry

open Ascii

namespace Row

variable {row row' : Row} {name : Text}

/-- The cells that the checksum covers, in the byte order of their columns' names. -/
def covered (row : Row) : List Text := (row.entries.filter (·.1 ≠ Schema.checksumName)).map (·.2)

/-- The pieces between the bars of the covered cells, in order. -/
def pieces (row : Row) : List Text := row.covered.flatMap (Text.splitOn bar)

/-- The number of bars in the cell of a column. -/
def bars (row : Row) (name : Text) : Nat := ((row.find? name).getD []).count bar

theorem payload_eq (row : Row) : row.payload = [bar].intercalate row.covered := Text.join_eq "|" _

theorem pieces_eq (row : Row) : row.pieces = row.covered.flatMap (List.splitOn bar) :=
  List.flatMap_congr fun cell _ => Text.splitOn_eq bar cell

theorem splitOn_payload (h : row.covered ≠ []) : List.splitOn bar row.payload = row.pieces := by
  rw [payload_eq, Text.splitOn_intercalate bar h, pieces_eq]

theorem payload_eq_iff (h : row.covered ≠ []) (h' : row'.covered ≠ []) :
    row.payload = row'.payload ↔ row.pieces = row'.pieces := by
  rw [← splitOn_payload h, ← splitOn_payload h']
  constructor
  · exact congrArg _
  · intro heq
    calc row.payload
        = [bar].intercalate (List.splitOn bar row.payload) := (List.intercalate_splitOn bar).symm
      _ = [bar].intercalate (List.splitOn bar row'.payload) := by rw [heq]
      _ = row'.payload := List.intercalate_splitOn bar

/-- The covered cells are those of all names but that of the checksum. -/
theorem covered_eq (row : Row) : row.covered =
    (row.names.filter (· ≠ Schema.checksumName)).map fun name => (row.find? name).getD [] := by
  rw [covered, NameMap.names, List.filter_map, List.map_map]
  refine List.map_congr_left fun entry hentry => ?_
  obtain ⟨name, cell⟩ := entry
  have hfind := (row.mem_entries_iff name cell).1 (List.mem_of_mem_filter hentry)
  simp [hfind]

/-- Another cell in a column that is covered makes another text. -/
theorem payload_insert_ne {held cell : Text} (hname : name ≠ Schema.checksumName)
    (h : row.find? name = some held) (hcell : cell ≠ held) :
    Row.payload (row.insert name cell) ≠ row.payload := by
  obtain ⟨before, after, hold, hnew⟩ := NameMap.entries_insert h cell
  have hcovered : ∀ {entries : List (Text × Text)} {held : Text},
      entries = before ++ (name, held) :: after →
        (entries.filter (·.1 ≠ Schema.checksumName)).map (·.2) =
          (before.filter (·.1 ≠ Schema.checksumName)).map (·.2) ++
            held :: (after.filter (·.1 ≠ Schema.checksumName)).map (·.2) := by
    rintro _ held rfl
    simp [List.filter_append, hname]
  obtain ⟨left, right, hjoin⟩ := Text.exists_intercalate_eq [bar]
    ((before.filter (·.1 ≠ Schema.checksumName)).map (·.2))
    ((after.filter (·.1 ≠ Schema.checksumName)).map (·.2))
  rw [payload_eq, payload_eq, covered, covered, hcovered hold, hcovered hnew, hjoin, hjoin]
  simpa [List.append_assoc] using hcell

/-- Rows that differ in one column, apart from that of the checksum, differ in what is covered. -/
theorem payload_ne_of_single {held cell : Text} (hname : name ≠ Schema.checksumName)
    (h : row.find? name = some held) (h' : row'.find? name = some cell) (hcell : cell ≠ held)
    (hothers : ∀ other, other ≠ name → other ≠ Schema.checksumName →
      row.find? other = row'.find? other) : row.payload ≠ row'.payload := by
  have hsame : row'.insert Schema.checksumName [] =
      (row.insert name cell).insert Schema.checksumName [] := by
    apply NameMap.ext_find?
    intro other
    rw [NameMap.find?_insert, NameMap.find?_insert, NameMap.find?_insert]
    split
    · rfl
    · next hchecksum =>
      split
      · next heq => rw [← heq, h']
      · next hother => exact (hothers other (Ne.symm hother) (Ne.symm hchecksum)).symm
  rw [← payload_insert row' [], hsame, payload_insert]
  exact (payload_insert_ne hname h hcell).symm

end Row

/-- Lists put together of parts that are as long each have the same parts. -/
theorem eq_of_flatMap_eq {α β : Type} {l : List α} {f g : α → List β} (h : l.flatMap f = l.flatMap g)
    (hlength : ∀ x ∈ l, (f x).length = (g x).length) : ∀ x ∈ l, f x = g x := by
  induction l with
  | nil => simp
  | cons x rest ih =>
    rw [List.forall_mem_cons] at hlength
    obtain ⟨hfirst, hrest⟩ := List.append_inj h hlength.1
    exact List.forall_mem_cons.2 ⟨hfirst, ih hrest hlength.2⟩

namespace Schema

variable {schema : Schema} {row row' : Row} {name : Text}

/-- Whether a row has exactly the columns of a schema, each with a cell that fits it. -/
structure Admits (schema : Schema) (row : Row) : Prop where
  present : ∀ name ∈ schema.header, row.contains name = true
  declared : ∀ name ∈ row.names, name ∈ schema.header
  fits : ∀ column ∈ schema.columns, Cell.check column ((row.find? column.name).getD []) = .ok ()

theorem Admits.contains_iff (h : schema.Admits row) :
    row.contains name = true ↔ name ∈ schema.header :=
  ⟨fun hname => h.declared name ((row.mem_names_iff name).2 hname), h.present name⟩

theorem Admits.names_eq (h : schema.Admits row) (h' : schema.Admits row') : row.names = row'.names := by
  apply NameMap.names_eq_of_contains
  intro name
  rw [Bool.eq_iff_iff, h.contains_iff, h'.contains_iff]

/-- A column in which two rows differ has a cell in both. -/
theorem Admits.exists_cells (h : schema.Admits row) (h' : schema.Admits row')
    (hdiffer : row.find? name ≠ row'.find? name) :
    ∃ held cell, row.find? name = some held ∧ row'.find? name = some cell ∧ cell ≠ held := by
  have hcontains : row.contains name = row'.contains name := by
    rw [Bool.eq_iff_iff, h.contains_iff, h'.contains_iff]
  rw [NameMap.contains, NameMap.contains] at hcontains
  cases hheld : row.find? name with
  | none =>
    rw [hheld, Option.isSome_none, eq_comm, Option.isSome_eq_false_iff,
      Option.isNone_iff_eq_none] at hcontains
    exact absurd (hheld.trans hcontains.symm) hdiffer
  | some held =>
    rw [hheld, Option.isSome_some, eq_comm, Option.isSome_iff_exists] at hcontains
    obtain ⟨cell, hcell⟩ := hcontains
    refine ⟨held, cell, rfl, hcell, ?_⟩
    rintro rfl
    exact hdiffer (hheld.trans hcell.symm)

theorem Admits.covered_ne_nil (hs : schema.Standard) (h : schema.Admits row) : row.covered ≠ [] := by
  have hpresent : sequenceName ∈ row.names :=
    (row.mem_names_iff _).2 (h.present _ (hs.name_mem_header (by decide)))
  rw [Row.covered_eq]
  refine List.ne_nil_of_mem (List.mem_map_of_mem (List.mem_filter.2 ⟨hpresent, ?_⟩))
  decide

/-- Columns other than text columns hold no bars. -/
theorem Admits.bars_eq_zero (h : schema.Admits row) {column : Column} (hcolumn : column ∈ schema.columns)
    (hkind : column.kind ≠ .text) : row.bars column.name = 0 :=
  List.count_eq_zero.2 (Cell.bar_not_mem_of_check hkind (h.fits column hcolumn))

/-- Rows with as many bars in each text column differ in what is covered if they differ at all. -/
theorem Admits.payload_ne_of_bars (hs : schema.Standard) (h : schema.Admits row)
    (h' : schema.Admits row') (hname : name ≠ checksumName) (hdiffer : row.find? name ≠ row'.find? name)
    (hbars : ∀ column ∈ schema.columns, column.kind = .text →
      row.bars column.name = row'.bars column.name) : row.payload ≠ row'.payload := by
  intro heq
  rw [Row.payload_eq_iff (h.covered_ne_nil hs) (h'.covered_ne_nil hs), Row.pieces_eq, Row.pieces_eq,
    Row.covered_eq, Row.covered_eq, ← h.names_eq h', List.flatMap_map, List.flatMap_map] at heq
  have hcells := eq_of_flatMap_eq heq fun other hother => by
    obtain ⟨column, hcolumn, rfl⟩ := List.mem_map.1 (h.declared other (List.mem_of_mem_filter hother))
    rw [Text.length_splitOn, Text.length_splitOn]
    by_cases hkind : column.kind = .text
    · exact congrArg (· + 1) (hbars column hcolumn hkind)
    · exact congrArg (· + 1) ((h.bars_eq_zero hcolumn hkind).trans (h'.bars_eq_zero hcolumn hkind).symm)
  obtain ⟨held, cell, hheld, hcell, hne⟩ := h.exists_cells h' hdiffer
  have hmem : name ∈ row.names.filter (· ≠ checksumName) := by
    refine List.mem_filter.2 ⟨(row.mem_names_iff name).2 ?_, decide_eq_true hname⟩
    rw [NameMap.contains, hheld, Option.isSome_some]
  have hsplit := hcells name hmem
  rw [hheld, hcell, Option.getD_some, Option.getD_some] at hsplit
  have hjoin := congrArg ([bar].intercalate ·) hsplit
  simp only [List.intercalate_splitOn] at hjoin
  exact hne hjoin.symm

end Schema

namespace Row

variable {schema : Schema} {row row' : Row} {name : Text}

/-- Two rows that a built-in schema admits and that differ in a column other than that of the checksum: the
checksum covers the same text exactly if their cells have the same pieces between bars. It covers different
texts if each text column has as many bars in both rows, and if they differ in no other column. -/
theorem payload_of_differing (hschema : schema ∈ Schema.builtin) (h : schema.Admits row)
    (h' : schema.Admits row') (hname : name ≠ Schema.checksumName)
    (hdiffer : row.find? name ≠ row'.find? name) :
    (row.payload = row'.payload ↔ row.pieces = row'.pieces) ∧
      ((∀ column ∈ schema.columns, column.kind = .text →
        row.bars column.name = row'.bars column.name) → row.payload ≠ row'.payload) ∧
      ((∀ other, other ≠ name → other ≠ Schema.checksumName → row.find? other = row'.find? other) →
        row.payload ≠ row'.payload) := by
  have hs := Schema.standard_of_mem_builtin hschema
  refine ⟨payload_eq_iff (h.covered_ne_nil hs) (h'.covered_ne_nil hs), ?_, fun hothers => ?_⟩
  · exact h.payload_ne_of_bars hs h' hname hdiffer
  · obtain ⟨held, cell, hheld, hcell, hne⟩ := h.exists_cells h' hdiffer
    exact payload_ne_of_single hname hheld hcell hne hothers

/-- A decision with some parameter set, action and lot, under one checksum. -/
def decisionRow (parameterSet action lot : Text) : Row :=
  NameMap.ofList (Schema.reentryDecisions.header.zip ["1",
    "0bd8564aabc655d8616d6e776381bc83" ++ "7b1f070f899eef6da9871486aec07d5a",
    "2026-01-15T09:00:00.000Z", "T1", "H", "EURUSD", "WIN", "QUICK", action, parameterSet, "GLOBAL",
    "O", lot, "20", "40"])

/-- Rows that differ, even in cells that are covered, need not have different texts: a bar can move to the next
cell. -/
theorem payload_of_movedBar : ¬∀ schema ∈ Schema.builtin, ∀ row row', schema.Admits row →
    schema.Admits row' →
      (∃ name, name ≠ Schema.checksumName ∧ row.find? name ≠ row'.find? name) →
        row.payload ≠ row'.payload := by
  intro hall
  refine hall Schema.reentryDecisions (by decide) (decisionRow "p|q" "R1" "0.1")
    (decisionRow "p" "q|R1" "0.1") ?_ ?_ ⟨"reentry_action", by decide, by decide +kernel⟩
    (by decide +kernel)
  · exact ⟨by decide +kernel, by decide +kernel, by decide +kernel⟩
  · exact ⟨by decide +kernel, by decide +kernel, by decide +kernel⟩

/-- Of two rows that differ in three cells, one with a bar in both, the texts differ. -/
theorem payload_of_differing_decisions :
    Schema.reentryDecisions.Admits (decisionRow "p|q" "R1" "0.1") ∧
      Schema.reentryDecisions.Admits (decisionRow "r|" "HOLD" "0.25") ∧
      (decisionRow "p|q" "R1" "0.1").payload ≠ (decisionRow "r|" "HOLD" "0.25").payload := by
  have hfirst : Schema.reentryDecisions.Admits (decisionRow "p|q" "R1" "0.1") :=
    ⟨by decide +kernel, by decide +kernel, by decide +kernel⟩
  have hsecond : Schema.reentryDecisions.Admits (decisionRow "r|" "HOLD" "0.25") :=
    ⟨by decide +kernel, by decide +kernel, by decide +kernel⟩
  have hlot : ("lot_size" : Text) ≠ Schema.checksumName := by decide
  have hdiffer : (decisionRow "p|q" "R1" "0.1").find? "lot_size" ≠
      (decisionRow "r|" "HOLD" "0.25").find? "lot_size" := by decide +kernel
  obtain ⟨-, hbars, -⟩ :=
    payload_of_differing (by decide : Schema.reentryDecisions ∈ Schema.builtin) hfirst hsecond hlot hdiffer
  exact ⟨hfirst, hsecond, hbars (by decide +kernel)⟩

end Row

end TradeReentry
