import Mathlib.Data.List.Forall2
import TradeReentry.Cli.Batch
import TradeReentry.Proofs.Results

/-!
# Which files of closed trades are read

A row is accepted if it is as wide as the header and each of its cells may stand in its column
(`Batch.IsAccepted`). A file is read if it holds a header and accepted rows only (`Batch.ofFile_of_table`),
and then gives a context for each row, which names the trade of the row (`Batch.table_of_ofFile`).
-/

namespace TradeReentry.Cli.Batch

/-! ## Accepted rows -/

/-- The columns that take any text. -/
def textColumns : List Text :=
  ["trade_id", "symbol", "direction", "close_reason", "proximity_state", "calendar_id", "comment"]

/-- The columns that take a decimal number. -/
def numberColumns : List Text :=
  ["current_lot_size", "lot_size", "profit_loss_pips", "duration_minutes"]

/-- Whether a column has a name that is known, and takes a cell. -/
def Takes (name cell : Text) : Prop :=
  name ∈ textColumns ∨ (name ∈ numberColumns ∧ (Binary64.ofText? cell).isSome = true) ∨
    (name = "generation" ∧ (Text.toInt32? cell).isSome = true) ∨
    (name = "trade_closed" ∧ cell ∈ (["true", "false", "1", "0"] : List Text))

/-- Whether a row under a header can be read. -/
structure IsAccepted (header cells : List Text) : Prop where
  width : cells.length = header.length
  values : ∀ entry ∈ header.zip cells, Takes entry.1 entry.2

instance (name cell : Text) : Decidable (Takes name cell) :=
  inferInstanceAs (Decidable (_ ∨ _ ∧ _ ∨ _ ∧ _ ∨ _ ∧ _))

instance (header cells : List Text) : Decidable (IsAccepted header cells) :=
  decidable_of_iff (cells.length = header.length ∧ ∀ entry ∈ header.zip cells, Takes entry.1 entry.2)
    ⟨fun h => ⟨h.1, h.2⟩, fun h => ⟨h.width, h.values⟩⟩

/-- The last cell under a name, or one that was held before. -/
def lastUnder (name held : Text) (entries : List (Text × Text)) : Text :=
  entries.foldl (fun held entry => if entry.1 = name then entry.2 else held) held

/-- The cell of a row under a name: the last one, if several columns have the name, and an empty one if
none has it. -/
def cellUnder (name : Text) (header cells : List Text) : Text :=
  lastUnder name [] (header.zip cells)

/-! ## Columns -/

/-- What the cell of a column makes of a context. -/
structure ColumnSpec (column : Text × (Text → Context → Option Context)) : Prop where
  isSome_iff : ∀ cell c, (column.2 cell c).isSome = true ↔ Takes column.1 cell
  names : ∀ cell c c', column.2 cell c = some c' →
    c'.tradeId = (if column.1 = "trade_id" then cell else c.tradeId) ∧
      c'.symbol = if column.1 = "symbol" then cell else c.symbol

theorem isSome_readFlag? (cell : Text) :
    (readFlag? cell).isSome = true ↔ cell ∈ (["true", "false", "1", "0"] : List Text) := by
  unfold readFlag?
  split
  · next h => rcases h with rfl | rfl <;> simp
  · next h =>
    split
    · next h' => rcases h' with rfl | rfl <;> simp
    · next h' => simp_all

theorem takes_number {name : Text} (h : name ∈ numberColumns) (cell : Text) :
    Takes name cell ↔ (Binary64.ofText? cell).isSome = true := by
  have hother : ∀ name ∈ numberColumns, name ∉ textColumns ∧ name ≠ "generation" ∧
      name ≠ "trade_closed" := by decide
  obtain ⟨htext, hgeneration, hflag⟩ := hother name h
  simp [Takes, h, htext, hgeneration, hflag]

theorem takes_generation (cell : Text) :
    Takes "generation" cell ↔ (Text.toInt32? cell).isSome = true := by
  have hother : ("generation" : Text) ∉ textColumns ∧ ("generation" : Text) ∉ numberColumns ∧
      ("generation" : Text) ≠ "trade_closed" := by decide
  simp [Takes, hother]

theorem takes_flag (cell : Text) : Takes "trade_closed" cell ↔ (readFlag? cell).isSome = true := by
  have hother : ("trade_closed" : Text) ∉ textColumns ∧ ("trade_closed" : Text) ∉ numberColumns ∧
      ("trade_closed" : Text) ≠ "generation" := by decide
  rw [isSome_readFlag?, Takes]
  simp only [hother, false_and, false_or, true_and]

/-- A column that takes any text. -/
theorem columnSpec_text {name : Text} {set : Text → Context → Context} (hname : name ∈ textColumns)
    (hset : ∀ cell c, (set cell c).tradeId = (if name = "trade_id" then cell else c.tradeId) ∧
      (set cell c).symbol = if name = "symbol" then cell else c.symbol) :
    ColumnSpec (name, fun cell c => some (set cell c)) where
  isSome_iff _ _ := by simp [Takes, hname]
  names cell c c' h := by
    obtain rfl := Option.some.inj h
    exact hset cell c

/-- A column whose cells are read as values that do not name the trade. -/
theorem columnSpec_value {α : Type} {name : Text} {read : Text → Option α}
    {set : α → Context → Context} (htakes : ∀ cell, Takes name cell ↔ (read cell).isSome = true)
    (hname : name ≠ "trade_id" ∧ name ≠ "symbol")
    (hset : ∀ x c, (set x c).tradeId = c.tradeId ∧ (set x c).symbol = c.symbol) :
    ColumnSpec (name, fun cell c => (read cell).map (set · c)) where
  isSome_iff cell _ := by rw [htakes, Option.isSome_map]
  names cell c c' h := by
    obtain ⟨x, -, rfl⟩ := Option.map_eq_some_iff.1 h
    rw [if_neg hname.1, if_neg hname.2]
    exact hset x c

theorem columnSpec_of_mem : ∀ column ∈ columns, ColumnSpec column := by
  have hnames : ∀ name ∈ ("generation" : Text) :: "trade_closed" :: numberColumns,
      name ≠ "trade_id" ∧ name ≠ "symbol" := by decide
  have hnumber : ∀ name ∈ numberColumns, ∀ set : Binary64 → Context → Context,
      (∀ x c, (set x c).tradeId = c.tradeId ∧ (set x c).symbol = c.symbol) →
        ColumnSpec (name, fun cell c => (Binary64.ofText? cell).map (set · c)) :=
    fun name hname set hset => columnSpec_value (takes_number hname)
      (hnames name (List.mem_cons_of_mem _ (List.mem_cons_of_mem _ hname))) hset
  simp only [columns, List.forall_mem_cons, List.not_mem_nil, false_implies, implies_true, and_true]
  exact ⟨columnSpec_text (by decide) fun _ _ => ⟨rfl, rfl⟩,
    columnSpec_text (by decide) fun _ _ => ⟨rfl, rfl⟩,
    columnSpec_text (by decide) fun _ _ => ⟨rfl, rfl⟩,
    columnSpec_value takes_generation (hnames _ (by decide)) fun _ _ => ⟨rfl, rfl⟩,
    hnumber _ (by decide) _ fun _ _ => ⟨rfl, rfl⟩,
    hnumber _ (by decide) _ fun _ _ => ⟨rfl, rfl⟩,
    hnumber _ (by decide) _ fun _ _ => ⟨rfl, rfl⟩,
    hnumber _ (by decide) _ fun _ _ => ⟨rfl, rfl⟩,
    columnSpec_value takes_flag (hnames _ (by decide)) fun _ _ => ⟨rfl, rfl⟩,
    columnSpec_text (by decide) fun _ _ => ⟨rfl, rfl⟩,
    columnSpec_text (by decide) fun _ _ => ⟨rfl, rfl⟩,
    columnSpec_text (by decide) fun _ _ => ⟨rfl, rfl⟩,
    columnSpec_text (by decide) fun _ _ => ⟨rfl, rfl⟩⟩

theorem mem_names_of_takes {name cell : Text} (h : Takes name cell) : name ∈ columns.map (·.1) := by
  have hnames : ∀ name ∈ ("generation" : Text) :: "trade_closed" :: (textColumns ++ numberColumns),
      name ∈ columns.map (·.1) := by decide
  apply hnames
  rcases h with h | ⟨h, -⟩ | ⟨h, -⟩ | ⟨h, -⟩ <;> simp [h]

/-- A name is that of a column, or takes nothing. -/
theorem find?_columns (name : Text) :
    (columns.find? (·.1 = name) = none ∧ ∀ cell, ¬Takes name cell) ∨
      ∃ set, columns.find? (·.1 = name) = some (name, set) ∧ ColumnSpec (name, set) := by
  cases hfind : columns.find? (·.1 = name) with
  | none =>
    refine .inl ⟨rfl, fun cell htakes => ?_⟩
    obtain ⟨column, hcolumn, hname⟩ := List.mem_map.1 (mem_names_of_takes htakes)
    simpa [hname] using List.find?_eq_none.1 hfind column hcolumn
  | some column =>
    have hname : column.1 = name := by simpa using List.find?_some hfind
    subst hname
    exact .inr ⟨column.2, rfl, columnSpec_of_mem column (List.mem_of_find?_eq_some hfind)⟩

/-! ## Rows -/

/-- What is read from cells names the trade that stands last in them. -/
theorem names_of_readCells {row : Nat} {c c' : Context} {entries : List (Text × Text)}
    (h : readCells row c entries = .ok c') :
    (∀ entry ∈ entries, Takes entry.1 entry.2) ∧
      c'.tradeId = lastUnder "trade_id" c.tradeId entries ∧
      c'.symbol = lastUnder "symbol" c.symbol entries := by
  induction entries generalizing c with
  | nil =>
    obtain rfl := Except.ok.inj h
    exact ⟨by simp, rfl, rfl⟩
  | cons entry rest ih =>
    obtain ⟨name, cell⟩ := entry
    rw [readCells] at h
    rcases find?_columns name with ⟨hnone, -⟩ | ⟨set, hfind, hspec⟩
    · simp [hnone] at h
    · simp only [hfind] at h
      cases hset : set cell c with
      | none => simp [hset] at h
      | some c₁ =>
        simp only [hset] at h
        obtain ⟨htakes, htrade, hsymbol⟩ := ih h
        obtain ⟨htrade₁, hsymbol₁⟩ := hspec.names cell c c₁ hset
        refine ⟨List.forall_mem_cons.2 ⟨(hspec.isSome_iff cell c).1 (by simp [hset]), htakes⟩, ?_, ?_⟩
        · rw [htrade, htrade₁]
          rfl
        · rw [hsymbol, hsymbol₁]
          rfl

theorem readCells_of_takes {entries : List (Text × Text)}
    (h : ∀ entry ∈ entries, Takes entry.1 entry.2) (row : Nat) (c : Context) :
    ∃ c', readCells row c entries = .ok c' := by
  induction entries generalizing c with
  | nil => exact ⟨c, rfl⟩
  | cons entry rest ih =>
    obtain ⟨name, cell⟩ := entry
    obtain ⟨htakes, hrest⟩ := List.forall_mem_cons.1 h
    rw [readCells]
    rcases find?_columns name with ⟨-, hnot⟩ | ⟨set, hfind, hspec⟩
    · exact absurd htakes (hnot cell)
    · obtain ⟨c₁, hset⟩ : ∃ c₁, set cell c = some c₁ :=
        Option.isSome_iff_exists.1 ((hspec.isSome_iff cell c).2 htakes)
      simp only [hfind, hset]
      exact ih hrest c₁

/-- Whether a context names the trade of a row. -/
structure Names (header cells : List Text) (c : Context) : Prop where
  tradeId : c.tradeId = cellUnder "trade_id" header cells
  symbol : c.symbol = cellUnder "symbol" header cells

/-- Rows that are read are all accepted and give a context each. -/
theorem names_of_readRows {header : List Text} {row : Nat} {rows : List (List Text)}
    {contexts : List Context} (h : readRows header row rows = .ok contexts) :
    (∀ cells ∈ rows, IsAccepted header cells) ∧ List.Forall₂ (Names header) rows contexts := by
  induction rows generalizing row contexts with
  | nil =>
    obtain rfl := Except.ok.inj h
    exact ⟨by simp, .nil⟩
  | cons cells rest ih =>
    rw [readRows] at h
    split at h
    · simp at h
    next hwidth =>
    split at h
    · simp at h
    next c hread =>
    obtain ⟨others, hothers, rfl⟩ := map_eq_ok_iff.1 h
    obtain ⟨haccepted, hnames⟩ := ih hothers
    obtain ⟨htakes, htrade, hsymbol⟩ := names_of_readCells hread
    exact ⟨List.forall_mem_cons.2 ⟨⟨not_not.1 hwidth, htakes⟩, haccepted⟩,
      .cons ⟨htrade, hsymbol⟩ hnames⟩

theorem readRows_of_isAccepted {header : List Text} {rows : List (List Text)}
    (h : ∀ cells ∈ rows, IsAccepted header cells) (row : Nat) :
    ∃ contexts, readRows header row rows = .ok contexts := by
  induction rows generalizing row with
  | nil => exact ⟨[], rfl⟩
  | cons cells rest ih =>
    obtain ⟨hcells, hrest⟩ := List.forall_mem_cons.1 h
    obtain ⟨c, hread⟩ := readCells_of_takes hcells.values row {}
    obtain ⟨others, hothers⟩ := ih hrest (row + 1)
    rw [readRows, if_neg (not_not.2 hcells.width), hread, hothers]
    exact ⟨c :: others, rfl⟩

/-! ## Files -/

/-- Whether the file at a path holds a header and rows. -/
def HoldsTable (disk : Disk) (path : Text) (header : List Text) (rows : List (List Text)) : Prop :=
  ∃ text, disk.file? path = some text ∧ Csv.decode text = .ok (header :: rows)

variable {disk : Disk} {path : Text} {header : List Text} {rows : List (List Text)}

/-- A file that is read holds a table of accepted rows, each of which gives a context. -/
theorem table_of_ofFile {contexts : List Context} (h : ofFile disk path = .ok contexts) :
    ∃ header rows, HoldsTable disk path header rows ∧ (∀ cells ∈ rows, IsAccepted header cells) ∧
      List.Forall₂ (Names header) rows contexts := by
  unfold ofFile at h
  split at h
  · simp at h
  next text hread =>
  split at h
  · simp at h
  · simp at h
  next header rows hdecode =>
  exact ⟨header, rows, ⟨text, hread, hdecode⟩, names_of_readRows h⟩

/-- A table of accepted rows is read. -/
theorem ofFile_of_table (h : HoldsTable disk path header rows)
    (haccepted : ∀ cells ∈ rows, IsAccepted header cells) :
    ∃ contexts, ofFile disk path = .ok contexts := by
  obtain ⟨text, hread, hdecode⟩ := h
  simp only [ofFile, hread, hdecode]
  exact readRows_of_isAccepted haccepted 1

theorem HoldsTable.eq (h : HoldsTable disk path header rows) {header' : List Text}
    {rows' : List (List Text)} (h' : HoldsTable disk path header' rows') :
    header = header' ∧ rows = rows' := by
  obtain ⟨text, hread, hdecode⟩ := h
  obtain ⟨text', hread', hdecode'⟩ := h'
  obtain rfl := Option.some.inj (hread.symm.trans hread')
  simpa using hdecode.symm.trans hdecode'

end TradeReentry.Cli.Batch
