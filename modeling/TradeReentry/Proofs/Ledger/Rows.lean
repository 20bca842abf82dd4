import Mathlib.Data.List.Perm.Subperm
import TradeReentry.Ledger.Audit
import TradeReentry.Ledger.Writer
import TradeReentry.Proofs.Text.Numerals

/-!
# Rows before they are written and after they are read

A row that is sealed holds its own checksum (`isVerified_sealRow`), and the cells that are written for
it give it back under the header of the schema (`rowOf_cellsOf`).
-/

namespace TradeReentry

open Ascii

/-! ## Checksums -/

theorem Cell.isChecksum_hex (t : Text) : Cell.isChecksum (Digest.Sha256.hex t) = true := by
  have hdigit : ∀ n < 16, Cell.isChecksumDigit (hexDigit n) = true := by decide
  rw [Cell.isChecksum, Digest.Sha256.length_hex, Bool.and_eq_true, List.all_eq_true]
  refine ⟨rfl, ?_⟩
  intro c hc
  rw [Digest.Sha256.hex, Text.toHex, List.mem_flatMap] at hc
  obtain ⟨d, -, hc⟩ := hc
  have hd := d.toNat_lt
  rw [List.mem_cons, List.mem_singleton] at hc
  rcases hc with rfl | rfl
  · exact hdigit _ (by omega)
  · exact hdigit _ (by omega)

/-- The checksum does not cover the cell that holds it. -/
theorem Row.payload_insert (row : Row) (held : Text) :
    Row.payload (row.insert Schema.checksumName held) = row.payload := by
  rw [Row.payload, NameMap.insert, NameMap.filter_insertEntry (by simp) held row.entries,
    ← Row.payload]

theorem Row.checksum_insert (row : Row) (held : Text) :
    Row.checksum (row.insert Schema.checksumName held) = row.checksum := by
  rw [Row.checksum, Row.payload_insert, ← Row.checksum]

namespace Ledger

/-- The cells of a row that was written: its own, and those that the receipt tells. -/
def Receipt.cells (schema : Schema) (receipt : Receipt) (row : Row) : List Text :=
  schema.header.map fun name =>
    if name = Schema.sequenceName then Text.ofNat receipt.sequence.toNat
    else if name = Schema.checksumName then receipt.checksum
    else if name = Schema.timestampName then receipt.timestamp
    else (row.find? name).getD []

theorem find?_sealRow (row : Row) (sequence : UInt64) (now : Instant) (name : Text) :
    (sealRow row sequence now).find? name =
      if name = Schema.sequenceName then some (Text.ofNat sequence.toNat)
      else if name = Schema.checksumName then
        some ((sealRow row sequence now).find? Schema.checksumName |>.getD [])
      else if name = Schema.timestampName then some now.isoText
      else row.find? name := by
  have hnames : Schema.checksumName ≠ Schema.sequenceName ∧
      Schema.timestampName ≠ Schema.sequenceName ∧
      Schema.checksumName ≠ Schema.timestampName := by decide
  simp only [sealRow, NameMap.find?_insert]
  grind

/-- The cells that are written are those that the receipt tells. -/
theorem cellsOf_sealRow {schema : Schema} {row : Row} {sequence : UInt64} {now : Instant}
    {receipt : Receipt} (hsequence : receipt.sequence = sequence)
    (hchecksum : receipt.checksum =
      ((sealRow row sequence now).find? Schema.checksumName).getD [])
    (htimestamp : receipt.timestamp = now.isoText) :
    cellsOf schema (sealRow row sequence now) = receipt.cells schema row := by
  rw [cellsOf, Receipt.cells]
  apply List.map_congr_left
  intro name _
  rw [find?_sealRow, hsequence, hchecksum, htimestamp]
  split
  · rfl
  · split
    · rfl
    · split <;> rfl

theorem isVerified_sealRow (row : Row) (sequence : UInt64) (now : Instant) :
    (sealRow row sequence now).isVerified = true := by
  simp only [Row.isVerified, sealRow, NameMap.find?_insert, if_true, Row.checksum_insert]
  rw [Row.checksum, Cell.isChecksum_hex]
  simp

/-- A record as long as a header is not what a blank line reads as. -/
theorem not_blank_of_length {schema : Schema} (hmany : 2 ≤ schema.header.length) {cells : List Text}
    (hlength : cells.length = schema.header.length) : cells ≠ [] ∧ cells ≠ [[]] := by
  rw [← hlength] at hmany
  constructor
  · rintro rfl
    simp at hmany
  · rintro rfl
    simp at hmany

/-- A row that lacks no column and has as many names as there are columns has no others: neither the
columns nor the names of a row are repeated. -/
theorem mem_recordNames_of_size {schema : Schema} (hnodup : schema.header.Nodup) {row : Row}
    (hpresent : ∀ name ∈ schema.recordNames, row.contains name = true)
    (hsize : row.size = schema.recordNames.length) {name : Text} (h : row.contains name = true) :
    name ∈ schema.recordNames := by
  have hsubset : schema.recordNames ⊆ row.names :=
    fun name hname => (row.mem_names_iff name).2 (hpresent name hname)
  have hlength : row.names.length = schema.recordNames.length := by
    rw [← hsize, NameMap.names, List.length_map]
    rfl
  have hperm : schema.recordNames.Perm row.names :=
    (List.Nodup.subperm (List.Pairwise.filter _ hnodup) hsubset).perm_of_length_le
      (Nat.le_of_eq hlength)
  exact hperm.mem_iff.2 ((row.mem_names_iff name).2 h)

/-- The check is complete: with no column repeated, the names of a row that passes are the columns. -/
theorem checkNames_eq_ok_iff {schema : Schema} (hnodup : schema.header.Nodup) {row : Row} :
    checkNames schema row = .ok () ↔
      (∀ name ∈ schema.recordNames, row.contains name = true) ∧
        ∀ name, row.contains name = true → name ∈ schema.recordNames := by
  unfold checkNames
  cases hmissing : schema.recordNames.find? (!row.contains ·) with
  | some name =>
    have hmem := List.mem_of_find?_eq_some hmissing
    have hnot := List.find?_some hmissing
    simp only [reduceCtorEq, false_iff, not_and]
    intro hall
    simp [hall name hmem] at hnot
  | none =>
    simp only [List.find?_eq_none, Bool.not_eq_true', Bool.not_eq_false] at hmissing
    simp only
    split
    next hsize =>
      exact ⟨fun _ => ⟨hmissing, fun _ => mem_recordNames_of_size hnodup hmissing hsize⟩, fun _ => rfl⟩
    next =>
    cases hundeclared : row.names.find? (!schema.recordNames.contains ·) with
    | some name =>
      have hmem := List.mem_of_find?_eq_some hundeclared
      have hnot := List.find?_some hundeclared
      simp only [reduceCtorEq, false_iff, not_and]
      intro _ hall
      simp [hall name ((row.mem_names_iff name).1 hmem)] at hnot
    | none =>
      simp only [List.find?_eq_none, Bool.not_eq_true', Bool.not_eq_false] at hundeclared
      simp only [true_iff]
      refine ⟨hmissing, ?_⟩
      intro name hname
      simpa using hundeclared name ((row.mem_names_iff name).2 hname)

end Ledger

/-! ## Reading a row -/

namespace Audit

/-- A name holds the cell under its first occurrence in the header. -/
theorem find?_rowOf (header cells : List Text) (name : Text) :
    (rowOf header cells).find? name = NameMap.lookup name (header.zip cells) := by
  have hfold : ∀ (entries : List (Text × Text)) (row : Row),
      (entries.foldl (fun row e => if row.contains e.1 then row else row.insert e.1 e.2) row).find? name =
        (row.find? name).or (NameMap.lookup name entries) := by
    intro entries
    induction entries with
    | nil => simp [NameMap.lookup]
    | cons e rest ih =>
      intro row
      rw [List.foldl_cons, ih, NameMap.lookup, NameMap.lookup, List.find?_cons]
      by_cases hname : e.1 = name
      · subst hname
        cases hfind : row.find? e.1 with
        | some held => simp [NameMap.contains, hfind]
        | none => simp [NameMap.contains, hfind, NameMap.find?_insert]
      · have hsame : (if row.contains e.1 then row else row.insert e.1 e.2).find? name =
            row.find? name := by
          split
          · rfl
          · rw [NameMap.find?_insert, if_neg hname]
        simp [hsame, hname]
  exact (hfold _ _).trans (by rw [NameMap.find?_empty, Option.none_or])

/-- The names of a header, none of which is repeated, hold the cells below them. -/
theorem map_find?_rowOf {header cells : List Text} (hnodup : header.Nodup)
    (hlength : cells.length = header.length) :
    header.map (fun name => ((rowOf header cells).find? name).getD []) = cells := by
  simp only [find?_rowOf]
  induction header generalizing cells with
  | nil => rw [List.map_nil, List.eq_nil_of_length_eq_zero hlength]
  | cons first rest ih =>
    cases cells with
    | nil => simp at hlength
    | cons cell cells =>
      obtain ⟨hfirst, hrest⟩ := List.nodup_cons.1 hnodup
      have htail : rest.map (fun name =>
          (NameMap.lookup name ((first, cell) :: rest.zip cells)).getD []) = cells := by
        refine (List.map_congr_left fun name hname => ?_).trans (ih hrest (Nat.succ.inj hlength))
        have hne : first ≠ name := fun heq => hfirst (heq ▸ hname)
        simp [NameMap.lookup, hne]
      rw [List.zip_cons_cons, List.map_cons, htail]
      simp [NameMap.lookup]

theorem lookup_zip_map (f : Text → Text) (header : List Text) (name : Text) :
    NameMap.lookup name (header.zip (header.map f)) = if name ∈ header then some (f name) else none := by
  induction header with
  | nil => rfl
  | cons first rest ih =>
    rw [List.map_cons, List.zip_cons_cons, NameMap.lookup, List.find?_cons]
    by_cases hname : first = name
    · simp [hname]
    · rw [NameMap.lookup] at ih
      simp [hname, Ne.symm hname, ih]

/-- The cells that were written for a row give it back. -/
theorem rowOf_cellsOf {schema : Schema} (hnodup : schema.header.Nodup)
    (hsystem : ∀ name ∈ Schema.systemNames, name ∈ schema.header) {row : Row}
    (hrow : Ledger.checkNames schema row = .ok ()) (sequence : UInt64) (now : Instant) :
    rowOf schema.header (Ledger.cellsOf schema (Ledger.sealRow row sequence now)) =
      Ledger.sealRow row sequence now := by
  obtain ⟨hpresent, hdeclared⟩ := (Ledger.checkNames_eq_ok_iff hnodup).1 hrow
  apply NameMap.ext_find?
  intro name
  rw [Ledger.cellsOf, find?_rowOf, lookup_zip_map]
  have hnames : name ∉ Schema.systemNames ↔ name ≠ Schema.sequenceName ∧
      name ≠ Schema.checksumName ∧ name ≠ Schema.timestampName := by
    simp [Schema.systemNames, Schema.systemColumns]
  have hmem : name ∉ Schema.systemNames → (name ∈ schema.recordNames ↔ name ∈ schema.header) := by
    intro hname
    simp [Schema.recordNames, hname]
  by_cases hheader : name ∈ schema.header
  · have hheld : ∃ held, (Ledger.sealRow row sequence now).find? name = some held := by
      rw [Ledger.find?_sealRow]
      split
      · exact ⟨_, rfl⟩
      next h1 =>
      split
      · exact ⟨_, rfl⟩
      next h2 =>
      split
      · exact ⟨_, rfl⟩
      next h3 =>
      exact Option.isSome_iff_exists.1 (hpresent name ((hmem (hnames.2 ⟨h1, h2, h3⟩)).2 hheader))
    obtain ⟨held, hheld⟩ := hheld
    simp [hheader, hheld]
  · have hname : name ∉ Schema.systemNames := fun h => hheader (hsystem name h)
    obtain ⟨h1, h2, h3⟩ := hnames.1 hname
    rw [if_neg hheader, Ledger.find?_sealRow, if_neg h1, if_neg h2, if_neg h3]
    cases hfind : row.find? name with
    | none => rfl
    | some held =>
      exact absurd ((hmem hname).1 (hdeclared name (by simp [NameMap.contains, hfind]))) hheader

end Audit

end TradeReentry
