import TradeReentry.Proofs.Ledger.Passing
import TradeReentry.Proofs.Results

/-!
# The sequence numbers of a file that passes

Every row of such a file has an integer as its sequence number. An audit compares those without a minus sign
and below 2^64, and these ascend strictly (`ascending_of_passed`).
-/

namespace TradeReentry

open Ascii

/-- The integer that a cell is: decimal digits after an optional minus sign. -/
def Cell.number? (t : Text) : Option Int :=
  if isInteger t then
    some (if t.head? = some minus then -(Text.digitsValue t.tail : Int) else Text.digitsValue t)
  else none

namespace Audit

/-- The sequence number of a record as an integer. -/
def number? (record : List Text) : Option Int := record.head?.bind Cell.number?

/-- Whether the sequence number of a record has no minus sign and is below 2^64, so that an audit compares
it. -/
def isCompared (record : List Text) : Bool :=
  record.head?.any fun cell => cell.head? ≠ some minus && Text.digitsValue cell < 2 ^ 64

variable {schema : Schema} {cells : List Text} {rows : List (List Text)}

theorem Sound.exists_number (hs : schema.Standard) (h : Sound schema cells) :
    ∃ n, number? cells = some n := by
  obtain ⟨cell, hcell, hinteger⟩ := h.first hs
  exact ⟨_, by rw [number?, hcell, Option.bind_some, Cell.number?, if_pos hinteger]⟩

/-- The number that an audit compares is the sequence number of the record. -/
theorem sequenceIn?_eq (hs : schema.Standard) (h : Sound schema cells) :
    (sequenceIn? schema cells).map (fun sequence => (sequence.toNat : Int)) =
      if isCompared cells then number? cells else none := by
  obtain ⟨cell, hcell, hinteger⟩ := h.first hs
  have hfind : (rowOf schema.header cells).find? Schema.sequenceName = cells.head? :=
    find?_rowOf_first hs.first
  rw [sequenceIn?, sequence?, hfind, isCompared, number?, hcell, Option.bind_some, Cell.number?,
    if_pos hinteger]
  by_cases hminus : cell.head? = some minus
  · simp [hminus]
  · rw [Cell.isInteger, if_neg hminus] at hinteger
    simp only [hminus, if_false, Text.takeUInt64?_digits hinteger]
    by_cases hlt : Text.digitsValue cell < 2 ^ 64
    · simp [hminus, hlt, UInt64.toNat_ofNat_of_lt' hlt]
    · simp [hminus, hlt]

/-- The numbers that an audit compares are the sequence numbers of the records that are compared. -/
theorem map_sequenceIn? (hs : schema.Standard) (h : ∀ cells ∈ rows, Sound schema cells) :
    (rows.filterMap (sequenceIn? schema)).map (fun sequence => (sequence.toNat : Int)) =
      (rows.filter isCompared).filterMap number? := by
  rw [List.map_filterMap, List.filterMap_filter]
  exact List.filterMap_congr fun cells hcells => by simp [sequenceIn?_eq hs (h cells hcells)]

theorem pairwise_number?_iff (hs : schema.Standard) (h : ∀ cells ∈ rows, Sound schema cells) :
    ((rows.filter isCompared).filterMap number?).Pairwise (· < ·) ↔
      (rows.filterMap (sequenceIn? schema)).IsChain (· < ·) := by
  rw [← map_sequenceIn? hs h, List.pairwise_map, List.isChain_iff_pairwise]
  simp only [Int.ofNat_lt, UInt64.lt_iff_toNat_lt]

/-- The sequence numbers of a file that passes, whether it was audited under a schema or under the one that its
name tells: every row has one, those that are compared ascend, and so do all if none has a minus sign or
is 2^64 or more. -/
theorem ascending_of_passed (hschema : schema ∈ Schema.builtin) {disk : Disk} {path : Text}
    (hpassed : (ofFileAs disk path schema).passed = true ∨
      Ledger.FileName.recordType? (Files.Path.fileName path) = some schema.recordType ∧
        (ofFile disk path).passed = true) :
    ∃ text records, disk.file? path = some text ∧ Csv.decode text = .ok (schema.header :: records) ∧
      (∀ record ∈ records, ∃ n, number? record = some n) ∧
      ((records.filter isCompared).filterMap number?).Pairwise (· < ·) ∧
      ((∀ record ∈ records, isCompared record = true) →
        (records.filterMap number?).Pairwise (· < ·)) := by
  have hs := Schema.standard_of_mem_builtin hschema
  obtain ⟨text, hread, htext⟩ : ∃ text, disk.file? path = some text ∧
      (ofText path text (some schema)).passed = true := by
    rcases hpassed with hpassed | ⟨hpath, hpassed⟩
    · exact exists_ofText_of_ofFileAs hpassed
    · obtain ⟨text, hread⟩ := exists_file?_of_passed hpassed
      rw [ofFile_of_recordType? hs hpath hread] at hpassed
      exact ⟨text, hread, hpassed⟩
  obtain ⟨records, hdecode, hsound, hchain⟩ := (ofText_passed_iff hs).1 htext
  have hascending := (pairwise_number?_iff hs hsound).2 hchain
  refine ⟨text, records, hread, hdecode, ?_, hascending, ?_⟩
  · intro record hrecord
    exact (hsound record hrecord).exists_number hs
  · intro hcompared
    rw [List.filter_eq_self.2 hcompared] at hascending
    exact hascending

/-- A text that no ledger wrote: a number with zeros before it, a cell in quotes, line ends with carriage
returns, a blank line, and no end of the last line. -/
def foreignText : Text :=
  Csv.encodeRecord Schema.reentryDecisions.header ++ "\r\n" ++
    "007," ++ "986e34f15ab560d99e9ef6cc279fbfd7" ++ "e25ff543a6256f539ddef8f9bdb06dc5" ++
    ",2026-01-15T09:00:00.000Z,\"T,1\",H,EURUSD," ++ "WIN,QUICK,R1,p,GLOBAL,O,0.1,20,40\r\n" ++
    "\r\n" ++
    "8," ++ "a203b78a1d9e90809f3e5b988bda438a" ++ "0616281a76114d42e80462a794b9b738" ++
    ",2026-01-15T09:00:00.000Z,T2,H,EURUSD," ++ "WIN,QUICK,R1,p,GLOBAL,O,0.1,20,40"

/-- A disk with the text in a ledger file. -/
def foreignDisk : Disk :=
  { working := .directory "d"
      (.file "reentry_decisions_20260115_100000.csv" (.ofText foreignText) .empty) .empty }

theorem passed_foreignDisk :
    (ofFile foreignDisk "d/reentry_decisions_20260115_100000.csv").passed = true := by decide +kernel

theorem ascending_of_passed_foreignDisk :
    ∃ text records, foreignDisk.file? "d/reentry_decisions_20260115_100000.csv" = some text ∧
      Csv.decode text = .ok (Schema.reentryDecisions.header :: records) ∧
      records.filterMap number? = [7, 8] ∧ (records.filterMap number?).Pairwise (· < ·) := by
  have hbuiltin : Schema.reentryDecisions ∈ Schema.builtin := by decide
  obtain ⟨text, records, hread, hdecode, -, -, hall⟩ :=
    ascending_of_passed hbuiltin (.inr ⟨by decide +kernel, passed_foreignDisk⟩)
  have hforeign : foreignDisk.file? "d/reentry_decisions_20260115_100000.csv" = some foreignText := by
    decide +kernel
  obtain rfl := Option.some.inj (hread.symm.trans hforeign)
  have hnumbers : (Csv.decode foreignText).map (fun records => records.tail.filterMap number?) =
      .ok [7, 8] := by decide +kernel
  have hcompared : (Csv.decode foreignText).map (fun records => records.tail.all isCompared) =
      .ok true := by decide +kernel
  rw [hdecode] at hnumbers hcompared
  refine ⟨foreignText, records, hread, hdecode, Except.ok.inj hnumbers, hall ?_⟩
  exact List.all_eq_true.1 (Except.ok.inj hcompared)

end Audit

end TradeReentry
