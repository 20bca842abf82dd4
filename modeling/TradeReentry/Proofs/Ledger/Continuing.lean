import TradeReentry.Proofs.Ledger.Audits
import TradeReentry.Proofs.Ledger.Sequences
import TradeReentry.Proofs.Ledger.Steps

/-!
# Continuing a file that passes

A ledger that comes upon a file at the path of its next row continues it. If the file passes, its old rows are
read as before exactly if it does not end in a carriage return, and the new row gets a number above theirs
exactly if `HasNext` holds of them; the file then passes again, with one more valid row (`append_of_passed`).
-/

namespace TradeReentry

open Ascii

namespace Ledger

open Files Audit

variable {schema : Schema} {record : List Text} {records : List (List Text)} {n : Int}

/-! ## Numbers as a ledger reads them -/

/-- A ledger reads the number of a record modulo 2^64, if its magnitude is below that. -/
theorem sequenceOf?_of_number? (h : number? record = some n) {sequence : UInt64}
    (hsequence : sequenceOf? record = some sequence) :
    n.natAbs < 2 ^ 64 ∧ (sequence.toNat : Int) = n % 2 ^ 64 := by
  obtain ⟨cell, hcell, hnumber⟩ := Option.bind_eq_some_iff.1 h
  rw [sequenceOf?, hcell, Option.bind_some] at hsequence
  rw [Cell.number?] at hnumber
  split at hnumber
  case isFalse => simp at hnumber
  next hinteger =>
  rw [Cell.isInteger] at hinteger
  obtain rfl := Option.some.inj hnumber
  by_cases hminus : cell.head? = some minus
  · obtain ⟨digits, rfl⟩ : ∃ digits, cell = minus :: digits := by
      cases cell with
      | nil => simp at hminus
      | cons c digits => exact ⟨digits, by rw [Option.some.inj hminus]⟩
    rw [if_pos hminus, List.tail_cons] at hinteger ⊢
    rw [Text.takeUInt64?_minus hinteger] at hsequence
    split at hsequence
    · next hlt =>
      obtain rfl := Option.some.inj hsequence
      rw [UInt64.toNat_neg, UInt64.toNat_ofNat_of_lt' hlt, UInt64.size]
      omega
    · simp at hsequence
  · rw [if_neg hminus] at hinteger ⊢
    rw [Text.takeUInt64?_digits hinteger] at hsequence
    split at hsequence
    · next hlt =>
      obtain rfl := Option.some.inj hsequence
      rw [UInt64.toNat_ofNat_of_lt' hlt]
      omega
    · simp at hsequence

/-- Whether the number after those of some records, as a ledger counts on, is above them all: it is zero if
one of them is read as 2^64 - 1. -/
def HasNext (records : List (List Text)) : Prop :=
  (∀ record ∈ records, number? record ≠ some (-1) ∧ number? record ≠ some (2 ^ 64 - 1)) ∨
    ∀ record ∈ records, ∀ n, number? record = some n → n < 0

/-- The number that a ledger goes on with is above those of a file that is continued exactly if there is one
left. -/
theorem lt_next_iff (next : UInt64) {path : Text} {highest : UInt64}
    (hnumbers : ∀ record ∈ records, ∃ n, number? record = some n)
    (hhighest : highestSequence path 1 0 records = .ok highest) :
    (∀ record ∈ records, ∀ n, number? record = some n →
        n < ((if next ≤ highest then highest + 1 else next).toNat : Int)) ↔ HasNext records := by
  obtain ⟨-, hall, hsome⟩ := highestSequence_spec hhighest
  have hread : ∀ record ∈ records, ∀ n, number? record = some n →
      n.natAbs < 2 ^ 64 ∧ n % 2 ^ 64 ≤ highest.toNat := by
    intro record hrecord n hn
    obtain ⟨sequence, hsequence, hle⟩ := hall record hrecord
    obtain ⟨hmagnitude, hvalue⟩ := sequenceOf?_of_number? hn hsequence
    rw [UInt64.le_iff_toNat_le] at hle
    omega
  have hbound := highest.toNat_lt
  constructor
  · intro habove
    by_cases hlast : highest.toNat = 2 ^ 64 - 1
    -- the number after the last one is zero, which only negative numbers are below
    · right
      have hzero : highest + 1 = 0 := by
        rw [← UInt64.toNat_inj, UInt64.toNat_add, hlast]
        rfl
      have hle : next ≤ highest := by
        rw [UInt64.le_iff_toNat_le, hlast]
        have := next.toNat_lt
        omega
      intro record hrecord n hn
      have hbelow := habove record hrecord n hn
      rw [if_pos hle, hzero] at hbelow
      exact hbelow
    · left
      intro record hrecord
      constructor
      · intro hn
        obtain ⟨-, hle⟩ := hread record hrecord _ hn
        omega
      · intro hn
        obtain ⟨-, hle⟩ := hread record hrecord _ hn
        omega
  · rintro (hnext | hnegative)
    · have hlast : highest.toNat ≠ 2 ^ 64 - 1 := by
        intro hlast
        rcases hsome with rfl | ⟨record, hrecord, hsequence⟩
        · simp at hlast
        · obtain ⟨n, hn⟩ := hnumbers record hrecord
          obtain ⟨hmagnitude, hvalue⟩ := sequenceOf?_of_number? hn hsequence
          obtain ⟨hminus, hmost⟩ := hnext record hrecord
          rw [hn, Ne, Option.some.injEq] at hminus hmost
          omega
      intro record hrecord n hn
      obtain ⟨hmagnitude, hle⟩ := hread record hrecord n hn
      have habove : highest.toNat < (if next ≤ highest then highest + 1 else next).toNat := by
        split
        · rw [UInt64.toNat_add, UInt64.toNat_one]
          omega
        · next hlt => exact UInt64.lt_iff_toNat_lt.1 (UInt64.not_le.1 hlt)
      omega
    · intro record hrecord n hn
      have := hnegative record hrecord n hn
      omega

/-! ## The file after another row -/

variable {ledger : Ledger} {disk disk' : Disk} {line text : Text} {size : Nat} {log : List Log.Entry}

/-- A line is added to the file in use if that is there. -/
theorem file?_of_writeLine (hfile : disk.file? ledger.currentFile = some text)
    (h : ledger.writeLine disk line = .ok (disk', size, log)) :
    disk'.file? ledger.currentFile = some (continued ledger.schema line (some text)) := by
  obtain ⟨hdirectories, place, content, hplace, hsight, htext, -⟩ := lineWritten_of_writeLine h
  obtain ⟨held, hlookup, -⟩ := Disk.file?_eq_some_iff.1 hfile
  have hslash := (Disk.lookup_eq_file_iff.1 hlookup).2
  rw [hfile] at htext
  refine Disk.file?_eq_some_iff.2 ⟨content, Disk.lookup_eq_file_iff.2 ⟨?_, hslash⟩, htext⟩
  rw [Disk.sightAt_eq_file_iff]
  exact ⟨place, by rw [Disk.place?_congr hdirectories, hplace], hsight⟩

/-- A text to which a line was added reads as records and the new one. These are those that it held before,
exactly if it did not end in a carriage return. -/
theorem exists_decode_continued (schema : Schema) {cells : List Text} (hne : cells ≠ [])
    (hblank : cells ≠ [[]]) (hdecode : Csv.decode text = .ok records) :
    ∃ records', Csv.decode (continued schema (lineOf cells) (some text)) = .ok (records' ++ [cells]) ∧
      (records' = records ↔ text.getLast? ≠ some carriageReturn) := by
  have hline : lineOf cells = Csv.encodeRecord cells ++ [newline] := rfl
  by_cases hend : text.getLast? = some carriageReturn
  -- the newline that ends the last line makes its carriage return a part of the end
  · obtain ⟨records', hlines, hother⟩ := Csv.lines_of_decode_return hdecode hend
    have hopen : (some carriageReturn).any (· ≠ newline) = true := by decide
    have hcontinued := (hlines.concat hne hblank).decode_eq
    rw [← List.append_cons, ← hline] at hcontinued
    refine ⟨records', ?_, by simp [hend, hother]⟩
    rw [continued, hend, if_pos hopen, hcontinued]
  · have hcontinued := ((Csv.lines_of_decode hdecode hend).concat hne hblank).decode_eq
    refine ⟨records, ?_, by simp [hend]⟩
    rw [continued, hline]
    split
    · next hopen =>
      rw [if_pos hopen] at hcontinued
      rw [← hcontinued]
      simp
    · next hclosed =>
      rw [if_neg hclosed, List.append_nil] at hcontinued
      exact hcontinued

/-! ## Passing again -/

/-- Sound rows with one more that was written pass if its number is above theirs. -/
theorem passed_of_concat (hs : schema.Standard) (path : Text)
    (hsound : ∀ record ∈ records, Sound schema record)
    (hchain : (records.filterMap (sequenceIn? schema)).IsChain (· < ·)) {e : Entry}
    (he : e.Genuine schema) (hfits : schema.Fits e.row)
    (habove : ∀ record ∈ records, ∀ n, number? record = some n → n < (e.receipt.sequence.toNat : Int))
    (hdecode : Csv.decode text = .ok (schema.header :: (records ++ [e.cells schema]))) :
    (ofText path text (some schema)).passed = true := by
  refine (ofText_passed_iff hs).2 ⟨_, hdecode, ?_, ?_⟩
  · intro record hrecord
    rcases List.mem_append.1 hrecord with hrecord | hrecord
    · exact hsound record hrecord
    · exact List.mem_singleton.1 hrecord ▸ (sound_cells_iff hs he).2 hfits
  · rw [List.isChain_iff_pairwise] at hchain ⊢
    rw [List.filterMap_append, List.pairwise_append]
    refine ⟨hchain, by simp [sequenceIn?_cells hs he], ?_⟩
    intro sequence hmem sequence' hmem'
    obtain ⟨record, hrecord, hsequence⟩ := List.mem_filterMap.1 hmem
    obtain rfl : sequence' = e.receipt.sequence := by
      simpa [sequenceIn?_cells hs he] using hmem'
    have hvalue := sequenceIn?_eq hs (hsound record hrecord)
    rw [hsequence, Option.map_some] at hvalue
    split at hvalue
    · have hlt := habove record hrecord _ hvalue.symm
      rw [UInt64.lt_iff_toNat_lt]
      omega
    · simp at hvalue

/-- A row that a ledger appends to a file which it has not used yet. -/
theorem written_of_append {now : Instant} (hera : now.InEra) {row : Row} {receipt : Receipt}
    (hkeeps : ledger.keepsFile now = false) (hcurrent : ledger.currentFile ≠ ledger.pathAt now)
    (hfile : disk.file? (ledger.pathAt now) = some text)
    (h : (ledger.append disk now row).result = .ok receipt) :
    ∃ records highest, Csv.decode text = .ok (ledger.schema.header :: records) ∧
      highestSequence (ledger.pathAt now) 1 0 records = .ok highest ∧
      receipt.sequence = (if ledger.nextSequence ≤ highest then highest + 1 else ledger.nextSequence) ∧
      receipt.path = ledger.pathAt now ∧ Entry.Genuine ledger.schema ⟨receipt, row⟩ ∧
      (ledger.append disk now row).state.2.file? (ledger.pathAt now) =
        some (continued ledger.schema (lineOf (receipt.cells ledger.schema row)) (some text)) := by
  cases ledger.append_outcome disk now row with
  | refused e hresult _ => simp [hresult] at h
  | unplaced e hresult _ => simp [hresult] at h
  | unwritten e _ _ _ hresult _ => simp [hresult] at h
  | written chosen disk' size log hnames hchoice hwrite hresult hstate =>
    obtain rfl := Except.ok.inj (hresult.symm.trans h)
    cases hchoice with
    | keep _ hkeep hchosen =>
      rcases hkeep with hkeep | hkeep
      · simp [hkeep] at hkeeps
      · exact absurd hkeep.symm hcurrent
    | create hnone _ =>
      rw [Disk.file?_eq_none_of_not_pathExists hnone] at hfile
      simp at hfile
    | adopt t records highest hread hdecode hhighest hchosen =>
      obtain rfl : text = t := Option.some.inj (hfile.symm.trans hread)
      subst hchosen
      refine ⟨records, highest, hdecode, hhighest, rfl, rfl, ⟨hnames, now, hera, rfl, rfl⟩, ?_⟩
      rw [hstate]
      exact file?_of_writeLine hfile hwrite

/-- A ledger that comes upon a file which passes, at the path of its next row: the old rows are read as before
exactly if the file does not end in a carriage return, and the new number is above theirs exactly if `HasNext`
holds of them. Then the file passes with one more valid row. -/
theorem append_of_passed (hschema : ledger.schema ∈ Schema.builtin) {now : Instant} (hera : now.InEra)
    (hkeeps : ledger.keepsFile now = false) (hcurrent : ledger.currentFile ≠ ledger.pathAt now)
    (hpassed : (Audit.ofFile disk (ledger.pathAt now)).passed = true) {row : Row}
    (hfits : ledger.schema.Fits row) {receipt : Receipt}
    (h : (ledger.append disk now row).result = .ok receipt) :
    ∃ text text' records records',
      disk.file? (ledger.pathAt now) = some text ∧
      (ledger.append disk now row).state.2.file? (ledger.pathAt now) = some text' ∧
      receipt.path = ledger.pathAt now ∧ text <+: text' ∧
      Csv.decode text = .ok (ledger.schema.header :: records) ∧
      Csv.decode text' = .ok (records' ++ [receipt.cells ledger.schema row]) ∧
      (records' = ledger.schema.header :: records ↔ text.getLast? ≠ some carriageReturn) ∧
      ((∀ record ∈ records, ∀ n, number? record = some n → n < (receipt.sequence.toNat : Int)) ↔
        HasNext records) ∧
      (text.getLast? ≠ some carriageReturn → HasNext records →
        (Audit.ofFile (ledger.append disk now row).state.2 (ledger.pathAt now)).passed = true ∧
        (Audit.ofFile (ledger.append disk now row).state.2 (ledger.pathAt now)).validRows =
          (Audit.ofFile disk (ledger.pathAt now)).validRows + 1) := by
  have hs := Schema.standard_of_mem_builtin hschema
  have hname : FileName.recordType? (Path.fileName (ledger.pathAt now)) = some ledger.schema.recordType := by
    have hrecord := FileName.recordType?_ofInstant hs.named hera
    rw [pathAt, Path.fileName_join (FileName.isName_of_recordType? hs.plain hrecord).not_slash, hrecord]
  obtain ⟨text, hfile⟩ := exists_file?_of_passed hpassed
  rw [ofFile_of_recordType? hs hname hfile] at hpassed ⊢
  obtain ⟨records, hdecode, hsound, hchain⟩ := (ofText_passed_iff hs).1 hpassed
  obtain ⟨records', highest, hdecode', hhighest, hsequence, hpath, hgenuine, hfile'⟩ :=
    written_of_append hera hkeeps hcurrent hfile h
  obtain rfl : records = records' := by
    rw [hdecode, Except.ok.injEq, List.cons.injEq] at hdecode'
    exact hdecode'.2
  obtain ⟨hne, hblank⟩ : receipt.cells ledger.schema row ≠ [] ∧ receipt.cells ledger.schema row ≠ [[]] :=
    not_blank_of_length hs.many (Entry.length_cells ledger.schema ⟨receipt, row⟩)
  obtain ⟨after, hafter, hkept⟩ := exists_decode_continued ledger.schema hne hblank hdecode
  have habove := lt_next_iff ledger.nextSequence
    (fun record hrecord => (hsound record hrecord).exists_number hs) hhighest
  rw [← hsequence] at habove
  refine ⟨text, _, records, after, hfile, hfile', hpath, prefix_continued .., hdecode, hafter, hkept,
    habove, ?_⟩
  intro hend hnext
  rw [hkept.2 hend] at hafter
  have hpassed' := passed_of_concat hs (ledger.pathAt now) hsound hchain hgenuine hfits
    (habove.2 hnext) hafter
  rw [ofFile_of_recordType? hs hname hfile']
  refine ⟨hpassed', ?_⟩
  show (ofText _ _ _).validRows = (ofText _ _ _).validRows + 1
  rw [validRows_of_passed hafter hpassed', validRows_of_passed hdecode hpassed]
  exact List.length_append

/-- A file that no ledger wrote is continued after its highest number and passes. -/
theorem append_of_passed_foreignDisk :
    let row : Row := .ofList [
      ("trade_id", "T1"), ("hybrid_id", "W1_QUICK"), ("symbol", "EURUSD"), ("outcome_class", "WIN"),
      ("duration_class", "QUICK"), ("reentry_action", "R1"), ("parameter_set_id", "P1"),
      ("resolved_tier", "EXACT"), ("chain_position", "R1"), ("lot_size", "0.1"),
      ("stop_loss", "20"), ("take_profit", "40")]
    let ledger : Ledger := { settings := { outputDirectory := "d" }, schema := .reentryDecisions }
    let now : Instant := 1768471200000
    let step := ledger.append foreignDisk now row
    ∃ receipt, step.result = .ok receipt ∧ receipt.sequence = 9 ∧
      (Audit.ofFile step.state.2 (ledger.pathAt now)).passed = true ∧
      (Audit.ofFile step.state.2 (ledger.pathAt now)).validRows =
        (Audit.ofFile foreignDisk (ledger.pathAt now)).validRows + 1 := by
  intro row ledger now step
  have hpath : ledger.pathAt now = "d/reentry_decisions_20260115_100000.csv" := by decide +kernel
  have hpassed : (Audit.ofFile foreignDisk (ledger.pathAt now)).passed = true := by
    rw [hpath]
    exact passed_foreignDisk
  have hsequence : step.result.map (·.sequence) = .ok 9 := by decide +kernel
  obtain ⟨receipt, hresult, hnine⟩ := map_eq_ok_iff.1 hsequence
  obtain ⟨text, -, records, -, hfile, -, -, -, hdecode, -, -, -, hpasses⟩ :=
    append_of_passed (by decide) (by decide +kernel) (by decide +kernel) (by rw [hpath]; decide) hpassed
      (by decide +kernel) hresult
  have hforeign : foreignDisk.file? (ledger.pathAt now) = some foreignText := by decide +kernel
  obtain rfl := Option.some.inj (hfile.symm.trans hforeign)
  have hnumbers : (Csv.decode foreignText).map (fun records => records.tail.map number?) =
      .ok [some 7, some 8] := by decide +kernel
  rw [hdecode] at hnumbers
  have hnext : HasNext records := by
    refine .inl fun record hrecord => ?_
    have hmem : number? record ∈ records.map number? := List.mem_map_of_mem hrecord
    rw [show records.map number? = [some 7, some 8] from Except.ok.inj hnumbers] at hmem
    simp only [List.mem_cons, List.not_mem_nil, or_false] at hmem
    rcases hmem with heq | heq <;> simp [heq]
  exact ⟨receipt, hresult, hnine, hpasses (by decide +kernel) hnext⟩

end Ledger

end TradeReentry
