import TradeReentry.Csv
import TradeReentry.Proofs.Text.Pieces

/-!
# Reading what was written

`Csv.Lines t records` says that a text is a whole number of lines which hold some records. It holds of
the empty text, a written record adds one line to it (`Lines.concat`), and reading the text gives the
records (`Lines.decode_eq`). A table that is written with line ends between its records is read back
(`decode_encode`).
-/

namespace TradeReentry.Csv

open Ascii

namespace Progress

/-- Whether the next byte starts a cell. -/
def AtCell (p : Progress) : Prop := p.mode = .plain ∧ p.cell = [] ∧ p.cellQuoted = false

/-- Whether the open cell can end here. -/
def Closable (p : Progress) : Prop := p.mode = .plain ∨ p.mode = .quoteSeen

theorem plainByte_comma (p : Progress) : p.plainByte comma = p.endCell := by
  have h : comma ≠ doubleQuote := by decide
  simp [plainByte, h]

theorem plainByte_newline (p : Progress) :
    p.plainByte newline = { p.endRecord with line := p.line + 1 } := by
  have h : newline ≠ doubleQuote ∧ newline ≠ comma ∧ newline ≠ carriageReturn := by decide
  simp [plainByte, h]

theorem step_of_closable {p : Progress} (h : p.Closable) {c : UInt8} (hc : c ≠ doubleQuote) :
    p.step c = { p with mode := .plain }.plainByte c := by
  rcases h with h | h
  · simp only [step, h]
    rw [← h]
  · simp [step, h, hc]

/-- A line end outside quotes closes the open record. -/
theorem step_newline {p : Progress} (h : p.mode ≠ .quoted) :
    p.step newline = { records := p.endRecord.records, line := p.line + 1 } := by
  have hquote : newline ≠ doubleQuote := by decide
  cases hmode : p.mode with
  | quoted => exact absurd hmode h
  | plain => simp [step, plainByte_newline, endRecord, hmode]
  | quoteSeen => simp [step, plainByte_newline, endRecord, isBlank, hmode, hquote]
  | returnSeen => simp [step, plainByte_newline, endRecord, isBlank, hmode]

theorem Closable.ne_quoted {p : Progress} (h : p.Closable) : p.mode ≠ .quoted := by
  rcases h with h | h <;> simp [h]

theorem Closable.finish_eq {p : Progress} (h : p.Closable) :
    p.finish = .ok p.endRecord.records.reverse := by
  rcases h with h | h <;> simp [finish, h]

end Progress

theorem isSpecial_eq_false {c : UInt8} (h : isSpecial c = false) :
    c ≠ comma ∧ c ≠ doubleQuote ∧ c ≠ carriageReturn ∧ c ≠ newline := by
  simpa [isSpecial, and_assoc] using h

/-- Bytes that need no quotes join the open cell. -/
theorem decodeFrom_plain {t : Text} (ht : ∀ c ∈ t, isSpecial c = false) (p : Progress)
    (hp : p.mode = .plain) : decodeFrom p t = { p with cell := t.reverse ++ p.cell } := by
  induction t generalizing p with
  | nil => rfl
  | cons c t ih =>
    obtain ⟨hcomma, hquote, hreturn, hnewline⟩ :=
      isSpecial_eq_false (ht c List.mem_cons_self)
    have hstep : p.step c = p.push c := by
      simp [Progress.step, hp, Progress.plainByte, hcomma, hquote, hreturn, hnewline]
    show decodeFrom (p.step c) t = _
    rw [hstep, ih (fun d hd => ht d (List.mem_cons_of_mem c hd)) (p.push c) hp]
    simp [Progress.push]

/-- Between quotes every byte joins the open cell, quotes being written twice. -/
theorem decodeFrom_quoted (t : Text) (p : Progress) (hp : p.mode = .quoted) :
    ∃ line, decodeFrom p (t.flatMap doubleQuotes) =
      { p with cell := t.reverse ++ p.cell, line } := by
  induction t generalizing p with
  | nil => exact ⟨p.line, rfl⟩
  | cons c t ih =>
    have hstep : ∃ line, decodeFrom p (doubleQuotes c) = { p.push c with line } := by
      by_cases hc : c = doubleQuote
      · exact ⟨p.line, by simp [decodeFrom, doubleQuotes, hc, Progress.step, hp, Progress.push]⟩
      · exact ⟨_, by simp [decodeFrom, doubleQuotes, hc, Progress.step, hp]; rfl⟩
    obtain ⟨line, hline⟩ := hstep
    obtain ⟨line', hline'⟩ := ih { p.push c with line } hp
    refine ⟨line', ?_⟩
    rw [List.flatMap_cons, decodeFrom_append, hline, hline']
    simp [Progress.push]

/-- A written cell is read back as the open cell, which can then end. -/
theorem decodeFrom_encodeCell (cell : Text) {p : Progress} (hp : p.AtCell) :
    ∃ q : Progress, decodeFrom p (encodeCell cell) = q ∧ q.Closable ∧ q.cell = cell.reverse ∧
      q.cells = p.cells ∧ q.records = p.records := by
  obtain ⟨hmode, hcell, hquoted⟩ := hp
  unfold encodeCell
  split
  · obtain ⟨line, hline⟩ := decodeFrom_quoted cell
      { p with mode := .quoted, cellQuoted := true } rfl
    refine ⟨_, rfl, ?_⟩
    have hopen : p.step doubleQuote = { p with mode := .quoted, cellQuoted := true } := by
      simp [Progress.step, hmode, Progress.plainByte, hcell, hquoted]
    rw [List.cons_append, decodeFrom, List.foldl_cons, hopen, ← decodeFrom, decodeFrom_append,
      hline]
    simp [decodeFrom, Progress.step, Progress.Closable, hcell]
  · next hspecial =>
    have hplain : ∀ c ∈ cell, isSpecial c = false := by simpa using hspecial
    refine ⟨_, decodeFrom_plain hplain p hmode, .inl hmode, ?_, rfl, rfl⟩
    simp [hcell]

/-- A written record is read back as the open record, which can then end. A record of one empty cell would be
blank. -/
theorem decodeFrom_encodeRecord {cells : List Text} (hne : cells ≠ []) {p : Progress}
    (hp : p.AtCell) (hblank : p.cells ≠ [] ∨ cells ≠ [[]]) :
    (decodeFrom p (encodeRecord cells)).Closable ∧
      (decodeFrom p (encodeRecord cells)).endRecord.records = (p.cells.reverse ++ cells) :: p.records := by
  induction cells generalizing p with
  | nil => exact absurd rfl hne
  | cons cell rest ih =>
    obtain ⟨q, hq, hclosable, hcell, hcells, hrecords⟩ := decodeFrom_encodeCell cell hp
    cases rest with
    | nil =>
      have hnot : q.isBlank = false := by
        simp only [Progress.isBlank, hcells, hcell, Bool.and_eq_false_iff]
        rcases hblank with hblank | hblank
        · exact .inl (.inl (by simpa using hblank))
        · exact .inl (.inr (by simpa using hblank))
      have hwhole : decodeFrom p (encodeRecord [cell]) = q := hq
      rw [hwhole, Progress.endRecord, hnot]
      exact ⟨hclosable, by simp [hcells, hcell, hrecords]⟩
    | cons next rest =>
      have hstep : q.step comma =
          { p with cells := cell :: p.cells, line := q.line } := by
        obtain ⟨hmode, hpcell, hquoted⟩ := hp
        rw [Progress.step_of_closable hclosable (by decide), Progress.plainByte_comma,
          Progress.endCell]
        simp [hcell, hcells, hrecords, hmode, hpcell, hquoted]
      have hnext : ({ p with cells := cell :: p.cells, line := q.line } : Progress).AtCell := hp
      have hjoin : encodeRecord (cell :: next :: rest) =
          encodeCell cell ++ comma :: encodeRecord (next :: rest) := by
        have hc : ("," : Text) = [comma] := rfl
        simp [encodeRecord, Text.join, hc]
      have hwhole : decodeFrom p (encodeRecord (cell :: next :: rest)) =
          decodeFrom (q.step comma) (encodeRecord (next :: rest)) := by
        rw [hjoin, decodeFrom_append, hq]
        rfl
      rw [hwhole, hstep]
      simpa using ih (by simp) hnext (.inl (by simp))

/-! ## Ends of lines -/

/-- How a line ends. -/
inductive LineEnd where
  | lf
  | crlf
deriving DecidableEq, Repr

def LineEnd.text : LineEnd → Text
  | .lf => [newline]
  | .crlf => [carriageReturn, newline]

/-- Either end of a line closes the open record and adds nothing to its last cell. -/
theorem decodeFrom_lineEnd {p : Progress} (h : p.Closable) (ending : LineEnd) :
    decodeFrom p ending.text = { records := p.endRecord.records, line := p.line + 1 } := by
  cases ending with
  | lf => exact Progress.step_newline h.ne_quoted
  | crlf =>
    have hbytes : carriageReturn ≠ doubleQuote ∧ carriageReturn ≠ comma := by decide
    have hreturn : p.step carriageReturn = { p with mode := .returnSeen } := by
      rw [Progress.step_of_closable h hbytes.1]
      simp [Progress.plainByte, hbytes]
    have hopen : (p.step carriageReturn).mode ≠ .quoted := by simp [hreturn]
    show (p.step carriageReturn).step newline = _
    rw [Progress.step_newline hopen, hreturn]
    rfl

/-! ## Whole lines -/

/-- Whether a text is a whole number of lines, which hold some records. -/
def Lines (t : Text) (records : List (List Text)) : Prop :=
  ∃ line, decodeFrom {} t = { records := records.reverse, line }

namespace Lines

variable {t : Text} {records : List (List Text)}

theorem nil : Lines [] [] := ⟨1, rfl⟩

/-- A blank line holds no record. -/
theorem blank (h : Lines t records) (ending : LineEnd) : Lines (t ++ ending.text) records := by
  obtain ⟨line, hline⟩ := h
  have hstart : ({ records := records.reverse, line } : Progress).Closable := .inl rfl
  refine ⟨line + 1, ?_⟩
  rw [decodeFrom_append, hline, decodeFrom_lineEnd hstart]
  rfl

/-- A written record is one more line, whichever way the line ends. -/
theorem line (h : Lines t records) {cells : List Text} (hne : cells ≠ []) (hblank : cells ≠ [[]])
    (ending : LineEnd) : Lines (t ++ (encodeRecord cells ++ ending.text)) (records ++ [cells]) := by
  obtain ⟨line, hline⟩ := h
  have hstart : ({ records := records.reverse, line } : Progress).AtCell := ⟨rfl, rfl, rfl⟩
  obtain ⟨hclosable, hrecords⟩ := decodeFrom_encodeRecord hne hstart (.inr hblank)
  refine ⟨(decodeFrom { records := records.reverse, line } (encodeRecord cells)).line + 1, ?_⟩
  rw [decodeFrom_append, hline, decodeFrom_append, decodeFrom_lineEnd hclosable, hrecords]
  simp

theorem concat (h : Lines t records) {cells : List Text} (hne : cells ≠ []) (hblank : cells ≠ [[]]) :
    Lines (t ++ (encodeRecord cells ++ [newline])) (records ++ [cells]) := h.line hne hblank .lf

/-- A written record is one more record also without an end of its line. -/
theorem decode_append (h : Lines t records) {cells : List Text} (hne : cells ≠ [])
    (hblank : cells ≠ [[]]) : decode (t ++ encodeRecord cells) = .ok (records ++ [cells]) := by
  obtain ⟨line, hline⟩ := h
  have hstart : ({ records := records.reverse, line } : Progress).AtCell := ⟨rfl, rfl, rfl⟩
  obtain ⟨hclosable, hrecords⟩ := decodeFrom_encodeRecord hne hstart (.inr hblank)
  rw [decode, decodeFrom_append, hline, hclosable.finish_eq, hrecords]
  simp

/-- Written records are more lines. -/
theorem append (h : Lines t records) {more : List (List Text)}
    (hmore : ∀ cells ∈ more, cells ≠ [] ∧ cells ≠ [[]]) :
    Lines (t ++ more.flatMap fun cells => encodeRecord cells ++ [newline]) (records ++ more) := by
  induction more generalizing t records with
  | nil => simpa using h
  | cons cells rest ih =>
    obtain ⟨⟨hne, hblank⟩, hrest⟩ := List.forall_mem_cons.1 hmore
    simpa using ih (h.concat hne hblank) hrest

/-- Only the end of a line leaves no line open. -/
theorem getLast?_eq (h : Lines t records) : t.getLast?.any (· ≠ newline) = false := by
  obtain ⟨line, hline⟩ := h
  rcases List.eq_nil_or_concat t with rfl | ⟨before, c, rfl⟩
  · rfl
  · have hstep : (decodeFrom {} before).step c = { records := records.reverse, line } := by
      rw [← hline, List.concat_eq_append, decodeFrom_append]
      rfl
    by_cases hc : c = newline
    · simp [hc]
    · generalize decodeFrom {} before = p at hstep
      exfalso
      unfold Progress.step at hstep
      split at hstep <;>
        grind [Progress.plainByte, Progress.push, Progress.endCell, Progress.endRecord]

theorem decode_eq (h : Lines t records) : decode t = .ok records := by
  obtain ⟨line, hline⟩ := h
  rw [decode, hline]
  simp [Progress.finish, Progress.endRecord, Progress.isBlank]

end Lines

/-! ## Tables -/

/-- The lines of a table, with line ends between them. -/
def encode (records : List (List Text)) : Text := Text.join "\n" (records.map encodeRecord)

/-- A written table is read back. Its records have cells, and none is a single empty one. -/
theorem decode_encode {records : List (List Text)} (h : ∀ cells ∈ records, cells ≠ [] ∧ cells ≠ [[]]) :
    decode (encode records) = .ok records := by
  rcases List.eq_nil_or_concat records with rfl | ⟨before, last, rfl⟩
  · rfl
  rw [List.concat_eq_append] at h ⊢
  obtain ⟨hbefore, hlast⟩ := List.forall_mem_append.1 h
  obtain ⟨hne, hblank⟩ := hlast last (List.mem_singleton_self last)
  have htext : encode (before ++ [last]) =
      [] ++ (before.flatMap fun cells => encodeRecord cells ++ [newline]) ++ encodeRecord last := by
    rw [encode, Text.join_eq, List.map_append, List.map_singleton, Text.intercalate_concat,
      List.flatMap_map, List.nil_append]
    rfl
  rw [htext]
  exact (Lines.nil.append hbefore).decode_append hne hblank

/-! ## Ending the last line -/

namespace Progress

/-- Only a carriage return leaves the line end open. -/
theorem eq_return_of_step {p : Progress} {c : UInt8} (h : (p.step c).mode = .returnSeen) :
    c = carriageReturn := by
  unfold step at h
  split at h <;> grind [plainByte, push, endCell, endRecord]

theorem quoted_of_step_newline {p : Progress} (h : p.mode = .quoted) :
    (p.step newline).mode = .quoted := by
  have hquote : newline ≠ doubleQuote := by decide
  simp [step, h, hquote, push]

theorem step_return {p : Progress} : (p.step carriageReturn).mode = .returnSeen ∨
    (p.step carriageReturn).mode = .quoted := by
  have hbytes : carriageReturn ≠ doubleQuote ∧ carriageReturn ≠ comma ∧ carriageReturn ≠ newline := by
    decide
  cases hmode : p.mode <;> simp [step, hmode, hbytes, plainByte, push]

theorem mode_ne_quoted_of_finish {p : Progress} {records : List (List Text)}
    (h : p.finish = .ok records) : p.mode ≠ .quoted := by
  intro hmode
  simp [finish, hmode] at h

theorem finish_of_ne_returnSeen {p : Progress} {records : List (List Text)} (h : p.finish = .ok records)
    (hmode : p.mode ≠ .returnSeen) : p.endRecord.records.reverse = records := by
  unfold finish at h
  split at h
  · simp at h
  · contradiction
  · exact Except.ok.inj h
  · exact Except.ok.inj h

/-- A carriage return at the end of a text belongs to the last cell. -/
theorem finish_of_returnSeen {p : Progress} {records : List (List Text)} (h : p.finish = .ok records)
    (hmode : p.mode = .returnSeen) : p.endRecord.records.reverse ≠ records := by
  simp only [finish, hmode, Except.ok.injEq] at h
  have hblank : (p.push carriageReturn).isBlank = false := by simp [isBlank, push]
  rw [← h, Ne, List.reverse_inj, endRecord, endRecord, hblank]
  cases hp : p.isBlank with
  | true => simp [push]
  | false => simp [push]

end Progress

variable {t : Text} {records : List (List Text)}

/-- The last line of a text that is read can be ended, unless a carriage return stands there. -/
theorem lines_of_decode (h : decode t = .ok records) (hend : t.getLast? ≠ some carriageReturn) :
    Lines (t ++ if t.getLast?.any (· ≠ newline) then [newline] else []) records := by
  rcases List.eq_nil_or_concat t with rfl | ⟨before, c, rfl⟩
  · obtain rfl := Except.ok.inj h
    exact .nil
  rw [List.concat_eq_append] at h hend ⊢
  rw [List.getLast?_concat] at hend ⊢
  have hlast : decodeFrom {} (before ++ [c]) = (decodeFrom {} before).step c := decodeFrom_append ..
  rw [decode, hlast] at h
  generalize decodeFrom {} before = p at h hlast
  have hquoted := Progress.mode_ne_quoted_of_finish h
  have hrecords := Progress.finish_of_ne_returnSeen h fun hmode => by
    simp [Progress.eq_return_of_step hmode] at hend
  by_cases hc : c = newline
  · subst hc
    have hstep := Progress.step_newline (mt Progress.quoted_of_step_newline hquoted)
    rw [hstep] at hrecords hlast
    have hsame : p.endRecord.records.reverse = records := hrecords
    exact ⟨p.line + 1, by simp [hlast, ← hsame]⟩
  · refine ⟨(p.step c).line + 1, ?_⟩
    have hopen : (some c).any (· ≠ newline) = true := by simp [hc]
    rw [if_pos hopen, decodeFrom_append, hlast, ← hrecords, List.reverse_reverse]
    exact Progress.step_newline hquoted

/-- A line end after a carriage return takes it away from the last cell. -/
theorem lines_of_decode_return (h : decode t = .ok records)
    (hend : t.getLast? = some carriageReturn) :
    ∃ records', Lines (t ++ [newline]) records' ∧ records' ≠ records := by
  obtain ⟨before, rfl⟩ := List.getLast?_eq_some_iff.1 hend
  have hlast : decodeFrom {} (before ++ [carriageReturn]) =
      (decodeFrom {} before).step carriageReturn := decodeFrom_append ..
  rw [decode, hlast] at h
  generalize decodeFrom {} before = p at h hlast
  have hquoted := Progress.mode_ne_quoted_of_finish h
  have hreturn := Progress.step_return.resolve_right hquoted
  refine ⟨(p.step carriageReturn).endRecord.records.reverse, ?_, Progress.finish_of_returnSeen h hreturn⟩
  refine ⟨(p.step carriageReturn).line + 1, ?_⟩
  rw [decodeFrom_append, hlast, List.reverse_reverse]
  exact Progress.step_newline hquoted

end TradeReentry.Csv
