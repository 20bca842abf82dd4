import TradeReentry.Proofs.Csv

/-!
# Tables in any layout

`LaidOut t records` says that the lines of a text are some records in their written form. A line ends in a
newline, which may have a carriage return before it, and the last one need not end at all; blank lines may
stand anywhere. Every such text is read as its records (`decode_of_laidOut`).
-/

namespace TradeReentry.Csv

/-- Whether the lines of a text are some records, in order, and blank lines. -/
inductive LaidOut : Text → List (List Text) → Prop where
  | nil : LaidOut [] []
  | blank (ending : LineEnd) {t : Text} {records : List (List Text)} (h : LaidOut t records) :
    LaidOut (ending.text ++ t) records
  | line (cells : List Text) (ending : LineEnd) {t : Text} {records : List (List Text)}
      (h : LaidOut t records) :
    LaidOut (encodeRecord cells ++ (ending.text ++ t)) (cells :: records)
  /-- The last line has no end. -/
  | last (cells : List Text) : LaidOut (encodeRecord cells) [cells]

namespace LaidOut

variable {t before : Text} {records beforeRecords : List (List Text)}

/-- A table after whole lines: the lines so far hold the records so far. -/
theorem decode_append (h : LaidOut t records) (hbefore : Lines before beforeRecords)
    (hrecords : ∀ cells ∈ records, cells ≠ [] ∧ cells ≠ [[]]) :
    decode (before ++ t) = .ok (beforeRecords ++ records) := by
  induction h generalizing before beforeRecords with
  | nil =>
    rw [List.append_nil, List.append_nil]
    exact hbefore.decode_eq
  | blank ending h ih =>
    rw [← List.append_assoc]
    exact ih (hbefore.blank ending) hrecords
  | line cells ending h ih =>
    obtain ⟨⟨hne, hblank⟩, hrest⟩ := List.forall_mem_cons.1 hrecords
    have hnext := ih (hbefore.line hne hblank ending) hrest
    simpa only [List.append_assoc, List.singleton_append] using hnext
  | last cells =>
    obtain ⟨hne, hblank⟩ := hrecords cells (List.mem_singleton_self cells)
    exact hbefore.decode_append hne hblank

end LaidOut

/-- A text that lays out records is read as these records, whatever bytes their cells hold. They have cells, and
none is a single empty one. -/
theorem decode_of_laidOut {t : Text} {records : List (List Text)} (h : LaidOut t records)
    (hrecords : ∀ cells ∈ records, cells ≠ [] ∧ cells ≠ [[]]) : decode t = .ok records :=
  h.decode_append .nil hrecords

/-- Both ends of lines, blank lines, an open last line, and cells with quotes, commas and the bytes of line
ends. -/
theorem decode_of_laidOut_mixedEnds :
    decode "\"a,\"\"b\"\"\r\n\",c\r\n\r\n\n,\"\"\"\"\n,\"\r\"" =
      .ok [["a,\"b\"\r\n", "c"], [[], "\""], [[], "\r"]] := by
  have hlaid : LaidOut _ [["a,\"b\"\r\n", "c"], [[], "\""], [[], "\r"]] :=
    .line _ .crlf (.blank .crlf (.blank .lf (.line _ .lf (.last _))))
  exact decode_of_laidOut hlaid (by decide)

end TradeReentry.Csv
