import TradeReentry.Proofs.Files.Paths
import TradeReentry.Proofs.Time.Views

/-!
# The names of ledger files

A name that tells a record type is the record type and a stamp (`recordType?_eq_some`), so that it is
the name of a file and never that of a file which is not finished yet (`ne_append_tmp`).
-/

namespace TradeReentry

namespace Ledger.FileName

open Ascii Files

theorem recordType?_eq_some {name recordType : Text} (h : recordType? name = some recordType) :
    ∃ suffix, name = recordType ++ suffix ∧ isStampSuffix suffix = true ∧ suffix.length = 20 ∧
      recordType ≠ [] := by
  rw [recordType?] at h
  split at h
  · next hname =>
    rw [Bool.and_eq_true, decide_eq_true_eq] at hname
    obtain rfl := Option.some.inj h
    refine ⟨name.drop (name.length - 20), (List.take_append_drop _ _).symm, hname.2, ?_, ?_⟩
    · rw [List.length_drop]
      omega
    · rw [← List.length_pos_iff, List.length_take]
      omega
  · simp at h

/-- The bytes of the end of a file name. -/
theorem mem_stampSuffix {t : Text} (h : isStampSuffix t = true) {c : UInt8} (hc : c ∈ t) :
    c = underscore ∨ isDigit c = true ∨ c ∈ (".csv" : Text) := by
  have hu : ("_" : Text) = [underscore] := rfl
  simp only [isStampSuffix, Bool.and_eq_true, decide_eq_true_eq, List.all_eq_true] at h
  obtain ⟨⟨⟨⟨hfirst, hdate⟩, hsecond⟩, hclock⟩, hend⟩ := h
  rw [← List.take_append_drop 1 t, List.mem_append] at hc
  rcases hc with hc | hc
  · rw [hfirst, hu, List.mem_singleton] at hc
    exact .inl hc
  rw [← List.take_append_drop 8 (t.drop 1), List.mem_append, List.drop_drop] at hc
  rcases hc with hc | hc
  · exact .inr (.inl (hdate c hc))
  rw [← List.take_append_drop 1 (t.drop (1 + 8)), List.mem_append, List.drop_drop] at hc
  rcases hc with hc | hc
  · rw [hsecond, hu, List.mem_singleton] at hc
    exact .inl hc
  rw [← List.take_append_drop 6 (t.drop (1 + 8 + 1)), List.mem_append, List.drop_drop] at hc
  rcases hc with hc | hc
  · exact .inr (.inl (hclock c hc))
  · exact .inr (.inr (hend ▸ hc))

theorem not_mem_stampSuffix {t : Text} (h : isStampSuffix t = true) :
    slash ∉ t ∧ (0 : UInt8) ∉ t := by
  constructor <;> intro hc <;> exact absurd (mem_stampSuffix h hc) (by decide)

/-- A record type that may stand in a file name. -/
def IsPlain (recordType : Text) : Prop := slash ∉ recordType ∧ (0 : UInt8) ∉ recordType

theorem isPlain_of_mem_builtin {schema : Schema} (h : schema ∈ Schema.builtin) :
    IsPlain schema.recordType := by
  simp only [Schema.builtin, List.mem_cons, List.not_mem_nil, or_false] at h
  rcases h with rfl | rfl <;> exact ⟨by decide, by decide⟩

theorem isDots_of_length {name : Text} (h : 2 < name.length) : Path.isDots name = false := by
  have hone : name ≠ "." := fun heq => absurd h (heq ▸ by decide)
  have htwo : name ≠ ".." := fun heq => absurd h (heq ▸ by decide)
  simp [Path.isDots, hone, htwo]

/-- A name that tells a record type is the name of a file. -/
theorem isName_of_recordType? {name recordType : Text} (hplain : IsPlain recordType)
    (h : recordType? name = some recordType) : Path.IsName name := by
  obtain ⟨suffix, rfl, hstamp, hlength, hne⟩ := recordType?_eq_some h
  obtain ⟨hslash, hzero⟩ := not_mem_stampSuffix hstamp
  refine ⟨by simp [hne], ?_, ?_, isDots_of_length ?_⟩
  · rw [List.mem_append, not_or]
    exact ⟨hplain.1, hslash⟩
  · rw [List.mem_append, not_or]
    exact ⟨hplain.2, hzero⟩
  · rw [List.length_append, hlength]
    omega

theorem mem_padZeros {width : Nat} {t : Text} {c : UInt8} (hc : c ∈ Text.padZeros width t) :
    c = zero ∨ c ∈ t := by
  rw [Text.padZeros, List.mem_append] at hc
  exact hc.imp List.eq_of_mem_replicate id

theorem mem_twoDigits {n : Nat} {c : UInt8} (hc : c ∈ Instant.twoDigits n) : isDigit c = true := by
  rcases mem_padZeros hc with rfl | hc
  · decide
  · exact Text.isDigit_of_mem_ofNat hc

/-- The bytes of a stamp, whatever the year. -/
theorem mem_fileStamp {now : Instant} {c : UInt8} (hc : c ∈ now.fileStamp) :
    c = underscore ∨ c = minus ∨ isDigit c = true := by
  have hu : ("_" : Text) = [underscore] := rfl
  simp only [Instant.fileStamp, Instant.dateText, Instant.clockText, hu, List.mem_append,
    List.mem_singleton, List.not_mem_nil, or_false] at hc
  rcases hc with (((hc | hc) | hc) | hc) | (hc | hc) | hc
  · cases hyear : now.date.year with
    | ofNat n =>
      rw [hyear] at hc
      exact .inr (.inr (Text.isDigit_of_mem_ofNat hc))
    | negSucc n =>
      rw [hyear, Text.ofInt, List.mem_cons] at hc
      exact .inr (hc.imp id Text.isDigit_of_mem_ofNat)
  · exact .inr (.inr (mem_twoDigits hc))
  · exact .inr (.inr (mem_twoDigits hc))
  · exact .inl hc
  · exact .inr (.inr (mem_twoDigits hc))
  · exact .inr (.inr (mem_twoDigits hc))
  · exact .inr (.inr (mem_twoDigits hc))

/-- The file that is opened at an instant has a name, also outside the era. -/
theorem isName_ofInstant {recordType : Text} (hplain : IsPlain recordType) (now : Instant) :
    Path.IsName (ofInstant recordType now) := by
  have hstamp : ∀ c, (c = slash ∨ c = 0) → c ∉ now.fileStamp := by
    intro c hc hmem
    have hbad : ∀ c : UInt8, (c = slash ∨ c = 0) → ¬(c = underscore ∨ c = minus ∨ isDigit c = true) := by
      rintro c (rfl | rfl) <;> decide
    exact hbad c hc (mem_fileStamp hmem)
  have hrest : slash ∉ ("_" : Text) ∧ slash ∉ (".csv" : Text) ∧ (0 : UInt8) ∉ ("_" : Text) ∧
      (0 : UInt8) ∉ (".csv" : Text) ∧ (".csv" : Text).length = 4 := by decide
  refine ⟨?_, ?_, ?_, isDots_of_length ?_⟩
  · rw [← List.length_pos_iff]
    simp only [ofInstant, List.length_append]
    omega
  · simp only [ofInstant, List.mem_append, not_or]
    exact ⟨⟨⟨hplain.1, hrest.1⟩, hstamp slash (.inl rfl)⟩, hrest.2.1⟩
  · simp only [ofInstant, List.mem_append, not_or]
    exact ⟨⟨⟨hplain.2, hrest.2.2.1⟩, hstamp 0 (.inr rfl)⟩, hrest.2.2.2.1⟩
  · simp only [ofInstant, List.length_append]
    omega

/-- The name that a file has before it is finished. -/
theorem isName_append_tmp {name : Text} (h : Path.IsName name) : Path.IsName (name ++ ".tmp") := by
  have htmp : (".tmp" : Text).length = 4 ∧ slash ∉ (".tmp" : Text) ∧ (0 : UInt8) ∉ (".tmp" : Text) := by
    decide
  refine ⟨by simp [h.ne_nil], ?_, ?_, isDots_of_length ?_⟩
  · rw [List.mem_append, not_or]
    exact ⟨h.not_slash, htmp.2.1⟩
  · rw [List.mem_append, not_or]
    exact ⟨h.not_zero, htmp.2.2⟩
  · rw [List.length_append]
    omega

/-- A finished name is not that of an unfinished file. -/
theorem append_csv_ne (t other : Text) : t ++ ".csv" ≠ other ++ ".tmp" := by
  intro heq
  have hlast := congrArg List.getLast? heq
  have hcsv : (".csv" : Text).getLast? = some 0x76 ∧ (".tmp" : Text).getLast? = some 0x70 := by decide
  simp [List.getLast?_append, hcsv.1, hcsv.2] at hlast

theorem ofInstant_ne_append_tmp (recordType : Text) (now : Instant) (other : Text) :
    ofInstant recordType now ≠ other ++ ".tmp" := append_csv_ne _ _

theorem ne_append_tmp {name recordType : Text} (h : recordType? name = some recordType)
    (other : Text) : name ≠ other ++ ".tmp" := by
  obtain ⟨suffix, rfl, hstamp, hlength, -⟩ := recordType?_eq_some h
  simp only [isStampSuffix, Bool.and_eq_true, decide_eq_true_eq] at hstamp
  obtain ⟨-, hend⟩ := hstamp
  rw [← List.take_append_drop 16 suffix, hend, ← List.append_assoc]
  exact append_csv_ne _ _

end Ledger.FileName

end TradeReentry
