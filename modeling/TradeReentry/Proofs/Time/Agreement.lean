import TradeReentry.Proofs.Text.Widths
import TradeReentry.Proofs.Time.Calendar
import TradeReentry.Proofs.Time.Views

/-!
# The views of an instant agree

In the years from 1000 to 9999 the fields of a date and of a time of day have fixed widths, so that their texts
are compared as days (`dateText_lt_iff`) and as seconds (`clockText_lt_iff`). So the ISO texts, the numbers of the
days and the stamps of file names tell the same time (`views_agree`).
-/

namespace TradeReentry.Instant

open Ascii Text

variable {a b t : Instant}

/-! ## Dates -/

theorem date_eq_iff : a.date = b.date ↔ a.dayIndex = b.dayIndex := by
  rw [date_eq, date_eq]
  constructor
  · intro h
    exact Time.Date.ofDayIndex_injective h
  · intro h
    rw [h]

theorem date_lt_iff : a.date.key < b.date.key ↔ a.dayIndex < b.dayIndex := by
  rw [date_eq, date_eq]
  exact Time.Date.key_ofDayIndex_lt_iff

/-- A date of the era is written in fields of four, two and two digits. -/
theorem dateText_eq_threeFields (h : t.InEra) (separator : Text) :
    t.dateText separator =
      threeFields 4 2 2 separator t.date.year.toNat t.date.month t.date.day := by
  obtain ⟨hlow, hhigh⟩ := h
  obtain ⟨-, hmonth, -, hday⟩ := date_range t
  have hyear : ofInt t.date.year = lowDigits 4 t.date.year.toNat := by
    obtain ⟨n, hn⟩ := Int.eq_ofNat_of_zero_le (show 0 ≤ t.date.year by omega)
    rw [hn] at hlow hhigh ⊢
    exact ofNat_eq_lowDigits (by decide) (by omega) (by omega)
  rw [dateText, hyear, twoDigits, twoDigits, padZeros_ofNat_of_lt (by omega),
    padZeros_ofNat_of_lt (by omega), threeFields]

theorem length_dateText (h : t.InEra) (separator : Text) :
    (t.dateText separator).length = 8 + 2 * separator.length := by
  rw [dateText_eq_threeFields h, length_threeFields]

section Era

variable (ha : a.InEra) (hb : b.InEra)

include ha hb

theorem dateText_lt_iff (separator : Text) :
    a.dateText separator < b.dateText separator ↔ a.dayIndex < b.dayIndex := by
  obtain ⟨-, hmonth, -, hday⟩ := date_range a
  obtain ⟨-, hmonth', -, hday'⟩ := date_range b
  rw [← date_lt_iff, Time.Date.key_lt_iff, dateText_eq_threeFields ha, dateText_eq_threeFields hb]
  obtain ⟨hlow, hhigh⟩ := ha
  obtain ⟨hlow', hhigh'⟩ := hb
  rw [threeFields_lt_iff (by omega) (by omega) (by omega)]
  omega

theorem dateText_inj (separator : Text) :
    a.dateText separator = b.dateText separator ↔ a.dayIndex = b.dayIndex := by
  constructor
  · intro h
    have hlt := dateText_lt_iff ha hb separator
    have hgt := dateText_lt_iff hb ha separator
    rw [h, iff_false_left (List.lt_irrefl _)] at hlt hgt
    omega
  · intro h
    rw [dateText, dateText, date_eq_iff.2 h]

end Era

/-! ## Times of day -/

/-- A time of day is written in three fields of two digits. -/
theorem clockText_eq_threeFields (t : Instant) (separator : Text) :
    t.clockText separator =
      threeFields 2 2 2 separator (t.secondOfDay / 3600) (t.secondOfDay / 60 % 60) (t.secondOfDay % 60) := by
  have hsecond := secondOfDay_lt t
  rw [clockText, twoDigits, twoDigits, twoDigits, padZeros_ofNat_of_lt (by omega),
    padZeros_ofNat_of_lt (by omega), padZeros_ofNat_of_lt (by omega), threeFields]

theorem length_clockText (t : Instant) (separator : Text) :
    (t.clockText separator).length = 6 + 2 * separator.length := by
  rw [clockText_eq_threeFields, length_threeFields]

theorem clockText_lt_iff (a b : Instant) (separator : Text) :
    a.clockText separator < b.clockText separator ↔ a.secondOfDay < b.secondOfDay := by
  have hsa := secondOfDay_lt a
  have hsb := secondOfDay_lt b
  rw [clockText_eq_threeFields, clockText_eq_threeFields,
    threeFields_lt_iff (by omega) (by omega) (by omega)]
  omega

theorem clockText_inj (a b : Instant) (separator : Text) :
    a.clockText separator = b.clockText separator ↔ a.secondOfDay = b.secondOfDay := by
  constructor
  · intro h
    have hlt := clockText_lt_iff a b separator
    have hgt := clockText_lt_iff b a separator
    rw [h, iff_false_left (List.lt_irrefl _)] at hlt hgt
    omega
  · intro h
    rw [clockText, clockText, h]

/-! ## The three views -/

/-- Instants are compared by their days, then by their seconds, then by their milliseconds. -/
theorem lt_iff_parts : a < b ↔ a.dayIndex < b.dayIndex ∨ a.dayIndex = b.dayIndex ∧
    (a.secondOfDay < b.secondOfDay ∨ a.secondOfDay = b.secondOfDay ∧ a.millisecond < b.millisecond) := by
  rw [dayIndex_eq, dayIndex_eq, secondOfDay_eq, secondOfDay_eq, millisecond_eq, millisecond_eq]
  unfold millisPerDay millisPerSecond
  change @LT.lt Int _ a b ↔ _
  omega

theorem wholeSecond_eq_iff :
    a / 1000 = b / 1000 ↔ a.dayIndex = b.dayIndex ∧ a.secondOfDay = b.secondOfDay := by
  rw [dayIndex_eq, dayIndex_eq, secondOfDay_eq, secondOfDay_eq]
  unfold millisPerDay millisPerSecond
  change @Eq Int (a / 1000) (b / 1000) ↔ _
  omega

section Era

variable (ha : a.InEra) (hb : b.InEra)

include ha hb

/-- Later instants have the later ISO texts. -/
theorem isoText_lt_iff : a.isoText < b.isoText ↔ a < b := by
  have hma := millisecond_lt a
  have hmb := millisecond_lt b
  have hlengths : (a.dateText "-").length = (b.dateText "-").length := by
    rw [length_dateText ha, length_dateText hb]
  have hclock : (a.clockText ":").length = (b.clockText ":").length := by
    rw [length_clockText, length_clockText]
  rw [isoText, isoText, padZeros_ofNat_of_lt hma, padZeros_ofNat_of_lt hmb]
  simp only [List.append_assoc]
  rw [append_lt_append_iff hlengths, append_lt_append_iff rfl, append_lt_append_iff hclock,
    append_lt_append_iff rfl, append_lt_append_iff (by simp), dateText_lt_iff ha hb, dateText_inj ha hb,
    clockText_lt_iff, clockText_inj, lowDigits_lt_iff hma hmb, lowDigits_inj hma hmb, @lt_iff_parts a b]
  simp only [List.lt_irrefl, true_and, false_or, and_false, or_false]

/-- The first ten bytes of an ISO text are those of the day. -/
theorem take_isoText_inj : a.isoText.take 10 = b.isoText.take 10 ↔ a.dayIndex = b.dayIndex := by
  have htake : ∀ {t : Instant}, t.InEra → t.isoText.take 10 = t.dateText "-" := by
    intro t h
    rw [isoText, List.append_assoc, List.append_assoc, List.append_assoc, List.append_assoc]
    exact List.take_left' (length_dateText h "-")
  rw [htake ha, htake hb, dateText_inj ha hb]

/-- A stamp is that of the whole second. -/
theorem fileStamp_inj : a.fileStamp = b.fileStamp ↔ a / 1000 = b / 1000 := by
  have hlengths : (a.dateText []).length = (b.dateText []).length := by
    rw [length_dateText ha, length_dateText hb]
  rw [wholeSecond_eq_iff, ← dateText_inj ha hb [], ← clockText_inj a b [], fileStamp, fileStamp,
    List.append_assoc, List.append_assoc]
  constructor
  · intro h
    obtain ⟨hdate, hclock⟩ := List.append_inj h hlengths
    exact ⟨hdate, List.append_cancel_left hclock⟩
  · rintro ⟨hdate, hclock⟩
    rw [hdate, hclock]

end Era

/-- The ISO text, the number of the day and the stamp of a file name tell the same time: ISO texts are timestamps
and stand in byte order as the instants do, the days are those of the dates in them, and a stamp is that of the
second. -/
theorem views_agree (ha : a.InEra) (hb : b.InEra) :
    Time.Timestamp.isTimestamp a.isoText = true ∧
      (a.isoText < b.isoText ↔ a < b) ∧
      (a.dayIndex = b.dayIndex ↔ a.isoText.take 10 = b.isoText.take 10) ∧
      (a.fileStamp = b.fileStamp ↔ a / 1000 = b / 1000) :=
  ⟨isTimestamp_isoText ha, isoText_lt_iff ha hb, (take_isoText_inj ha hb).symm, fileStamp_inj ha hb⟩

/-- The last millisecond of February 1900, which is no leap year, and the one after it. -/
theorem views_agree_centuryYear :
    let a : Instant := -2203891200001
    let b : Instant := -2203891200000
    a.isoText = "1900-02-28T23:59:59.999Z" ∧ b.isoText = "1900-03-01T00:00:00.000Z" ∧
      Time.Timestamp.isTimestamp a.isoText = true ∧ a.isoText < b.isoText ∧ a.dayIndex ≠ b.dayIndex ∧
      a.fileStamp ≠ b.fileStamp := by
  intro a b
  have ha : a.InEra := by decide +kernel
  have hb : b.InEra := by decide +kernel
  obtain ⟨htimestamp, horder, hday, hsecond⟩ := views_agree ha hb
  refine ⟨by decide +kernel, by decide +kernel, htimestamp, horder.2 (by decide), ?_, ?_⟩
  · rw [Ne, hday]
    decide +kernel
  · rw [Ne, hsecond]
    decide +kernel

end TradeReentry.Instant
