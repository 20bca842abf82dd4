import TradeReentry.Ledger.FileName
import TradeReentry.Proofs.Text.Numerals
import TradeReentry.Proofs.Time.Dates
import TradeReentry.Time.Timestamp

/-!
# The texts of an instant

In the years from 1000 to 9999 the ISO text of an instant is a timestamp (`isTimestamp_isoText`), and
the name of a file opened at it tells the record type (`recordType?_ofInstant`).
-/

namespace TradeReentry

namespace Instant

open Ascii Text

/-- The years that are written with four digits. -/
def InEra (t : Instant) : Prop := 1000 ≤ t.date.year ∧ t.date.year ≤ 9999

instance (t : Instant) : Decidable t.InEra := inferInstanceAs (Decidable (_ ∧ _))

/-! ## Rounding down -/

/-- The quotient is the floor, which is that of the integers here. -/
theorem floorDiv_eq (value : Int) {divisor : Int} (h : 0 < divisor) :
    floorDiv value divisor = value / divisor := by
  have hremains : value.tmod divisor = 0 ↔ divisor ∣ value := Int.dvd_iff_tmod_eq_zero.symm
  have hsign : divisor.sign = 1 := Int.sign_eq_one_of_pos h
  have hpositive : ¬divisor < 0 := by omega
  simp only [floorDiv, Int.tdiv_eq_ediv, hremains, hsign, hpositive, decide_false, ne_eq,
    decide_eq_false_iff_not, Decidable.not_not]
  split <;> split <;> omega

theorem dayIndex_eq (t : Instant) : t.dayIndex = t / millisPerDay := floorDiv_eq t (by decide)

theorem wholeSeconds_eq (t : Instant) : t.wholeSeconds = t / millisPerSecond :=
  floorDiv_eq t (by decide)

/-- The date is that of the day that is counted. -/
theorem date_eq (t : Instant) : t.date = .ofDayIndex t.dayIndex := by
  rw [date, wholeSeconds_eq, dayIndex_eq, Int.ediv_ediv_of_nonneg (by decide)]
  rfl

theorem date_range (t : Instant) :
    1 ≤ t.date.month ∧ t.date.month ≤ 12 ∧ 1 ≤ t.date.day ∧ t.date.day ≤ 31 :=
  Time.Date.ofDayIndex_range _

theorem secondOfDay_eq (t : Instant) : t.secondOfDay = (t % millisPerDay / millisPerSecond).toNat := by
  rw [secondOfDay, wholeSeconds_eq]
  unfold millisPerDay millisPerSecond secondsPerDay
  omega

theorem millisecond_eq (t : Instant) : t.millisecond = (t % millisPerSecond).toNat := by
  rw [millisecond, wholeSeconds_eq, Int.emod_def, Int.mul_comm]

/-! ## The digits -/

theorem ofNat_of_two {n : Nat} (h : 10 ≤ n) (h' : n < 100) :
    ofNat n = [digitByte (n / 10), digitByte (n % 10)] := by
  rw [ofNat_of_ten_le h, ofNat_of_lt_ten (by omega)]
  rfl

theorem twoDigits_eq {n : Nat} (h : n < 100) :
    twoDigits n = [digitByte (n / 10), digitByte (n % 10)] := by
  rcases Nat.lt_or_ge n 10 with hn | hn
  · rw [twoDigits, ofNat_of_lt_ten hn, Nat.div_eq_of_lt hn, Nat.mod_eq_of_lt hn]
    rfl
  · rw [twoDigits, ofNat_of_two hn h]
    rfl

theorem threeDigits_eq {n : Nat} (h : n < 1000) :
    padZeros 3 (ofNat n) =
      [digitByte (n / 100), digitByte (n / 10 % 10), digitByte (n % 10)] := by
  rcases Nat.lt_or_ge n 10 with hn | hn
  · rw [ofNat_of_lt_ten hn, Nat.div_eq_of_lt hn, Nat.mod_eq_of_lt hn,
      Nat.div_eq_of_lt (show n < 100 by omega)]
    rfl
  · rcases Nat.lt_or_ge n 100 with hn' | hn'
    · rw [ofNat_of_two hn hn', Nat.div_eq_of_lt hn', Nat.mod_eq_of_lt (show n / 10 < 10 by omega)]
      rfl
    · rw [ofNat_of_ten_le hn, ofNat_of_two (by omega) (by omega), Nat.div_div_eq_div_mul]
      rfl

theorem ofNat_of_four {n : Nat} (h : 1000 ≤ n) (h' : n < 10000) :
    ofNat n =
      [digitByte (n / 1000), digitByte (n / 100 % 10), digitByte (n / 10 % 10),
        digitByte (n % 10)] := by
  rw [ofNat_of_ten_le (by omega), ofNat_of_ten_le (by omega), ofNat_of_two (by omega) (by omega)]
  simp [Nat.div_div_eq_div_mul]

/-- The year of an instant in the era, digit by digit. -/
theorem ofInt_year {t : Instant} (h : t.InEra) :
    ∃ a b c d, a < 10 ∧ b < 10 ∧ c < 10 ∧ d < 10 ∧
      ofInt t.date.year = [digitByte a, digitByte b, digitByte c, digitByte d] := by
  obtain ⟨hlow, hhigh⟩ := h
  obtain ⟨n, hn⟩ := Int.eq_ofNat_of_zero_le (show 0 ≤ t.date.year by omega)
  rw [hn] at hlow hhigh ⊢
  refine ⟨n / 1000, n / 100 % 10, n / 10 % 10, n % 10, by omega, by omega, by omega, by omega, ?_⟩
  exact ofNat_of_four (by omega) (by omega)

theorem digitsValue_two {n : Nat} (h : n < 100) :
    digitsValue [digitByte (n / 10), digitByte (n % 10)] = n := by
  rw [show [digitByte (n / 10), digitByte (n % 10)] =
      [] ++ [digitByte (n / 10)] ++ [digitByte (n % 10)] from rfl,
    digitsValue_concat _ (by omega), digitsValue_concat _ (by omega)]
  simp only [digitsValue, valueOf_nil]
  omega

theorem secondOfDay_lt (t : Instant) : t.secondOfDay < 86400 := by
  have := Int.emod_lt_of_pos t (b := millisPerDay) (by decide)
  have := Int.emod_nonneg t (b := millisPerDay) (by decide)
  rw [secondOfDay_eq]
  unfold millisPerDay millisPerSecond at *
  omega

theorem millisecond_lt (t : Instant) : t.millisecond < 1000 := by
  have := Int.emod_lt_of_pos t (b := millisPerSecond) (by decide)
  have := Int.emod_nonneg t (b := millisPerSecond) (by decide)
  rw [millisecond_eq]
  unfold millisPerSecond at *
  omega

/-- The date of an instant in the era, digit by digit. -/
theorem dateText_eq {t : Instant} (h : t.InEra) (separator : Text) :
    ∃ a b c d, a < 10 ∧ b < 10 ∧ c < 10 ∧ d < 10 ∧
      t.dateText separator = [digitByte a, digitByte b, digitByte c, digitByte d] ++ separator ++
        [digitByte (t.date.month / 10), digitByte (t.date.month % 10)] ++ separator ++
        [digitByte (t.date.day / 10), digitByte (t.date.day % 10)] := by
  obtain ⟨a, b, c, d, ha, hb, hc, hd, hyear⟩ := ofInt_year h
  obtain ⟨-, hmonth, -, hday⟩ := date_range t
  refine ⟨a, b, c, d, ha, hb, hc, hd, ?_⟩
  rw [dateText, hyear, twoDigits_eq, twoDigits_eq]
  · exact Nat.lt_of_le_of_lt hday (by decide)
  · exact Nat.lt_of_le_of_lt hmonth (by decide)

/-- The time of day, digit by digit. -/
theorem clockText_eq (t : Instant) (separator : Text) :
    t.clockText separator =
      [digitByte (t.secondOfDay / 3600 / 10), digitByte (t.secondOfDay / 3600 % 10)] ++ separator ++
        [digitByte (t.secondOfDay / 60 % 60 / 10), digitByte (t.secondOfDay / 60 % 60 % 10)] ++
        separator ++
        [digitByte (t.secondOfDay % 60 / 10), digitByte (t.secondOfDay % 60 % 10)] := by
  have := secondOfDay_lt t
  rw [clockText, twoDigits_eq (by omega), twoDigits_eq (by omega), twoDigits_eq (by omega)]

/-- The ISO text is one of the texts that a ledger accepts as a point in time. -/
theorem isTimestamp_isoText {t : Instant} (h : t.InEra) :
    Time.Timestamp.isTimestamp t.isoText = true := by
  obtain ⟨a, b, c, d, ha, hb, hc, hd, hdate⟩ := dateText_eq h "-"
  have hrange := date_range t
  have hsecond := secondOfDay_lt t
  have hmillisecond := millisecond_lt t
  rw [isoText, hdate, clockText_eq, threeDigits_eq hmillisecond]
  have hzone : Time.Timestamp.isFractionAndZone
      [dot, digitByte (t.millisecond / 100), digitByte (t.millisecond / 10 % 10),
        digitByte (t.millisecond % 10), 0x5A] = true := by
    have hz : isDigit 0x5A = false := rfl
    simp [Time.Timestamp.isFractionAndZone, Time.Timestamp.isZone,
      isDigit_digitByte (show t.millisecond / 100 < 10 by omega),
      isDigit_digitByte (Nat.mod_lt (t.millisecond / 10) (show 10 > 0 by decide)),
      isDigit_digitByte (Nat.mod_lt t.millisecond (show 10 > 0 by decide)), hz]
  have hin : Time.Timestamp.inRange t.date.month t.date.day (t.secondOfDay / 3600)
      (t.secondOfDay / 60 % 60) (t.secondOfDay % 60) = true := by
    simp only [Time.Timestamp.inRange, Bool.and_eq_true, decide_eq_true_eq]
    omega
  have hdigits : [a, b, c, d, t.date.month / 10, t.date.month % 10, t.date.day / 10,
      t.date.day % 10, t.secondOfDay / 3600 / 10, t.secondOfDay / 3600 % 10,
      t.secondOfDay / 60 % 60 / 10, t.secondOfDay / 60 % 60 % 10, t.secondOfDay % 60 / 10,
      t.secondOfDay % 60 % 10].all (fun n => isDigit (digitByte n)) = true := by
    simp only [List.all_cons, List.all_nil, Bool.and_eq_true, Bool.and_true]
    refine ⟨?_, ?_, ?_, ?_, ?_, ?_, ?_, ?_, ?_, ?_, ?_, ?_, ?_, ?_⟩ <;>
      apply isDigit_digitByte <;> omega
  show (_ && decide (minus = minus) && decide (minus = minus) &&
    (decide ((0x54 : UInt8) = 0x54) || decide ((0x54 : UInt8) = space)) && decide (colon = colon) &&
    decide (colon = colon) && Time.Timestamp.inRange _ _ _ _ _ &&
    Time.Timestamp.isFractionAndZone _) = true
  rw [digitsValue_two (by omega), digitsValue_two (by omega), digitsValue_two (by omega),
    digitsValue_two (by omega), digitsValue_two (by omega), hin, Bool.and_true]
  simp only [Bool.and_eq_true]
  exact ⟨⟨⟨⟨⟨⟨hdigits, rfl⟩, rfl⟩, rfl⟩, rfl⟩, rfl⟩, hzone⟩

/-- The stamp of a file name, digit by digit. -/
theorem fileStamp_eq {t : Instant} (h : t.InEra) :
    ∃ date clock : List Nat, date.length = 8 ∧ clock.length = 6 ∧ (∀ n ∈ date, n < 10) ∧
      (∀ n ∈ clock, n < 10) ∧
      t.fileStamp = date.map digitByte ++ [underscore] ++ clock.map digitByte := by
  obtain ⟨a, b, c, d, ha, hb, hc, hd, hdate⟩ := dateText_eq h []
  have hrange := date_range t
  have hsecond := secondOfDay_lt t
  refine ⟨[a, b, c, d, t.date.month / 10, t.date.month % 10, t.date.day / 10, t.date.day % 10],
    [t.secondOfDay / 3600 / 10, t.secondOfDay / 3600 % 10, t.secondOfDay / 60 % 60 / 10,
      t.secondOfDay / 60 % 60 % 10, t.secondOfDay % 60 / 10, t.secondOfDay % 60 % 10],
    rfl, rfl, ?_, ?_, ?_⟩
  · simp only [List.forall_mem_cons, List.not_mem_nil, false_imp_iff, implies_true, and_true]
    omega
  · simp only [List.forall_mem_cons, List.not_mem_nil, false_imp_iff, implies_true, and_true]
    omega
  · rw [fileStamp, hdate, clockText_eq]
    rfl

end Instant

namespace Ledger.FileName

open Ascii

theorem recordType?_append {recordType suffix : Text} (hne : recordType ≠ [])
    (hlength : suffix.length = 20) (hsuffix : isStampSuffix suffix = true) :
    recordType? (recordType ++ suffix) = some recordType := by
  have hpos := List.length_pos_iff.2 hne
  have hstart : (recordType ++ suffix).length - 20 = recordType.length := by
    rw [List.length_append]
    omega
  rw [recordType?, hstart, List.drop_left, List.take_left, hsuffix, if_pos]
  simp only [List.length_append, Bool.and_true, decide_eq_true_eq]
  omega

theorem isStampSuffix_of_digits {date clock : Text} (hdate : date.length = 8)
    (hclock : clock.length = 6) (hd : date.all isDigit = true) (hc : clock.all isDigit = true) :
    isStampSuffix ("_" ++ (date ++ [underscore] ++ clock ++ ".csv")) = true := by
  have hu : ("_" : Text) = [underscore] := rfl
  simp only [isStampSuffix, hu, List.append_assoc, List.cons_append, List.nil_append,
    Bool.and_eq_true, decide_eq_true_eq]
  refine ⟨⟨⟨⟨rfl, ?_⟩, ?_⟩, ?_⟩, ?_⟩
  · rwa [List.drop_succ_cons, List.drop_zero, List.take_left' hdate]
  · rw [List.drop_succ_cons, List.drop_left' hdate]
    rfl
  · rwa [List.drop_succ_cons, ← List.singleton_append, ← List.append_assoc,
      List.drop_left' (by simp [hdate]), List.take_left' hclock]
  · rw [List.drop_succ_cons, ← List.singleton_append, ← List.append_assoc, ← List.append_assoc,
      List.drop_left' (by simp [hdate, hclock])]

/-- The name of a file opened in the era tells its record type. -/
theorem recordType?_ofInstant {recordType : Text} (hne : recordType ≠ []) {t : Instant}
    (h : t.InEra) : recordType? (ofInstant recordType t) = some recordType := by
  obtain ⟨date, clock, hdate, hclock, hd, hc, hstamp⟩ := Instant.fileStamp_eq h
  have hall : ∀ ns : List Nat, (∀ n ∈ ns, n < 10) → (ns.map digitByte).all isDigit = true := by
    intro ns hns
    rw [List.all_map, List.all_eq_true]
    exact fun n hn => isDigit_digitByte (hns n hn)
  rw [ofInstant, List.append_assoc, List.append_assoc, hstamp]
  exact recordType?_append hne (by simp [hdate, hclock]; rfl)
    (isStampSuffix_of_digits (by simp [hdate]) (by simp [hclock]) (hall date hd) (hall clock hc))

end Ledger.FileName

end TradeReentry
