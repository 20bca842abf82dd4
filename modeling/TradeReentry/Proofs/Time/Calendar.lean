import Mathlib.Data.Prod.Lex
import Mathlib.Order.Monotone.Basic
import Mathlib.Tactic.IntervalCases
import TradeReentry.Proofs.Time.Dates

/-!
# The calendar

The date of a day is followed by the date that comes next in the Gregorian calendar (`ofDayIndex_succ`), with its
months of 28 to 31 days and its leap years. So later days have later dates (`key_ofDayIndex_lt_iff`).
-/

namespace TradeReentry.Time.Date

/-! ## Dates that follow one another -/

/-- Whether a year has a leap day. -/
def IsLeap (year : Int) : Prop := year % 4 = 0 ∧ (year % 100 ≠ 0 ∨ year % 400 = 0)

instance (year : Int) : Decidable (IsLeap year) := inferInstanceAs (Decidable (_ ∧ _))

/-- The days of a month. -/
def monthLength (year : Int) (month : Nat) : Nat :=
  if month = 2 then if IsLeap year then 29 else 28
  else if month = 4 ∨ month = 6 ∨ month = 9 ∨ month = 11 then 30
  else 31

/-- Whether the calendar has a date. -/
structure Exists (d : Date) : Prop where
  one_le_month : 1 ≤ d.month
  month_le : d.month ≤ 12
  one_le_day : 1 ≤ d.day
  day_le : d.day ≤ monthLength d.year d.month

/-- The date of the next day. -/
def next (d : Date) : Date :=
  if d.day < monthLength d.year d.month then { d with day := d.day + 1 }
  else if d.month < 12 then { d with month := d.month + 1, day := 1 }
  else ⟨d.year + 1, 1, 1⟩

theorem monthLength_pos (year : Int) (month : Nat) : 1 ≤ monthLength year month := by
  unfold monthLength
  split_ifs <;> decide

theorem exists_firstDay (year : Int) {month : Nat} (h : 1 ≤ month) (h' : month ≤ 12) :
    Exists ⟨year, month, 1⟩ :=
  ⟨h, h', Nat.le_refl 1, monthLength_pos year month⟩

theorem Exists.next {d : Date} (h : d.Exists) : d.next.Exists := by
  obtain ⟨hmonth, hmonth', hday, -⟩ := h
  unfold Date.next
  split
  · next hlt => exact ⟨hmonth, hmonth', Nat.le_succ_of_le hday, hlt⟩
  · split
    · next hlt => exact exists_firstDay d.year (Nat.le_succ_of_le hmonth) hlt
    · exact exists_firstDay (d.year + 1) (Nat.le_refl 1) (by decide)

/-! ## Years counted from March -/

/-- The month of a date, March being 0. -/
def marchMonth (d : Date) : Nat := if d.month ≤ 2 then d.month + 9 else d.month - 3

/-- The year of a date, counted from March. -/
def marchYear (d : Date) : Int := d.year - (if d.month ≤ 2 then 1 else 0)

/-- The day of a date in its year counted from March, 1 March being 0. -/
def dayOfMarchYear (d : Date) : Nat := daysBeforeMonth d.marchMonth + (d.day - 1)

theorem dayIndex_eq (d : Date) : d.dayIndex = d.marchYear / 400 * (daysPerEra : Int) +
    (daysBeforeYear (d.marchYear % 400).toNat + d.dayOfMarchYear : Nat) - epochOffset := by
  rw [dayIndex, dayOfMarchYear, ← Nat.add_assoc]
  rfl

/-- Every month but the last one of such a year has as many days as lie before the next. -/
theorem daysBeforeMonth_succ {d : Date} (h : d.Exists) (hfebruary : d.month ≠ 2) :
    daysBeforeMonth (d.marchMonth + 1) = daysBeforeMonth d.marchMonth + monthLength d.year d.month := by
  obtain ⟨hmonth, hmonth', -, -⟩ := h
  obtain ⟨year, month, day⟩ := d
  dsimp only at hmonth hmonth' hfebruary
  interval_cases month
  case «2» => contradiction
  all_goals simp [marchMonth, monthLength, daysBeforeMonth]

/-- The day after the last one of a month is the first one of the next month of the year. -/
theorem dayIndex_firstOfMonth {d e : Date} (hd : d.Exists) (hfebruary : d.month ≠ 2)
    (hlast : d.day = monthLength d.year d.month) (hfirst : e.day = 1) (hmonth : e.marchMonth = d.marchMonth + 1)
    (hyear : e.marchYear = d.marchYear) : e.dayIndex = d.dayIndex + 1 := by
  have hday := hd.one_le_day
  have hnext : e.dayOfMarchYear = d.dayOfMarchYear + 1 := by
    rw [dayOfMarchYear, dayOfMarchYear, hmonth, daysBeforeMonth_succ hd hfebruary, hfirst, ← hlast]
    omega
  rw [dayIndex_eq, dayIndex_eq, hyear, hnext]
  omega

theorem dayIndex_add_day (year : Int) (month : Nat) {day : Nat} (h : 1 ≤ day) :
    dayIndex ⟨year, month, day + 1⟩ = dayIndex ⟨year, month, day⟩ + 1 := by
  simp only [dayIndex]
  omega

/-- The day after the last one of February is 1 March. -/
theorem dayIndex_march {d : Date} (hfebruary : d.month = 2) (hlast : d.day = monthLength d.year d.month) :
    dayIndex ⟨d.year, 3, 1⟩ = d.dayIndex + 1 := by
  obtain ⟨year, month, day⟩ := d
  dsimp only at *
  subst hfebruary
  have hfirst : dayIndex ⟨year, 3, 1⟩ = dayIndex ⟨year, 2, 28⟩ + if IsLeap year then 2 else 1 := by
    simp only [dayIndex, IsLeap, daysBeforeYear, daysBeforeMonth, daysPerEra]
    split_ifs <;> omega
  rw [hfirst, hlast, monthLength, if_pos rfl]
  split
  · have hleap : dayIndex ⟨year, 2, 29⟩ = dayIndex ⟨year, 2, 28⟩ + 1 :=
      dayIndex_add_day year 2 (by decide)
    omega
  · rfl

/-- The days of dates that follow one another follow one another. -/
theorem dayIndex_next {d : Date} (h : d.Exists) : d.next.dayIndex = d.dayIndex + 1 := by
  obtain ⟨hmonth, hmonth', hday, hday'⟩ := id h
  unfold Date.next
  split
  · exact dayIndex_add_day d.year d.month hday
  · next hnot =>
    have hlast : d.day = monthLength d.year d.month := Nat.le_antisymm hday' (Nat.not_lt.1 hnot)
    split
    · next hlt =>
      by_cases hfebruary : d.month = 2
      · rw [hfebruary]
        exact dayIndex_march hfebruary hlast
      · apply dayIndex_firstOfMonth h hfebruary hlast rfl
        · simp only [marchMonth]
          split_ifs <;> omega
        · simp only [marchYear]
          split_ifs <;> omega
    · apply dayIndex_firstOfMonth h (by omega) hlast rfl
      · simp only [marchMonth]
        split_ifs <;> omega
      · simp only [marchYear]
        split_ifs <;> omega

/-! ## Dates of days -/

theorem monthFromMarch_eq {march d : Nat} (hlow : daysBeforeMonth march ≤ d)
    (hhigh : d < daysBeforeMonth (march + 1)) : monthFromMarch d = march := by
  simp only [daysBeforeMonth, monthFromMarch] at *
  omega

theorem daysBeforeYear_succ : ∀ year < 399,
    daysBeforeYear (year + 1) = daysBeforeYear year + if IsLeap (year + 1) then 366 else 365 := by
  decide +kernel

theorem yearOfEra_eq {year d : Nat} (hyear : year < 400) (hd : d < if IsLeap (year + 1) then 366 else 365) :
    daysBeforeYear year + d < daysPerEra ∧ yearOfEra (daysBeforeYear year + d) = year := by
  have hend : daysBeforeYear year + d ≤
      if year = 399 then 146096 else daysBeforeYear (year + 1) - 1 := by
    split
    · next hlast =>
      have hstart : daysBeforeYear 399 = 145731 := rfl
      rw [hlast] at hd ⊢
      split at hd <;> omega
    · have hsucc := daysBeforeYear_succ year (by omega)
      omega
  have hera : (if year = 399 then 146096 else daysBeforeYear (year + 1) - 1) < daysPerEra := by
    simp only [daysBeforeYear, daysPerEra]
    split <;> omega
  have hlow := yearOfEra_mono (Nat.le_add_right (daysBeforeYear year) d) (Nat.lt_of_le_of_lt hend hera)
  have hhigh := yearOfEra_mono hend hera
  rw [yearOfEra_first year hyear] at hlow
  rw [yearOfEra_last year hyear] at hhigh
  exact ⟨Nat.lt_of_le_of_lt hend hera, Nat.le_antisymm hhigh hlow⟩

/-- A date lies before the end of its month and of its year. -/
theorem dayOfMarchYear_lt {d : Date} (h : d.Exists) :
    d.dayOfMarchYear < daysBeforeMonth (d.marchMonth + 1) ∧
      d.dayOfMarchYear < if IsLeap (d.marchYear + 1) then 366 else 365 := by
  obtain ⟨hmonth, hmonth', hday, hday'⟩ := id h
  by_cases hfebruary : d.month = 2
  · have hmarch : d.marchMonth = 11 := by rw [marchMonth, hfebruary]; rfl
    have hyear : d.marchYear + 1 = d.year := by rw [marchYear, hfebruary, if_pos (by decide)]; omega
    rw [hfebruary, monthLength, if_pos rfl] at hday'
    rw [dayOfMarchYear, hmarch, hyear]
    simp only [daysBeforeMonth]
    constructor
    · split at hday' <;> omega
    · split at hday'
      · rw [if_pos (by assumption)]; omega
      · rw [if_neg (by assumption)]; omega
  · have hlt : d.dayOfMarchYear < daysBeforeMonth (d.marchMonth + 1) := by
      rw [dayOfMarchYear, daysBeforeMonth_succ h hfebruary]
      omega
    have hmarch : d.marchMonth ≤ 10 := by
      unfold marchMonth
      split <;> omega
    refine ⟨hlt, ?_⟩
    simp only [daysBeforeMonth] at hlt
    split <;> omega

/-- The date of the day of a date is this date. -/
theorem ofDayIndex_dayIndex {d : Date} (h : d.Exists) : ofDayIndex d.dayIndex = d := by
  obtain ⟨hmonth, hyear⟩ := dayOfMarchYear_lt h
  have hcycle : IsLeap ((d.marchYear % 400).toNat + 1) ↔ IsLeap (d.marchYear + 1) := by
    simp only [IsLeap]
    omega
  obtain ⟨hera, hyear⟩ := @yearOfEra_eq (d.marchYear % 400).toNat d.dayOfMarchYear (by omega)
    (by rwa [if_congr hcycle rfl rfl])
  have hmonth : monthFromMarch d.dayOfMarchYear = d.marchMonth :=
    monthFromMarch_eq (Nat.le_add_right _ _) hmonth
  have hindex : d.dayIndex + epochOffset = d.marchYear / 400 * (daysPerEra : Int) +
      (daysBeforeYear (d.marchYear % 400).toNat + d.dayOfMarchYear : Nat) := by
    rw [dayIndex_eq, Int.sub_add_cancel]
  have hdiv : (d.dayIndex + epochOffset) / (daysPerEra : Int) = d.marchYear / 400 := by
    rw [hindex]
    simp only [daysPerEra] at hera ⊢
    omega
  have hmod : (d.dayIndex + epochOffset) % (daysPerEra : Int) =
      (daysBeforeYear (d.marchYear % 400).toNat + d.dayOfMarchYear : Nat) := by
    rw [hindex]
    simp only [daysPerEra] at hera ⊢
    omega
  rw [ofDayIndex]
  simp only [hdiv, hmod, Int.toNat_natCast, hyear, Nat.add_sub_cancel_left, hmonth]
  obtain ⟨hone, htwelve, hday, -⟩ := h
  simp only [dayOfMarchYear, Nat.add_sub_cancel_left]
  obtain ⟨year, month, day⟩ := d
  simp only [marchMonth, marchYear, mk.injEq] at *
  refine ⟨?_, ?_, ?_⟩
  · split <;> split <;> omega
  · split <;> split <;> omega
  · omega

/-- An era before 1970 has as many days as every era. -/
theorem dayIndex_firstDay (eras : Nat) :
    dayIndex ⟨1970 - 400 * eras, 1, 1⟩ = -(daysPerEra * eras : Nat) := by
  have hmonth : marchMonth ⟨1970 - 400 * eras, 1, 1⟩ = 10 := rfl
  have hyear : marchYear ⟨1970 - 400 * eras, 1, 1⟩ = 1969 - 400 * eras := by
    simp only [marchYear]
    omega
  have hera : (1969 - 400 * (eras : Int)) / 400 = 4 - eras := by omega
  have hbefore : daysBeforeYear ((1969 - 400 * (eras : Int)) % 400).toNat = 134774 := by
    rw [show (1969 - 400 * (eras : Int)) % 400 = 369 by omega]
    rfl
  rw [dayIndex_eq, hyear, hera, hbefore, dayOfMarchYear, hmonth]
  simp only [daysBeforeMonth, daysPerEra, epochOffset]
  omega

/-- Every day is that of a date. -/
theorem exists_dayIndex_eq (index : Int) : ∃ d : Date, d.Exists ∧ d.dayIndex = index := by
  -- The dates of the days are counted up from a first day of an era that lies far enough back.
  obtain ⟨eras, n, hindex⟩ : ∃ eras n : Nat, index = -(daysPerEra * eras : Nat) + n := by
    refine ⟨index.natAbs, (index + daysPerEra * index.natAbs).toNat, ?_⟩
    simp only [daysPerEra]
    omega
  induction n generalizing index with
  | zero =>
    refine ⟨⟨1970 - 400 * eras, 1, 1⟩, exists_firstDay _ (Nat.le_refl 1) (by decide), ?_⟩
    rw [dayIndex_firstDay, hindex]
    omega
  | succ n ih =>
    obtain ⟨d, hd, heq⟩ := ih (index - 1) (by omega)
    refine ⟨d.next, hd.next, ?_⟩
    rw [dayIndex_next hd, heq]
    omega

/-- The date of the day after a day is the one that comes next. -/
theorem ofDayIndex_succ (index : Int) : ofDayIndex (index + 1) = (ofDayIndex index).next := by
  obtain ⟨d, hd, rfl⟩ := exists_dayIndex_eq index
  rw [← dayIndex_next hd, ofDayIndex_dayIndex hd, ofDayIndex_dayIndex hd.next]

/-! ## The order of dates -/

/-- A date by its year, its month and its day. -/
def key (d : Date) : Int ×ₗ Nat ×ₗ Nat := toLex (d.year, toLex (d.month, d.day))

theorem key_lt_iff {d e : Date} : d.key < e.key ↔
    d.year < e.year ∨ d.year = e.year ∧ (d.month < e.month ∨ d.month = e.month ∧ d.day < e.day) := by
  simp only [key, Prod.Lex.toLex_lt_toLex]

theorem key_lt_next (d : Date) : d.key < d.next.key := by
  rw [key_lt_iff, next]
  split
  · exact .inr ⟨rfl, .inr ⟨rfl, Nat.lt_succ_self _⟩⟩
  · split
    · exact .inr ⟨rfl, .inl (Nat.lt_succ_self _)⟩
    · exact .inl (Int.lt_succ _)

/-- Later days have later dates. -/
theorem key_ofDayIndex_lt_iff {m n : Int} : (ofDayIndex m).key < (ofDayIndex n).key ↔ m < n := by
  have hmono : StrictMono fun index => (ofDayIndex index).key := by
    apply strictMono_int_of_lt_succ
    intro index
    rw [ofDayIndex_succ]
    exact key_lt_next _
  exact hmono.lt_iff_lt

theorem ofDayIndex_injective : Function.Injective ofDayIndex := by
  intro m n h
  rcases lt_trichotomy m n with hlt | heq | hgt
  · have hkey := key_ofDayIndex_lt_iff.2 hlt
    rw [h] at hkey
    exact absurd hkey (lt_irrefl _)
  · exact heq
  · have hkey := key_ofDayIndex_lt_iff.2 hgt
    rw [h] at hkey
    exact absurd hkey (lt_irrefl _)

end TradeReentry.Time.Date
