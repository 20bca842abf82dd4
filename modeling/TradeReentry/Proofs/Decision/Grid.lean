import TradeReentry.Proofs.Binary64.Errors
import TradeReentry.Proofs.Decision.Lots

/-!
# The grid of proposed lots

A lot is brought to the nearest point of a grid, which keeps the order of lots (`toGrid_mono`) and moves each by
half a point at most, but for the rounding of numbers (`abs_toGrid_sub_le`). Decimals with eight places are
points (`toGrid_point`), and only what counts less than half a point is brought to zero (`toGrid_pos_iff`).
-/

namespace TradeReentry.ProcessorSettings

open Binary64

/-! ## Bringing lots to the grid -/

/-- The nearest point of the grid of proposed lots. -/
def toGrid (lots : Binary64) : Binary64 := (lots * lotScale).round / lotScale

theorem isPlus_lotScale : lotScale.IsPlus := ⟨by decide +kernel, by decide +kernel⟩

theorem units_lotScale_pos : 0 < lotScale.units := by
  rw [units_lotScale]
  exact Nat.mul_pos (by decide) unitsInOne_pos

theorem toRat_lotScale : lotScale.toRat = 10 ^ 8 := by
  rw [isPlus_lotScale.toRat_of_units_eq units_lotScale]
  norm_num

section Grid

variable {lots other : Binary64} (hlots : lots.IsPlus)

include hlots

theorem isPlus_mul_lotScale : (lots * lotScale).IsPlus :=
  hlots.mul isPlus_lotScale isFinite_lotScale units_lotScale_pos

theorem isPlus_toGrid : (toGrid lots).IsPlus :=
  (isPlus_mul_lotScale hlots).round.div isPlus_lotScale isFinite_lotScale units_lotScale_pos

/-- The grid keeps the order of lots. -/
theorem toGrid_mono (hother : other.IsPlus) (h : lots.units ≤ other.units) :
    (toGrid lots).units ≤ (toGrid other).units := by
  have hproduct := hlots.mul_mono hother h isPlus_lotScale isFinite_lotScale units_lotScale_pos
  have hcount := (isPlus_mul_lotScale hlots).round_mono (isPlus_mul_lotScale hother) hproduct
  exact (isPlus_mul_lotScale hlots).round.div_mono (isPlus_mul_lotScale hother).round hcount isPlus_lotScale
    isFinite_lotScale units_lotScale_pos

end Grid

/-- The error of a point of the grid. -/
theorem abs_point_sub_le {count : Binary64} (hcount : count.IsPlus) (hfinite : count.isFinite = true) {n : Nat}
    (hn : count.units = n * unitsInOne) :
    |(count / lotScale).toRat - (n : ℚ) / 10 ^ 8| ≤ (n : ℚ) / 10 ^ 8 / 2 ^ 53 := by
  have hlarge : lotScale.units ∣ count.units * unitsInOne ∨
      2 ^ 52 ≤ count.units * unitsInOne / lotScale.units := by
    rcases Nat.eq_zero_or_pos n with rfl | hpos
    · left
      rw [hn, Nat.zero_mul, Nat.zero_mul]
      exact Nat.dvd_zero _
    · right
      have hscale : 2 ^ 52 * 100000000 ≤ unitsInOne := by decide +kernel
      rw [Nat.le_div_iff_mul_le units_lotScale_pos, hn, units_lotScale, ← Nat.mul_assoc]
      exact Nat.mul_le_mul_right _ (Nat.le_trans hscale (Nat.le_mul_of_pos_left _ hpos))
  have herror := hcount.abs_div_sub_le hfinite isPlus_lotScale isFinite_lotScale units_lotScale_pos
    (by rw [isFinite_div isFinite_lotScale one_le_lotScale, hfinite]) hlarge
  rwa [hcount.toRat_of_units_eq hn, toRat_lotScale] at herror

/-- The error of a lot that is counted in points of the grid. -/
theorem abs_mul_lotScale_sub_le {lots : Binary64} (hlots : lots.IsPlus) (hfinite : lots.isFinite = true)
    (hproduct : (lots * lotScale).isFinite = true) :
    |(lots * lotScale).toRat - lots.toRat * 10 ^ 8| ≤ lots.toRat * 10 ^ 8 / 2 ^ 53 := by
  have hdvd : unitsInOne ∣ lots.units * lotScale.units := by
    rw [units_lotScale, ← Nat.mul_assoc]
    exact Nat.dvd_mul_left _ _
  have herror := hlots.abs_mul_sub_le hfinite isPlus_lotScale isFinite_lotScale hproduct (.inl hdvd)
  rwa [toRat_lotScale] at herror

/-- A lot is half a point away from the grid at most, but for the rounding of numbers. -/
theorem abs_toGrid_sub_le {lots : Binary64} (hlots : lots.IsPlus) (hfinite : lots.isFinite = true)
    (hproduct : (lots * lotScale).isFinite = true) :
    |(toGrid lots).toRat - lots.toRat| ≤ 1 / (2 * 10 ^ 8) + lots.toRat / 2 ^ 51 := by
  have hplus := isPlus_mul_lotScale hlots
  obtain ⟨n, hn, hround⟩ := hplus.exists_round_eq hproduct
  have hpoint := abs_point_sub_le hplus.round (by rw [isFinite_round, hproduct]) hn
  have hscaled := abs_mul_lotScale_sub_le hlots hfinite hproduct
  have hnonneg := hlots.toRat_nonneg
  have hscaledNonneg := hplus.toRat_nonneg
  rw [toGrid]
  generalize (lots * lotScale).toRat = scaled at hround hscaled hscaledNonneg
  generalize ((lots * lotScale).round / lotScale).toRat = point at hpoint ⊢
  generalize lots.toRat = exact at hscaled hnonneg ⊢
  -- a count of points is at most twice what was rounded to it
  have hdouble : (n : ℚ) ≤ 2 * scaled := by
    rcases Nat.eq_zero_or_pos n with rfl | hpos
    · simpa using hscaledNonneg
    · have hone : (1 : ℚ) ≤ n := Nat.one_le_cast.2 hpos
      have := (abs_le.1 hround).2
      linarith
  rw [abs_le] at *
  constructor <;> linarith

/-! ## Points of the grid -/

section Points

variable {k : Nat} (hpos : 0 < k) (hk : k ≤ 2 ^ 50)

include hk

/-- A decimal with eight places, and a hundred million times it, is finite. -/
theorem isFinite_point :
    (ofDecimal k 8).isFinite = true ∧ (ofDecimal k 8 * lotScale).isFinite = true := by
  have hbounds : 2 ^ 50 * unitsInOne < overflowUnits * 10 ^ 8 ∧
      2 ^ 50 * unitsInOne * 100000000 < overflowUnits := by decide +kernel
  have hmul := Nat.mul_le_mul_right unitsInOne hk
  have hplaces : 0 < 10 ^ 8 := by decide
  have hfinite : (ofDecimal k 8).isFinite = true :=
    (isFinite_nearest_iff hplaces).2 (Nat.lt_of_le_of_lt hmul hbounds.1)
  refine ⟨hfinite, ?_⟩
  have hunits : (ofDecimal k 8).units ≤ 2 ^ 50 * unitsInOne := by
    rw [ofDecimal, units_nearest _ _ hplaces]
    refine Nat.le_trans (Nat.min_le_left _ _) (nearestUnits_le hplaces (representable_integer (by decide)).2 ?_)
    exact Nat.le_trans hmul (Nat.le_mul_of_pos_right _ hplaces)
  exact (isFinite_mul_lotScale_iff hfinite).2
    (Nat.lt_of_le_of_lt (Nat.mul_le_mul_right _ hunits) hbounds.2)

include hpos

/-- A decimal with eight places counts its digits in points. -/
theorem units_round_point : ((ofDecimal k 8) * lotScale).round.units = k * unitsInOne := by
  obtain ⟨hfinite, hproduct⟩ := isFinite_point hk
  have hplus : (ofDecimal k 8).IsPlus := .nearest ..
  have hplaces : 0 < 10 ^ 8 := by decide
  have hlarge : 2 ^ 52 ≤ k * unitsInOne / 10 ^ 8 := by
    have hscale : 2 ^ 52 * 10 ^ 8 ≤ unitsInOne := by decide +kernel
    rw [Nat.le_div_iff_mul_le hplaces]
    exact Nat.le_trans hscale (Nat.le_mul_of_pos_left _ hpos)
  have hdecimal := abs_nearest_sub_le hplaces hfinite (.inr hlarge)
  have hone : (unitsInOne : ℚ) ≠ 0 := Nat.cast_ne_zero.2 (Nat.ne_of_gt unitsInOne_pos)
  rw [Nat.cast_mul, mul_div_mul_right _ _ hone, ← ofDecimal] at hdecimal
  have hscaled := abs_mul_lotScale_sub_le hplus hfinite hproduct
  obtain ⟨n, hn, hround⟩ := (isPlus_mul_lotScale hplus).exists_round_eq hproduct
  have hdigits : (k : ℚ) ≤ 2 ^ 50 := by exact_mod_cast hk
  have hnear : |(n : ℚ) - k| < 1 := by
    -- each of the two errors is an eighth at most, as there are less than 2^50 points
    generalize (ofDecimal k 8 * lotScale).toRat = scaled at hscaled hround
    generalize (ofDecimal k 8).toRat = point at hscaled hdecimal
    norm_num at hdecimal hscaled
    rw [abs_le] at hdecimal hscaled hround
    rw [abs_lt]
    constructor <;> linarith
  have hnear' : |(n : Int) - k| < 1 := by exact_mod_cast hnear
  have hsame : n = k := by exact_mod_cast sub_eq_zero.1 (Int.abs_lt_one_iff.1 hnear')
  rw [hn, hsame]

/-- Decimals with eight places are points of the grid. -/
theorem toGrid_point : toGrid (ofDecimal k 8) = ofDecimal k 8 := by
  obtain ⟨-, hproduct⟩ := isFinite_point hk
  have hpoint : (ofDecimal k 8).IsPlus := .nearest ..
  have hplus := (isPlus_mul_lotScale hpoint).round
  rw [toGrid, div_of_isFinite (by rw [isFinite_round, hproduct]) isFinite_lotScale units_lotScale_pos,
    hplus.not_isNegative, isPlus_lotScale.not_isNegative, bne_self_eq_false, units_round_point hpos hk,
    units_lotScale, nearest, nearestUnits_mul_right _ _ unitsInOne_pos]
  rfl

end Points

/-! ## Lots that are brought to zero -/

theorem half_unitsInOne : 2 * (unitsInOne / 2) = unitsInOne ∧ unitsInOne / 2 ≤ unitsInInfinity ∧
    0 < unitsInInfinity := by decide +kernel

theorem exists_exponent : ∃ e, unitsInOne / 2 = 2 ^ (54 + e) ∧ unitsInOne / 2 ^ 55 = 2 ^ e :=
  ⟨1019, by decide +kernel⟩

/-- A lot is not brought to zero exactly if it counts at least half a point. -/
theorem toGrid_pos_iff_half {lots : Binary64} (hlots : lots.IsPlus) :
    0 < (toGrid lots).units ↔ unitsInOne / 2 ≤ (lots * lotScale).units := by
  have hplus := isPlus_mul_lotScale hlots
  obtain ⟨heven, hinfinity, hinfinityPos⟩ := half_unitsInOne
  cases hfinite : (lots * lotScale).isFinite with
  | false =>
    have hgrid : (toGrid lots).isFinite = false := by
      rw [toGrid, isFinite_div isFinite_lotScale one_le_lotScale, isFinite_round, hfinite]
    rw [(isPlus_toGrid hlots).units_of_not_isFinite hgrid, hplus.units_of_not_isFinite hfinite]
    exact ⟨fun _ => hinfinity, fun _ => hinfinityPos⟩
  | true =>
    have hround := units_round hfinite
    have hhalf : unitsInOne / 2 ≤ (lots * lotScale).units ↔
        0 < ((lots * lotScale).units + unitsInOne / 2) / unitsInOne := by
      rw [Nat.div_pos_iff]
      have hpos := unitsInOne_pos
      generalize unitsInOne = one at *
      omega
    rw [hhalf, toGrid, units_div (by rw [isFinite_round, hfinite]) isFinite_lotScale units_lotScale_pos, hround,
      units_lotScale, Nat.lt_min, nearestUnits_mul_right _ _ unitsInOne_pos]
    generalize ((lots * lotScale).units + unitsInOne / 2) / unitsInOne = n
    constructor
    · rintro ⟨hpositive, -⟩
      refine Nat.pos_of_ne_zero ?_
      rintro rfl
      rw [Nat.zero_mul, nearestUnits_zero] at hpositive
      exact Nat.lt_irrefl 0 hpositive
    · intro hpositive
      refine ⟨?_, hinfinityPos⟩
      have hscale : 1 * 100000000 ≤ unitsInOne := by decide +kernel
      exact le_nearestUnits (by decide) (spacing_dvd_two_pow 0)
        (Nat.le_trans hscale (Nat.le_mul_of_pos_left _ hpositive))

/-- The half of a point, less the rounding of numbers. -/
theorem half_le_iff {lots : Binary64} (hlots : lots.isFinite = true) :
    unitsInOne / 2 ≤ (lots * lotScale).units ↔
      (2 ^ 54 - 1) * (unitsInOne / 2 ^ 55) ≤ lots.units * 100000000 := by
  obtain ⟨-, hinfinity, -⟩ := half_unitsInOne
  obtain ⟨e, hhalf, hstep⟩ := exists_exponent
  have hwhole := nearestUnits_mul_right (lots.units * 100000000) 1 unitsInOne_pos
  rw [Nat.one_mul] at hwhole
  rw [units_mul hlots isFinite_lotScale, Nat.le_min, and_iff_left hinfinity, units_lotScale, ← Nat.mul_assoc,
    hwhole, hhalf, hstep, two_pow_le_nearestUnits_iff Nat.one_pos, Nat.mul_one]

theorem half_points_iff (units unit : Nat) (hunit : 0 < unit) :
    (2 ^ 54 - 1) * unit ≤ units * 100000000 ↔
      (1 / 2 - 1 / 2 ^ 55 : ℚ) ≤ (units : ℚ) / (2 ^ 55 * unit : Nat) * 10 ^ 8 := by
  have hpos : (0 : ℚ) < unit := Nat.cast_pos.2 hunit
  rw [← @Nat.cast_le ℚ, Nat.cast_mul, Nat.cast_mul, Nat.cast_mul, div_mul_eq_mul_div,
    le_div_iff₀ (by positivity)]
  norm_num
  constructor <;> intro h <;> linarith

theorem toGrid_pos_iff {lots : Binary64} (hlots : lots.IsPlus) (hfinite : lots.isFinite = true) :
    0 < (toGrid lots).units ↔ 1 / 2 - 1 / 2 ^ 55 ≤ lots.toRat * 10 ^ 8 := by
  have hunit : 0 < unitsInOne / 2 ^ 55 ∧ unitsInOne = 2 ^ 55 * (unitsInOne / 2 ^ 55) := by decide +kernel
  rw [toGrid_pos_iff_half hlots, half_le_iff hfinite, hlots.toRat_eq]
  generalize unitsInOne / 2 ^ 55 = unit at hunit ⊢
  rw [hunit.2]
  exact half_points_iff lots.units unit hunit.1

end TradeReentry.ProcessorSettings
