import TradeReentry.Parameters.Basic
import TradeReentry.Proofs.Binary64.Arithmetic
import TradeReentry.Proofs.Results

/-!
# The inequalities behind the rules for numbers

The rules for the numbers of settings and of parameter sets stand for inequalities (`ProcessorSettings.bounds`,
`ParameterSet.bounds`). A rule refuses what compares the other way round, which a NaN never does: what is accepted
keeps every inequality between two numbers, and none that a NaN takes part in (`bounds_of_check`).
-/

namespace TradeReentry

open Binary64

namespace Binary64

/-- An inequality between two numbers. -/
inductive Inequality where
  | lt (x y : Binary64)
  | le (x y : Binary64)
deriving DecidableEq, Repr

namespace Inequality

/-- Whether an inequality is true. -/
def Holds : Inequality → Prop
  | lt x y => x < y
  | le x y => x ≤ y

/-- Whether no side of an inequality is a NaN. -/
def Ordered : Inequality → Prop
  | lt x y | le x y => x.isNaN = false ∧ y.isNaN = false

/-- Whether the sides of an inequality compare the other way round. -/
def Reversed : Inequality → Prop
  | lt x y => y ≤ x
  | le x y => y < x

instance (c : Inequality) : Decidable c.Holds := by
  cases c <;> exact inferInstanceAs (Decidable (_ ∧ _))

instance (c : Inequality) : Decidable c.Reversed := by
  cases c <;> exact inferInstanceAs (Decidable (_ ∧ _))

theorem ordered_of_holds {c : Inequality} (h : c.Holds) : c.Ordered := by
  cases c <;> exact ⟨h.1, h.2.1⟩

/-- What does not compare the other way round holds, unless there is nothing to compare. -/
theorem not_reversed_iff {c : Inequality} : ¬c.Reversed ↔ (c.Ordered → c.Holds) := by
  cases c with
  | lt x y =>
    constructor
    · rintro h ⟨hx, hy⟩
      exact ⟨hx, hy, Int.not_le.1 fun hle => h ⟨hy, hx, hle⟩⟩
    · rintro h ⟨hy, hx, hle⟩
      exact absurd (h ⟨hx, hy⟩).2.2 (Int.not_lt.2 hle)
  | le x y =>
    constructor
    · rintro h ⟨hx, hy⟩
      exact ⟨hx, hy, Int.not_lt.1 fun hlt => h ⟨hy, hx, hlt⟩⟩
    · rintro h ⟨hy, hx, hlt⟩
      exact absurd (h ⟨hx, hy⟩).2.2 (Int.not_le.2 hlt)

end Inequality

end Binary64

open Inequality

/-! ## Parameter sets -/

namespace ParameterSet

/-- The inequalities that the numbers of a set have to keep. -/
def bounds (set : ParameterSet) : List Inequality :=
  [.lt zero set.lotSizeMultiplier, .lt zero set.stopLossPips, .lt zero set.takeProfitPips,
    .le zero set.confidenceThreshold, .le set.confidenceThreshold one] ++
    set.volatilityThreshold?.toList.map (.le zero) ++ set.spreadThreshold?.toList.map (.le zero)

/-- The set with the numbers that a set has if it states none. -/
def withDefaultNumbers (set : ParameterSet) : ParameterSet :=
  let defaults : ParameterSet := {}
  { set with
    lotSizeMultiplier := defaults.lotSizeMultiplier
    stopLossPips := defaults.stopLossPips
    takeProfitPips := defaults.takeProfitPips
    confidenceThreshold := defaults.confidenceThreshold
    volatilityThreshold? := none
    spreadThreshold? := none }

theorem isBelowZero_iff {x? : Option Binary64} :
    isBelowZero x? = true ↔ ∃ c ∈ x?.toList.map (Inequality.le zero), c.Reversed := by
  cases x? <;> simp [isBelowZero, Reversed]

/-- The three rules for numbers look at all of the inequalities. -/
theorem forall_bounds_iff {set : ParameterSet} :
    (∀ c ∈ set.bounds, ¬c.Reversed) ↔
      ¬(set.lotSizeMultiplier ≤ zero ∨ set.stopLossPips ≤ zero ∨ set.takeProfitPips ≤ zero) ∧
      ¬(set.confidenceThreshold < zero ∨ one < set.confidenceThreshold) ∧
      ¬(isBelowZero set.volatilityThreshold? = true ∨ isBelowZero set.spreadThreshold? = true) := by
  simp only [bounds, List.forall_mem_append, List.forall_mem_cons, List.not_mem_nil, false_imp_iff,
    implies_true, isBelowZero_iff, Reversed, not_or, not_exists, not_and, and_true, and_assoc]

theorem not_reversed_of_default (set : ParameterSet) : ∀ c ∈ set.withDefaultNumbers.bounds, ¬c.Reversed := by
  have hdefaults : ∀ c ∈ ({} : ParameterSet).bounds, ¬c.Reversed := by decide +kernel
  simpa only [bounds, withDefaultNumbers] using hdefaults

/-- The rules for numbers stand apart from the others. -/
theorem check_eq_ok_iff {v : Vocabulary} {tiers : List Text} {set : ParameterSet} :
    set.check v tiers = .ok () ↔
      set.withDefaultNumbers.check v tiers = .ok () ∧ ∀ c ∈ set.bounds, ¬c.Reversed := by
  have hdefaults := forall_bounds_iff.1 set.not_reversed_of_default
  simp only [withDefaultNumbers] at hdefaults
  obtain ⟨hdefaultAmounts, hdefaultConfidence, hdefaultThresholds⟩ := hdefaults
  rw [forall_bounds_iff]
  simp only [check, refuseIf, bind_unit_eq_ok_iff, ite_error_eq_ok_iff]
  simp only [withDefaultNumbers]
  constructor
  · rintro ⟨hid, htier, houtcome, hduration, hproximity, hcalendar, hsymbol, hgeneration, hamounts,
      hconfidence, hwait, hthresholds⟩
    exact ⟨⟨hid, htier, houtcome, hduration, hproximity, hcalendar, hsymbol, hgeneration, hdefaultAmounts,
      hdefaultConfidence, hwait, hdefaultThresholds⟩, hamounts, hconfidence, hthresholds⟩
  · rintro ⟨⟨hid, htier, houtcome, hduration, hproximity, hcalendar, hsymbol, hgeneration, -, -, hwait, -⟩,
      hamounts, hconfidence, hthresholds⟩
    exact ⟨hid, htier, houtcome, hduration, hproximity, hcalendar, hsymbol, hgeneration, hamounts,
      hconfidence, hwait, hthresholds⟩

end ParameterSet

/-! ## Settings -/

namespace ProcessorSettings

/-- The inequalities that the numbers of settings have to keep. -/
def bounds (p : ProcessorSettings) : List Inequality :=
  [.le zero p.minTradeDurationMinutes, .le p.lossThresholdPips p.profitThresholdPips,
    .le zero p.flashMaxMinutes, .lt p.flashMaxMinutes p.quickMaxMinutes,
    .lt p.quickMaxMinutes p.longMaxMinutes, .lt zero p.lotStep] ++
    p.lotSteps.entries.map (fun e => .lt zero e.2) ++
    [.le zero p.specificityWeight, .le zero p.winBonus, .le zero p.lossPenalty, .le zero p.generationPenalty]

/-- The settings with the numbers that a program starts with. -/
def withDefaultNumbers (p : ProcessorSettings) : ProcessorSettings where
  completedTradesOnly := p.completedTradesOnly
  excludeManualCloses := p.excludeManualCloses
  cooldownMinutes := p.cooldownMinutes
  maxAttemptsPerDay := p.maxAttemptsPerDay
  recentCapacity := p.recentCapacity

theorem not_reversed_of_default (p : ProcessorSettings) :
    ∀ c ∈ p.withDefaultNumbers.bounds, ¬c.Reversed := by
  have hdefaults : ∀ c ∈ ({} : ProcessorSettings).bounds, ¬c.Reversed := by decide +kernel
  simpa only [bounds, withDefaultNumbers] using hdefaults

end ProcessorSettings

namespace Settings

theorem checkLotSteps_eq_ok_iff {entries : List (Text × Binary64)} :
    checkLotSteps entries = .ok () ↔ ∀ e ∈ entries, ¬e.2 ≤ zero := by
  induction entries with
  | nil => simp [checkLotSteps]
  | cons e rest ih =>
    rw [checkLotSteps, List.forall_mem_cons, ← ih]
    split
    · next hstep => simp [hstep]
    · next hstep => simp [hstep]

/-- The rules for numbers look at all of the inequalities. -/
theorem forall_bounds_iff {p : ProcessorSettings} :
    (∀ c ∈ p.bounds, ¬c.Reversed) ↔
      ¬p.minTradeDurationMinutes < zero ∧ ¬p.profitThresholdPips < p.lossThresholdPips ∧
      ¬(p.flashMaxMinutes < zero ∨ p.quickMaxMinutes ≤ p.flashMaxMinutes ∨
        p.longMaxMinutes ≤ p.quickMaxMinutes) ∧
      ¬p.lotStep ≤ zero ∧ checkLotSteps p.lotSteps.entries = .ok () ∧
      ¬(p.specificityWeight < zero ∨ p.winBonus < zero ∨ p.lossPenalty < zero ∨
        p.generationPenalty < zero) := by
  simp only [ProcessorSettings.bounds, List.forall_mem_append, List.forall_mem_cons, List.forall_mem_map,
    List.not_mem_nil, false_imp_iff, implies_true, Reversed, checkLotSteps_eq_ok_iff, not_or, and_true,
    and_assoc]

/-- The settings with the numbers that a program starts with. -/
def withDefaultNumbers (s : Settings) : Settings :=
  { s with processor := s.processor.withDefaultNumbers }

/-- The rules for numbers stand apart from the others. -/
theorem check_eq_ok_iff {s : Settings} :
    s.check = .ok () ↔ s.withDefaultNumbers.check = .ok () ∧ ∀ c ∈ s.processor.bounds, ¬c.Reversed := by
  have hdefaults := forall_bounds_iff.1 s.processor.not_reversed_of_default
  simp only [ProcessorSettings.withDefaultNumbers] at hdefaults
  obtain ⟨hdefaultDuration, hdefaultPips, hdefaultOrder, hdefaultStep, hdefaultSteps, hdefaultWeights⟩ :=
    hdefaults
  rw [forall_bounds_iff]
  simp only [check, checkProcessor, refuseIf, bind_unit_eq_ok_iff, ite_error_eq_ok_iff]
  simp only [withDefaultNumbers, ProcessorSettings.withDefaultNumbers]
  constructor
  · rintro ⟨htiers, hdistinct, ⟨hduration, hcooldown, hattempts, hpips, horder, hstep, hsteps, hweights,
      hcapacity⟩, hrest⟩
    exact ⟨⟨htiers, hdistinct, ⟨hdefaultDuration, hcooldown, hattempts, hdefaultPips, hdefaultOrder,
      hdefaultStep, hdefaultSteps, hdefaultWeights, hcapacity⟩, hrest⟩,
      hduration, hpips, horder, hstep, hsteps, hweights⟩
  · rintro ⟨⟨htiers, hdistinct, ⟨-, hcooldown, hattempts, -, -, -, -, -, hcapacity⟩, hrest⟩,
      hduration, hpips, horder, hstep, hsteps, hweights⟩
    exact ⟨htiers, hdistinct, ⟨hduration, hcooldown, hattempts, hpips, horder, hstep, hsteps, hweights,
      hcapacity⟩, hrest⟩

end Settings

/-- Parameter sets and settings are accepted exactly if they would be with default numbers and each of their
inequalities holds that has no NaN on either side. So among the inequalities of what is accepted, just those
hold that have none. -/
theorem bounds_of_check (v : Vocabulary) (tiers : List Text) (set : ParameterSet) (s : Settings) :
    (set.check v tiers = .ok () ↔
      set.withDefaultNumbers.check v tiers = .ok () ∧ ∀ c ∈ set.bounds, c.Ordered → c.Holds) ∧
    (set.check v tiers = .ok () → ∀ c ∈ set.bounds, (c.Holds ↔ c.Ordered)) ∧
    (s.check = .ok () ↔
      s.withDefaultNumbers.check = .ok () ∧ ∀ c ∈ s.processor.bounds, c.Ordered → c.Holds) ∧
    (s.check = .ok () → ∀ c ∈ s.processor.bounds, (c.Holds ↔ c.Ordered)) := by
  simp only [← not_reversed_iff]
  refine ⟨ParameterSet.check_eq_ok_iff, ?_, Settings.check_eq_ok_iff, ?_⟩
  · intro h c hc
    exact ⟨ordered_of_holds, not_reversed_iff.1 ((ParameterSet.check_eq_ok_iff.1 h).2 c hc)⟩
  · intro h c hc
    exact ⟨ordered_of_holds, not_reversed_iff.1 ((Settings.check_eq_ok_iff.1 h).2 c hc)⟩

/-- A multiplier and a lot step that are no numbers are accepted, and are not above zero. -/
theorem bounds_of_check_nan :
    let set : ParameterSet := { ParameterSet.globalDefault with lotSizeMultiplier := nan false }
    let s : Settings := { processor.lotStep := nan false }
    set.check .builtin s.resolver.tierHierarchy = .ok () ∧
      ¬zero < set.lotSizeMultiplier ∧ zero < set.stopLossPips ∧
      s.check = .ok () ∧ ¬zero < s.processor.lotStep ∧
      s.processor.flashMaxMinutes < s.processor.quickMaxMinutes := by
  intro set s
  have hset : set.check .builtin s.resolver.tierHierarchy = .ok () := by decide +kernel
  have hsettings : s.check = .ok () := by decide +kernel
  obtain ⟨-, hsetBounds, -, hbounds⟩ := bounds_of_check .builtin s.resolver.tierHierarchy set s
  have hmultiplier := hsetBounds hset (.lt zero set.lotSizeMultiplier) (by simp [ParameterSet.bounds])
  have hstopLoss := hsetBounds hset (.lt zero set.stopLossPips) (by simp [ParameterSet.bounds])
  have hstep := hbounds hsettings (.lt zero s.processor.lotStep) (by simp [ProcessorSettings.bounds])
  have hquick := hbounds hsettings (.lt s.processor.flashMaxMinutes s.processor.quickMaxMinutes)
    (by simp [ProcessorSettings.bounds])
  refine ⟨hset, fun h => ?_, hstopLoss.2 ⟨by decide +kernel, by decide +kernel⟩, hsettings, fun h => ?_,
    hquick.2 ⟨by decide +kernel, by decide +kernel⟩⟩
  · exact absurd (hmultiplier.1 h).2 (by decide +kernel)
  · exact absurd (hstep.1 h).2 (by decide +kernel)

end TradeReentry
