import TradeReentry.Parameters.Basic
import TradeReentry.Proofs.Text.Patterns

/-!
# What the predicates of a set ask of a trade

A set applies to the trades of which all its predicates hold, and as the search ends at the first that does
not, the share that is counted then is one, or zero if none is stated (`matchOf?_eq`). A set that keeps the
rules applies to the trades with the tokens that it states whose calendar and symbol its patterns stand for
(`applies_iff_fits`).
-/

namespace TradeReentry.ParameterSet

variable {set : ParameterSet} {criteria : Criteria}

/-- Whether an optional predicate holds of a value. -/
def holds (test : Text → Text → Bool) (predicate? : Option Text) (value : Text) : Bool :=
  predicate?.all (test · value)

/-- Whether all predicates of an active set hold. -/
def applies (set : ParameterSet) (criteria : Criteria) : Bool :=
  set.active &&
    holds (· == ·) set.outcomeClass? criteria.outcome &&
    holds (· == ·) set.durationClass? criteria.duration &&
    holds (· == ·) set.proximityState? criteria.proximity &&
    holds Pattern.isMatch set.calendarPattern? criteria.calendar &&
    holds Pattern.isMatch set.symbolPattern? criteria.symbol

/-- The number of predicates that a set states. -/
def declaredCount (set : ParameterSet) : Nat :=
  ([set.outcomeClass?, set.durationClass?, set.proximityState?, set.calendarPattern?,
    set.symbolPattern?].filter (·.isSome)).length

/-- The share of the stated predicates that hold, of a set that applies: all of them, or none if
none is stated. -/
def specificity (set : ParameterSet) : Binary64 := if set.declaredCount = 0 then .zero else .one

/-! ## Counting -/

/-- A search in which all predicates so far held goes on past one more that holds. -/
theorem look_bind {α : Type} (test : Text → Text → Bool) (predicate? : Option Text) (value : Text) (n : Nat)
    (rest : Score → Option α) :
    (Score.look test predicate? value ⟨n, n⟩).bind rest =
      if holds test predicate? value then
        rest ⟨n + predicate?.toList.length, n + predicate?.toList.length⟩
      else none := by
  cases predicate? with
  | none => rfl
  | some predicate =>
    rw [Score.look, holds, Option.all_some]
    split <;> rfl

theorem declaredCount_eq (set : ParameterSet) :
    set.declaredCount = 0 + set.outcomeClass?.toList.length + set.durationClass?.toList.length +
      set.proximityState?.toList.length + set.calendarPattern?.toList.length +
      set.symbolPattern?.toList.length := by
  have hlength : ∀ predicates : List (Option Text),
      (predicates.filter (·.isSome)).length = (predicates.map (·.toList.length)).sum := by
    intro predicates
    induction predicates with
    | nil => rfl
    | cons predicate? rest ih => cases predicate? <;> simp [ih, Nat.add_comm]
  rw [declaredCount, hlength]
  simp [Nat.add_assoc]

theorem declaredCount_le (set : ParameterSet) : set.declaredCount ≤ 5 := List.length_filter_le ..

/-- The share of all of a few predicates. -/
theorem specificity_score {n : Nat} (h : n ≤ 5) :
    (⟨n, n⟩ : Score).specificity = if n = 0 then .zero else .one := by
  have hall : ∀ n ≤ 5, (⟨n, n⟩ : Score).specificity = if n = 0 then .zero else .one := by
    decide +kernel
  exact hall n h

/-- A set that applies is as specific as the share that was counted says. -/
theorem matchOf?_eq (set : ParameterSet) (criteria : Criteria) :
    set.matchOf? criteria =
      if set.applies criteria then some ⟨set.specificity, set.declaredCount⟩ else none := by
  have hshare := specificity_score set.declaredCount_le
  rw [← specificity] at hshare
  rw [← hshare, declaredCount_eq, matchOf?, applies]
  cases set.active with
  | false => rfl
  | true =>
    change (Score.look _ _ _ ⟨0, 0⟩).bind _ = _
    simp only [Option.bind_eq_bind, look_bind, Option.pure_def, Bool.true_and, Bool.and_eq_true, ite_and]

/-! ## Fitting -/

/-- What an active set asks of a trade. A predicate that it does not state asks nothing. -/
structure Fits (set : ParameterSet) (criteria : Criteria) : Prop where
  active : set.active = true
  outcome : ∀ token ∈ set.outcomeClass?, criteria.outcome = token
  duration : ∀ token ∈ set.durationClass?, criteria.duration = token
  proximity : ∀ token ∈ set.proximityState?, criteria.proximity = token
  calendar : ∀ pattern ∈ set.calendarPattern?, ∃ filling, criteria.calendar = Pattern.fill pattern filling
  symbol : ∀ pattern ∈ set.symbolPattern?, ∃ filling, criteria.symbol = Pattern.fill pattern filling

theorem holds_iff {test : Text → Text → Bool} {predicate? : Option Text} {value : Text} :
    holds test predicate? value = true ↔ ∀ predicate ∈ predicate?, test predicate value = true := by
  cases predicate? with
  | none => simp [holds]
  | some predicate => simp [holds]

theorem holds_token_iff {token? : Option Text} {value : Text} :
    holds (· == ·) token? value = true ↔ ∀ token ∈ token?, value = token := by
  rw [holds_iff]
  exact forall₂_congr fun _ _ => beq_iff_eq.trans eq_comm

/-- A pattern that was accepted. -/
theorem holds_pattern_iff {error : Text → Pattern.PatternError → RuleError} {pattern? : Option Text}
    {value : Text} (h : checkPattern error pattern? = .ok ()) :
    holds Pattern.isMatch pattern? value = true ↔
      ∀ pattern ∈ pattern?, ∃ filling, value = Pattern.fill pattern filling := by
  rw [holds_iff]
  refine forall₂_congr fun pattern hpattern => ?_
  obtain rfl := Option.mem_def.1 hpattern
  rw [checkPattern] at h
  split at h
  · simp at h
  next hcheck =>
  exact (Pattern.placed_of_check hcheck).isMatch_iff value

theorem applies_iff_fits {v : Vocabulary} {tiers : List Text} (h : set.check v tiers = .ok ()) :
    set.applies criteria = true ↔ set.Fits criteria := by
  simp only [check, bind_eq_ok_iff] at h
  obtain ⟨_, -, _, -, _, -, _, -, _, -, _, hcalendar, _, hsymbol, -⟩ := h
  simp only [applies, Bool.and_eq_true, holds_token_iff, holds_pattern_iff hcalendar,
    holds_pattern_iff hsymbol]
  constructor
  · rintro ⟨⟨⟨⟨⟨hactive, houtcome⟩, hduration⟩, hproximity⟩, hcalendar⟩, hsymbol⟩
    exact ⟨hactive, houtcome, hduration, hproximity, hcalendar, hsymbol⟩
  · rintro ⟨hactive, houtcome, hduration, hproximity, hcalendar, hsymbol⟩
    exact ⟨⟨⟨⟨⟨hactive, houtcome⟩, hduration⟩, hproximity⟩, hcalendar⟩, hsymbol⟩

end TradeReentry.ParameterSet
