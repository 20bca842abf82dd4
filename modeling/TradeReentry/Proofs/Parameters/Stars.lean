import TradeReentry.Proofs.Parameters.Ranking

/-!
# Patterns that are exactly a star

Such a pattern holds of every text, so leaving it out of a set (`withoutStars`) changes neither whether the
set keeps the rules (`check_withoutStars`) nor to which trades it applies (`applies_withoutStars`). It does
count as a stated predicate, so that the ranking may change: requests are answered from the same tier
(`Counterparts.tier_eq`), and equally exactly if the winner still wins and is as specific
(`Counterparts.eq_iff`).
-/

namespace TradeReentry

namespace ParameterSet

def bareStar : Text := "*"

/-- A set without its patterns that are exactly a star. -/
def withoutStars (set : ParameterSet) : ParameterSet :=
  { set with
    calendarPattern? := dropBareStar set.calendarPattern?
    symbolPattern? := dropBareStar set.symbolPattern? }

/-- Whether a set states a pattern that is exactly a star. -/
def StatesStar (set : ParameterSet) : Prop :=
  set.calendarPattern? = some bareStar ∨ set.symbolPattern? = some bareStar

/-! ## One pattern -/

variable {pattern? : Option Text}

theorem dropBareStar_eq_self (h : pattern? ≠ some bareStar) : dropBareStar pattern? = pattern? := by
  cases pattern? with
  | none => rfl
  | some pattern =>
    have hne : pattern ≠ bareStar := fun heq => h (congrArg some heq)
    exact Option.filter_some_pos (by simpa [bareStar] using hne)

theorem dropBareStar_star : dropBareStar (some bareStar) = none := rfl

theorem holds_dropBareStar (value : Text) :
    holds Pattern.isMatch (dropBareStar pattern?) value = holds Pattern.isMatch pattern? value := by
  by_cases h : pattern? = some bareStar
  · rw [h, dropBareStar_star]
    rfl
  · rw [dropBareStar_eq_self h]

theorem checkPattern_dropBareStar (error : Text → Pattern.PatternError → RuleError) :
    checkPattern error (dropBareStar pattern?) = checkPattern error pattern? := by
  by_cases h : pattern? = some bareStar
  · rw [h, dropBareStar_star]
    rfl
  · rw [dropBareStar_eq_self h]

/-! ## Sets -/

variable {v : Vocabulary} {tiers : List Text} {sets : List ParameterSet} {criteria : Criteria}

theorem withoutStars_eq_self {set : ParameterSet} (h : ¬set.StatesStar) : set.withoutStars = set := by
  rw [StatesStar, not_or] at h
  rw [withoutStars, dropBareStar_eq_self h.1, dropBareStar_eq_self h.2]

theorem applies_withoutStars (set : ParameterSet) :
    set.withoutStars.applies criteria = set.applies criteria := by
  simp only [applies, withoutStars, holds_dropBareStar]

theorem check_withoutStars (set : ParameterSet) :
    set.withoutStars.check v tiers = set.check v tiers := by
  simp only [check, withoutStars, checkPattern_dropBareStar]
  rfl

theorem checkFrom_withoutStars (seen : List Text) :
    checkFrom v tiers seen (sets.map withoutStars) = checkFrom v tiers seen sets := by
  induction sets generalizing seen with
  | nil => rfl
  | cons set rest ih =>
    have hid : set.withoutStars.id = set.id := rfl
    rw [List.map_cons, checkFrom, checkFrom, check_withoutStars, hid, ih]

/-- Lists of sets break the rules alike. -/
theorem checkAll_withoutStars : checkAll v tiers (sets.map withoutStars) = checkAll v tiers sets :=
  checkFrom_withoutStars []

/-- Sets give the same values apart from their specificity. -/
theorem ofSet_withoutStars (set : ParameterSet) (tier : Text) (specificity : Binary64) (generation : Int) :
    ResolvedParameters.ofSet set.withoutStars tier specificity generation =
      .ofSet set tier specificity generation := rfl

end ParameterSet

namespace Resolver

open ParameterSet

variable {sets : List ParameterSet} {criteria : Criteria} {tiers : List Text}

/-! ## Winners -/

theorem isFirst_withoutStars {tier : Text} :
    IsFirst (sets.map withoutStars) criteria tiers tier ↔ IsFirst sets criteria tiers tier := by
  simp only [IsFirst, List.forall_mem_map, applies_withoutStars]
  rfl

/-- A winner that is also the winner if patterns that are exactly a star are not counted, and that is as
specific then. -/
structure WinsWithoutStars (sets : List ParameterSet) (criteria : Criteria) (tiers : List Text)
    (set : ParameterSet) : Prop where
  winner : Winner (sets.map withoutStars) criteria tiers set.withoutStars
  specificity : set.withoutStars.specificity = set.specificity

/-- If no set that applies states such a pattern, the winner stays the winner. -/
theorem winsWithoutStars_of_not_statesStar {set : ParameterSet} (h : Winner sets criteria tiers set)
    (hnone : ∀ other ∈ sets, other.applies criteria = true → ¬other.StatesStar) :
    WinsWithoutStars sets criteria tiers set := by
  have hself : ∀ other ∈ sets, other.applies criteria = true → other.withoutStars = other :=
    fun other hother happlies => withoutStars_eq_self (hnone other hother happlies)
  have hset := hself set h.mem h.applies
  refine ⟨⟨List.mem_map_of_mem h.mem, ?_, isFirst_withoutStars.2 h.first, ?_⟩, by rw [hset]⟩
  · rw [applies_withoutStars, h.applies]
  · -- Only sets that apply are ranked, and those are the same with and without such patterns.
    rw [List.forall_mem_map]
    intro other hother happlies htier hne
    rw [applies_withoutStars] at happlies
    rw [hset, hself other hother happlies] at hne htier ⊢
    exact h.precedes other hother happlies htier hne

/-! ## Answers -/

variable {request : ResolveRequest} {direct read : ResolvedParameters}

/-- How the answers from sets with and without such patterns are related. -/
inductive Counterparts (sets : List ParameterSet) (tiers : List Text) (request : ResolveRequest) :
    ResolvedParameters → ResolvedParameters → Prop where
  | winners (set other : ParameterSet) (h : Winner sets request.criteria tiers set) (hother : other ∈ sets)
      (hother' : Winner (sets.map withoutStars) request.criteria tiers other.withoutStars)
      (htier : set.tier = other.tier) :
      Counterparts sets tiers request (.ofSet set set.tier set.specificity request.generation)
        (.ofSet other other.tier other.withoutStars.specificity request.generation)
  | emergency (h : ∀ set ∈ sets, set.applies request.criteria = false) :
      Counterparts sets tiers request (.emergency request.generation) (.emergency request.generation)

theorem counterparts_of_answers (hdirect : Answer sets tiers request direct)
    (hread : Answer (sets.map withoutStars) tiers request read) :
    Counterparts sets tiers request direct read := by
  cases hdirect with
  | winner set h =>
    cases hread with
    | winner other' h' =>
      obtain ⟨other, hother, rfl⟩ := List.mem_map.1 h'.mem
      have happlies : other.applies request.criteria = true := applies_withoutStars other ▸ h'.applies
      have htier : set.tier = other.tier := tier_eq_of_isFirst h.mem h.applies h.first hother happlies
        (isFirst_withoutStars.1 h'.first)
      exact .winners set other h hother h' htier
    | emergency h' =>
      have hfalse := h' set.withoutStars (List.mem_map_of_mem h.mem)
      rw [applies_withoutStars, h.applies] at hfalse
      exact absurd hfalse.symm Bool.false_ne_true
  | emergency h =>
    cases hread with
    | winner other' h' =>
      obtain ⟨other, hother, rfl⟩ := List.mem_map.1 h'.mem
      have htrue := h'.applies
      rw [applies_withoutStars, h other hother] at htrue
      exact absurd htrue Bool.false_ne_true
    | emergency _ => exact .emergency h

/-- Both answers are from the same tier. -/
theorem Counterparts.tier_eq (h : Counterparts sets tiers request direct read) :
    read.tier = direct.tier := by
  cases h with
  | winners set other _ _ _ htier => exact htier.symm
  | emergency _ => rfl

/-- The answers are the same exactly if the winner wins without such patterns as well. -/
theorem Counterparts.eq_iff (h : Counterparts sets tiers request direct read)
    (hids : (sets.map (·.id)).Nodup) :
    read = direct ↔ ∀ set, Winner sets request.criteria tiers set →
      WinsWithoutStars sets request.criteria tiers set := by
  cases h with
  | winners set other h hother h' htier =>
    constructor
    · intro heq winner hwinner
      -- Answers that are the same name the same set, and no two sets share a name.
      obtain rfl := h.unique hwinner
      have hid : other.id = winner.id := congrArg (·.setId) heq
      obtain rfl := List.inj_on_of_nodup_map hids hother h.mem hid
      exact ⟨h', congrArg (·.specificity) heq⟩
    · intro hwins
      obtain ⟨hwinner, hspecificity⟩ := hwins set h
      have hsame : other.withoutStars = set.withoutStars := hwinner.unique h'
      rw [← ofSet_withoutStars other, hsame, hspecificity, ofSet_withoutStars, htier]
  | emergency h =>
    refine iff_of_true rfl fun set hwinner => ?_
    exact absurd ((h set hwinner.mem).symm.trans hwinner.applies) Bool.false_ne_true

end Resolver

end TradeReentry
