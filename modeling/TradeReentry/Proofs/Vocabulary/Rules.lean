import TradeReentry.Proofs.Text.Patterns
import TradeReentry.Vocabulary.Basic

/-!
# What the rules of a vocabulary give

The tokens of a vocabulary that keeps the rules are well-formed and its generations count from one on
(`sound_of_check`), and its calendars are texts that its patterns stand for (`isValidCalendar_iff`). A context
is without fault if the vocabulary allows each of its parts (`faults_eq_nil_iff`).
-/

namespace TradeReentry.Vocabulary

variable {v : Vocabulary} {dimension : Dimension}

/-- What the rules ask of a token by itself. -/
structure IsToken (dimension : Dimension) (token : Text) : Prop where
  ne_nil : token ≠ []
  bytes : ∀ c ∈ token, isTokenByte c = true
  single : dimension.isSingleSegment = true → Ascii.underscore ∉ token
  digits : token.all Ascii.isDigit = false

theorem isToken_of_tokenError? {seen : List Text} {token : Text}
    (h : tokenError? dimension seen token = none) : IsToken dimension token := by
  unfold tokenError? at h
  split at h
  · simp at h
  next hbytes =>
  split at h
  · simp at h
  next hunderscore =>
  split at h
  · simp at h
  next hdigits =>
  simp only [Text.isNonemptyOf, Bool.not_eq_true', Bool.not_eq_false, Bool.and_eq_true,
    List.isEmpty_eq_false_iff, List.all_eq_true] at hbytes
  refine ⟨hbytes.1, hbytes.2, ?_, ?_⟩
  · intro hsingle hmem
    simp [hsingle, hmem] at hunderscore
  · simpa [Text.isNonemptyOf, hbytes.1] using hdigits

theorem isToken_of_checkTokensFrom {seen tokens : List Text}
    (h : checkTokensFrom dimension seen tokens = .ok ()) :
    ∀ token ∈ tokens, IsToken dimension token := by
  induction tokens generalizing seen with
  | nil => simp
  | cons token rest ih =>
    rw [checkTokensFrom] at h
    split at h
    · simp at h
    next hnone => exact List.forall_mem_cons.2 ⟨isToken_of_tokenError? hnone, ih h⟩

theorem isToken_of_checkTokens (h : v.checkTokens dimension = .ok ()) :
    ∀ token ∈ v.tokens dimension, IsToken dimension token := by
  rw [checkTokens] at h
  split at h
  · simp at h
  · exact isToken_of_checkTokensFrom h

/-- What the rules give. -/
structure Sound (v : Vocabulary) : Prop where
  tokens : ∀ dimension, ∀ token ∈ v.tokens dimension, IsToken dimension token
  generations : 1 ≤ v.generationMin
  ordered : v.generationMin ≤ v.generationMax

theorem sound_of_check (h : v.check = .ok ()) : v.Sound := by
  simp only [check, bind_eq_ok_iff] at h
  obtain ⟨_, houtcome, _, hduration, _, hproximity, _, hdirection, h⟩ := h
  split at h
  · simp [bind, Except.bind] at h
  next hrange =>
  rw [not_or] at hrange
  constructor
  case tokens =>
    intro dimension
    cases dimension with
    | outcome => exact isToken_of_checkTokens houtcome
    | duration => exact isToken_of_checkTokens hduration
    | proximity => exact isToken_of_checkTokens hproximity
    | direction => exact isToken_of_checkTokens hdirection
  case generations => omega
  case ordered => omega

theorem check_builtin : builtin.check = .ok () := by decide +kernel

/-! ## Calendars -/

theorem checkPatterns_eq_ok_iff {patterns : List Text} :
    checkPatterns patterns = .ok () ↔ ∀ pattern ∈ patterns, Pattern.check pattern = .ok () := by
  induction patterns with
  | nil => simp [checkPatterns]
  | cons pattern rest ih =>
    rw [checkPatterns, List.forall_mem_cons]
    split
    · next herror => simp [herror]
    · next hok => rw [ih, and_iff_right hok]

theorem patterns_of_check (h : v.check = .ok ()) :
    ∀ pattern ∈ v.calendarPatterns, Pattern.check pattern = .ok () := by
  simp only [check, bind_eq_ok_iff] at h
  obtain ⟨_, -, _, -, _, -, _, -, h⟩ := h
  split at h
  · simp [bind, Except.bind] at h
  split at h
  · simp [bind, Except.bind] at h
  split at h
  · simp [bind, Except.bind] at h
  exact checkPatterns_eq_ok_iff.1 h

/-- A text that the vocabulary takes for a calendar. -/
structure IsCalendar (v : Vocabulary) (calendar : Text) : Prop where
  length : v.calendarMinLength ≤ calendar.length
  ne_nil : calendar ≠ []
  bytes : ∀ c ∈ calendar, isTokenByte c = true
  segments : ∀ segment ∈ (Text.splitOn Ascii.underscore calendar).tail, segment ≠ []
  pattern : ∃ pattern ∈ v.calendarPatterns, ∃ filling, calendar = Pattern.fill pattern filling

/-- The calendars of a vocabulary that keeps the rules are texts that its patterns stand for. -/
theorem isValidCalendar_iff (h : v.check = .ok ()) {calendar : Text} :
    v.isValidCalendar calendar = true ↔ calendar = noCalendar ∨ v.IsCalendar calendar := by
  have hpatterns : (∃ pattern ∈ v.calendarPatterns, Pattern.isMatch pattern calendar = true) ↔
      ∃ pattern ∈ v.calendarPatterns, ∃ filling, calendar = Pattern.fill pattern filling := by
    refine exists_congr fun pattern => and_congr_right fun hpattern => ?_
    exact (Pattern.placed_of_check (patterns_of_check h pattern hpattern)).isMatch_iff calendar
  simp only [isValidCalendar, Text.isNonemptyOf, Bool.or_eq_true, Bool.and_eq_true, decide_eq_true_eq,
    Bool.not_eq_true', List.any_eq_true, List.any_eq_false, List.all_eq_true, List.isEmpty_eq_false_iff,
    List.isEmpty_iff, hpatterns]
  refine or_congr_right ?_
  constructor
  · rintro ⟨⟨⟨hlength, hne, hbytes⟩, hsegments⟩, hpattern⟩
    exact ⟨hlength, hne, hbytes, hsegments, hpattern⟩
  · rintro ⟨hlength, hne, hbytes, hsegments, hpattern⟩
    exact ⟨⟨⟨hlength, hne, hbytes⟩, hsegments⟩, hpattern⟩

/-! ## Contexts -/

theorem isValidGeneration_iff {generation : Int} :
    v.isValidGeneration generation = true ↔
      v.generationMin ≤ generation ∧ generation ≤ v.generationMax := by
  simp [isValidGeneration]

theorem tokenFaults_eq_nil_iff {token : Text} :
    v.tokenFaults dimension token = [] ↔ token ∈ v.tokens dimension := by
  simp [tokenFaults, isLegal]

/-- What the vocabulary asks of the parts of a context. -/
structure Allows (v : Vocabulary) (outcome duration proximity calendar direction : Text)
    (generation : Int) : Prop where
  outcome : outcome ∈ v.tokens .outcome
  duration : duration ∈ v.tokens .duration
  proximity : proximity ∈ v.tokens .proximity
  calendar : v.isValidCalendar calendar = true
  direction : direction ∈ v.tokens .direction
  generation : v.isValidGeneration generation = true

theorem faults_eq_nil_iff {outcome duration proximity calendar direction : Text} {generation : Int} :
    v.faults outcome duration proximity calendar direction generation = [] ↔
      v.Allows outcome duration proximity calendar direction generation := by
  simp only [faults, List.append_eq_nil_iff, tokenFaults_eq_nil_iff, ite_eq_left_iff,
    List.cons_ne_nil, imp_false, Bool.not_eq_true, Bool.not_eq_false]
  constructor
  · rintro ⟨⟨⟨⟨⟨houtcome, hduration⟩, hproximity⟩, hcalendar⟩, hdirection⟩, hgeneration⟩
    exact ⟨houtcome, hduration, hproximity, hcalendar, hdirection, hgeneration⟩
  · rintro ⟨houtcome, hduration, hproximity, hcalendar, hdirection, hgeneration⟩
    exact ⟨⟨⟨⟨⟨houtcome, hduration⟩, hproximity⟩, hcalendar⟩, hdirection⟩, hgeneration⟩

end TradeReentry.Vocabulary
