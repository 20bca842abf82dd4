import TradeReentry.Proofs.HybridId.Parsing
import TradeReentry.Proofs.Vocabulary.Rules

/-!
# Reading composed identifiers back

The text of a composed identifier is parsed as the parts it was composed of exactly if it is `Readable`: no
segment of the proximity or the calendar is empty, the generation has at most three digits and no longer
token begins with the proximity and the start of the calendar.
-/

namespace TradeReentry.HybridId

open Ascii

variable {v : Vocabulary} {id : HybridId}

/-! ## Composed identifiers -/

/-- What composing asks of the parts of an identifier. -/
structure Composable (v : Vocabulary) (id : HybridId) : Prop where
  allows : v.Allows id.outcome id.duration id.proximity id.calendar id.direction id.generation
  suffix : ∀ suffix, id.suffix? = some suffix → isSuffix suffix = true

theorem faults_eq_nil_iff : id.faults v = [] ↔
    v.Allows id.outcome id.duration id.proximity id.calendar id.direction id.generation :=
  Vocabulary.faults_eq_nil_iff

/-- Composing returns the parts it accepts. -/
theorem compose_eq_ok_iff {parts : HybridId} :
    compose v parts = .ok id ↔ id = parts ∧ Composable v parts := by
  rw [compose]
  split
  · next hfaults =>
    rw [ne_eq, faults_eq_nil_iff] at hfaults
    simp only [reduceCtorEq, false_iff, not_and]
    intro _ hcomposable
    exact hfaults hcomposable.allows
  next hfaults =>
  rw [ne_eq, Decidable.not_not, faults_eq_nil_iff] at hfaults
  have hcomposable : Composable v parts ↔
      ∀ suffix, parts.suffix? = some suffix → isSuffix suffix = true :=
    ⟨fun h => h.suffix, fun h => ⟨hfaults, h⟩⟩
  rw [hcomposable]
  split
  · next suffix hsuffix =>
    split
    · next hvalid => simp only [Except.ok.injEq, eq_comm (a := id), hsuffix]; simp [hvalid]
    · next hinvalid => simp [hsuffix, hinvalid]
  · next hsuffix => simp only [Except.ok.injEq, eq_comm (a := id), hsuffix]; simp

theorem length_of_isSuffix {t : Text} (h : isSuffix t = true) : t.length = suffixLength := by
  simp only [isSuffix, Bool.and_eq_true, decide_eq_true_eq] at h
  exact h.1

theorem not_mem_of_isSuffix {t : Text} (h : isSuffix t = true) : underscore ∉ t := by
  simp only [isSuffix, Bool.and_eq_true, List.all_eq_true] at h
  intro hmem
  exact absurd (h.2 underscore hmem) (by decide)

theorem suffixOf_eq (text : Text) (h : ∀ suffix, id.suffix? = some suffix → isSuffix suffix = true) :
    suffixOf text id.suffix?.toList = .ok id.suffix? := by
  cases hsuffix : id.suffix? with
  | none => rfl
  | some suffix => simp [suffixOf, h suffix hsuffix]

theorem underscore_not_mem_ofNat (n : Nat) : underscore ∉ Text.ofNat n := fun hmem =>
  absurd (Text.isDigit_of_mem_ofNat hmem) (by decide)

namespace Composable

/-- The numeral of the generation is that of a natural number. -/
theorem exists_generation (hsound : v.Sound) (h : Composable v id) :
    ∃ n : Nat, 0 < n ∧ id.generation = n := by
  have hvalid := h.allows.generation
  simp only [Vocabulary.isValidGeneration, Bool.and_eq_true, decide_eq_true_eq] at hvalid
  have hfirst := hsound.generations
  exact ⟨id.generation.toNat, by omega, by omega⟩

theorem segments_toText (hsound : v.Sound) (h : Composable v id) :
    segments id.toText = id.outcome :: id.duration :: (segments id.proximity ++
      (segments id.calendar ++ id.direction :: Text.ofInt id.generation :: id.suffix?.toList)) := by
  obtain ⟨n, -, hn⟩ := h.exists_generation hsound
  have houtcome := (hsound.tokens .outcome _ h.allows.outcome).single rfl
  have hduration := (hsound.tokens .duration _ h.allows.duration).single rfl
  have hdirection := (hsound.tokens .direction _ h.allows.direction).single rfl
  have hend : segments (Text.ofInt id.generation ++ id.suffix?.elim [] (underscore :: ·)) =
      Text.ofInt id.generation :: id.suffix?.toList := by
    have hnumeral : underscore ∉ Text.ofInt id.generation := by
      rw [hn]
      exact underscore_not_mem_ofNat n
    cases hsuffix : id.suffix? with
    | none =>
      rw [Option.elim_none, List.append_nil, segments_of_not_mem hnumeral, Option.toList_none]
    | some suffix =>
      rw [Option.elim_some, segments_append, segments_of_not_mem hnumeral,
        segments_of_not_mem (not_mem_of_isSuffix (h.suffix suffix hsuffix)), Option.toList_some,
        List.singleton_append]
  have htext : id.toText = id.outcome ++ underscore :: (id.duration ++ underscore ::
      (id.proximity ++ underscore :: (id.calendar ++ underscore :: (id.direction ++ underscore ::
        (Text.ofInt id.generation ++ id.suffix?.elim [] (underscore :: ·)))))) := by
    have hunderscore : Text.ofString "_" = [underscore] := rfl
    cases hsuffix : id.suffix? with
    | none => simp [toText, hunderscore, hsuffix]
    | some suffix => simp [toText, hunderscore, hsuffix]
  rw [htext]
  simp only [segments_append, hend, segments_of_not_mem houtcome, segments_of_not_mem hduration,
    segments_of_not_mem hdirection, List.singleton_append]

end Composable

/-! ## Readable identifiers -/

/-- Whether a text is a start of the calendar that ends with a segment of it. With no suffix behind it, the
whole calendar is too long to be taken for a part of the proximity. -/
def IsStart (id : HybridId) (start : Text) : Prop :=
  start ++ [underscore] <+: id.calendar ∨ id.suffix?.isSome = true ∧ start = id.calendar

/-- What an identifier has to be for its text to be parsed as its parts. -/
structure Readable (v : Vocabulary) (id : HybridId) : Prop where
  proximity : [] ∉ segments id.proximity
  calendar : [] ∉ segments id.calendar
  generation : id.generation < 1000
  unambiguous : ∀ start, id.proximity ++ underscore :: start ∈ v.tokens .proximity → ¬id.IsStart start

theorem isStart_iff {start : Text} : id.IsStart start ↔
    segments start <+: segments id.calendar ∧
      (segments start).length < (segments id.calendar).length + id.suffix?.toList.length := by
  rw [segments_prefix_iff, IsStart, or_and_right]
  constructor
  · rintro (h | ⟨hsuffix, rfl⟩)
    · exact .inl ⟨h, Nat.lt_add_right _ (length_segments_lt h)⟩
    · obtain ⟨suffix, hsuffix⟩ := Option.isSome_iff_exists.1 hsuffix
      right
      simp [hsuffix]
  · rintro (⟨h, -⟩ | ⟨rfl, hlength⟩)
    · exact .inl h
    · right
      cases hsuffix : id.suffix? with
      | none => simp [hsuffix] at hlength
      | some suffix => simp

/-- The proximity is found to be as long as it is exactly if no longer token fits. -/
theorem proximityLength_eq_iff {numeral : Text} (hmem : id.proximity ∈ v.tokens .proximity) :
    proximityLength (v.tokens .proximity)
        (segments id.proximity ++
          (segments id.calendar ++ id.direction :: numeral :: id.suffix?.toList))
        ((segments id.proximity).length + (segments id.calendar).length +
          id.suffix?.toList.length - 1) = (segments id.proximity).length ↔
      ∀ start, id.proximity ++ underscore :: start ∈ v.tokens .proximity → ¬id.IsStart start := by
  have hproximity := List.length_pos_iff.2 (segments_ne_nil id.proximity)
  have hcalendar := List.length_pos_iff.2 (segments_ne_nil id.calendar)
  constructor
  · intro h start hstart hmatch
    obtain ⟨hbegins, hlength⟩ := isStart_iff.1 hmatch
    have hne := List.length_pos_iff.2 (segments_ne_nil start)
    have hsegments := segments_append id.proximity start
    have hle := (proximityLength_le_iff.1 (Nat.le_of_eq h)).2 _ hstart
      (by rw [hsegments, List.length_append]; omega)
      (by
        rw [hsegments, List.prefix_append_right_inj]
        exact hbegins.trans (List.prefix_append _ _))
    rw [hsegments, List.length_append] at hle
    omega
  · intro h
    apply Nat.le_antisymm
    · refine proximityLength_le_iff.2 ⟨hproximity, fun token htoken hlength hbegins => ?_⟩
      apply Nat.le_of_not_lt
      intro hlonger
      -- a longer token that fits is the proximity and a start of the calendar
      obtain ⟨rest, hrest⟩ := List.prefix_of_prefix_length_le (List.prefix_append _ _) hbegins
        (Nat.le_of_lt hlonger)
      rw [← hrest, List.prefix_append_right_inj] at hbegins
      rw [← hrest, List.length_append] at hlength hlonger
      have hsuffix : id.suffix?.toList.length ≤ 1 := by cases id.suffix? <;> simp
      have hne : rest ≠ [] := List.ne_nil_of_length_pos (by omega)
      have hstart : segments (joinSegments rest) = rest :=
        segments_joinSegments hne fun segment hsegment =>
          not_mem_of_mem_segments (t := token) (hrest ▸ List.mem_append_right _ hsegment)
      apply h (joinSegments rest)
      · rw [← joinSegments_segments token, ← hrest,
          joinSegments_append (segments_ne_nil _) hne, joinSegments_segments] at htoken
        exact htoken
      · rw [isStart_iff, hstart]
        exact ⟨List.prefix_of_prefix_length_le hbegins (List.prefix_append _ _) (by omega), by omega⟩
    · exact length_le_proximityLength hmem (by omega) (List.prefix_append _ _)

/-- The numeral of the generation is read exactly if it has at most three digits. -/
theorem generationOf?_eq_iff (hsound : v.Sound) (h : Composable v id) :
    generationOf? v (Text.ofInt id.generation) = some id.generation ↔ id.generation < 1000 := by
  obtain ⟨n, -, hn⟩ := h.exists_generation hsound
  have hvalid := h.allows.generation
  rw [hn] at hvalid ⊢
  show (canonicalNumber? (Text.ofNat n)).filter _ = _ ↔ _
  rw [canonicalNumber?_ofNat]
  split
  · next hlt =>
    simp only [Option.filter_some, hvalid, if_true, true_iff]
    omega
  · next hge =>
    simp only [Option.filter_none, reduceCtorEq, false_iff]
    omega

theorem empty_not_mem_iff (hsound : v.Sound) (h : Composable v id) :
    [] ∉ segments id.toText ↔ [] ∉ segments id.proximity ∧ [] ∉ segments id.calendar := by
  obtain ⟨n, -, hn⟩ := h.exists_generation hsound
  have houtcome := (hsound.tokens .outcome _ h.allows.outcome).ne_nil
  have hduration := (hsound.tokens .duration _ h.allows.duration).ne_nil
  have hdirection := (hsound.tokens .direction _ h.allows.direction).ne_nil
  have hnumeral : Text.ofInt id.generation ≠ [] := hn ▸ Text.ofNat_ne_nil n
  have hsuffix : [] ∉ id.suffix?.toList := by
    rw [Option.mem_toList]
    intro hempty
    exact absurd (length_of_isSuffix (h.suffix [] hempty)) (by decide)
  rw [h.segments_toText hsound]
  simp only [List.mem_cons, List.mem_append, not_or, houtcome.symm, hduration.symm, hdirection.symm,
    hnumeral.symm, hsuffix, not_false_eq_true, true_and, and_true]

/-- The generation is the last segment that can be one: a suffix is longer than any. -/
theorem generationOf?_suffix (h : Composable v id) :
    ∀ segment ∈ id.suffix?.toList, generationOf? v segment = none := by
  intro segment hmem
  have hlength := length_of_isSuffix (h.suffix segment (Option.mem_toList.1 hmem))
  rw [generationOf?, canonicalNumber?_of_three_lt_length (by rw [hlength]; decide), Option.filter_none]

theorem parse_toText_iff (hsound : v.Sound) (h : Composable v id) :
    parse v id.toText = .ok id ↔ Readable v id := by
  have hempty := empty_not_mem_iff hsound h
  have hgeneration := generationOf?_eq_iff hsound h
  rw [parse_eq_ok_iff]
  constructor
  · rintro ⟨numeral, after, hlayout⟩
    have hsegments := hlayout.segments_eq
    rw [h.segments_toText hsound] at hsegments
    obtain ⟨hnumeral, hafter⟩ : Text.ofInt id.generation = numeral ∧ id.suffix?.toList = after := by
      simpa using hsegments
    subst hnumeral hafter
    obtain ⟨hproximity, hcalendar⟩ := hempty.1 hlayout.filled
    exact ⟨hproximity, hcalendar, hgeneration.1 hlayout.generation,
      (proximityLength_eq_iff h.allows.proximity).1 hlayout.longest⟩
  · intro hreadable
    refine ⟨Text.ofInt id.generation, id.suffix?.toList, ?_⟩
    constructor
    case segments_eq => exact h.segments_toText hsound
    case filled => exact hempty.2 ⟨hreadable.proximity, hreadable.calendar⟩
    case longest => exact (proximityLength_eq_iff h.allows.proximity).2 hreadable.unambiguous
    case generation => exact hgeneration.2 hreadable.generation
    case last => exact generationOf?_suffix h
    case suffix => exact suffixOf_eq id.toText h.suffix

theorem isValid_toText (hsound : v.Sound) (h : Composable v id) (hreadable : Readable v id) :
    isValid v id.toText = true := by
  rw [isValid, (parse_toText_iff hsound h).2 hreadable]
  exact decide_eq_true (faults_eq_nil_iff.2 h.allows)

/-! ## Composing and parsing -/

/-- Under a vocabulary that keeps the rules, the text of a composed identifier is parsed as its parts exactly
if it is readable. It is valid then, and no other readable identifier has the same text. -/
theorem parse_of_composed {parts : HybridId} (hcheck : v.check = .ok ())
    (hcompose : compose v parts = .ok id) :
    id = parts ∧ (parse v id.toText = .ok parts ↔ Readable v parts) ∧
      (Readable v parts → isValid v id.toText = true ∧
        ∀ parts' id', compose v parts' = .ok id' → Readable v parts' → id'.toText = id.toText →
          parts' = parts) := by
  have hsound := Vocabulary.sound_of_check hcheck
  obtain ⟨rfl, hcomposable⟩ := compose_eq_ok_iff.1 hcompose
  refine ⟨rfl, parse_toText_iff hsound hcomposable, fun hreadable => ⟨?_, ?_⟩⟩
  · exact isValid_toText hsound hcomposable hreadable
  · intro parts' id' hcompose' hreadable' htext
    obtain ⟨rfl, hcomposable'⟩ := compose_eq_ok_iff.1 hcompose'
    have hparse := (parse_toText_iff hsound hcomposable).2 hreadable
    have hparse' := (parse_toText_iff hsound hcomposable').2 hreadable'
    rw [htext, hparse] at hparse'
    exact (Except.ok.inj hparse').symm

/-- An identifier whose calendar has a segment like a generation and one like a direction, with a suffix of
digits only. -/
def eurCalendarId : HybridId where
  outcome := "W1"
  duration := "QUICK"
  proximity := "AT_EVENT"
  calendar := "CAL5_EUR_1_SHORT"
  direction := "LONG"
  generation := 2
  suffix? := some (Text.ofString "000003")

theorem readable_eurCalendarId : Readable .builtin eurCalendarId := by
  refine ⟨by decide, by decide, by decide, fun start hstart => ?_⟩
  have hshort : ∀ token ∈ Vocabulary.builtin.tokens .proximity, token.length ≤ 8 := by decide
  have hlong := hshort _ hstart
  rw [List.length_append, List.length_cons] at hlong
  have hlength : eurCalendarId.proximity.length = 8 := by decide
  omega

theorem parse_of_composed_eurCalendarId :
    Vocabulary.builtin.check = .ok () ∧ compose .builtin eurCalendarId = .ok eurCalendarId ∧
      eurCalendarId.toText = "W1_QUICK_AT_EVENT_CAL5_EUR_1_SHORT_LONG_2_000003" ∧
      parse .builtin eurCalendarId.toText = .ok eurCalendarId ∧
      isValid .builtin eurCalendarId.toText = true := by
  have hcompose : compose .builtin eurCalendarId = .ok eurCalendarId := by decide +kernel
  obtain ⟨-, hparse, hvalid⟩ := parse_of_composed Vocabulary.check_builtin hcompose
  exact ⟨Vocabulary.check_builtin, hcompose, by decide, hparse.2 readable_eurCalendarId,
    (hvalid readable_eurCalendarId).1⟩

end TradeReentry.HybridId
