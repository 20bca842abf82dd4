import Mathlib.Logic.ExistsUnique
import TradeReentry.Proofs.HybridId.RoundTrip

/-!
# The texts that are identifiers

Writing the parts of a parsed text gives the text back (`toText_of_parse`), so the valid texts are those of
the composed identifiers that can be read back (`isValid_iff_readable`). Under the built-in vocabulary every
composed identifier can (`readable_of_composable_builtin`): its valid texts are exactly those that composing
produces (`isValid_iff_composed`).
-/

namespace TradeReentry.HybridId

open Ascii

variable {v : Vocabulary} {text : Text} {id : HybridId}

/-! ## Writing what was parsed -/

theorem ofInt_of_canonicalNumber? {segment : Text} {n : Int} (h : canonicalNumber? segment = some n) :
    Text.ofInt n = segment := by
  rw [canonicalNumber?] at h
  split at h
  · next hcanonical =>
    simp only [Text.isNonemptyOf, Bool.and_eq_true, Bool.or_eq_true, Bool.not_eq_true',
      List.isEmpty_eq_false_iff, List.all_eq_true, decide_eq_true_eq] at hcanonical
    obtain ⟨⟨⟨hne, hdigits⟩, -⟩, hzero⟩ := hcanonical
    cases h
    exact Text.ofNat_digitsValue hne hdigits hzero
  · simp at h

theorem ofInt_of_generationOf? {segment : Text} {n : Int} (h : generationOf? v segment = some n) :
    Text.ofInt n = segment :=
  ofInt_of_canonicalNumber? (Option.filter_eq_some_iff.1 h).1

theorem of_suffixOf {after : List Text} {suffix? : Option Text} (h : suffixOf text after = .ok suffix?) :
    after = suffix?.toList ∧ ∀ suffix, suffix? = some suffix → isSuffix suffix = true := by
  unfold suffixOf at h
  split at h
  · cases h
    simp
  · next segment =>
    split at h
    · next hsuffix =>
      cases h
      simp [hsuffix]
    · simp at h
  · simp at h

theorem toText_eq_joinSegments (id : HybridId) : id.toText =
    joinSegments (id.outcome :: id.duration :: id.proximity :: id.calendar :: id.direction ::
      Text.ofInt id.generation :: id.suffix?.toList) := by
  cases hsuffix : id.suffix? with
  | none => simp [toText, joinSegments, Text.join, hsuffix]
  | some suffix => simp [toText, joinSegments, Text.join, hsuffix]

/-- A text and its segments are the same before others. -/
theorem joinSegments_segments_append (t : Text) {l : List Text} (hl : l ≠ []) :
    joinSegments (segments t ++ l) = joinSegments (t :: l) := by
  rw [joinSegments_append (segments_ne_nil t) hl, joinSegments_segments]
  exact (joinSegments_append (List.cons_ne_nil t []) hl).symm

theorem joinSegments_cons (t : Text) {l : List Text} (hl : l ≠ []) :
    joinSegments (t :: l) = t ++ underscore :: joinSegments l :=
  joinSegments_append (List.cons_ne_nil t []) hl

theorem toText_of_layout {numeral : Text} {after : List Text} (h : Layout v text id numeral after) :
    id.toText = text := by
  have hafter := (of_suffixOf h.suffix).1
  have hnumeral := ofInt_of_generationOf? h.generation
  rw [toText_eq_joinSegments, ← joinSegments_segments text, h.segments_eq, ← hafter, hnumeral]
  rw [joinSegments_cons _ (by simp), joinSegments_cons _ (by simp), joinSegments_cons _ (by simp),
    joinSegments_cons id.outcome (by simp), joinSegments_cons id.duration (by simp),
    joinSegments_segments_append _ (by simp), joinSegments_cons id.proximity (by simp),
    joinSegments_segments_append _ (by simp)]

/-- Parsing loses nothing of a text. -/
theorem toText_of_parse (h : parse v text = .ok id) : id.toText = text := by
  obtain ⟨_, _, hlayout⟩ := layout_of_parse h
  exact toText_of_layout hlayout

/-! ## Valid texts -/

theorem isValid_eq_true_iff : isValid v text = true ↔ ∃ id, parse v text = .ok id ∧ id.faults v = [] := by
  rw [isValid]
  split
  · next id hparse => simp [hparse]
  · next e hparse => simp [hparse]

/-- The parts of a valid text could have been composed. -/
theorem composable_of_parse (hparse : parse v text = .ok id) (hfaults : id.faults v = []) :
    Composable v id := by
  obtain ⟨_, _, hlayout⟩ := layout_of_parse hparse
  exact ⟨faults_eq_nil_iff.1 hfaults, (of_suffixOf hlayout.suffix).2⟩

/-- A text is valid with some parts exactly if it is the text of these parts, composed and readable. -/
theorem parse_and_faults_iff (hsound : v.Sound) :
    (parse v text = .ok id ∧ id.faults v = []) ↔ Composable v id ∧ Readable v id ∧ id.toText = text := by
  constructor
  · rintro ⟨hparse, hfaults⟩
    have hcomposable := composable_of_parse hparse hfaults
    have htext := toText_of_parse hparse
    refine ⟨hcomposable, (parse_toText_iff hsound hcomposable).1 ?_, htext⟩
    rw [htext, hparse]
  · rintro ⟨hcomposable, hreadable, rfl⟩
    exact ⟨(parse_toText_iff hsound hcomposable).2 hreadable, faults_eq_nil_iff.2 hcomposable.allows⟩

theorem isValid_iff_readable (hsound : v.Sound) :
    isValid v text = true ↔ ∃ id, Composable v id ∧ Readable v id ∧ id.toText = text := by
  rw [isValid_eq_true_iff]
  exact exists_congr fun _ => parse_and_faults_iff hsound

/-! ## The built-in vocabulary -/

/-- A calendar begins with a segment that is not empty, and no other is. -/
theorem empty_not_mem_calendar {calendar : Text}
    (h : Vocabulary.builtin.isValidCalendar calendar = true) : [] ∉ segments calendar := by
  have hbegins : ∀ pattern ∈ Vocabulary.builtin.calendarPatterns, ∃ first, first ≠ [] ∧
      underscore ∉ first ∧ ∀ filling, Pattern.fill pattern filling = first ++ underscore :: filling := by
    intro pattern hpattern
    simp only [Vocabulary.builtin, List.mem_cons, List.not_mem_nil, or_false] at hpattern
    have hplain : star ∉ ("CAL8_" : Text) ∧ star ∉ ("CAL5_" : Text) := by decide
    rcases hpattern with rfl | rfl
    · exact ⟨"CAL8", by decide, by decide, fun _ => Pattern.fill_concat_star hplain.1⟩
    · exact ⟨"CAL5", by decide, by decide, fun _ => Pattern.fill_concat_star hplain.2⟩
  rcases (Vocabulary.isValidCalendar_iff Vocabulary.check_builtin).1 h with rfl | hcalendar
  · decide
  · obtain ⟨pattern, hpattern, filling, rfl⟩ := hcalendar.pattern
    obtain ⟨first, hfirst, hplain, hfill⟩ := hbegins pattern hpattern
    have hsegments : segments (first ++ underscore :: filling) = first :: segments filling := by
      rw [segments_append, segments_of_not_mem hplain, List.singleton_append]
    have hfilled : ∀ segment ∈ (segments (Pattern.fill pattern filling)).tail, segment ≠ [] :=
      hcalendar.segments
    rw [hfill, hsegments, List.tail_cons] at hfilled
    rw [hfill, hsegments, List.mem_cons, not_or]
    exact ⟨hfirst.symm, fun hempty => hfilled [] hempty rfl⟩

theorem readable_of_composable_builtin (h : Composable .builtin id) : Readable .builtin id := by
  have hproximities : ∀ token ∈ Vocabulary.builtin.tokens .proximity, [] ∉ segments token := by decide
  have hapart : ∀ token ∈ Vocabulary.builtin.tokens .proximity,
      ∀ other ∈ Vocabulary.builtin.tokens .proximity, ¬token ++ [underscore] <+: other := by decide
  constructor
  case proximity => exact hproximities _ h.allows.proximity
  case calendar => exact empty_not_mem_calendar h.allows.calendar
  case generation =>
    have hvalid := h.allows.generation
    simp only [Vocabulary.isValidGeneration, Bool.and_eq_true, decide_eq_true_eq] at hvalid
    have hmax : Vocabulary.builtin.generationMax = 3 := rfl
    omega
  case unambiguous =>
    intro start hstart _
    refine hapart _ h.allows.proximity _ hstart ⟨start, ?_⟩
    rw [List.append_assoc, List.singleton_append]

theorem map_toText_compose_iff {parts : HybridId} :
    (compose v parts).map toText = .ok text ↔ Composable v parts ∧ parts.toText = text := by
  rw [map_eq_ok_iff]
  constructor
  · rintro ⟨id, hcompose, htext⟩
    obtain ⟨rfl, hcomposable⟩ := compose_eq_ok_iff.1 hcompose
    exact ⟨hcomposable, htext⟩
  · rintro ⟨hcomposable, htext⟩
    exact ⟨parts, compose_eq_ok_iff.2 ⟨rfl, hcomposable⟩, htext⟩

/-- Under the built-in vocabulary a text is valid exactly if composing produces it. The parts that it is
composed of are unique then, and they are what parsing the text gives. -/
theorem isValid_iff_composed (text : Text) :
    (isValid .builtin text = true ↔ ∃! parts, (compose .builtin parts).map toText = .ok text) ∧
      ∀ parts, (compose .builtin parts).map toText = .ok text ↔
        isValid .builtin text = true ∧ parse .builtin text = .ok parts := by
  have hsound := Vocabulary.sound_of_check Vocabulary.check_builtin
  have hparts : ∀ parts, (compose .builtin parts).map toText = .ok text ↔
      isValid .builtin text = true ∧ parse .builtin text = .ok parts := by
    intro parts
    have hreadable : Composable .builtin parts ∧ Readable .builtin parts ∧ parts.toText = text ↔
        Composable .builtin parts ∧ parts.toText = text :=
      and_congr_right fun h => and_iff_right (readable_of_composable_builtin h)
    rw [map_toText_compose_iff, ← hreadable, ← parse_and_faults_iff hsound, isValid_eq_true_iff]
    constructor
    · rintro ⟨hparse, hfaults⟩
      exact ⟨⟨parts, hparse, hfaults⟩, hparse⟩
    · rintro ⟨⟨id, hid, hfaults⟩, hparse⟩
      obtain rfl := Except.ok.inj (hid.symm.trans hparse)
      exact ⟨hparse, hfaults⟩
  refine ⟨?_, hparts⟩
  constructor
  · intro hvalid
    obtain ⟨id, hparse, -⟩ := isValid_eq_true_iff.1 hvalid
    refine ⟨id, (hparts id).2 ⟨hvalid, hparse⟩, fun parts hcomposed => ?_⟩
    exact Except.ok.inj (((hparts parts).1 hcomposed).2.symm.trans hparse)
  · rintro ⟨parts, hcomposed, -⟩
    exact ((hparts parts).1 hcomposed).1

/-- An identifier whose calendar has segments like a proximity, a direction, a generation and a suffix. -/
def nestedCalendarId : HybridId where
  outcome := "L2"
  duration := "EXTENDED"
  proximity := "PRE_1H"
  calendar := "CAL5_AT_EVENT_LONG_1_000003"
  direction := "SHORT"
  generation := 3
  suffix? := some (Text.ofString "000003")

theorem isValid_iff_composed_nestedCalendar :
    isValid .builtin "L2_EXTENDED_PRE_1H_CAL5_AT_EVENT_LONG_1_000003_SHORT_3_000003" = true ∧
      parse .builtin "L2_EXTENDED_PRE_1H_CAL5_AT_EVENT_LONG_1_000003_SHORT_3_000003" =
        .ok nestedCalendarId :=
  ((isValid_iff_composed _).2 nestedCalendarId).1 (by decide +kernel)

end TradeReentry.HybridId
