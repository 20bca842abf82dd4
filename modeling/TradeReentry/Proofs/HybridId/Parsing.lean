import TradeReentry.HybridId.Basic
import TradeReentry.Proofs.Results
import TradeReentry.Proofs.Text.Numerals
import TradeReentry.Proofs.Text.Pieces

/-!
# What parsing an identifier finds

A text is an identifier if its segments lie in the order of the parts (`Layout`): the proximity takes as
many as the longest token that fits, and the generation is the last one that can be a generation
(`parse_eq_ok_iff`).
-/

namespace TradeReentry.HybridId

open Ascii

variable {v : Vocabulary} {text : Text} {id : HybridId}

/-! ## Segments -/

theorem joinSegments_eq (l : List Text) : joinSegments l = [underscore].intercalate l :=
  Text.join_eq "_" l

theorem segments_ne_nil (t : Text) : segments t ≠ [] := by
  rw [segments, Text.splitOn_eq]
  exact List.splitOn_ne_nil _ t

theorem not_mem_of_mem_segments {t segment : Text} (h : segment ∈ segments t) :
    underscore ∉ segment := by
  rw [segments, Text.splitOn_eq] at h
  exact Text.not_mem_of_mem_splitOn h

/-- The segments of a text have it as their join. -/
theorem joinSegments_segments (t : Text) : joinSegments (segments t) = t := by
  rw [joinSegments_eq, segments, Text.splitOn_eq, List.intercalate_splitOn]

/-- Segments without underscores are those of their join. -/
theorem segments_joinSegments {l : List Text} (hne : l ≠ []) (h : ∀ segment ∈ l, underscore ∉ segment) :
    segments (joinSegments l) = l := by
  rw [joinSegments_eq, segments, Text.splitOn_eq, List.splitOn_intercalate _ h hne]

theorem segments_append (t u : Text) : segments (t ++ underscore :: u) = segments t ++ segments u := by
  simp only [segments, Text.splitOn_eq, List.splitOn_append_cons_self]

theorem segments_of_not_mem {t : Text} (h : underscore ∉ t) : segments t = [t] := by
  rw [segments, Text.splitOn_eq, List.splitOn_eq_singleton h]

theorem joinSegments_append {before after : List Text} (hbefore : before ≠ []) (hafter : after ≠ []) :
    joinSegments (before ++ after) = joinSegments before ++ underscore :: joinSegments after := by
  simp only [joinSegments_eq, Text.intercalate_append _ hbefore hafter, List.append_assoc,
    List.singleton_append]

theorem segments_inj {t u : Text} : segments t = segments u ↔ t = u := by
  constructor
  · intro h
    rw [← joinSegments_segments t, h, joinSegments_segments]
  · rintro rfl
    rfl

/-- The segments of a text begin another one if the text does, up to an underscore or the end. -/
theorem segments_prefix_iff {t u : Text} :
    segments t <+: segments u ↔ t ++ [underscore] <+: u ∨ t = u := by
  constructor
  · rintro ⟨rest, hrest⟩
    by_cases hne : rest = []
    · right
      rwa [hne, List.append_nil, segments_inj] at hrest
    · left
      refine ⟨joinSegments rest, ?_⟩
      rw [← joinSegments_segments u, ← hrest, joinSegments_append (segments_ne_nil t) hne,
        joinSegments_segments, List.append_assoc, List.singleton_append]
  · rintro (⟨rest, rfl⟩ | rfl)
    · rw [List.append_assoc, List.singleton_append, segments_append]
      exact List.prefix_append _ _
    · exact List.prefix_rfl

theorem length_segments_lt {t u : Text} (h : t ++ [underscore] <+: u) :
    (segments t).length < (segments u).length := by
  obtain ⟨rest, rfl⟩ := h
  have hrest := List.length_pos_iff.2 (segments_ne_nil rest)
  rw [List.append_assoc, List.singleton_append, segments_append, List.length_append]
  omega

/-! ## The proximity -/

theorem foldl_max_le_iff {l : List Nat} {least bound : Nat} :
    l.foldl max least ≤ bound ↔ least ≤ bound ∧ ∀ n ∈ l, n ≤ bound := by
  induction l generalizing least with
  | nil => simp
  | cons n l ih => rw [List.foldl_cons, ih, Nat.max_le, List.forall_mem_cons, and_assoc]

/-- No token that fits is longer than the proximity. -/
theorem proximityLength_le_iff {tokens rest : List Text} {bound n : Nat} :
    proximityLength tokens rest bound ≤ n ↔
      1 ≤ n ∧ ∀ token ∈ tokens, (segments token).length ≤ bound → segments token <+: rest →
        (segments token).length ≤ n := by
  rw [proximityLength, foldl_max_le_iff]
  refine and_congr_right fun _ => ?_
  simp only [List.mem_filterMap, Option.ite_none_right_eq_some, Option.some.injEq,
    Bool.and_eq_true, decide_eq_true_eq, List.isPrefixOf_iff_prefix]
  constructor
  · intro h token htoken hlength hbegins
    exact h _ ⟨token, htoken, ⟨hlength, hbegins⟩, rfl⟩
  · rintro h _ ⟨token, htoken, ⟨hlength, hbegins⟩, rfl⟩
    exact h token htoken hlength hbegins

theorem length_le_proximityLength {tokens rest : List Text} {bound : Nat} {token : Text}
    (hmem : token ∈ tokens) (hlength : (segments token).length ≤ bound)
    (hbegins : segments token <+: rest) :
    (segments token).length ≤ proximityLength tokens rest bound :=
  (proximityLength_le_iff.1 (Nat.le_refl _)).2 token hmem hlength hbegins

theorem one_le_proximityLength (tokens rest : List Text) (bound : Nat) :
    1 ≤ proximityLength tokens rest bound :=
  (proximityLength_le_iff.1 (Nat.le_refl _)).1

/-! ## The generation -/

section Last

variable {α β : Type} {f : α → Option β}

theorem splitLast?_eq_none_iff {l : List α} : splitLast? f l = none ↔ ∀ x ∈ l, f x = none := by
  induction l with
  | nil => simp [splitLast?]
  | cons x rest ih =>
    rw [splitLast?, List.forall_mem_cons, ← ih]
    split
    · next hrest => simp [hrest]
    · next hrest => simp [hrest]

theorem splitLast?_append {x : α} {y : β} {before after : List α} (hx : f x = some y)
    (hafter : ∀ z ∈ after, f z = none) :
    splitLast? f (before ++ x :: after) = some (before, y, after) := by
  induction before with
  | nil =>
    rw [List.nil_append, splitLast?, splitLast?_eq_none_iff.2 hafter, hx]
    rfl
  | cons first before ih => rw [List.cons_append, splitLast?, ih]

/-- The last item with a value is the one after which none has a value. -/
theorem splitLast?_eq_some_iff {l before after : List α} {y : β} :
    splitLast? f l = some (before, y, after) ↔
      ∃ x, l = before ++ x :: after ∧ f x = some y ∧ ∀ z ∈ after, f z = none := by
  constructor
  · intro h
    induction l generalizing before with
    | nil => simp [splitLast?] at h
    | cons first rest ih =>
      rw [splitLast?] at h
      split at h
      · next hrest =>
        cases h
        obtain ⟨x, rfl, hx, hafter⟩ := ih hrest
        exact ⟨x, rfl, hx, hafter⟩
      · next hrest =>
        obtain ⟨_, hfirst, heq⟩ := Option.map_eq_some_iff.1 h
        cases heq
        exact ⟨first, rfl, hfirst, splitLast?_eq_none_iff.1 hrest⟩
  · rintro ⟨x, rfl, hx, hafter⟩
    exact splitLast?_append hx hafter

end Last

/-- A numeral has a canonical number unless it is longer than three digits. -/
theorem canonicalNumber?_ofNat (n : Nat) :
    canonicalNumber? (Text.ofNat n) = if n < 1000 then some (n : Int) else none := by
  have hlength : (Text.ofNat n).length ≤ 3 ↔ n < 1000 := Text.length_ofNat_le_iff (by decide)
  have hleading : (Text.ofNat n).length = 1 ∨ (Text.ofNat n).head? ≠ some zero := by
    rcases Nat.eq_zero_or_pos n with rfl | hn
    · left
      rfl
    · right
      exact Text.head?_ofNat_ne_zero hn
  simp only [canonicalNumber?, Text.isNonemptyOf_ofNat, Text.digitsValue_ofNat, Bool.true_and,
    Bool.and_eq_true, Bool.or_eq_true, decide_eq_true_eq, hlength, hleading, and_true]

theorem canonicalNumber?_of_three_lt_length {t : Text} (h : 3 < t.length) : canonicalNumber? t = none := by
  simp [canonicalNumber?, Nat.not_le_of_lt h]

/-! ## Parsing -/

/-- How the segments of a text are the parts of an identifier, one of them being the numeral of the
generation and the suffix, if any, coming after it. -/
structure Layout (v : Vocabulary) (text : Text) (id : HybridId) (numeral : Text)
    (after : List Text) : Prop where
  segments_eq : segments text = id.outcome :: id.duration ::
    (segments id.proximity ++ (segments id.calendar ++ id.direction :: numeral :: after))
  filled : [] ∉ segments text
  longest : proximityLength (v.tokens .proximity)
    (segments id.proximity ++ (segments id.calendar ++ id.direction :: numeral :: after))
    ((segments id.proximity).length + (segments id.calendar).length + after.length - 1) =
      (segments id.proximity).length
  generation : generationOf? v numeral = some id.generation
  last : ∀ segment ∈ after, generationOf? v segment = none
  suffix : suffixOf text after = .ok id.suffix?

/-- The calendar and the direction together are the segments before the numeral. -/
theorem calendar_append_direction (first second : Text) (before : List Text) :
    (first :: second :: before).dropLast ++ [(second :: before).getLast (List.cons_ne_nil _ _)] =
      first :: second :: before := by
  rw [← List.getLast_cons (List.cons_ne_nil second before), List.dropLast_concat_getLast]

/-- A parsed text has its segments in the order of the parts. -/
theorem layout_of_parse (h : parse v text = .ok id) : ∃ numeral after, Layout v text id numeral after := by
  simp only [parse] at h
  split at h
  · simp at h
  split at h
  · simp at h
  next hfilled =>
  split at h
  case h_2 => simp at h
  next outcome duration rest hall =>
  split at h
  case h_2 => simp at h
  next first second tail hdrop =>
  split at h
  · simp at h
  next before generation after hlast =>
  obtain ⟨suffix?, hsuffix, h⟩ := bind_eq_ok_iff.1 h
  obtain ⟨numeral, rfl, hnumeral, hafter⟩ := splitLast?_eq_some_iff.1 hlast
  generalize hsize : proximityLength (v.tokens .proximity) rest (rest.length - 3) = size at h hdrop
  have hone : 1 ≤ size := hsize ▸ one_le_proximityLength _ _ _
  have hsplit : rest = rest.take size ++ (first :: second :: (before ++ numeral :: after)) := by
    rw [← hdrop, List.take_append_drop]
  have hcut := calendar_append_direction first second before
  have hcalendar : (first :: second :: before).dropLast ≠ [] := by simp
  generalize (first :: second :: before).dropLast = calendar at h hcut hcalendar
  generalize (second :: before).getLast _ = direction at h hcut
  have htail : first :: second :: (before ++ numeral :: after) =
      calendar ++ direction :: numeral :: after := by
    rw [← List.cons_append, ← List.cons_append, ← hcut, List.append_assoc, List.singleton_append]
  rw [htail] at hsplit
  have hproximity : (rest.take size).length = size := by
    rw [List.length_take, Nat.min_eq_left]
    refine Nat.le_of_lt (Nat.lt_of_not_le fun hle => ?_)
    simp [List.drop_eq_nil_of_le hle] at hdrop
  generalize rest.take size = proximity at h hsplit hproximity
  cases h
  have hpieces : ∀ segment ∈ proximity ++ calendar, underscore ∉ segment := by
    intro segment hmem
    apply not_mem_of_mem_segments (t := text)
    rw [hall, hsplit]
    rcases List.mem_append.1 hmem with hmem | hmem
    · simp [hmem]
    · simp [hmem]
  rw [List.forall_mem_append] at hpieces
  have hproximity_ne : proximity ≠ [] := List.ne_nil_of_length_pos (hproximity ▸ hone)
  have hsegments_proximity := segments_joinSegments hproximity_ne hpieces.1
  have hsegments_calendar := segments_joinSegments hcalendar hpieces.2
  refine ⟨numeral, after, ?_⟩
  constructor
  case segments_eq =>
    show segments text = outcome :: duration :: _
    rw [hall, hsegments_proximity, hsegments_calendar, ← hsplit]
  case filled => simpa using hfilled
  case longest =>
    show proximityLength _ (segments (joinSegments proximity) ++ _) _ = _
    rw [hsegments_proximity, hsegments_calendar, ← hsplit, hproximity, ← hsize]
    congr 1
    have hlength := congrArg List.length hsplit
    simp only [List.length_append, List.length_cons] at hlength
    omega
  case generation => exact hnumeral
  case last => exact hafter
  case suffix => exact hsuffix

/-- A text whose segments lie in the order of the parts is parsed as those parts. -/
theorem parse_of_layout {numeral : Text} {after : List Text} (h : Layout v text id numeral after) :
    parse v text = .ok id := by
  obtain ⟨hsegments, hfilled, hlongest, hgeneration, hlast, hsuffix⟩ := h
  have hproximity := joinSegments_segments id.proximity
  have hcalendar := joinSegments_segments id.calendar
  have hproximity_pos := List.length_pos_iff.2 (segments_ne_nil id.proximity)
  obtain ⟨first, tail, htail⟩ := List.exists_cons_of_ne_nil (segments_ne_nil id.calendar)
  obtain ⟨second, before, hbefore⟩ : ∃ second before, tail ++ [id.direction] = second :: before :=
    List.exists_cons_of_ne_nil (by simp)
  rw [htail] at hsegments hlongest hcalendar
  generalize segments id.proximity = proximity at *
  have hcut : first :: tail ++ id.direction :: numeral :: after =
      first :: second :: (before ++ numeral :: after) := by
    rw [← List.cons_append, ← hbefore, List.append_assoc]
    rfl
  rw [hcut] at hsegments hlongest
  have hdropLast : (first :: second :: before).dropLast = first :: tail := by
    rw [← hbefore, ← List.cons_append, List.dropLast_concat]
  have hgetLast : (second :: before).getLast (List.cons_ne_nil _ _) = id.direction := by
    simp [← hbefore]
  have hlength : (second :: before).length = tail.length + 1 := by
    rw [← hbefore]
    simp
  have hbound : (proximity ++ first :: second :: (before ++ numeral :: after)).length - 3 =
      proximity.length + (first :: tail).length + after.length - 1 := by
    simp only [List.length_append, List.length_cons] at hlength ⊢
    omega
  have hfew : ¬(segments text).length < 6 := by
    simp only [hsegments, List.length_append, List.length_cons] at hlength ⊢
    omega
  have hempty : ¬(segments text).any (·.isEmpty) = true := by simpa using hfilled
  simp only [parse, if_neg hfew, if_neg hempty]
  simp only [hsegments, hbound, hlongest, List.take_left, List.drop_left,
    splitLast?_append hgeneration hlast, hsuffix, hproximity, hcalendar, hdropLast, hgetLast]
  rfl

theorem parse_eq_ok_iff : parse v text = .ok id ↔ ∃ numeral after, Layout v text id numeral after :=
  ⟨layout_of_parse, fun ⟨_, _, h⟩ => parse_of_layout h⟩

end TradeReentry.HybridId
