import TradeReentry.Proofs.HybridId.Language

/-!
# Reading an identifier by position

The parts of a text stand at positions of its list of segments: the end of the proximity is looked for
downwards from the third position before the end, and the place of the generation downwards from the end.
`readAt?` looks at one position at a time and has no result if a position is outside the list. This never
happens, and what it reads is what `parse` finds (`readAt?_eq_parse`), so that writing the parts gives the
text back and every part is there (`parse_inside_and_toText`).
-/

namespace TradeReentry.HybridId

variable {v : Vocabulary} {text : Text} {id : HybridId} {all : List Text}

/-! ## One position at a time -/

/-- The segments from a position up to another. -/
def slice? (all : List Text) (start stop : Nat) : Option (List Text) :=
  (List.range' start (stop - start)).mapM fun i => all[i]?

/-- The greatest position, from a given one down, such that the segments from the third up to it are
together a token; the one after the third segment if no position gives a token. -/
def proximityEnd? (tokens all : List Text) : Nat → Option Nat
  | 0 => some 3
  | stop + 1 =>
    if stop + 1 ≤ 2 then some 3
    else do
      let run ← slice? all 2 (stop + 1)
      if tokens.contains (joinSegments run) then some (stop + 1) else proximityEnd? tokens all stop

/-- The last position before a given one, and not before the least, where a generation stands. The outer
`none` is a position outside, the inner one that no generation was found. -/
def generationAt? (v : Vocabulary) (all : List Text) (least : Nat) : Nat → Option (Option (Nat × Int))
  | 0 => some none
  | i + 1 =>
    if i + 1 ≤ least then some none
    else do
      let segment ← all[i]?
      match generationOf? v segment with
      | some generation => some (some (i, generation))
      | none => generationAt? v all least i

/-- The suffix after the generation's place. -/
def suffixAt? (text : Text) (all : List Text) (place : Nat) : Option (Except Error (Option Text)) :=
  if all.length - place - 1 = 0 then some (.ok none)
  else if all.length - place - 1 = 1 then do
    let segment ← all[all.length - 1]?
    some (if isSuffix segment then .ok (some segment) else .error (.invalidTrailing segment))
  else some (.error (.manyTrailing text))

/-- The parts around the end of the proximity and the generation's place. -/
def partsAt? (all : List Text) (stop place : Nat) (generation : Int) (suffix? : Option Text) :
    Option HybridId := do
  let outcome ← all[0]?
  let duration ← all[1]?
  let proximity ← slice? all 2 stop
  let calendar ← slice? all stop (place - 1)
  let direction ← all[place - 1]?
  some {
    outcome, duration, direction, generation, suffix?
    proximity := joinSegments proximity
    calendar := joinSegments calendar }

/-- What is left to read once the generation's place is known. -/
def finishAt? (text : Text) (all : List Text) (stop place : Nat) (generation : Int) :
    Option (Except Error HybridId) := do
  match ← suffixAt? text all place with
  | .error e => some (.error e)
  | .ok suffix? => (partsAt? all stop place generation suffix?).map .ok

/-- The parts of a text, read by position; `none` if a position outside the segments was read. -/
def readAt? (v : Vocabulary) (text : Text) : Option (Except Error HybridId) :=
  let all := segments text
  if all.length < 6 then some (.error (.tooFewSegments all.length))
  else if all.any (·.isEmpty) then some (.error (.emptySegment text))
  else do
    let stop ← proximityEnd? (v.tokens .proximity) all (all.length - 3)
    match ← generationAt? v all (stop + 2) all.length with
    | none => some (.error (.noGeneration text))
    | some (place, generation) => finishAt? text all stop place generation

/-! ## Every position is inside -/

theorem mapM_range'_eq_some {n start : Nat} (h : start + n ≤ all.length) :
    (List.range' start n).mapM (fun i => all[i]?) = some ((all.drop start).take n) := by
  induction n generalizing start with
  | zero => simp
  | succ n ih =>
    have hstart : start < all.length := by omega
    have hrest : (List.range' (start + 1) n).mapM (fun i => all[i]?) =
        some ((all.drop (start + 1)).take n) := ih (by omega)
    rw [List.range'_succ, List.mapM_cons, List.drop_eq_getElem_cons hstart, List.take_succ_cons,
      List.getElem?_eq_getElem hstart, hrest]
    rfl

theorem slice?_eq_some {start stop : Nat} (hle : start ≤ stop) (h : stop ≤ all.length) :
    slice? all start stop = some ((all.drop start).take (stop - start)) :=
  mapM_range'_eq_some (by omega)

/-- A token that is a run of segments has these segments. -/
theorem contains_joinSegments_iff {tokens run : List Text} (hne : run ≠ [])
    (hrun : ∀ segment ∈ run, Ascii.underscore ∉ segment) :
    tokens.contains (joinSegments run) ↔ ∃ token ∈ tokens, segments token = run := by
  rw [List.contains_iff_mem]
  constructor
  · intro h
    exact ⟨_, h, segments_joinSegments hne hrun⟩
  · rintro ⟨token, htoken, rfl⟩
    rwa [joinSegments_segments]

/-- A bound that no token of just that many segments meets can be lowered. -/
theorem proximityLength_succ {tokens rest : List Text} {bound : Nat}
    (h : ¬∃ token ∈ tokens, (segments token).length = bound + 1 ∧ segments token <+: rest) :
    proximityLength tokens rest (bound + 1) = proximityLength tokens rest bound := by
  refine Nat.le_antisymm ?_ ?_
  · refine proximityLength_le_iff.2 ⟨one_le_proximityLength _ _ _, ?_⟩
    intro token htoken hlength hbegins
    have hlonger : (segments token).length ≠ bound + 1 := fun heq => h ⟨token, htoken, heq, hbegins⟩
    exact length_le_proximityLength htoken (by omega) hbegins
  · refine proximityLength_le_iff.2 ⟨one_le_proximityLength _ _ _, ?_⟩
    intro token htoken hlength hbegins
    exact length_le_proximityLength htoken (by omega) hbegins

theorem proximityLength_le_max (tokens rest : List Text) (bound : Nat) :
    proximityLength tokens rest bound ≤ max 1 bound :=
  proximityLength_le_iff.2 ⟨Nat.le_max_left _ _, fun _ _ h _ => Nat.le_trans h (Nat.le_max_right _ _)⟩

theorem proximityLength_eq_one {tokens rest : List Text} {bound : Nat} (h : bound ≤ 1) :
    proximityLength tokens rest bound = 1 := by
  have hmax := proximityLength_le_max tokens rest bound
  have hone := one_le_proximityLength tokens rest bound
  omega

/-- The search for the end of the proximity stays inside and stops after the longest token. -/
theorem proximityEnd?_eq_some {tokens rest : List Text} {outcome duration : Text} {stop : Nat}
    (hplain : ∀ segment ∈ rest, Ascii.underscore ∉ segment) (hstop : stop ≤ rest.length + 2) :
    proximityEnd? tokens (outcome :: duration :: rest) stop =
      some (proximityLength tokens rest (stop - 2) + 2) := by
  induction stop with
  | zero => rw [proximityEnd?, proximityLength_eq_one (by omega)]
  | succ stop ih =>
    rw [proximityEnd?]
    split
    · rw [proximityLength_eq_one (by omega)]
    next hpast =>
    obtain ⟨n, rfl⟩ : ∃ n, stop = n + 2 := ⟨stop - 2, by omega⟩
    have hslice : slice? (outcome :: duration :: rest) 2 (n + 2 + 1) = some (rest.take (n + 1)) :=
      slice?_eq_some (by omega) (by simp only [List.length_cons]; omega)
    have hlength : (rest.take (n + 1)).length = n + 1 := List.length_take_of_le (by omega)
    have hmem : tokens.contains (joinSegments (rest.take (n + 1))) ↔
        ∃ token ∈ tokens, segments token = rest.take (n + 1) :=
      contains_joinSegments_iff (List.ne_nil_of_length_eq_add_one hlength)
        (fun segment h => hplain segment (List.mem_of_mem_take h))
    simp only [hslice, Option.bind_eq_bind, Option.bind_some, hmem, show n + 2 + 1 - 2 = n + 1 by omega]
    split
    · next hfound =>
      obtain ⟨token, htoken, hsegments⟩ := hfound
      have hlongest : (segments token).length ≤ proximityLength tokens rest (n + 1) :=
        length_le_proximityLength htoken (Nat.le_of_eq (by rw [hsegments, hlength]))
          (hsegments ▸ List.take_prefix _ _)
      have hle := proximityLength_le_max tokens rest (n + 1)
      rw [hsegments, hlength] at hlongest
      simp only [Option.some.injEq]
      omega
    · next hnone =>
      rw [proximityLength_succ, ih (by omega), Nat.add_sub_cancel]
      rintro ⟨token, htoken, hsegments, hbegins⟩
      exact hnone ⟨token, htoken, by rw [List.prefix_iff_eq_take.1 hbegins, hsegments]⟩

theorem splitLast?_concat_of_none {α β : Type} {f : α → Option β} {l : List α} {x : α}
    (hx : f x = none) :
    splitLast? f (l ++ [x]) = (splitLast? f l).map fun found => (found.1, found.2.1, found.2.2 ++ [x]) := by
  cases hl : splitLast? f l with
  | none =>
    rw [splitLast?_eq_none_iff] at hl
    refine splitLast?_eq_none_iff.2 fun z hz => ?_
    rcases List.mem_append.1 hz with hz | hz
    · exact hl z hz
    · rwa [List.mem_singleton.1 hz]
  | some found =>
    obtain ⟨before, y, after⟩ := found
    obtain ⟨z, rfl, hz, hafter⟩ := splitLast?_eq_some_iff.1 hl
    refine splitLast?_eq_some_iff.2 ⟨z, by simp, hz, ?_⟩
    simpa [hx, or_imp, forall_and] using hafter

/-- The search for the generation stays inside and finds the last one. -/
theorem generationAt?_eq_some {least i : Nat} (hi : i ≤ all.length) :
    generationAt? v all least i =
      some ((splitLast? (generationOf? v) ((all.take i).drop least)).map fun found =>
        (least + found.1.length, found.2.1)) := by
  induction i with
  | zero => simp [generationAt?, splitLast?]
  | succ i ih =>
    rw [generationAt?]
    split
    · next hleast =>
      have hnone : (all.take (i + 1)).drop least = [] :=
        List.drop_eq_nil_of_le (by rw [List.length_take]; omega)
      rw [hnone]
      rfl
    next hleast =>
    have hin : i < all.length := by omega
    have hlength : (all.take i).length = i := List.length_take_of_le (by omega)
    have hcut : (all.take (i + 1)).drop least = (all.take i).drop least ++ [all[i]] := by
      rw [List.take_succ_eq_append_getElem hin, List.drop_append_of_le_length (by omega)]
    simp only [List.getElem?_eq_getElem hin, Option.bind_eq_bind, Option.bind_some, hcut]
    split
    · next generation hgeneration =>
      rw [splitLast?_append hgeneration (by simp)]
      simp only [Option.map_some, List.length_drop, hlength, Option.some.injEq, Prod.mk.injEq, and_true]
      omega
    · next hgeneration =>
      rw [splitLast?_concat_of_none hgeneration, ih (by omega), Option.map_map]
      rfl

theorem suffixAt?_append (text : Text) (before : List Text) (numeral : Text) (after : List Text) :
    suffixAt? text (before ++ numeral :: after) before.length = some (suffixOf text after) := by
  have hlength : (before ++ numeral :: after).length - before.length - 1 = after.length := by
    simp only [List.length_append, List.length_cons]
    omega
  rw [suffixAt?, hlength]
  match after with
  | [] => rfl
  | [segment] =>
    have hlast : (before ++ [numeral, segment])[(before ++ [numeral, segment]).length - 1]? =
        some segment := by
      simp
    simp only [hlast]
    rfl
  | _ :: _ :: _ => simp [suffixOf]

/-- The parts read by position are the segments between the positions. -/
theorem partsAt?_append (outcome duration : Text) (proximity calendar : List Text) (direction numeral : Text)
    (after : List Text) (generation : Int) (suffix? : Option Text) :
    partsAt? (outcome :: duration :: (proximity ++ (calendar ++ direction :: numeral :: after)))
        (proximity.length + 2) (proximity.length + 2 + calendar.length + 1) generation suffix? =
      some {
        outcome, duration, direction, generation, suffix?
        proximity := joinSegments proximity
        calendar := joinSegments calendar } := by
  have hproximity : slice? (outcome :: duration :: (proximity ++ (calendar ++ direction :: numeral :: after)))
      2 (proximity.length + 2) = some proximity := by
    rw [slice?_eq_some (by omega) (by simp only [List.length_cons, List.length_append]; omega)]
    simp
  have hcalendar : slice? (outcome :: duration :: (proximity ++ (calendar ++ direction :: numeral :: after)))
      (proximity.length + 2) (proximity.length + 2 + calendar.length) = some calendar := by
    rw [slice?_eq_some (by omega) (by simp only [List.length_cons, List.length_append]; omega)]
    simp
  have hdirection : (outcome :: duration :: (proximity ++ (calendar ++ direction :: numeral :: after)))[
      proximity.length + 2 + calendar.length]? = some direction := by
    rw [Nat.add_right_comm, List.getElem?_cons_succ, List.getElem?_cons_succ,
      List.getElem?_append_right (Nat.le_add_right _ _), Nat.add_sub_cancel_left]
    simp
  simp only [partsAt?, List.getElem?_cons_zero, List.getElem?_cons_succ, Option.bind_eq_bind,
    Option.bind_some, Nat.add_sub_cancel, hproximity, hcalendar, hdirection]

/-- Around the generation everything is read inside. -/
theorem finishAt?_append (text outcome duration : Text) (proximity calendar : List Text)
    (direction numeral : Text) (after : List Text) (generation : Int) :
    finishAt? text (outcome :: duration :: (proximity ++ (calendar ++ direction :: numeral :: after)))
        (proximity.length + 2) (proximity.length + 2 + calendar.length + 1) generation =
      some (do
        let suffix? ← suffixOf text after
        .ok {
          outcome, duration, direction, generation, suffix?
          proximity := joinSegments proximity
          calendar := joinSegments calendar }) := by
  have hsuffix := suffixAt?_append text
    (outcome :: duration :: (proximity ++ (calendar ++ [direction]))) numeral after
  have hplace : (outcome :: duration :: (proximity ++ (calendar ++ [direction]))).length =
      proximity.length + 2 + calendar.length + 1 := by
    simp only [List.length_cons, List.length_append, List.length_nil]
    omega
  simp only [hplace, List.cons_append, List.append_assoc, List.nil_append] at hsuffix
  rw [finishAt?, hsuffix]
  cases suffixOf text after with
  | error e => rfl
  | ok suffix? =>
    simp only [Option.bind_eq_bind, Option.bind_some, partsAt?_append]
    rfl

theorem exists_drop_eq_cons_cons {α : Type} {l : List α} {n : Nat} (h : n + 2 ≤ l.length) :
    ∃ first second tail, l.drop n = first :: second :: tail :=
  ⟨l[n], l[n + 1], l.drop (n + 2), by
    rw [List.drop_eq_getElem_cons (by omega), List.drop_eq_getElem_cons (by omega)]⟩

/-- Where the generation was found, everything around it is read inside. -/
theorem finishAt?_of_drop {rest before after : List Text} {first second numeral : Text} {size : Nat}
    (hdrop : rest.drop size = first :: second :: (before ++ numeral :: after))
    (text outcome duration : Text) (generation : Int) :
    finishAt? text (outcome :: duration :: rest) (size + 2) (size + 2 + 2 + before.length) generation =
      some (do
        let suffix? ← suffixOf text after
        .ok {
          outcome, duration, generation, suffix?
          proximity := joinSegments (rest.take size)
          calendar := joinSegments (first :: second :: before).dropLast
          direction := (second :: before).getLast (List.cons_ne_nil _ _) }) := by
  have hsize : size ≤ rest.length := by
    refine Nat.le_of_lt (Nat.lt_of_not_le fun hle => ?_)
    simp [List.drop_eq_nil_of_le hle] at hdrop
  have hcut := calendar_append_direction first second before
  generalize (first :: second :: before).dropLast = calendar at hcut ⊢
  generalize (second :: before).getLast _ = direction at hcut ⊢
  have hcalendar : calendar.length = before.length + 1 := by
    have hlength := congrArg List.length hcut
    simp only [List.length_append, List.length_cons, List.length_nil] at hlength
    omega
  have hordered : rest = rest.take size ++ (calendar ++ direction :: numeral :: after) := by
    calc rest = rest.take size ++ rest.drop size := (List.take_append_drop _ _).symm
      _ = rest.take size ++ (first :: second :: before ++ numeral :: after) := by rw [hdrop]; rfl
      _ = rest.take size ++ (calendar ++ direction :: numeral :: after) := by
        rw [← hcut, List.append_assoc, List.singleton_append]
  have hproximity : (rest.take size).length = size := List.length_take_of_le hsize
  generalize rest.take size = proximity at hproximity hordered ⊢
  have hfinish := finishAt?_append text outcome duration proximity calendar direction numeral after
    generation
  rw [← hordered, hproximity] at hfinish
  rw [show size + 2 + 2 + before.length = size + 2 + calendar.length + 1 by omega]
  exact hfinish

/-- Reading by position never leaves the segments, and finds the parts that parsing finds. -/
theorem readAt?_eq_parse (v : Vocabulary) (text : Text) : readAt? v text = some (parse v text) := by
  simp only [readAt?, parse]
  split
  · rfl
  next hmany =>
  split
  · rfl
  split
  case h_2 hshort =>
    rcases hall : segments text with _ | ⟨outcome, _ | ⟨duration, rest⟩⟩
    · simp [hall] at hmany
    · simp [hall] at hmany
    · exact (hshort _ _ _ hall).elim
  next outcome duration rest hall =>
  have hrest : 4 ≤ rest.length := by
    simp only [hall, List.length_cons] at hmany
    omega
  have hplain : ∀ segment ∈ rest, Ascii.underscore ∉ segment := fun segment hmem =>
    not_mem_of_mem_segments (t := text) (by simp [hall, hmem])
  have hstop : proximityEnd? (v.tokens .proximity) (outcome :: duration :: rest) (rest.length + 2 - 3) =
      some (proximityLength (v.tokens .proximity) rest (rest.length + 2 - 3 - 2) + 2) :=
    proximityEnd?_eq_some hplain (by omega)
  have hsize := proximityLength_le_max (v.tokens .proximity) rest (rest.length - 3)
  rw [show rest.length + 2 - 3 - 2 = rest.length - 3 by omega] at hstop
  generalize proximityLength (v.tokens .proximity) rest (rest.length - 3) = size at hstop hsize ⊢
  obtain ⟨first, second, tail, hdrop⟩ := exists_drop_eq_cons_cons (l := rest) (n := size) (by omega)
  have hgeneration := @generationAt?_eq_some v (outcome :: duration :: rest) (size + 2 + 2) _ (Nat.le_refl _)
  have htail : (outcome :: duration :: rest).drop (size + 2 + 2) = tail := by
    rw [List.drop_succ_cons, List.drop_succ_cons, ← List.drop_drop, hdrop]
    rfl
  rw [List.take_length, htail] at hgeneration
  simp only [hall, List.length_cons] at hgeneration ⊢
  simp only [hstop, hgeneration, hdrop, Option.bind_eq_bind, Option.bind_some]
  cases hlast : splitLast? (generationOf? v) tail with
  | none => rfl
  | some found =>
    obtain ⟨before, generation, after⟩ := found
    obtain ⟨numeral, rfl, -, -⟩ := splitLast?_eq_some_iff.1 hlast
    exact finishAt?_of_drop hdrop text outcome duration generation

/-- No part of a parsed text is empty. -/
theorem empty_not_mem_parts {numeral : Text} {after : List Text} (h : Layout v text id numeral after) :
    [] ∉ [id.outcome, id.duration, id.proximity, id.calendar, id.direction] := by
  have hempty : [] ∈ segments [] := by decide
  have hfilled := h.filled
  simp only [h.segments_eq, List.mem_cons, List.mem_append, not_or] at hfilled
  obtain ⟨houtcome, hduration, hproximity, hcalendar, hdirection, -, -⟩ := hfilled
  have hproximity' : [] ≠ id.proximity := fun heq => hproximity (heq ▸ hempty)
  have hcalendar' : [] ≠ id.calendar := fun heq => hcalendar (heq ▸ hempty)
  simp [houtcome, hduration, hproximity', hcalendar', hdirection]

/-- Reading an identifier never looks outside its segments. Writing what was read gives the text back, with
no part empty, a generation of the vocabulary and a suffix of the right form. -/
theorem parse_inside_and_toText (v : Vocabulary) (text : Text) :
    readAt? v text = some (parse v text) ∧
      ∀ id, parse v text = .ok id →
        id.toText = text ∧
        [] ∉ [id.outcome, id.duration, id.proximity, id.calendar, id.direction] ∧
        v.isValidGeneration id.generation = true ∧
        ∀ suffix, id.suffix? = some suffix → isSuffix suffix = true := by
  refine ⟨readAt?_eq_parse v text, fun id hparse => ?_⟩
  obtain ⟨numeral, after, hlayout⟩ := layout_of_parse hparse
  refine ⟨toText_of_parse hparse, ?_, ?_, (of_suffixOf hlayout.suffix).2⟩
  · exact empty_not_mem_parts hlayout
  · exact (Option.filter_eq_some_iff.1 hlayout.generation).2

/-- A vocabulary that the check refuses: one token begins another, and a generation may be zero. -/
def looseVocabulary : Vocabulary :=
  { Vocabulary.builtin with
    proximities := [⟨"AT", 5, -5, ""⟩, ⟨"AT_7_b", 0, 0, ""⟩]
    generationMin := 0
    generationMax := 999 }

/-- An identifier in which numbers stand before the generation. -/
def looseId : HybridId where
  outcome := "x"
  duration := "1"
  proximity := "AT_7_b"
  calendar := "2_c_30"
  direction := "4"
  generation := 0
  suffix? := some (Text.ofString "00000a")

theorem parse_inside_and_toText_loose :
    parse looseVocabulary "x_1_AT_7_b_2_c_30_4_0_00000a" = .ok looseId ∧
      looseId.toText = "x_1_AT_7_b_2_c_30_4_0_00000a" ∧
      looseVocabulary.isValidGeneration looseId.generation = true :=
  have hparse : parse looseVocabulary "x_1_AT_7_b_2_c_30_4_0_00000a" = .ok looseId := by decide +kernel
  have hread := (parse_inside_and_toText looseVocabulary "x_1_AT_7_b_2_c_30_4_0_00000a").2 looseId hparse
  ⟨hparse, hread.1, hread.2.2.1⟩

end TradeReentry.HybridId
