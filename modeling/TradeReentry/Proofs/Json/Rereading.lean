import TradeReentry.Proofs.Json.Containers
import TradeReentry.Proofs.Json.Rendering

/-!
# Rendered values read back

Whatever follows, the reader takes a text that writes a value as this value if it nests within the levels of
the reader and repeats no key, and refuses the text otherwise. That is what `Written` says of a value and its
text, one lemma for each kind of value, and it holds of all that is rendered (`written_of_renders`). So does
`parse` with whole texts, for which 64 is the greatest depth (`parse_rendered`).
-/

namespace TradeReentry.Json

open Ascii

/-! ## What a reader should make of a text -/

/-- What a result is if a condition decides whether there is one. -/
structure Answers {α : Type} {start : Text} (condition : Prop)
    (result : Except Failure (α × Shorter start)) (a : α) (rest : Text) : Prop where
  ok : condition → ∃ h, result = .ok (a, ⟨rest, h⟩)
  error : ¬condition → ∃ failure, result = .error failure

/-- What a reader with a number of levels makes of a text that writes a value. -/
abbrev Outcome (levels : Nat) (v : Json) (t rest : Text) : Prop :=
  Answers (Within levels v) (readValue levels t) v rest

/-- Whether a text may follow a value that it is not to be read as a part of. -/
def Follows (v : Json) (rest : Text) : Prop := ∀ x, v = .number x → Apart rest

/-! ## Rows of values -/

theorem trimLeft_blank_append {blank t : Text} (hblank : Blank blank) (ht : Opens t) (rest : Text) :
    (blank ++ (t ++ rest)).trimLeft = t ++ rest := by
  obtain ⟨c, t', rfl, hc, -⟩ := ht
  rw [Text.trimLeft, List.dropWhile_append_of_pos hblank, List.cons_append,
    List.dropWhile_cons_of_neg (by simp [hc])]

/-- A byte that ends a value in a list. -/
def Ends (c : UInt8) : Prop := c = comma ∨ c = closeBracket ∨ c = closeBrace

theorem Ends.isSpace_eq {c : UInt8} (h : Ends c) : isSpace c = false := by
  rcases h with rfl | rfl | rfl <;> decide

theorem trimLeft_blank_cons {blank rest : Text} {c : UInt8} (hblank : Blank blank)
    (hc : isSpace c = false) : (blank ++ c :: rest).trimLeft = c :: rest := by
  rw [Text.trimLeft, List.dropWhile_append_of_pos hblank, List.dropWhile_cons_of_neg (by simp [hc])]

theorem apart_blank_cons {blank rest : Text} {c : UInt8} (hblank : Blank blank) (hc : Apart [c]) :
    Apart (blank ++ c :: rest) := by
  cases blank with
  | nil => exact hc
  | cons b blank => exact apart_of_isSpace (hblank b List.mem_cons_self) _

theorem Ends.apart {c : UInt8} (h : Ends c) : Apart [c] := by
  rintro d hd
  obtain rfl : c = d := by simpa using hd
  rcases h with rfl | rfl | rfl <;> decide

/-- Whether the reader makes of a slot what it should. -/
structure Slot.IsRead (levels : Nat) (s : Slot) : Prop where
  before : Blank s.before
  after : Blank s.after
  opens : Opens s.text
  outcome : ∀ rest, Follows s.value rest → Outcome levels s.value (s.text ++ rest) rest

theorem Slot.IsRead.trimLeft_spaced {levels : Nat} {s : Slot} (h : s.IsRead levels) (u : Text) :
    (s.spaced ++ u).trimLeft = s.text ++ (s.after ++ u) := by
  rw [Slot.spaced, List.append_assoc, List.append_assoc, trimLeft_blank_append h.before h.opens]

theorem Slot.IsRead.spaced {levels : Nat} {s : Slot} (h : s.IsRead levels) {c : UInt8} (hc : Ends c)
    (left : Text) :
    Outcome levels s.value (s.spaced ++ c :: left).trimLeft (s.after ++ c :: left) := by
  rw [h.trimLeft_spaced]
  exact h.outcome _ fun _ _ => apart_blank_cons h.after hc.apart

theorem join_cons_cons (first second : Text) (rest : List Text) (t : Text) :
    Text.join "," (first :: second :: rest) ++ t =
      first ++ comma :: (Text.join "," (second :: rest) ++ t) := by
  show first ++ [comma] ++ Text.join "," (second :: rest) ++ t = _
  rw [List.append_assoc, List.append_assoc, List.singleton_append]

theorem exists_join_append (first : Text) (others : List Text) (t : Text) :
    ∃ rest, Text.join "," (first :: others) ++ t = first ++ rest := by
  cases others with
  | nil => exact ⟨t, rfl⟩
  | cons second others => exact ⟨_, join_cons_cons first second others t⟩

/-- The items of an array are read one after the other up to the first that is refused. -/
theorem readItems_slots {levels : Nat} {start t rest : Text} {slots : List Slot} (hne : slots ≠ [])
    (hslots : ∀ s ∈ slots, s.IsRead levels) (read : List Json)
    (ht : t = Text.join "," (slots.map Slot.spaced) ++ closeBracket :: rest)
    (h : t.length ≤ start.length) :
    Answers (∀ s ∈ slots, Within levels s.value) (readItems (readValue levels) start read t h)
      (read.reverse ++ slots.map (·.value)) rest := by
  induction slots generalizing read t with
  | nil => exact absurd rfl hne
  | cons s slots ih =>
    obtain ⟨hs, hslots⟩ := List.forall_mem_cons.1 hslots
    rw [List.forall_mem_cons]
    cases slots with
    | nil =>
      have hread := ht ▸ hs.spaced (.inr (.inl rfl)) rest
      constructor
      · rintro ⟨hwithin, -⟩
        obtain ⟨hleft, heq⟩ := readItems_of_reads read h (hread.ok hwithin)
          (trimLeft_blank_cons hs.after (by decide))
        exact ⟨hleft, by rw [heq, if_pos rfl]; simp⟩
      · intro hnot
        exact readItems_of_refuses h (hread.error (by simpa using hnot))
    | cons second slots =>
      rw [List.map_cons, List.map_cons, join_cons_cons] at ht
      have hread := ht ▸ hs.spaced (.inl rfl) _
      by_cases hwithin : Within levels s.value
      · obtain ⟨hleft, heq⟩ := readItems_of_reads read h (hread.ok hwithin)
          (trimLeft_blank_cons hs.after (by decide))
        rw [if_neg (by decide), if_pos rfl] at heq
        have hrest := ih (List.cons_ne_nil _ _) hslots (s.value :: read) rfl (Nat.le_of_lt hleft)
        rw [List.reverse_cons, List.append_assoc, List.singleton_append] at hrest
        rw [heq]
        exact ⟨fun hall => hrest.ok hall.2, fun hnot => hrest.error fun hall => hnot ⟨hwithin, hall⟩⟩
      · exact ⟨fun hall => absurd hall.1 hwithin,
          fun _ => readItems_of_refuses h (hread.error hwithin)⟩

/-- Whether the reader makes of the value of a member what it should. -/
structure Entry.IsRead (levels : Nat) (e : Entry) : Prop where
  before : Blank e.before
  after : Blank e.after
  slot : e.slot.IsRead levels

theorem Entry.IsRead.spaced {levels : Nat} {e : Entry} (h : e.IsRead levels) (u : Text) :
    (e.spaced ++ u).trimLeft.head? = some doubleQuote ∧
      Reads readString (e.spaced ++ u).trimLeft e.key (e.after ++ colon :: (e.slot.spaced ++ u)) ∧
      (e.after ++ colon :: (e.slot.spaced ++ u)).trimLeft = colon :: (e.slot.spaced ++ u) := by
  have hopens : Opens (quote e.key) := ⟨_, _, rfl, by decide, by decide, by decide⟩
  have htrim : (e.spaced ++ u).trimLeft = quote e.key ++ (e.after ++ colon :: (e.slot.spaced ++ u)) := by
    simp only [Entry.spaced, List.append_assoc, List.cons_append,
      trimLeft_blank_append h.before hopens]
  rw [htrim]
  exact ⟨rfl, reads_quote _ _, trimLeft_blank_cons h.after (by decide)⟩

/-- A member in front of others is refused, or the object goes on after it. -/
theorem readMembers_entry {levels : Nat} {start t left : Text} {e : Entry} {c : UInt8}
    (he : e.IsRead levels) (hc : Ends c) (read : List (Text × Json)) (ht : t = e.spaced ++ c :: left)
    (h : t.length ≤ start.length) :
    (¬(e.key ∉ read.map (·.1) ∧ Within levels e.slot.value) →
      ∃ failure, readMembers (readValue levels) start read t h = .error failure) ∧
    (e.key ∉ read.map (·.1) ∧ Within levels e.slot.value → ∃ hleft : left.length < start.length,
      readMembers (readValue levels) start read t h =
        if c = closeBrace then .ok ((e.member :: read).reverse, ⟨left, hleft⟩)
        else if c = comma then
          readMembers (readValue levels) start (e.member :: read) left (Nat.le_of_lt hleft)
        else .error ⟨.objectSeparator, c :: left⟩) := by
  obtain ⟨hquote, hkey, hcolon⟩ := ht ▸ he.spaced (c :: left)
  have hread := he.slot.spaced hc left
  constructor
  · intro hnot
    by_cases hnew : e.key ∈ read.map (·.1)
    · exact readMembers_of_repeated h hquote hkey hnew
    · exact readMembers_of_refuses h hquote hkey hcolon (hread.error fun hwithin => hnot ⟨hnew, hwithin⟩)
  · rintro ⟨hnew, hwithin⟩
    exact readMembers_of_reads h hquote hkey hnew hcolon (hread.ok hwithin)
      (trimLeft_blank_cons he.slot.after hc.isSpace_eq)

/-- The keys of the later members are new if they are so without the first one and differ from its key. -/
theorem forall_new_cons_iff {levels : Nat} {e : Entry} {entries : List Entry} {read : List (Text × Json)} :
    (∀ other ∈ entries, other.key ∉ (e.member :: read).map (·.1) ∧ Within levels other.slot.value) ↔
      e.key ∉ entries.map (·.key) ∧
        ∀ other ∈ entries, other.key ∉ read.map (·.1) ∧ Within levels other.slot.value := by
  rw [List.map_cons]
  constructor
  · intro hall
    constructor
    · intro hmem
      obtain ⟨other, hother, hkey⟩ := List.mem_map.1 hmem
      exact (hall other hother).1 (hkey ▸ List.mem_cons_self)
    · intro other hother
      exact ⟨fun hmem => (hall other hother).1 (List.mem_cons_of_mem _ hmem), (hall other hother).2⟩
  · rintro ⟨hkey, hall⟩ other hother
    refine ⟨fun hmem => ?_, (hall other hother).2⟩
    rcases List.mem_cons.1 hmem with heq | hmem
    · exact hkey (List.mem_map.2 ⟨other, hother, heq⟩)
    · exact (hall other hother).1 hmem

/-- The members of an object are read one after the other up to the first that is refused or repeats a
key. -/
theorem readMembers_entries {levels : Nat} {start t rest : Text} {entries : List Entry} (hne : entries ≠ [])
    (hentries : ∀ e ∈ entries, e.IsRead levels) (read : List (Text × Json))
    (ht : t = Text.join "," (entries.map Entry.spaced) ++ closeBrace :: rest)
    (h : t.length ≤ start.length) :
    Answers ((entries.map (·.key)).Nodup ∧
        ∀ e ∈ entries, e.key ∉ read.map (·.1) ∧ Within levels e.slot.value)
      (readMembers (readValue levels) start read t h) (read.reverse ++ entries.map Entry.member) rest := by
  induction entries generalizing read t with
  | nil => exact absurd rfl hne
  | cons e entries ih =>
    obtain ⟨he, hentries⟩ := List.forall_mem_cons.1 hentries
    rw [List.forall_mem_cons, List.map_cons, List.nodup_cons]
    cases entries with
    | nil =>
      obtain ⟨hrefused, hread⟩ := readMembers_entry he (.inr (.inr rfl)) read ht h
      constructor
      · rintro ⟨-, hfirst, -⟩
        obtain ⟨hleft, heq⟩ := hread hfirst
        exact ⟨hleft, by rw [heq, if_pos rfl]; simp⟩
      · exact fun hnot => hrefused fun hfirst => hnot (by simpa using hfirst)
    | cons second entries =>
      rw [List.map_cons, List.map_cons, join_cons_cons] at ht
      obtain ⟨hrefused, hread⟩ := readMembers_entry he (.inl rfl) read ht h
      by_cases hfirst : e.key ∉ read.map (·.1) ∧ Within levels e.slot.value
      · obtain ⟨hleft, heq⟩ := hread hfirst
        rw [if_neg (by decide), if_pos rfl] at heq
        have hrest := ih (List.cons_ne_nil _ _) hentries (e.member :: read) rfl (Nat.le_of_lt hleft)
        rw [List.reverse_cons, List.append_assoc, List.singleton_append] at hrest
        rw [forall_new_cons_iff] at hrest
        rw [heq]
        exact ⟨fun ⟨hkeys, hall⟩ => hrest.ok ⟨hkeys.2, hkeys.1, hall.2⟩,
          fun hnot => hrest.error fun ⟨hkeys, hkey, hall⟩ => hnot ⟨⟨hkey, hkeys⟩, hfirst, hall⟩⟩
      · exact ⟨fun hall => absurd hall.2.1 hfirst, fun _ => hrefused hfirst⟩

/-! ## Values -/

theorem Answers.map {α β : Type} {start : Text} {condition : Prop}
    {result : Except Failure (α × Shorter start)} {a : α} {rest : Text}
    (h : Answers condition result a rest) (f : α → β) :
    Answers condition (result.map fun (a, left) => (f a, left)) (f a) rest := by
  constructor
  · intro hcondition
    obtain ⟨hrest, rfl⟩ := h.ok hcondition
    exact ⟨hrest, rfl⟩
  · intro hnot
    obtain ⟨failure, rfl⟩ := h.error hnot
    exact ⟨failure, rfl⟩

theorem Answers.congr {α : Type} {start : Text} {condition other : Prop}
    {result : Except Failure (α × Shorter start)} {a : α} {rest : Text}
    (h : Answers condition result a rest) (hiff : other ↔ condition) : Answers other result a rest :=
  ⟨fun hother => h.ok (hiff.1 hother), fun hnot => h.error fun hcondition => hnot (hiff.2 hcondition)⟩

theorem answers_of_reads {α : Type} {condition : Prop} {reader : Reader α} {t rest : Text} {a : α}
    (hcondition : condition) (h : Reads reader t a rest) : Answers condition (reader t) a rest :=
  ⟨fun _ => h, fun hnot => absurd hcondition hnot⟩

theorem readValue_number {levels : Nat} {c : UInt8} {t : Text} (hc : Starts c) :
    readValue (levels + 1) (c :: t) =
      (readNumber (c :: t)).map fun (x, left) => (.number x, left) := by
  have hstarts : (c = minus || isDigit c) = true := by simpa [Starts] using hc
  rw [readValue]
  dsimp only
  rw [if_neg (hc.ne (by decide)), if_neg (hc.ne (by decide)), if_neg (hc.ne (by decide)),
    if_neg (hc.ne (by decide)), if_neg (hc.ne (by decide)), if_neg (hc.ne (by decide)), if_pos hstarts]

theorem outcome_zero (v : Json) (t rest : Text) : Outcome 0 v t rest :=
  ⟨fun h => absurd h (not_within_zero v), fun _ => ⟨_, rfl⟩⟩

/-- Whether a text is read as a value wherever it stands, as deep as the value may nest there. -/
structure Written (v : Json) (t : Text) : Prop where
  opens : Opens t
  outcome : ∀ (levels : Nat) (rest : Text), Follows v rest → Outcome levels v (t ++ rest) rest

namespace Written

theorem slot {s : Slot} (h : Written s.value s.text) (hbefore : Blank s.before) (hafter : Blank s.after)
    (levels : Nat) : s.IsRead levels :=
  ⟨hbefore, hafter, h.opens, h.outcome levels⟩

theorem word {v : Json} {word : Text} (hword : 0 < word.length) (hopens : Opens word)
    (hitems : ∀ items, v ≠ .array items) (hmembers : ∀ members, v ≠ .object members)
    (hread : ∀ levels rest,
      readValue (levels + 1) (word ++ rest) = readLiteral word v hword (word ++ rest)) :
    Written v word := by
  refine ⟨hopens, ?_⟩
  rintro (_ | levels) rest -
  · exact outcome_zero ..
  · rw [Outcome, hread]
    exact answers_of_reads (within_of_leaf hitems hmembers) (reads_literal hword rest)

theorem null : Written .null "null" :=
  word (by decide) ⟨_, _, rfl, by decide, by decide, by decide⟩ (by simp) (by simp) fun _ _ => rfl

theorem true : Written (.bool true) "true" :=
  word (by decide) ⟨_, _, rfl, by decide, by decide, by decide⟩ (by simp) (by simp) fun _ _ => rfl

theorem false : Written (.bool false) "false" :=
  word (by decide) ⟨_, _, rfl, by decide, by decide, by decide⟩ (by simp) (by simp) fun _ _ => rfl

/-- A literal writes the string that the reader of strings takes for it. -/
theorem literal {s t : Text}
    (hread : ∀ rest, Reads readString (doubleQuote :: t ++ rest) s rest) :
    Written (.string s) (doubleQuote :: t) := by
  refine ⟨⟨_, _, rfl, by decide, by decide, by decide⟩, ?_⟩
  rintro (_ | levels) rest -
  · exact outcome_zero ..
  · have hleaf : Within (levels + 1) (.string s) := within_of_leaf (by simp) (by simp)
    exact (answers_of_reads hleaf (hread rest)).map Json.string

theorem string (s : Text) : Written (.string s) (quote s) := literal (reads_quote s)

/-- A numeral is read as what the reader of numbers makes of it. -/
theorem number {x : Binary64} {t : Text} (hstarts : ∃ c t', t = c :: t' ∧ Starts c)
    (hread : ∀ rest, Apart rest → Reads readNumber (t ++ rest) x rest) : Written (.number x) t := by
  obtain ⟨c, t, rfl, hc⟩ := hstarts
  refine ⟨⟨c, t, rfl, hc.isSpace_eq, hc.ne (by decide), hc.ne (by decide)⟩, ?_⟩
  rintro (_ | levels) rest hfollows
  · exact outcome_zero ..
  · have hleaf : Within (levels + 1) (.number x) := within_of_leaf (by simp) (by simp)
    rw [Outcome, List.cons_append, readValue_number hc]
    exact (answers_of_reads hleaf (hread rest (hfollows x rfl))).map Json.number

theorem integer {i : Int} (h : i.natAbs ≤ 2 ^ 53) : Written (.number (.ofInt i)) (Text.ofInt i) :=
  number (ofInt_eq_cons i) fun _ => reads_ofInt h

theorem emptyArray {blank : Text} (h : Blank blank) :
    Written (.array []) (openBracket :: (blank ++ [closeBracket])) := by
  refine ⟨⟨_, _, rfl, by decide, by decide, by decide⟩, ?_⟩
  rintro (_ | levels) rest -
  · exact outcome_zero ..
  · rw [List.cons_append, List.append_assoc]
    have hwithin : Within (levels + 1) (.array []) := within_array_iff.2 (by simp)
    have hclose : ∃ hleft, readArray (readValue levels)
        (openBracket :: (blank ++ closeBracket :: rest)) (blank ++ closeBracket :: rest)
        (Nat.lt_succ_self _) = .ok ([], ⟨rest, hleft⟩) :=
      readArray_of_close _ (trimLeft_blank_cons h (by decide))
    exact Answers.map ⟨fun _ => hclose, fun hnot => absurd hwithin hnot⟩ Json.array

theorem array {slots : List Slot} (hne : slots ≠ [])
    (hslots : ∀ levels, ∀ s ∈ slots, s.IsRead levels) :
    Written (.array (slots.map (·.value)))
      (openBracket :: (Text.join "," (slots.map Slot.spaced) ++ [closeBracket])) := by
  refine ⟨⟨_, _, rfl, by decide, by decide, by decide⟩, ?_⟩
  rintro (_ | levels) rest -
  · exact outcome_zero ..
  rw [List.cons_append, List.append_assoc, List.singleton_append]
  have hopen : ∃ c left, (Text.join "," (slots.map Slot.spaced) ++ closeBracket :: rest).trimLeft =
      c :: left ∧ c ≠ closeBracket := by
    obtain ⟨s, others, rfl⟩ := List.exists_cons_of_ne_nil hne
    have hs := hslots levels s List.mem_cons_self
    obtain ⟨row, hrow⟩ := exists_join_append s.spaced (others.map Slot.spaced) (closeBracket :: rest)
    obtain ⟨c, t, ht, -, hc, -⟩ := hs.opens
    rw [List.map_cons, hrow, hs.trimLeft_spaced, ht]
    exact ⟨c, _, rfl, hc⟩
  obtain ⟨c, left, htrim, hc⟩ := hopen
  generalize hrow : Text.join "," (slots.map Slot.spaced) ++ closeBracket :: rest = row at htrim
  have hread : Answers (∀ s ∈ slots, Within levels s.value)
      (readArray (readValue levels) (openBracket :: row) row (Nat.lt_succ_self _))
      (slots.map (·.value)) rest := by
    rw [readArray_of_ne_close _ htrim hc]
    exact readItems_slots hne (hslots levels) [] hrow.symm _
  have hwithin : Within (levels + 1) (.array (slots.map (·.value))) ↔
      ∀ s ∈ slots, Within levels s.value := by
    rw [within_array_iff, List.forall_mem_map]
  exact (hread.congr hwithin).map Json.array

theorem emptyObject {blank : Text} (h : Blank blank) :
    Written (.object []) (openBrace :: (blank ++ [closeBrace])) := by
  refine ⟨⟨_, _, rfl, by decide, by decide, by decide⟩, ?_⟩
  rintro (_ | levels) rest -
  · exact outcome_zero ..
  · rw [List.cons_append, List.append_assoc]
    have hwithin : Within (levels + 1) (.object []) := within_object_iff.2 (by simp)
    have hclose : ∃ hleft, readObject (readValue levels)
        (openBrace :: (blank ++ closeBrace :: rest)) (blank ++ closeBrace :: rest)
        (Nat.lt_succ_self _) = .ok ([], ⟨rest, hleft⟩) :=
      readObject_of_close _ (trimLeft_blank_cons h (by decide))
    exact Answers.map ⟨fun _ => hclose, fun hnot => absurd hwithin hnot⟩ Json.object

theorem object {entries : List Entry} (hne : entries ≠ [])
    (hentries : ∀ levels, ∀ e ∈ entries, e.IsRead levels) :
    Written (.object (entries.map Entry.member))
      (openBrace :: (Text.join "," (entries.map Entry.spaced) ++ [closeBrace])) := by
  refine ⟨⟨_, _, rfl, by decide, by decide, by decide⟩, ?_⟩
  rintro (_ | levels) rest -
  · exact outcome_zero ..
  rw [List.cons_append, List.append_assoc, List.singleton_append]
  have hopen : (Text.join "," (entries.map Entry.spaced) ++ closeBrace :: rest).trimLeft.head? =
      some doubleQuote := by
    obtain ⟨e, others, rfl⟩ := List.exists_cons_of_ne_nil hne
    obtain ⟨row, hrow⟩ := exists_join_append e.spaced (others.map Entry.spaced) (closeBrace :: rest)
    rw [List.map_cons, hrow]
    exact ((hentries levels e List.mem_cons_self).spaced row).1
  obtain ⟨left, htrim⟩ := List.head?_eq_some_iff.1 hopen
  generalize hrow : Text.join "," (entries.map Entry.spaced) ++ closeBrace :: rest = row at htrim
  have hread : Answers ((entries.map (·.key)).Nodup ∧
        ∀ e ∈ entries, e.key ∉ ([] : List (Text × Json)).map (·.1) ∧ Within levels e.slot.value)
      (readObject (readValue levels) (openBrace :: row) row (Nat.lt_succ_self _))
      (entries.map Entry.member) rest := by
    rw [readObject_of_ne_close _ htrim (by decide)]
    exact readMembers_entries hne (hentries levels) [] hrow.symm _
  have hwithin : Within (levels + 1) (.object (entries.map Entry.member)) ↔
      (entries.map (·.key)).Nodup ∧
        ∀ e ∈ entries, e.key ∉ ([] : List (Text × Json)).map (·.1) ∧ Within levels e.slot.value := by
    rw [within_object_iff, List.map_map, List.forall_mem_map]
    simp [Entry.member, Function.comp_def]
  exact (hread.congr hwithin).map Json.object

end Written

/-- A text that renders a value is read as the value. -/
theorem written_of_renders {v : Json} {t : Text} (h : Renders v t) : Written v t := by
  induction h with
  | null => exact .null
  | true => exact .true
  | false => exact .false
  | number i hi => exact .integer hi
  | string s => exact .string s
  | emptyArray blank hblank => exact .emptyArray hblank
  | array slots hne hblank _ ih =>
    exact .array hne fun levels s hs => (ih s hs).slot (hblank s hs).1 (hblank s hs).2 levels
  | emptyObject blank hblank => exact .emptyObject hblank
  | object entries hne hblank _ ih =>
    exact .object hne fun levels e he => ⟨(hblank e he).1, (hblank e he).2.1,
      (ih e he).slot (hblank e he).2.2.1 (hblank e he).2.2.2 levels⟩

/-! ## Whole texts -/

theorem trimLeft_eq_nil_iff {t : Text} : t.trimLeft = [] ↔ Blank t := List.dropWhile_eq_nil_iff

theorem apart_of_blank {t : Text} (h : Blank t) : Apart t := by
  cases t with
  | nil => simp [Apart]
  | cons c t => exact apart_of_isSpace (h c List.mem_cons_self) t

/-- A text that writes a value, after white space, is read as the value if this has few enough levels and
repeats no key, and if only white space follows. -/
theorem parse_of_follows {v : Json} {before t rest : Text} (h : Written v t) (hbefore : Blank before)
    (hfollows : Follows v rest) :
    (Within (maxDepth + 1) v ∧ Blank rest → parse (before ++ (t ++ rest)) = .ok v) ∧
      (¬(Within (maxDepth + 1) v ∧ Blank rest) →
        ∃ failure, parse (before ++ (t ++ rest)) = .error failure) := by
  have hread := h.outcome (maxDepth + 1) rest hfollows
  rw [← trimLeft_blank_append hbefore h.opens] at hread
  rw [parse]
  by_cases hwithin : Within (maxDepth + 1) v
  · obtain ⟨hshorter, heq⟩ := hread.ok hwithin
    have hblank : rest.trimLeft.isEmpty = true ↔ Blank rest := by
      rw [List.isEmpty_iff, trimLeft_eq_nil_iff]
    simp only [heq]
    constructor
    · rintro ⟨-, hrest⟩
      exact if_pos (hblank.2 hrest)
    · intro hnot
      exact ⟨_, if_neg fun hempty => hnot ⟨hwithin, hblank.1 hempty⟩⟩
  · obtain ⟨failure, heq⟩ := hread.error hwithin
    simp only [heq]
    exact ⟨fun hall => absurd hall.1 hwithin, fun _ => ⟨failure, rfl⟩⟩

/-- A value that nests at most 64 deep and repeats no key is read back from each text that writes it; one
that does not is refused, and so is anything with more than white space behind the value. -/
theorem parse_rendered {tree : Json} {before text after : Text} (h : Renders tree text)
    (hbefore : Blank before) (hafter : Blank after) :
    ((∀ depth part, tree.Node depth part → depth ≤ 64) →
      (∀ depth members, tree.Node depth (.object members) → (members.map (·.1)).Nodup) →
        parse (before ++ (text ++ after)) = .ok tree) ∧
    ((∃ depth part, tree.Node depth part ∧ 64 < depth) ∨
      (∃ depth members, tree.Node depth (.object members) ∧ ¬(members.map (·.1)).Nodup) →
        ∃ failure, parse (before ++ (text ++ after)) = .error failure) ∧
    (∀ c more, isSpace c = false → (after ≠ [] ∨ ∀ x, tree ≠ .number x) →
      ∃ failure, parse (before ++ (text ++ (after ++ c :: more))) = .error failure) ∧
    ∀ i : Int, i.natAbs ≤ 2 ^ 53 → (Binary64.ofInt i).toInt? = some i := by
  have hfollows : Follows tree after := fun _ _ => apart_of_blank hafter
  have hparse := parse_of_follows (written_of_renders h) hbefore hfollows
  refine ⟨?_, ?_, ?_, fun i => Binary64.toInt?_ofInt⟩
  · intro hdepth hkeys
    exact hparse.1 ⟨⟨fun depth part hpart => Nat.lt_succ_of_le (hdepth depth part hpart), hkeys⟩, hafter⟩
  · intro hbad
    refine hparse.2 fun hwithin => ?_
    rcases hbad with ⟨depth, part, hpart, hdeep⟩ | ⟨depth, members, hmembers, hrepeated⟩
    · exact absurd (hwithin.1.shallow depth part hpart) (Nat.not_lt.2 hdeep)
    · exact hrepeated (hwithin.1.distinct depth members hmembers)
  · intro c more hc hapart
    have hfollows' : Follows tree (after ++ c :: more) := by
      rintro x rfl
      cases after with
      | nil => simp at hapart
      | cons b after => exact apart_of_isSpace (hafter b List.mem_cons_self) _
    refine (parse_of_follows (written_of_renders h) hbefore hfollows').2 fun hall => ?_
    have hspace := hall.2 c (by simp)
    rw [hc] at hspace
    exact absurd hspace (by decide)

/-- The smallest of the integers and an empty object, with white space. -/
def sampleItems : List Slot :=
  [⟨" ", .number (.ofInt (-9007199254740992)), "-9007199254740992", " "⟩,
    ⟨[], .object [], "\x7b \x7d", "\r"⟩]

/-- They are the value of a key with a control byte. -/
def sampleMembers : List Entry :=
  [⟨" ", [0x6B, 0x01], " ", ⟨"\t", .array (sampleItems.map (·.value)),
    "[ -9007199254740992 ,\x7b \x7d\r]", []⟩⟩]

theorem parse_rendered_sample :
    parse "\n\x7b \"k\\u0001\" :\t[ -9007199254740992 ,\x7b \x7d\r]\x7d " =
      .ok (.object (sampleMembers.map Entry.member)) := by
  have hitems : ∀ s ∈ sampleItems, Renders s.value s.text :=
    List.forall_mem_cons.2 ⟨.number (-9007199254740992) (by decide),
      List.forall_mem_singleton.2 (.emptyObject " " (by decide))⟩
  have harray := Renders.array sampleItems (by decide) (by decide) hitems
  have hmembers : ∀ e ∈ sampleMembers, Renders e.slot.value e.slot.text :=
    List.forall_mem_singleton.2 harray
  have hobject := Renders.object sampleMembers (by decide) (by decide) hmembers
  have hwithin : Within 65 (.object (sampleMembers.map Entry.member)) := by
    have hnumber : Within 63 (.number (.ofInt (-9007199254740992))) := within_of_leaf (by simp) (by simp)
    have hempty : Within 63 (.object []) := within_object_iff.2 (by simp)
    refine within_object_iff.2 ⟨by decide, List.forall_mem_singleton.2 (within_array_iff.2 ?_)⟩
    exact List.forall_mem_cons.2 ⟨hnumber, List.forall_mem_singleton.2 hempty⟩
  exact (@parse_rendered _ "\n" _ " " hobject (by decide) (by decide)).1
    (fun depth part hpart => Nat.le_of_lt_succ (hwithin.shallow depth part hpart)) hwithin.distinct

end TradeReentry.Json
