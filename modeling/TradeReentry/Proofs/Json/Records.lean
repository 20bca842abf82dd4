import TradeReentry.Proofs.Json.Rereading

/-!
# Records written without white space

A `Field` is a member of an object with the text of its value. An object of written fields, with nothing
between its tokens, is read back (`Written.record`), and so is an array (`Written.list`); the numbers in it
may be plain decimal numerals (`Written.numeral`). An object of plain members that repeats no key is parsed
from their texts (`parse_record`), and each member is found under its key (`field?_of_mem`).
-/

namespace TradeReentry.Json

open Ascii

/-- A member of an object and the text of its value. -/
structure Field where
  key : Text
  value : Json
  text : Text

namespace Field

/-- The text of a member. -/
def written (f : Field) : Text := quote f.key ++ ":" ++ f.text

def member (f : Field) : Text × Json := (f.key, f.value)

/-- A member that is a text. -/
def ofText (key s : Text) : Field := ⟨key, .string s, quote s⟩

/-- A member that is an integer. -/
def ofInt (key : Text) (i : Int) : Field := ⟨key, .number (.ofInt i), Text.ofInt i⟩

/-- A member that is null unless there is something that it may hold. -/
def optional {α : Type} (value : α → Json) (text : α → Text) (key : Text) (content? : Option α) : Field :=
  ⟨key, content?.elim .null value, content?.elim "null" text⟩

/-- A member with the white space around it, of which there is none. -/
def entry (f : Field) : Entry := ⟨[], f.key, [], ⟨[], f.value, f.text, []⟩⟩

theorem spaced_entry (f : Field) : f.entry.spaced = f.written := by
  simp only [Entry.spaced, Slot.spaced, entry, written, List.nil_append, List.append_nil,
    List.append_assoc]
  rfl

end Field

theorem blank_nil : Blank [] := by decide

namespace Written

/-- A plain decimal numeral in the range is the number nearest to it. -/
theorem numeral {s : Spelling} (hrange : s.InRange) (hreaches : s.Reaches) :
    Written (.number s.nearest) s.text := by
  refine number ?_ fun rest hrest => reads_text hrange hreaches hrest
  obtain ⟨c, t, ht, hc⟩ := s.withPlaces_eq_cons
  rw [Spelling.text, ht]
  cases s.negative with
  | true => exact ⟨_, _, rfl, .inl rfl⟩
  | false => exact ⟨_, _, rfl, .inr hc⟩

/-- An object of written fields. -/
theorem record {fields : List Field} (h : ∀ f ∈ fields, Written f.value f.text) :
    Written (.object (fields.map Field.member))
      (openBrace :: (Text.join "," (fields.map Field.written) ++ [closeBrace])) := by
  by_cases hnil : fields = []
  · subst hnil
    exact emptyObject blank_nil
  have hentries : ∀ levels, ∀ e ∈ fields.map Field.entry, e.IsRead levels := by
    intro levels e he
    obtain ⟨f, hf, rfl⟩ := List.mem_map.1 he
    exact ⟨blank_nil, blank_nil, (h f hf).slot blank_nil blank_nil levels⟩
  have hobject := object (by simpa using hnil) hentries
  rw [List.map_map, List.map_map] at hobject
  have hspaced : Entry.spaced ∘ Field.entry = Field.written := funext Field.spaced_entry
  rwa [hspaced] at hobject

/-- An array of written values. -/
theorem list (items : List (Json × Text)) (h : ∀ i ∈ items, Written i.1 i.2) :
    Written (.array (items.map (·.1)))
      (openBracket :: (Text.join "," (items.map (·.2)) ++ [closeBracket])) := by
  by_cases hnil : items = []
  · subst hnil
    exact emptyArray blank_nil
  have hslots : ∀ levels, ∀ s ∈ items.map fun i => Slot.mk [] i.1 i.2 [], s.IsRead levels := by
    intro levels s hs
    obtain ⟨i, hi, rfl⟩ := List.mem_map.1 hs
    exact slot (h i hi) blank_nil blank_nil levels
  have harray := array (by simpa using hnil) hslots
  rw [List.map_map, List.map_map] at harray
  have hspaced : (Slot.spaced ∘ fun i : Json × Text => Slot.mk [] i.1 i.2 []) = (·.2) := by
    funext i
    simp [Slot.spaced]
  rwa [hspaced] at harray

end Written

/-- A text that is read as a value wherever it stands is parsed as the value. -/
theorem parse_of_written {v : Json} {t : Text} (h : Written v t) (hwithin : Within (maxDepth + 1) v) :
    parse t = .ok v := by
  have hfollows : Follows v [] := fun _ _ => apart_of_blank blank_nil
  have hparse := (parse_of_follows h blank_nil hfollows).1 ⟨hwithin, blank_nil⟩
  rwa [List.nil_append, List.append_nil] at hparse

/-! ## Integers -/

theorem natAbs_le_of_inInt32 {i : Int} (h : Text.inInt32 i = true) : i.natAbs ≤ 2 ^ 53 := by
  simp only [Text.inInt32, Bool.and_eq_true, decide_eq_true_eq] at h
  omega

/-- A 32-bit integer is taken from the number that it is written as. -/
theorem asInt?_ofInt {i : Int} (h : Text.inInt32 i = true) :
    (Json.number (.ofInt i)).asInt? = some i := by
  rw [asInt?, Binary64.toInt?_ofInt (natAbs_le_of_inInt32 h), Option.filter_some]
  exact if_pos h

theorem bind_asInt? {found : Option Json} {i : Int} (h : Text.inInt32 i = true)
    (hfound : found = some (.number (.ofInt i))) : found.bind asInt? = some i := by
  rw [hfound, Option.bind_some, asInt?_ofInt h]

/-! ## Objects that hold no others -/

/-- Whether the value of a member holds no others and is read wherever its text stands. -/
structure Field.IsPlain (f : Field) : Prop where
  written : Written f.value f.text
  ne_array : ∀ items, f.value ≠ .array items
  ne_object : ∀ inner, f.value ≠ .object inner

namespace Field.IsPlain

theorem ofText (key s : Text) : (Field.ofText key s).IsPlain := ⟨.string s, nofun, nofun⟩

theorem number (key : Text) {x : Binary64} {t : Text} (h : Written (.number x) t) :
    IsPlain ⟨key, .number x, t⟩ := ⟨h, nofun, nofun⟩

theorem ofInt (key : Text) {i : Int} (h : Text.inInt32 i = true) : (Field.ofInt key i).IsPlain :=
  number key (.integer (natAbs_le_of_inInt32 h))

theorem optional {α : Type} {value : α → Json} {text : α → Text} {key : Text} {content? : Option α}
    (h : ∀ content, content? = some content → IsPlain ⟨key, value content, text content⟩) :
    (Field.optional value text key content?).IsPlain := by
  cases content? with
  | none => exact ⟨.null, nofun, nofun⟩
  | some content => exact h content rfl

end Field.IsPlain

variable {fields : List Field}

/-- An object that repeats no key and holds no others takes two levels. -/
theorem within_record {levels : Nat} (hkeys : ((fields.map Field.member).map (·.1)).Nodup)
    (hplain : ∀ f ∈ fields, f.IsPlain) : Within (levels + 2) (.object (fields.map Field.member)) :=
  within_object_iff.2 ⟨hkeys, List.forall_mem_map.2 fun f hf =>
    within_of_leaf (hplain f hf).ne_array (hplain f hf).ne_object⟩

/-- Such an object is parsed from the text of its members. -/
theorem parse_record (hkeys : ((fields.map Field.member).map (·.1)).Nodup)
    (hplain : ∀ f ∈ fields, f.IsPlain) :
    parse (openBrace :: (Text.join "," (fields.map Field.written) ++ [closeBrace])) =
      .ok (.object (fields.map Field.member)) := by
  have hwithin : Within (63 + 2) (.object (fields.map Field.member)) := within_record hkeys hplain
  exact parse_of_written (.record fun f hf => (hplain f hf).written) hwithin

/-! ## Members by their keys -/

/-- In an object that repeats no key every member is found under its key. -/
theorem field?_of_mem {members : List (Text × Json)} (hkeys : (members.map (·.1)).Nodup) {key : Text}
    {v : Json} (h : (key, v) ∈ members) : (object members).field? key = some v := by
  rw [field?]
  induction members with
  | nil => simp at h
  | cons m members ih =>
    obtain ⟨hnew, hkeys⟩ := List.nodup_cons.1 hkeys
    rcases List.mem_cons.1 h with rfl | h
    · simp
    · have hne : m.1 ≠ key := fun heq =>
        hnew (List.mem_map.2 ⟨(key, v), h, heq.symm⟩)
      rw [List.find?_cons_of_neg (by simpa using hne)]
      exact ih hkeys h

theorem field?_eq_none {members : List (Text × Json)} {key : Text}
    (h : key ∉ members.map (·.1)) : (object members).field? key = none := by
  rw [field?, Option.map_eq_none_iff, List.find?_eq_none]
  intro m hm heq
  exact h (List.mem_map.2 ⟨m, hm, by simpa using heq⟩)

end TradeReentry.Json
