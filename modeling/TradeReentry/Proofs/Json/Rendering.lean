import TradeReentry.Proofs.Json.Leaves

/-!
# How values are written

`Node` finds the parts of a value and their depths. `Renders` relates a value with each text that writes
it: texts and keys quoted, integers in decimal digits, any white space between the tokens. Every value whose
numbers are integers of magnitude at most 2^53 can be written (`exists_renders`).
-/

namespace TradeReentry.Json

open Ascii

/-! ## The parts of a value -/

/-- The parts of a value with the depth of each, the value itself being at depth zero. -/
inductive Node : Json → Nat → Json → Prop where
  | root (v : Json) : Node v 0 v
  | item {items : List Json} {v part : Json} {depth : Nat} (hmem : v ∈ items)
      (h : Node v depth part) : Node (.array items) (depth + 1) part
  | member {members : List (Text × Json)} {m : Text × Json} {part : Json} {depth : Nat}
      (hmem : m ∈ members) (h : Node m.2 depth part) : Node (.object members) (depth + 1) part

/-- Whether a value has no more than a number of levels and no object that repeats a key. -/
structure Within (levels : Nat) (v : Json) : Prop where
  shallow : ∀ depth part, v.Node depth part → depth < levels
  distinct : ∀ depth members, v.Node depth (.object members) → (members.map (·.1)).Nodup

theorem not_within_zero (v : Json) : ¬Within 0 v :=
  fun h => Nat.not_lt_zero 0 (h.shallow 0 v (.root v))

/-- A value without parts takes one level. -/
theorem within_of_leaf {v : Json} {levels : Nat} (hitems : ∀ items, v ≠ .array items)
    (hmembers : ∀ members, v ≠ .object members) : Within (levels + 1) v := by
  constructor
  · rintro depth part (_ | _ | _)
    · exact Nat.succ_pos levels
    · exact absurd rfl (hitems _)
    · exact absurd rfl (hmembers _)
  · intro depth members h
    cases h with
    | root => exact absurd rfl (hmembers members)
    | item => exact absurd rfl (hitems _)
    | member => exact absurd rfl (hmembers _)

theorem within_array_iff {levels : Nat} {items : List Json} :
    Within (levels + 1) (.array items) ↔ ∀ v ∈ items, Within levels v := by
  constructor
  · intro h v hv
    exact ⟨fun depth part hpart => Nat.lt_of_succ_lt_succ (h.shallow _ _ (.item hv hpart)),
      fun depth members hpart => h.distinct _ _ (.item hv hpart)⟩
  · intro h
    constructor
    · rintro depth part (_ | ⟨hv, hpart⟩)
      · exact Nat.succ_pos levels
      · exact Nat.succ_lt_succ ((h _ hv).shallow _ _ hpart)
    · rintro depth members (_ | ⟨hv, hpart⟩)
      exact (h _ hv).distinct _ _ hpart

theorem within_object_iff {levels : Nat} {members : List (Text × Json)} :
    Within (levels + 1) (.object members) ↔
      (members.map (·.1)).Nodup ∧ ∀ m ∈ members, Within levels m.2 := by
  constructor
  · intro h
    refine ⟨h.distinct 0 members (.root _), fun m hm => ?_⟩
    exact ⟨fun depth part hpart => Nat.lt_of_succ_lt_succ (h.shallow _ _ (.member hm hpart)),
      fun depth inner hpart => h.distinct _ _ (.member hm hpart)⟩
  · rintro ⟨hdistinct, h⟩
    constructor
    · rintro depth part (_ | _ | ⟨hm, hpart⟩)
      · exact Nat.succ_pos levels
      · exact Nat.succ_lt_succ ((h _ hm).shallow _ _ hpart)
    · rintro depth inner (_ | _ | ⟨hm, hpart⟩)
      · exact hdistinct
      · exact (h _ hm).distinct _ _ hpart

/-! ## Written values -/

/-- Whether a text is white space only. -/
def Blank (t : Text) : Prop := ∀ c ∈ t, isSpace c = true

instance (t : Text) : Decidable (Blank t) := List.decidableBAll _ t

/-- A value in its text with the white space around it. -/
structure Slot where
  before : Text
  value : Json
  text : Text
  after : Text

def Slot.spaced (s : Slot) : Text := s.before ++ (s.text ++ s.after)

/-- A member of an object with the white space around its key. -/
structure Entry where
  before : Text
  key : Text
  after : Text
  slot : Slot

def Entry.spaced (e : Entry) : Text := e.before ++ (quote e.key ++ (e.after ++ colon :: e.slot.spaced))

def Entry.member (e : Entry) : Text × Json := (e.key, e.slot.value)

/-- How values are written. -/
inductive Renders : Json → Text → Prop where
  | null : Renders .null "null"
  | true : Renders (.bool true) "true"
  | false : Renders (.bool false) "false"
  | number (i : Int) (h : i.natAbs ≤ 2 ^ 53) : Renders (.number (.ofInt i)) (Text.ofInt i)
  | string (s : Text) : Renders (.string s) (quote s)
  | emptyArray (blank : Text) (h : Blank blank) :
      Renders (.array []) (openBracket :: (blank ++ [closeBracket]))
  | array (slots : List Slot) (hne : slots ≠ [])
      (hblank : ∀ s ∈ slots, Blank s.before ∧ Blank s.after)
      (h : ∀ s ∈ slots, Renders s.value s.text) :
      Renders (.array (slots.map (·.value)))
        (openBracket :: (Text.join "," (slots.map Slot.spaced) ++ [closeBracket]))
  | emptyObject (blank : Text) (h : Blank blank) :
      Renders (.object []) (openBrace :: (blank ++ [closeBrace]))
  | object (entries : List Entry) (hne : entries ≠ [])
      (hblank : ∀ e ∈ entries,
        Blank e.before ∧ Blank e.after ∧ Blank e.slot.before ∧ Blank e.slot.after)
      (h : ∀ e ∈ entries, Renders e.slot.value e.slot.text) :
      Renders (.object (entries.map Entry.member))
        (openBrace :: (Text.join "," (entries.map Entry.spaced) ++ [closeBrace]))

/-- The bytes that a written value may begin with. -/
def Opens (t : Text) : Prop :=
  ∃ c rest, t = c :: rest ∧ isSpace c = false ∧ c ≠ closeBracket ∧ c ≠ closeBrace

/-- The bytes that a numeral may begin with. -/
def Starts (c : UInt8) : Prop := c = minus ∨ isDigit c = true

instance (c : UInt8) : Decidable (Starts c) := inferInstanceAs (Decidable (_ ∨ _))

theorem ofInt_eq_cons (i : Int) : ∃ c t, Text.ofInt i = c :: t ∧ Starts c := by
  cases i with
  | ofNat n =>
    obtain ⟨c, t, ht⟩ := List.exists_cons_of_ne_nil (Text.ofNat_ne_nil n)
    have hmem : c ∈ Text.ofNat n := ht ▸ List.mem_cons_self
    exact ⟨c, t, ht, .inr (Text.isDigit_of_mem_ofNat hmem)⟩
  | negSucc n => exact ⟨minus, _, rfl, .inl rfl⟩

theorem Starts.ne {c d : UInt8} (h : Starts c) (hd : ¬Starts d) : c ≠ d := by
  rintro rfl
  exact hd h

theorem Starts.isSpace_eq {c : UInt8} (h : Starts c) : isSpace c = false := by
  rcases h with rfl | h
  · decide
  · exact Text.not_isSpace_of_isDigit h

/-! ## All values -/

/-- Whether the numbers in a value are integers of magnitude at most 2^53. -/
def Integral (v : Json) : Prop :=
  ∀ depth x, v.Node depth (.number x) → ∃ i : Int, i.natAbs ≤ 2 ^ 53 ∧ x = .ofInt i

theorem exists_slots {items : List Json} (h : ∀ v ∈ items, ∃ t, Renders v t) :
    ∃ slots : List Slot, slots.map (·.value) = items ∧
      ∀ s ∈ slots, (Blank s.before ∧ Blank s.after) ∧ Renders s.value s.text := by
  induction items with
  | nil => exact ⟨[], rfl, by simp⟩
  | cons v items ih =>
    obtain ⟨⟨t, ht⟩, hitems⟩ := List.forall_mem_cons.1 h
    obtain ⟨slots, rfl, hslots⟩ := ih hitems
    have hnil : Blank [] := by decide
    exact ⟨⟨[], v, t, []⟩ :: slots, rfl, List.forall_mem_cons.2 ⟨⟨⟨hnil, hnil⟩, ht⟩, hslots⟩⟩

theorem exists_entries {members : List (Text × Json)} (h : ∀ m ∈ members, ∃ t, Renders m.2 t) :
    ∃ entries : List Entry, entries.map Entry.member = members ∧
      ∀ e ∈ entries, (Blank e.before ∧ Blank e.after ∧ Blank e.slot.before ∧ Blank e.slot.after) ∧
        Renders e.slot.value e.slot.text := by
  induction members with
  | nil => exact ⟨[], rfl, by simp⟩
  | cons m members ih =>
    obtain ⟨⟨t, ht⟩, hmembers⟩ := List.forall_mem_cons.1 h
    obtain ⟨entries, rfl, hentries⟩ := ih hmembers
    have hnil : Blank [] := by decide
    exact ⟨⟨[], m.1, [], ⟨[], m.2, t, []⟩⟩ :: entries, rfl,
      List.forall_mem_cons.2 ⟨⟨⟨hnil, hnil, hnil, hnil⟩, ht⟩, hentries⟩⟩

/-- Every value whose numbers are such integers can be written. -/
theorem exists_renders : ∀ v : Json, v.Integral → ∃ t, Renders v t
  | .null, _ => ⟨_, .null⟩
  | .bool false, _ => ⟨_, .false⟩
  | .bool true, _ => ⟨_, .true⟩
  | .number x, h => by
    obtain ⟨i, hi, rfl⟩ := h 0 x (.root _)
    exact ⟨_, .number i hi⟩
  | .string s, _ => ⟨_, .string s⟩
  | .array items, h => by
    have hitems : ∀ v ∈ items, ∃ t, Renders v t := fun v hv =>
      exists_renders v fun depth x hx => h _ x (.item hv hx)
    obtain ⟨slots, rfl, hslots⟩ := exists_slots hitems
    by_cases hne : slots = []
    · subst hne
      exact ⟨_, .emptyArray [] (by decide)⟩
    · exact ⟨_, .array slots hne (fun s hs => (hslots s hs).1) fun s hs => (hslots s hs).2⟩
  | .object members, h => by
    have hmembers : ∀ m ∈ members, ∃ t, Renders m.2 t := by
      rintro ⟨key, v⟩ hm
      have hsize : sizeOf v < sizeOf members := by
        have hlt := List.sizeOf_lt_of_mem hm
        simp only [Prod.mk.sizeOf_spec] at hlt
        omega
      exact exists_renders v fun depth x hx => h _ x (.member hm hx)
    obtain ⟨entries, rfl, hentries⟩ := exists_entries hmembers
    by_cases hne : entries = []
    · subst hne
      exact ⟨_, .emptyObject [] (by decide)⟩
    · exact ⟨_, .object entries hne (fun e he => (hentries e he).1) fun e he => (hentries e he).2⟩

end TradeReentry.Json
