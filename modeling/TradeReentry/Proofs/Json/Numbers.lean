import TradeReentry.Json.Reader
import TradeReentry.Proofs.Binary64.Rounding
import TradeReentry.Proofs.Results

/-!
# Numbers of a text that was read

A number outside the range is refused, so that no value that was read holds an infinity or a NaN
(`finite_of_parse`).
-/

namespace TradeReentry.Json

/-- Whether all numbers of a value are finite. -/
inductive Finite : Json → Prop where
  | null : Finite .null
  | bool (value : Bool) : Finite (.bool value)
  | number (value : Binary64) (h : value.isFinite = true) : Finite (.number value)
  | string (value : Text) : Finite (.string value)
  | array (items : List Json) (h : ∀ v ∈ items, Finite v) : Finite (.array items)
  | object (members : List (Text × Json)) (h : ∀ m ∈ members, Finite m.2) : Finite (.object members)

/-- Whether what a reader takes off a text holds finite numbers only. -/
def ReadsFinite (item : Reader Json) : Prop :=
  ∀ t v rest, item t = .ok (v, rest) → v.Finite

theorem isFinite_of_value? {negative : Bool} {m : Magnitude} {x : Binary64}
    (hden : 0 < m.den) (h : Numeral.value? (.finite negative m) = some x) : x.isFinite = true := by
  rw [Numeral.value?] at h
  split at h
  · simp at h
  next hrange =>
    obtain rfl := Option.some.inj h
    have hover : ¬m.Overflows := fun hover => hrange (.inl hover)
    rw [Magnitude.Overflows, Nat.not_le, Binary64.nearestUnits_lt_infinity_iff hden] at hover
    exact (Binary64.isFinite_nearest_iff hden).2 hover

theorem den_ofDecimal_pos (digits : Text) (exponent : Int) :
    0 < (Magnitude.ofDecimal digits exponent).den := by
  unfold Magnitude.ofDecimal
  dsimp only
  split
  · exact Nat.one_pos
  · split
    · exact Nat.one_pos
    · split
      · exact Nat.two_pow_pos 64
      · split
        · exact Nat.one_pos
        · exact Nat.pow_pos (by decide)

theorem isFinite_of_readNumber {t : Text} {x : Binary64} {rest : Shorter t}
    (h : readNumber t = .ok (x, rest)) : x.isFinite = true := by
  unfold readNumber at h
  dsimp only at h
  split at h
  · simp at h
  · split at h
    · simp at h
    · split at h
      · simp at h
      · split at h
        · simp at h
        next hvalue =>
          obtain rfl := (Prod.mk.inj (Except.ok.inj h)).1
          exact isFinite_of_value? (den_ofDecimal_pos ..) hvalue

variable {item : Reader Json} {start : Text}

theorem finite_of_readItems (hitem : ReadsFinite item) {read : List Json} {t : Text}
    {h : t.length ≤ start.length} {items : List Json} {rest : Shorter start}
    (hread : ∀ v ∈ read, v.Finite) (heq : readItems item start read t h = .ok (items, rest)) :
    ∀ v ∈ items, v.Finite := by
  fun_induction readItems item start read t h with
  | case3 =>
    obtain rfl := (Prod.mk.inj (Except.ok.inj heq)).1
    intro v hv
    have hall := List.forall_mem_cons.2 ⟨hitem _ _ _ (by assumption), hread⟩
    exact hall v (List.mem_reverse.1 hv)
  | case4 =>
    next ih => exact ih (List.forall_mem_cons.2 ⟨hitem _ _ _ (by assumption), hread⟩) heq
  | _ => simp at heq

theorem finite_of_readMembers (hitem : ReadsFinite item) {read : List (Text × Json)} {t : Text}
    {h : t.length ≤ start.length} {members : List (Text × Json)} {rest : Shorter start}
    (hread : ∀ m ∈ read, m.2.Finite) (heq : readMembers item start read t h = .ok (members, rest)) :
    ∀ m ∈ members, m.2.Finite := by
  fun_induction readMembers item start read t h with
  | case8 =>
    obtain rfl := (Prod.mk.inj (Except.ok.inj heq)).1
    intro m hm
    rcases List.mem_cons.1 (List.mem_reverse.1 hm) with rfl | hm
    · exact hitem _ _ _ (by assumption)
    · exact hread m hm
  | case9 =>
    next ih =>
      refine ih ?_ heq
      intro m hm
      rcases List.mem_cons.1 hm with rfl | hm
      · exact hitem _ _ _ (by assumption)
      · exact hread m hm
  | _ => simp at heq

theorem finite_of_readArray (hitem : ReadsFinite item) {rest : Text} {h : rest.length < start.length}
    {items : List Json} {left : Shorter start}
    (heq : readArray item start rest h = .ok (items, left)) : ∀ v ∈ items, v.Finite := by
  unfold readArray at heq
  split at heq
  · dsimp only at heq
    split at heq
    · obtain rfl := (Prod.mk.inj (Except.ok.inj heq)).1
      simp
    · exact finite_of_readItems hitem (by simp) heq
  · exact finite_of_readItems hitem (by simp) heq

theorem finite_of_readObject (hitem : ReadsFinite item) {rest : Text} {h : rest.length < start.length}
    {members : List (Text × Json)} {left : Shorter start}
    (heq : readObject item start rest h = .ok (members, left)) : ∀ m ∈ members, m.2.Finite := by
  unfold readObject at heq
  split at heq
  · dsimp only at heq
    split at heq
    · obtain rfl := (Prod.mk.inj (Except.ok.inj heq)).1
      simp
    · exact finite_of_readMembers hitem (by simp) heq
  · exact finite_of_readMembers hitem (by simp) heq

theorem finite_of_readLiteral {word : Text} {value : Json} {hword : 0 < word.length}
    (hvalue : value.Finite) : ReadsFinite (readLiteral word value hword) := by
  intro t v rest h
  rw [readLiteral] at h
  split at h
  · obtain rfl := (Prod.mk.inj (Except.ok.inj h)).1
    exact hvalue
  · simp at h

/-- However deep a value nests, its numbers are finite. -/
theorem readsFinite_readValue (levels : Nat) : ReadsFinite (readValue levels) := by
  induction levels with
  | zero =>
    intro t v rest h
    simp [readValue] at h
  | succ levels ih =>
    intro t v rest h
    cases t with
    | nil => simp [readValue] at h
    | cons c t =>
      rw [readValue] at h
      dsimp only at h
      split at h
      · obtain ⟨⟨members, left⟩, hread, hv⟩ := map_eq_ok_iff.1 h
        obtain rfl := (Prod.mk.inj hv).1
        exact .object _ (finite_of_readObject ih hread)
      split at h
      · obtain ⟨⟨items, left⟩, hread, hv⟩ := map_eq_ok_iff.1 h
        obtain rfl := (Prod.mk.inj hv).1
        exact .array _ (finite_of_readArray ih hread)
      split at h
      · obtain ⟨⟨s, left⟩, hread, hv⟩ := map_eq_ok_iff.1 h
        obtain rfl := (Prod.mk.inj hv).1
        exact .string _
      split at h
      · exact finite_of_readLiteral (.bool true) _ _ _ h
      split at h
      · exact finite_of_readLiteral (.bool false) _ _ _ h
      split at h
      · exact finite_of_readLiteral .null _ _ _ h
      split at h
      · obtain ⟨⟨x, left⟩, hread, hv⟩ := map_eq_ok_iff.1 h
        obtain rfl := (Prod.mk.inj hv).1
        exact .number _ (isFinite_of_readNumber hread)
      · simp at h

theorem finite_of_parse {t : Text} {v : Json} (h : parse t = .ok v) : v.Finite := by
  rw [parse] at h
  split at h
  · simp at h
  next value rest _ hread =>
    split at h
    · obtain rfl := Except.ok.inj h
      exact readsFinite_readValue _ _ _ _ hread
    · simp at h

theorem finite_of_ofFile {disk : Disk} {path : Text} {v : Json} (h : ofFile disk path = .ok v) :
    v.Finite := by
  rw [ofFile] at h
  split at h
  · simp at h
  · split at h
    · simp at h
    next hparse =>
      obtain rfl := Except.ok.inj h
      exact finite_of_parse hparse

/-! ## Fields -/

theorem Finite.field? {v value : Json} {key : Text} (h : v.Finite) (hfield : v.field? key = some value) :
    value.Finite := by
  cases h with
  | object members hmembers =>
    rw [Json.field?, Option.map_eq_some_iff] at hfield
    obtain ⟨m, hm, rfl⟩ := hfield
    exact hmembers m (List.mem_of_find?_eq_some hm)
  | null => simp [Json.field?] at hfield
  | bool => simp [Json.field?] at hfield
  | number => simp [Json.field?] at hfield
  | string => simp [Json.field?] at hfield
  | array => simp [Json.field?] at hfield

theorem Finite.asNumber? {v : Json} {x : Binary64} (h : v.Finite) (hx : v.asNumber? = some x) :
    x.isFinite = true := by
  cases h with
  | number value hvalue =>
    obtain rfl := Option.some.inj hx
    exact hvalue
  | null => simp [Json.asNumber?] at hx
  | bool => simp [Json.asNumber?] at hx
  | string => simp [Json.asNumber?] at hx
  | array => simp [Json.asNumber?] at hx
  | object => simp [Json.asNumber?] at hx

end TradeReentry.Json
