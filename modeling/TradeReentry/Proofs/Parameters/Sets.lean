import TradeReentry.Parameters.Reader
import TradeReentry.Proofs.Binary64.Arithmetic
import TradeReentry.Proofs.Json.Numbers

/-!
# Parameter sets of a file

A set that was loaded from a file has a name, and its multiplier, stop loss and take profit are finite and
above zero (`sound_of_ofFile`).
-/

namespace TradeReentry.ParameterSet

open Binary64

/-- Whether a number is finite and above zero. -/
def IsAmount (x : Binary64) : Prop := zero < x ∧ x.isFinite = true

/-- What a decision relies on in the set that it takes its parameters from. -/
structure Sound (set : ParameterSet) : Prop where
  id_ne_nil : set.id ≠ []
  multiplier : IsAmount set.lotSizeMultiplier
  stopLoss : IsAmount set.stopLossPips
  takeProfit : IsAmount set.takeProfitPips

/-- What holds of the amounts of a set that was read, whether or not it keeps the rules. -/
structure FiniteAmounts (set : ParameterSet) : Prop where
  multiplier : set.lotSizeMultiplier.isFinite = true
  stopLoss : set.stopLossPips.isFinite = true
  takeProfit : set.takeProfitPips.isFinite = true

/-! ## Reading -/

theorem isFinite_of_readNumber {node : Json} {key : Text} {default x : Binary64} (hnode : node.Finite)
    (hdefault : default.isFinite = true) (h : readNumber node key default = .ok x) :
    x.isFinite = true := by
  rw [readNumber, readField] at h
  split at h
  · exact Except.ok.inj h ▸ hdefault
  next hfield =>
    split at h
    next hx =>
      obtain rfl := Except.ok.inj h
      exact (hnode.field? hfield).asNumber? hx
    · simp at h

/-- The amounts of a set that was read are finite. -/
theorem finiteAmounts_of_ofJson {node : Json} {set : ParameterSet} (hnode : node.Finite)
    (h : ofJson node = .ok set) : set.FiniteAmounts := by
  unfold ofJson at h
  dsimp only at h
  split at h
  · exact absurd h (by simp [bind, Except.bind])
  split at h
  · simp only [bind_eq_ok_iff] at h
    obtain ⟨_, -, _, -, _, -, _, -, _, -, _, -, _, -, multiplier, hmultiplier, stopLoss, hstopLoss,
      takeProfit, htakeProfit, _, -, _, -, _, -, _, -, _, -, _, -, h⟩ := h
    obtain rfl := Except.ok.inj h
    exact ⟨isFinite_of_readNumber hnode (by decide +kernel) hmultiplier,
      isFinite_of_readNumber hnode (by decide +kernel) hstopLoss,
      isFinite_of_readNumber hnode (by decide +kernel) htakeProfit⟩
  · simp at h

theorem finiteAmounts_of_ofItems {index : Nat} {items : List Json} {sets : List ParameterSet}
    (hitems : ∀ v ∈ items, v.Finite) (h : ofItems index items = .ok sets) :
    ∀ set ∈ sets, set.FiniteAmounts := by
  induction items generalizing index sets with
  | nil =>
    obtain rfl := Except.ok.inj h
    simp
  | cons node rest ih =>
    obtain ⟨hnode, hrest⟩ := List.forall_mem_cons.1 hitems
    cases hnode with
    | object members hmembers =>
      rw [ofItems] at h
      split at h
      · simp at h
      next hset =>
        obtain ⟨others, hothers, rfl⟩ := map_eq_ok_iff.1 h
        exact List.forall_mem_cons.2 ⟨finiteAmounts_of_ofJson (.object _ hmembers) hset, ih hrest hothers⟩
    | _ => simp [ofItems] at h

theorem finiteAmounts_of_listOfJson {path : Text} {root : Json} {sets : List ParameterSet}
    (hroot : root.Finite) (h : listOfJson path root = .ok sets) :
    ∀ set ∈ sets, set.FiniteAmounts := by
  rw [listOfJson] at h
  split at h
  · simp at h
  · split at h
    next items hfield =>
      have hitems := hroot.field? hfield
      cases hitems with
      | array _ hitems => exact finiteAmounts_of_ofItems hitems h
    · simp at h

/-! ## Rules -/

/-- The rules for the name and the amounts of a set. -/
theorem amounts_of_check {v : Vocabulary} {tiers : List Text} {set : ParameterSet}
    (h : set.check v tiers = .ok ()) :
    set.id ≠ [] ∧ ¬(set.lotSizeMultiplier ≤ zero ∨ set.stopLossPips ≤ zero ∨
      set.takeProfitPips ≤ zero) := by
  simp only [check, bind_eq_ok_iff] at h
  obtain ⟨_, hid, _, -, _, -, _, -, _, -, _, -, _, -, _, -, _, hamounts, -⟩ := h
  exact ⟨ite_error_eq_ok_iff.1 hid, ite_error_eq_ok_iff.1 hamounts⟩

theorem tier_mem_of_check {v : Vocabulary} {tiers : List Text} {set : ParameterSet}
    (h : set.check v tiers = .ok ()) : set.tier ∈ tiers := by
  simp only [check, bind_eq_ok_iff] at h
  obtain ⟨_, -, _, htier, -⟩ := h
  exact Decidable.not_not.1 (ite_error_eq_ok_iff.1 htier)

theorem isValidGeneration_of_check {v : Vocabulary} {tiers : List Text} {set : ParameterSet}
    (h : set.check v tiers = .ok ()) : v.isValidGeneration set.maxGeneration = true := by
  simp only [check, bind_eq_ok_iff] at h
  obtain ⟨_, -, _, -, _, -, _, -, _, -, _, -, _, -, _, hgeneration, -⟩ := h
  exact Bool.of_not_eq_false (ite_error_eq_ok_iff.1 hgeneration)

theorem checkFrom_eq_ok_iff {v : Vocabulary} {tiers seen : List Text} {sets : List ParameterSet} :
    checkFrom v tiers seen sets = .ok () ↔
      (∀ set ∈ sets, set.check v tiers = .ok ()) ∧ (sets.map (·.id)).Nodup ∧
        ∀ set ∈ sets, set.id ∉ seen := by
  induction sets generalizing seen with
  | nil => simp [checkFrom]
  | cons set rest ih =>
    rw [checkFrom, List.forall_mem_cons, List.forall_mem_cons, List.map_cons, List.nodup_cons]
    split
    · next hset => simp [hset]
    next hset =>
    split
    · next hseen =>
      rw [List.contains_iff_mem] at hseen
      simp [hseen]
    next hseen =>
    rw [List.contains_iff_mem] at hseen
    rw [ih]
    simp only [List.mem_cons, not_or, List.mem_map, not_exists, not_and, forall_and]
    constructor
    · rintro ⟨hcheck, hnodup, hid, hrest⟩
      exact ⟨⟨hset, hcheck⟩, ⟨hid, hnodup⟩, hseen, hrest⟩
    · rintro ⟨⟨-, hcheck⟩, ⟨hid, hnodup⟩, -, hrest⟩
      exact ⟨hcheck, hnodup, hid, hrest⟩

/-- A list of sets is accepted if each set is and no name is repeated. -/
theorem checkAll_eq_ok_iff {v : Vocabulary} {tiers : List Text} {sets : List ParameterSet} :
    checkAll v tiers sets = .ok () ↔
      (∀ set ∈ sets, set.check v tiers = .ok ()) ∧ (sets.map (·.id)).Nodup := by
  rw [checkAll, checkFrom_eq_ok_iff]
  simp

theorem isAmount_of_not_le {x : Binary64} (hfinite : x.isFinite = true) (h : ¬x ≤ zero) : IsAmount x :=
  ⟨zero_lt_of_not_le (not_isNaN_of_isFinite hfinite) h, hfinite⟩

/-- The sets of a file are sound. -/
theorem sound_of_ofFile {disk : Disk} {path : Text} {v : Vocabulary} {tiers : List Text}
    {sets : List ParameterSet} (h : ofFile disk path v tiers = .ok sets) : ∀ set ∈ sets, set.Sound := by
  unfold ofFile at h
  split at h
  · simp at h
  next root hroot =>
    obtain ⟨read, hread, h⟩ := bind_eq_ok_iff.1 h
    split at h
    · simp at h
    next hcheck =>
      obtain rfl := Except.ok.inj h
      intro set hset
      have hfinite := finiteAmounts_of_listOfJson (Json.finite_of_ofFile hroot) hread set hset
      obtain ⟨hid, hamounts⟩ := amounts_of_check ((checkAll_eq_ok_iff.1 hcheck).1 set hset)
      simp only [not_or] at hamounts
      exact ⟨hid, isAmount_of_not_le hfinite.multiplier hamounts.1,
        isAmount_of_not_le hfinite.stopLoss hamounts.2.1,
        isAmount_of_not_le hfinite.takeProfit hamounts.2.2⟩

end TradeReentry.ParameterSet
