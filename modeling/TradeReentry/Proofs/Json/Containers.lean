import TradeReentry.Proofs.Json.Leaves

/-!
# The steps of reading arrays and objects

Reading an item or a member either fails or goes on as the byte behind it says (`readItems_of_reads`,
`readMembers_of_reads`); a member whose key is among those before it fails (`readMembers_of_repeated`).
-/

namespace TradeReentry.Json

open Ascii

variable {item : Reader Json} {start t rest left : Text} {v : Json} {c : UInt8}

/-! ## Items and members -/

theorem readItems_of_refuses {read : List Json} (h : t.length ≤ start.length)
    (hitem : Refuses item t.trimLeft) : ∃ failure, readItems item start read t h = .error failure := by
  obtain ⟨failure, hfailure⟩ := hitem
  rw [readItems.eq_def]
  split
  · exact ⟨_, rfl⟩
  · next heq => simp [heq] at hfailure

/-- After an item the array goes on as the next byte says. -/
theorem readItems_of_reads (read : List Json) (h : t.length ≤ start.length)
    (hitem : Reads item t.trimLeft v rest) (hrest : rest.trimLeft = c :: left) :
    ∃ hleft : left.length < start.length, readItems item start read t h =
      if c = closeBracket then .ok ((v :: read).reverse, ⟨left, hleft⟩)
      else if c = comma then readItems item start (v :: read) left (Nat.le_of_lt hleft)
      else .error ⟨.arraySeparator, c :: left⟩ := by
  obtain ⟨hshorter, hitem⟩ := hitem
  have htrim := length_trimLeft_le t
  have hleft := length_lt_of_trimLeft hrest
  refine ⟨by omega, ?_⟩
  rw [readItems.eq_def]
  split
  · next heq => simp [heq] at hitem
  · next heq =>
    rw [hitem] at heq
    cases heq
    split
    · next hnil => simp [hnil] at hrest
    · next hcons =>
      rw [hrest] at hcons
      cases hcons
      rfl

theorem readMembers_of_repeated {read : List (Text × Json)} {key between : Text}
    (h : t.length ≤ start.length) (hquote : t.trimLeft.head? = some doubleQuote)
    (hkey : Reads readString t.trimLeft key between) (hrepeated : key ∈ read.map (·.1)) :
    ∃ failure, readMembers item start read t h = .error failure := by
  obtain ⟨_, hkey⟩ := hkey
  have hany : read.any (·.1 = key) = true := by simpa using hrepeated
  rw [readMembers.eq_def, if_neg (by simp [hquote])]
  simp only [hkey, hany, if_true]
  exact ⟨_, rfl⟩

theorem readMembers_of_refuses {read : List (Text × Json)} {key between afterColon : Text}
    (h : t.length ≤ start.length) (hquote : t.trimLeft.head? = some doubleQuote)
    (hkey : Reads readString t.trimLeft key between) (hcolon : between.trimLeft = colon :: afterColon)
    (hitem : Refuses item afterColon.trimLeft) :
    ∃ failure, readMembers item start read t h = .error failure := by
  obtain ⟨_, hkey⟩ := hkey
  obtain ⟨failure, hfailure⟩ := hitem
  rw [readMembers.eq_def, if_neg (by simp [hquote])]
  simp only [hkey]
  split
  · exact ⟨_, rfl⟩
  split
  · next hnil => simp [hnil] at hcolon
  next hcons =>
  rw [hcolon] at hcons
  cases hcons
  simp only [hfailure, ne_eq, not_true, if_false]
  exact ⟨_, rfl⟩

/-- After a member with a new key the object goes on as the next byte says. -/
theorem readMembers_of_reads {read : List (Text × Json)} {key between afterColon : Text}
    (h : t.length ≤ start.length) (hquote : t.trimLeft.head? = some doubleQuote)
    (hkey : Reads readString t.trimLeft key between) (hnew : key ∉ read.map (·.1))
    (hcolon : between.trimLeft = colon :: afterColon)
    (hitem : Reads item afterColon.trimLeft v rest) (hrest : rest.trimLeft = c :: left) :
    ∃ hleft : left.length < start.length, readMembers item start read t h =
      if c = closeBrace then .ok (((key, v) :: read).reverse, ⟨left, hleft⟩)
      else if c = comma then readMembers item start ((key, v) :: read) left (Nat.le_of_lt hleft)
      else .error ⟨.objectSeparator, c :: left⟩ := by
  obtain ⟨hkeyed, hkey⟩ := hkey
  obtain ⟨hshorter, hitem⟩ := hitem
  have htrim := length_trimLeft_le t
  have htrim' := length_trimLeft_le afterColon
  have hafter := length_lt_of_trimLeft hcolon
  have hleft := length_lt_of_trimLeft hrest
  have hany : read.any (·.1 = key) = false := by
    simp only [List.any_eq_false, decide_eq_true_eq]
    rintro m hm rfl
    exact hnew (List.mem_map_of_mem hm)
  refine ⟨by omega, ?_⟩
  rw [readMembers.eq_def, if_neg (by simp [hquote])]
  simp only [hkey, hany, Bool.false_eq_true, if_false]
  split
  · next hnil => simp [hnil] at hcolon
  next hcons =>
  rw [hcolon] at hcons
  cases hcons
  simp only [hitem, ne_eq, not_true, if_false]
  split
  · next hnil => simp [hnil] at hrest
  next hcons =>
  rw [hrest] at hcons
  cases hcons
  rfl

/-! ## Brackets and braces -/

section Brackets

variable (h : rest.length < start.length)

theorem readArray_of_close (hrest : rest.trimLeft = closeBracket :: left) :
    ∃ hleft, readArray item start rest h = .ok ([], ⟨left, hleft⟩) := by
  have hshorter := length_lt_of_trimLeft hrest
  refine ⟨by omega, ?_⟩
  rw [readArray]
  split
  · next hcons =>
    rw [hrest] at hcons
    cases hcons
    rfl
  · next hnil => simp [hnil] at hrest

theorem readArray_of_ne_close (hrest : rest.trimLeft = c :: left) (hc : c ≠ closeBracket) :
    readArray item start rest h = readItems item start [] rest (Nat.le_of_lt h) := by
  rw [readArray]
  split
  · next hcons =>
    rw [hrest] at hcons
    cases hcons
    exact if_neg hc
  · rfl

theorem readObject_of_close (hrest : rest.trimLeft = closeBrace :: left) :
    ∃ hleft, readObject item start rest h = .ok ([], ⟨left, hleft⟩) := by
  have hshorter := length_lt_of_trimLeft hrest
  refine ⟨by omega, ?_⟩
  rw [readObject]
  split
  · next hcons =>
    rw [hrest] at hcons
    cases hcons
    rfl
  · next hnil => simp [hnil] at hrest

theorem readObject_of_ne_close (hrest : rest.trimLeft = c :: left) (hc : c ≠ closeBrace) :
    readObject item start rest h = readMembers item start [] rest (Nat.le_of_lt h) := by
  rw [readObject]
  split
  · next hcons =>
    rw [hrest] at hcons
    cases hcons
    exact if_neg hc
  · rfl

end Brackets

end TradeReentry.Json
