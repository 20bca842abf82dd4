import TradeReentry.Text.Integer

/-!
# Written numerals and what is read from them

`Text.ofNat` writes a number one digit after the other (`ofNat_of_ten_le`), and reading the digits
gives the number back (`digitsValue_ofNat`, `takeUInt64?_ofNat`). Writing gives back digits without a
leading zero (`ofNat_digitsValue`). The two hexadecimal digits of each byte tell texts apart
(`toHex_injective`).
-/

namespace TradeReentry

namespace Ascii

/-- The byte of a decimal digit. -/
def digitByte (n : Nat) : UInt8 := UInt8.ofNat (0x30 + n)

theorem toNat_digitByte {n : Nat} (h : n < 10) : (digitByte n).toNat = 0x30 + n := by
  rw [digitByte, UInt8.toNat_ofNat']
  omega

theorem isDigit_iff (c : UInt8) : isDigit c = true ↔ 0x30 ≤ c.toNat ∧ c.toNat ≤ 0x39 := by
  simp [isDigit, UInt8.le_iff_toNat_le]

theorem isDigit_digitByte {n : Nat} (h : n < 10) : isDigit (digitByte n) = true := by
  rw [isDigit_iff, toNat_digitByte h]
  omega

theorem exists_digitByte {c : UInt8} (h : isDigit c = true) : ∃ n < 10, digitByte n = c := by
  rw [isDigit_iff] at h
  refine ⟨c.toNat - 0x30, by omega, ?_⟩
  rw [← UInt8.toNat_inj, toNat_digitByte (by omega)]
  omega

theorem hexValue?_hexDigit : ∀ n < 16, hexValue? (hexDigit n) = some n := by decide

theorem hexDigit_injective {m n : Nat} (hm : m < 16) (hn : n < 16) (h : hexDigit m = hexDigit n) : m = n := by
  have hvalue := hexValue?_hexDigit m hm
  rw [h, hexValue?_hexDigit n hn] at hvalue
  exact (Option.some.inj hvalue).symm

end Ascii

namespace Text

open Ascii

theorem toUInt8_digitChar : ∀ n < 10, (Nat.digitChar n).toUInt8 = digitByte n := by decide

theorem ofNat_of_lt_ten {n : Nat} (h : n < 10) : ofNat n = [digitByte n] := by
  rw [ofNat, Nat.toDigits_of_lt_base h, List.map_singleton, toUInt8_digitChar n h]

/-- A number of more than one digit is written with its last digit at the end. -/
theorem ofNat_of_ten_le {n : Nat} (h : 10 ≤ n) :
    ofNat n = ofNat (n / 10) ++ [digitByte (n % 10)] := by
  rw [ofNat, Nat.toDigits_of_base_le (by decide) h, List.map_append, List.map_singleton,
    toUInt8_digitChar _ (Nat.mod_lt n (by decide)), ofNat]

theorem ofNat_ne_nil (n : Nat) : ofNat n ≠ [] := by
  simp [ofNat, Nat.toDigits_ne_nil]

theorem isDigit_of_mem_ofNat {n : Nat} {c : UInt8} (h : c ∈ ofNat n) : isDigit c = true := by
  induction n using Nat.strongRecOn with
  | _ n ih =>
    rcases Nat.lt_or_ge n 10 with hn | hn
    · rw [ofNat_of_lt_ten hn, List.mem_singleton] at h
      exact h ▸ isDigit_digitByte hn
    · rw [ofNat_of_ten_le hn, List.mem_append, List.mem_singleton] at h
      rcases h with h | rfl
      · exact ih (n / 10) (by omega) h
      · exact isDigit_digitByte (Nat.mod_lt n (by decide))

theorem all_isDigit_ofNat (n : Nat) : (ofNat n).all isDigit = true :=
  List.all_eq_true.2 fun _ h => isDigit_of_mem_ofNat h

theorem isNonemptyOf_ofNat (n : Nat) : isNonemptyOf isDigit (ofNat n) = true := by
  simp [isNonemptyOf, ofNat_ne_nil, all_isDigit_ofNat]

theorem length_ofNat_le_iff {n k : Nat} (hk : 0 < k) : (ofNat n).length ≤ k ↔ n < 10 ^ k := by
  rw [ofNat, List.length_map, Nat.length_toDigits_le_iff (by decide) hk]

/-- A positive number is written without a leading zero. -/
theorem head?_ofNat_ne_zero {n : Nat} (h : 0 < n) : (ofNat n).head? ≠ some zero := by
  induction n using Nat.strongRecOn with
  | _ n ih =>
    rcases Nat.lt_or_ge n 10 with hn | hn
    · rw [ofNat_of_lt_ten hn]
      intro heq
      have hzero := congrArg UInt8.toNat (Option.some.inj heq)
      rw [toNat_digitByte hn] at hzero
      change 0x30 + n = 0x30 at hzero
      omega
    · rw [ofNat_of_ten_le hn, List.head?_append, List.head?_eq_some_head (ofNat_ne_nil _),
        Option.some_or, ← List.head?_eq_some_head]
      exact ih (n / 10) (by omega) (by omega)

theorem digitsValue_concat (t : Text) {d : Nat} (h : d < 10) :
    digitsValue (t ++ [digitByte d]) = 10 * digitsValue t + d := by
  rw [digitsValue, valueOf_concat, toNat_digitByte h, Nat.add_sub_cancel_left, digitsValue]

theorem digitsValue_ofNat (n : Nat) : digitsValue (ofNat n) = n := by
  induction n using Nat.strongRecOn with
  | _ n ih =>
    rcases Nat.lt_or_ge n 10 with hn | hn
    · rw [ofNat_of_lt_ten hn, ← List.nil_append [_], digitsValue_concat _ hn]
      simp [digitsValue, valueOf_nil]
    · rw [ofNat_of_ten_le hn, digitsValue_concat _ (Nat.mod_lt n (by decide)),
        ih (n / 10) (by omega)]
      omega

/-- Digits without a leading zero are the numeral of their number. -/
theorem ofNat_digitsValue {t : Text} (hne : t ≠ []) (ht : ∀ c ∈ t, isDigit c = true)
    (hzero : t.length = 1 ∨ t.head? ≠ some zero) : ofNat (digitsValue t) = t := by
  induction hlength : t.length generalizing t with
  | zero => exact absurd (List.length_eq_zero_iff.1 hlength) hne
  | succ k ih =>
    obtain ⟨before, c, rfl⟩ := (List.eq_nil_or_concat t).resolve_left hne
    rw [List.concat_eq_append] at *
    obtain ⟨d, hd, rfl⟩ := exists_digitByte (ht c (by simp))
    rw [digitsValue_concat before hd]
    by_cases hbefore : before = []
    · subst hbefore
      have hvalue : 10 * digitsValue [] + d = d := by simp [digitsValue, valueOf_nil]
      rw [hvalue, ofNat_of_lt_ten hd, List.nil_append]
    · have hhead : before.head? ≠ some zero := by
        have hlong := List.length_pos_iff.2 hbefore
        rw [List.head?_append, List.head?_eq_some_head hbefore, Option.some_or,
          ← List.head?_eq_some_head hbefore] at hzero
        exact hzero.resolve_left (by simp; omega)
      have hsame : ofNat (digitsValue before) = before :=
        ih hbefore (fun c hc => ht c (by simp [hc])) (.inr hhead) (by simpa using hlength)
      -- the digits before the last one are not those of zero
      have hpos : 0 < digitsValue before := by
        refine Nat.pos_of_ne_zero fun hvalue => hhead ?_
        rw [← hsame, hvalue]
        rfl
      rw [ofNat_of_ten_le (by omega), Nat.mul_add_div (by decide), Nat.div_eq_of_lt hd, Nat.add_zero,
        hsame, Nat.mul_add_mod, Nat.mod_eq_of_lt hd]

/-! ## Reading integers -/

/-- A digit is neither a blank nor a sign. -/
theorem not_isSpace_of_isDigit {c : UInt8} (h : isDigit c = true) : isSpace c = false := by
  rw [isDigit_iff] at h
  simp only [isSpace, Bool.or_eq_false_iff, decide_eq_false_iff_not, Bool.and_eq_false_iff]
  simp only [← UInt8.toNat_inj, UInt8.le_iff_toNat_le]
  constructor
  · show c.toNat ≠ 32
    omega
  · right
    show ¬c.toNat ≤ 13
    omega

theorem ne_minus_of_isDigit {c : UInt8} (h : isDigit c = true) : c ≠ minus := by
  rintro rfl
  exact absurd h (by decide)

theorem ne_plus_of_isDigit {c : UInt8} (h : isDigit c = true) : c ≠ plus := by
  rintro rfl
  exact absurd h (by decide)

theorem span_digits {t rest : Text} (ht : ∀ c ∈ t, isDigit c = true)
    (hrest : ∀ c, rest.head? = some c → isDigit c = false) :
    (t ++ rest).takeWhile isDigit = t ∧ (t ++ rest).dropWhile isDigit = rest := by
  rw [List.takeWhile_append_of_pos ht, List.dropWhile_append_of_pos ht]
  cases rest with
  | nil => simp
  | cons d rest => simp [hrest d rfl]

/-- Digits with no further digit after them are read as they stand. -/
theorem takeInteger?_digits {t rest : Text} (hne : t ≠ []) (ht : ∀ c ∈ t, isDigit c = true)
    (hrest : ∀ c, rest.head? = some c → isDigit c = false) :
    takeInteger? (t ++ rest) = some (false, digitsValue t, rest) := by
  obtain ⟨c, t', rfl⟩ := List.exists_cons_of_ne_nil hne
  have hc := ht c List.mem_cons_self
  have htrim : trimLeft (c :: t' ++ rest) = c :: t' ++ rest := by
    simp [trimLeft, not_isSpace_of_isDigit hc]
  obtain ⟨htake, hdrop⟩ := span_digits ht hrest
  simp only [takeInteger?, htrim]
  simp only [List.cons_append, List.head?_cons, Option.some.injEq, ne_minus_of_isDigit hc,
    ne_plus_of_isDigit hc, decide_false, Bool.or_self, Bool.false_eq_true, if_false] at *
  rw [htake, hdrop]
  simp

/-- Digits are read whole if their number is below 2^64. -/
theorem takeUInt64?_digits {t : Text} (h : isNonemptyOf isDigit t = true) :
    takeUInt64? t =
      if digitsValue t < 2 ^ 64 then some (UInt64.ofNat (digitsValue t), []) else none := by
  simp only [isNonemptyOf, Bool.and_eq_true, Bool.not_eq_true', List.isEmpty_eq_false_iff,
    List.all_eq_true] at h
  have hend : ∀ c, ([] : Text).head? = some c → isDigit c = false := by simp
  have hread := takeInteger?_digits h.1 h.2 hend
  rw [List.append_nil] at hread
  simp [takeUInt64?, hread]

/-- Digits after a minus sign count down from 2^64. -/
theorem takeUInt64?_minus {t : Text} (h : isNonemptyOf isDigit t = true) :
    takeUInt64? (minus :: t) =
      if digitsValue t < 2 ^ 64 then some (-UInt64.ofNat (digitsValue t), []) else none := by
  simp only [isNonemptyOf, Bool.and_eq_true, Bool.not_eq_true', List.isEmpty_eq_false_iff,
    List.all_eq_true] at h
  have htrim : trimLeft (minus :: t) = minus :: t := by
    have hspace : isSpace minus = false := by decide
    simp [trimLeft, hspace]
  have hend : ∀ c, ([] : Text).head? = some c → isDigit c = false := by simp
  obtain ⟨htake, hdrop⟩ := span_digits h.2 hend
  rw [List.append_nil] at htake hdrop
  simp [takeUInt64?, takeInteger?, htrim, htake, hdrop, h.1]

/-- The number of a numeral comes back. -/
theorem takeUInt64?_ofNat (n : UInt64) : takeUInt64? (ofNat n.toNat) = some (n, []) := by
  rw [takeUInt64?_digits (isNonemptyOf_ofNat _), digitsValue_ofNat, if_pos n.toNat_lt]
  simp

/-! ## Hexadecimal digits -/

theorem toHex_injective {t u : Text} (h : t.toHex = u.toHex) : t = u := by
  induction t generalizing u with
  | nil =>
    cases u with
    | nil => rfl
    | cons d u => simp [toHex] at h
  | cons c t ih =>
    cases u with
    | nil => simp [toHex] at h
    | cons d u =>
      rw [toHex, toHex, List.flatMap_cons, List.flatMap_cons] at h
      obtain ⟨hbyte, hrest⟩ := List.append_inj h rfl
      simp only [List.cons.injEq, and_true] at hbyte
      have hc := c.toNat_lt
      have hd := d.toNat_lt
      have hhigh := hexDigit_injective (by omega) (by omega) hbyte.1
      have hlow := hexDigit_injective (by omega) (by omega) hbyte.2
      have hsame : c.toNat = d.toNat := by omega
      rw [UInt8.toNat_inj.1 hsame, ih hrest]

end Text

end TradeReentry
