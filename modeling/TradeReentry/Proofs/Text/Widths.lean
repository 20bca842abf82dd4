import TradeReentry.Proofs.Decimal.Fixed

/-!
# Numbers of one width in byte order

Numbers that are written with the same count of digits stand in the byte order of their digits
(`lowDigits_lt_iff`), and so do rows of such numbers (`threeFields_lt_iff`).
-/

namespace TradeReentry.Text

open Ascii

/-! ## Rows of digits -/

theorem digitByte_lt_iff {m n : Nat} (hm : m < 10) (hn : n < 10) :
    digitByte m < digitByte n ↔ m < n := by
  rw [UInt8.lt_iff_toNat_lt, toNat_digitByte hm, toNat_digitByte hn]
  omega

/-- The last digits begin with the one at the highest place. -/
theorem lowDigits_succ (width n : Nat) :
    lowDigits (width + 1) n = digitByte (n / 10 ^ width % 10) :: lowDigits width n := by
  induction width generalizing n with
  | zero => simp [lowDigits]
  | succ width ih =>
    rw [lowDigits, ih, Nat.div_div_eq_div_mul, ← Nat.pow_succ', List.cons_append]
    rfl

/-- A numeral of few enough digits is brought to a width by zeros. -/
theorem padZeros_ofNat_of_lt {width n : Nat} (h : n < 10 ^ (width + 1)) :
    padZeros (width + 1) (ofNat n) = lowDigits (width + 1) n := by
  have hten : n / 10 ^ width < 10 := Nat.div_lt_of_lt_mul (by rwa [← Nat.pow_succ])
  rw [padZeros_ofNat, ofNat_of_lt_ten hten, lowDigits_succ, Nat.mod_eq_of_lt hten, List.singleton_append]

/-- A numeral of as many digits as the width is its last digits. -/
theorem ofNat_eq_lowDigits {width n : Nat} (hwidth : 0 < width) (hlow : 10 ^ width ≤ n)
    (hhigh : n < 10 ^ (width + 1)) : ofNat n = lowDigits (width + 1) n := by
  have hlength : width < (ofNat n).length := by
    rw [← Nat.not_le, length_ofNat_le_iff hwidth]
    exact Nat.not_lt.2 hlow
  rw [← padZeros_ofNat_of_lt hhigh, padZeros, Nat.sub_eq_zero_of_le hlength]
  rfl

theorem lowDigits_inj {width m n : Nat} (hm : m < 10 ^ width) (hn : n < 10 ^ width) :
    lowDigits width m = lowDigits width n ↔ m = n := by
  constructor
  · intro h
    have hm' := digitsValue_lowDigits width m
    have hn' := digitsValue_lowDigits width n
    rw [Nat.div_eq_of_lt hm] at hm'
    rw [Nat.div_eq_of_lt hn, ← h] at hn'
    exact hm'.symm.trans hn'
  · rintro rfl
    rfl

/-! ## The byte order -/

/-- Texts that begin with as many bytes are compared by these first. -/
theorem append_lt_append_iff {s s' : Text} (hlength : s.length = s'.length) (t t' : Text) :
    s ++ t < s' ++ t' ↔ s < s' ∨ s = s' ∧ t < t' := by
  induction s generalizing s' with
  | nil =>
    obtain rfl := List.length_eq_zero_iff.1 hlength.symm
    simp
  | cons c s ih =>
    cases s' with
    | nil => simp at hlength
    | cons c' s' =>
      rw [List.cons_append, List.cons_append, List.cons_lt_cons_iff, List.cons_lt_cons_iff,
        ih (Nat.succ.inj hlength), List.cons.injEq, and_or_left, or_assoc, and_assoc]

/-- Numbers of one width stand in the byte order of their digits. -/
theorem lowDigits_lt_iff {width m n : Nat} (hm : m < 10 ^ width) (hn : n < 10 ^ width) :
    lowDigits width m < lowDigits width n ↔ m < n := by
  induction width generalizing m n with
  | zero =>
    rw [Nat.pow_zero] at hm hn
    rw [lowDigits, lowDigits, iff_false_left (List.lt_irrefl [])]
    omega
  | succ width ih =>
    rw [Nat.pow_succ] at hm hn
    have hm' : m / 10 < 10 ^ width := by omega
    have hn' : n / 10 < 10 ^ width := by omega
    have hlast : ∀ k, k % 10 < 10 := fun k => Nat.mod_lt k (by decide)
    rw [lowDigits, lowDigits, append_lt_append_iff (by simp), ih hm' hn', lowDigits_inj hm' hn',
      List.cons_lt_cons_iff, digitByte_lt_iff (hlast m) (hlast n)]
    simp only [List.lt_irrefl, and_false, or_false]
    omega

/-! ## Rows of three numbers -/

/-- Three numbers of fixed widths with a separator between neighbours. -/
def threeFields (u v w : Nat) (separator : Text) (x y z : Nat) : Text :=
  lowDigits u x ++ separator ++ lowDigits v y ++ separator ++ lowDigits w z

@[simp] theorem length_threeFields (u v w : Nat) (separator : Text) (x y z : Nat) :
    (threeFields u v w separator x y z).length = u + v + w + 2 * separator.length := by
  simp only [threeFields, List.length_append, length_lowDigits]
  omega

/-- Such rows stand in byte order as their numbers do, the first number deciding before the others. -/
theorem threeFields_lt_iff {u v w x y z x' y' z' : Nat} (hx : x < 10 ^ u ∧ x' < 10 ^ u)
    (hy : y < 10 ^ v ∧ y' < 10 ^ v) (hz : z < 10 ^ w ∧ z' < 10 ^ w) (separator : Text) :
    threeFields u v w separator x y z < threeFields u v w separator x' y' z' ↔
      x < x' ∨ x = x' ∧ (y < y' ∨ y = y' ∧ z < z') := by
  simp only [threeFields, List.append_assoc]
  rw [append_lt_append_iff (by simp), append_lt_append_iff rfl, append_lt_append_iff (by simp),
    append_lt_append_iff rfl, lowDigits_lt_iff hx.1 hx.2, lowDigits_lt_iff hy.1 hy.2,
    lowDigits_lt_iff hz.1 hz.2, lowDigits_inj hx.1 hx.2, lowDigits_inj hy.1 hy.2]
  simp only [List.lt_irrefl, true_and, false_or]

end TradeReentry.Text
