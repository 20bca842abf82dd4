import Mathlib.Data.List.TakeWhile
import TradeReentry.Ledger.Cell
import TradeReentry.Proofs.Binary64.Encoding

/-!
# Which cells can hold a bar

The text that a checksum covers has bars between the cells. No numeral, point in time or checksum holds one, so
that of the cells that fit their columns only those of text columns can (`bar_not_mem_of_check`).
-/

namespace TradeReentry

open Ascii Text

/-! ## Numerals -/

namespace Numeral

variable {t rest : Text} {digit : UInt8 → Bool}

/-- A reader that skips a class of bytes does not skip a byte outside it. -/
theorem bar_mem_dropWhile (hbar : digit bar = false) (h : bar ∈ t) : bar ∈ t.dropWhile digit := by
  rw [← List.takeWhile_append_dropWhile (p := digit) (l := t), List.mem_append] at h
  rcases h with h | h
  · exact absurd (List.mem_takeWhile_imp h) (by simp [hbar])
  · exact h

theorem bar_mem_takeSign (h : bar ∈ t) : bar ∈ (takeSign t).2 := by
  unfold takeSign
  split
  · next c rest =>
    split
    · next hc => exact (List.mem_cons.1 h).resolve_left (by rw [hc]; decide)
    · split
      · next hc => exact (List.mem_cons.1 h).resolve_left (by rw [hc]; decide)
      · exact h
  · exact h

theorem bar_mem_of_takeMantissa? (hbar : digit bar = false) {whole places : Text}
    (h : takeMantissa? digit t = some (whole, places, rest)) (hmem : bar ∈ t) : bar ∈ rest := by
  have hdrop := bar_mem_dropWhile hbar hmem
  simp only [takeMantissa?] at h
  split at h
  · next c tail htail =>
    rw [htail] at hdrop
    split at h
    · next hc =>
      have hplaces : bar ∈ tail := (List.mem_cons.1 hdrop).resolve_left (by rw [hc]; decide)
      split at h
      · simp at h
      · cases h
        exact bar_mem_dropWhile hbar hplaces
    · split at h
      · simp at h
      · cases h
        exact hdrop
  · next hnil =>
    rw [hnil] at hdrop
    simp at hdrop

theorem bar_mem_takeExponent {letter : UInt8} (hletter : Ascii.toLower bar ≠ letter) (h : bar ∈ t) :
    bar ∈ (takeExponent letter t).2 := by
  unfold takeExponent
  split
  · next c tail =>
    split
    · next hc =>
      have htail : bar ∈ tail := by
        refine (List.mem_cons.1 h).resolve_left ?_
        rintro rfl
        exact hletter hc
      simp only
      split
      · exact h
      · exact bar_mem_dropWhile (by decide) (bar_mem_takeSign htail)
    · exact h
  · exact h

theorem bar_mem_of_takeDecimal? {m : Magnitude} (h : takeDecimal? t = some (m, rest)) (hmem : bar ∈ t) :
    bar ∈ rest := by
  obtain ⟨⟨whole, places, tail⟩, hmantissa, heq⟩ := Option.map_eq_some_iff.1 h
  cases heq
  exact bar_mem_takeExponent (by decide) (bar_mem_of_takeMantissa? (by decide) hmantissa hmem)

theorem bar_mem_of_takeHexadecimal? {m : Magnitude} (h : takeHexadecimal? t = some (m, rest))
    (hmem : bar ∈ t) : bar ∈ rest := by
  obtain ⟨⟨whole, places, tail⟩, hmantissa, heq⟩ := Option.map_eq_some_iff.1 h
  cases heq
  exact bar_mem_takeExponent (by decide) (bar_mem_of_takeMantissa? (by decide) hmantissa hmem)

theorem bar_mem_of_dropWord? {word : Text} (hword : bar ∉ word) (h : dropWord? word t = some rest)
    (hmem : bar ∈ t) : bar ∈ rest := by
  rw [dropWord?] at h
  split at h
  · next heq =>
    cases h
    rw [← List.take_append_drop word.length t, List.mem_append] at hmem
    refine hmem.resolve_left fun htake => hword ?_
    rw [← heq, Text.toLower, List.mem_map]
    exact ⟨bar, htake, by decide⟩
  · simp at h

theorem bar_mem_of_takeUnsigned? {negative sign : Bool} {m : Magnitude}
    (h : takeUnsigned? negative t = some (.finite sign m, rest)) (hmem : bar ∈ t) : bar ∈ rest := by
  rw [takeUnsigned?] at h
  split at h
  · simp at h
  · simp at h
  · simp at h
  split at h
  · next hhexadecimal =>
    obtain ⟨digits, hword, hdigits⟩ := Option.bind_eq_some_iff.1 hhexadecimal
    cases h
    exact bar_mem_of_takeHexadecimal? hdigits (bar_mem_of_dropWord? (by decide) hword hmem)
  · obtain ⟨⟨_, _⟩, hdecimal, heq⟩ := Option.map_eq_some_iff.1 h
    cases heq
    exact bar_mem_of_takeDecimal? hdecimal hmem

theorem bar_not_mem_of_read? {sign : Bool} {m : Magnitude} (h : read? t = some (.finite sign m, [])) :
    bar ∉ t := by
  intro hmem
  have hbody : bar ∈ (takeSign t.trimLeft).2 := bar_mem_takeSign (bar_mem_dropWhile (by decide) hmem)
  exact absurd (bar_mem_of_takeUnsigned? h hbody) (by simp)

end Numeral

theorem Cell.bar_not_mem_of_isDecimal {t : Text} (h : isDecimal t = true) : bar ∉ t := by
  rw [isDecimal, Binary64.ofText?] at h
  split at h
  · next numeral hread =>
    cases numeral with
    | finite sign m => exact Numeral.bar_not_mem_of_read? hread
    | infinite sign => simp [Numeral.value?, Option.filter, Binary64.isFinite_infinity] at h
    | nan sign => cases sign <;> exact absurd h (by decide +kernel)
  · simp at h

/-! ## Points in time -/

namespace Time.Timestamp

variable {t : Text}

theorem bar_not_mem_of_all_isDigit (h : t.all isDigit = true) : bar ∉ t := by
  intro hmem
  exact absurd (List.all_eq_true.1 h bar hmem) (by decide)

theorem bar_not_mem_of_isZone (h : isZone t = true) : bar ∉ t := by
  have hbar : isDigit bar = false := by decide
  unfold isZone at h
  split at h
  · simp
  · next c =>
    intro hmem
    rw [← List.mem_singleton.1 hmem] at h
    exact absurd h (by decide)
  · next sign h1 h2 c m1 m2 =>
    simp only [Bool.and_eq_true, Bool.or_eq_true, decide_eq_true_eq] at h
    obtain ⟨⟨⟨⟨⟨hsign, hh1⟩, hh2⟩, hc⟩, hm1⟩, hm2⟩ := h
    simp only [List.mem_cons, List.not_mem_nil, or_false]
    grind
  · simp at h

theorem bar_not_mem_of_isFractionAndZone (h : isFractionAndZone t = true) : bar ∉ t := by
  unfold isFractionAndZone at h
  split at h
  · next c rest =>
    split at h
    · next hc =>
      rw [Bool.and_eq_true] at h
      have hrest : bar ∉ rest := fun hmem =>
        bar_not_mem_of_isZone h.2 (Numeral.bar_mem_dropWhile (by decide) hmem)
      rw [List.mem_cons, not_or]
      exact ⟨by rw [hc]; decide, hrest⟩
    · exact bar_not_mem_of_isZone h
  · simp

theorem bar_not_mem_of_isTimestamp (h : isTimestamp t = true) : bar ∉ t := by
  unfold isTimestamp at h
  split at h
  · next y1 y2 y3 y4 c1 m1 m2 c2 d1 d2 c3 h1 h2 c4 n1 n2 c5 s1 s2 rest =>
    simp only [Bool.and_eq_true, Bool.or_eq_true, decide_eq_true_eq] at h
    obtain ⟨⟨⟨⟨⟨⟨⟨hdigits, hc1⟩, hc2⟩, hc3⟩, hc4⟩, hc5⟩, -⟩, hrest⟩ := h
    have hdigit := bar_not_mem_of_all_isDigit hdigits
    have hend := bar_not_mem_of_isFractionAndZone hrest
    simp only [List.mem_cons, List.not_mem_nil, or_false, not_or] at hdigit ⊢
    grind
  · simp at h

end Time.Timestamp

/-! ## Cells -/

namespace Cell

variable {t : Text}

theorem bar_not_mem_of_isChecksum (h : isChecksum t = true) : bar ∉ t := by
  rw [isChecksum, Bool.and_eq_true, List.all_eq_true] at h
  intro hmem
  exact absurd (h.2 bar hmem) (by decide)

theorem bar_not_mem_of_isInteger (h : isInteger t = true) : bar ∉ t := by
  rw [isInteger, isNonemptyOf, Bool.and_eq_true] at h
  have hdigits := Time.Timestamp.bar_not_mem_of_all_isDigit h.2
  split at hdigits
  · next hminus =>
    obtain ⟨rest, rfl⟩ := List.head?_eq_some_iff.1 hminus
    rw [List.mem_cons, not_or]
    exact ⟨by decide, hdigits⟩
  · exact hdigits

/-- Only a cell of a text column can hold a bar. -/
theorem bar_not_mem_of_check {column : Column} (hkind : column.kind ≠ .text)
    (h : check column t = .ok ()) : bar ∉ t := by
  rw [check] at h
  split at h
  · next hempty => simp [List.isEmpty_iff.1 hempty]
  split at h
  · contradiction
  · split at h
    · next hchecksum => exact bar_not_mem_of_isChecksum hchecksum
    · simp at h
  · split at h
    · next htimestamp => exact Time.Timestamp.bar_not_mem_of_isTimestamp htimestamp
    · simp at h
  · split at h
    · next hinteger => exact bar_not_mem_of_isInteger hinteger
    · simp at h
  · split at h
    · next hdecimal => exact bar_not_mem_of_isDecimal hdecimal
    · simp at h

end Cell

end TradeReentry
