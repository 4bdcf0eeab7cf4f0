/-
  How the classes of characters lie in each other.

  A plain word character is a word character and a part of names, what starts a name is a part of
  names (`isNamePart_of_isNameStart`), and marks and blanks are no word characters.  For characters
  outside ASCII the classes are tables; `within` walks two tables side by side, so that inclusion
  is decided without looking at single characters.
-/
import InitialValue.Proofs.Text.Runs
import InitialValue.Text.Identifier
import Mathlib.Tactic.Cases

namespace InitialValue.Text

/-! ## Inclusion of tables -/

/-- Does every interval of the first table lie in one of the second?  Both are in order, so what
    ends before an interval can be skipped for good. -/
def Span.within : Span → Span → Bool
  | [], _ => true
  | r :: rs, big =>
    match big.dropWhile fun q => q.2 < r.1 with
    | q :: qs => q.1 ≤ r.1 && r.2 ≤ q.2 && within rs (q :: qs)
    | [] => false

theorem Span.holds_iff {s : Span} {c : Char} :
    s.holds c = true ↔ ∃ r ∈ s, r.1 ≤ c.toNat ∧ c.toNat ≤ r.2 := by
  simp [Span.holds]

theorem Span.holds_of_within {small big : Span} (h : small.within big = true) {c : Char}
    (hc : small.holds c = true) : big.holds c = true := by
  induction small generalizing big with
  | nil => cases hc
  | cons r rs ih =>
    unfold within at h
    split at h
    · rename_i q qs hdrop
      have hsub : (q :: qs).Sublist big := hdrop ▸ List.dropWhile_sublist _
      simp only [Bool.and_eq_true, decide_eq_true_eq] at h
      obtain ⟨⟨hlow, hhigh⟩, hrest⟩ := h
      have hholds : Span.holds (q :: qs) c = true := by
        obtain ⟨r', hr', h1, h2⟩ := Span.holds_iff.mp hc
        rcases List.mem_cons.mp hr' with rfl | hr'
        · exact Span.holds_iff.mpr ⟨q, List.mem_cons_self, by omega, by omega⟩
        · exact ih hrest (Span.holds_iff.mpr ⟨r', hr', h1, h2⟩)
      obtain ⟨r', hr', h1, h2⟩ := Span.holds_iff.mp hholds
      exact Span.holds_iff.mpr ⟨r', hsub.subset hr', h1, h2⟩
    · cases h

/-! ## Words and names -/

theorem isPlainWord_of_isPlainStart {c : Char} (h : isPlainStart c = true) :
    isPlainWord c = true := by
  unfold isPlainStart at h
  unfold isPlainWord Char.isAlphanum
  rw [Bool.or_eq_true] at h
  rcases h with h | h <;> simp [h]

/-- Plain word characters are ASCII. -/
theorem toNat_of_isPlainWord {c : Char} (h : isPlainWord c = true) : c.toNat < 128 := by
  unfold isPlainWord Char.isAlphanum Char.isAlpha Char.isUpper Char.isLower Char.isDigit at h
  simp only [Bool.or_eq_true, Bool.and_eq_true, decide_eq_true_eq, beq_iff_eq, ge_iff_le,
    UInt32.le_iff_toNat_le] at h
  have hval : c.toNat = c.val.toNat := rfl
  have hZ : 'Z'.val.toNat = 90 := rfl
  have hz : 'z'.val.toNat = 122 := rfl
  have h9 : '9'.val.toNat = 57 := rfl
  rcases h with ((h | h) | h) | h
  · omega
  · omega
  · omega
  · rw [h]; decide

theorem isWord_of_isPlainWord {c : Char} (h : isPlainWord c = true) : isWord c = true := by
  rw [isWord, if_pos (toNat_of_isPlainWord h), h]

theorem isNamePart_of_isPlainWord {c : Char} (h : isPlainWord c = true) :
    isNamePart c = true := by
  rw [isNamePart, if_pos (toNat_of_isPlainWord h), h]

/-- Among ASCII characters, the parts of names are the plain ones. -/
theorem isNamePart_of_ascii {c : Char} (h : c.toNat < 128) : isNamePart c = isPlainWord c := by
  rw [isNamePart, if_pos h]

theorem isNameStart_of_ascii {c : Char} (h : c.toNat < 128) : isNameStart c = isPlainStart c := by
  rw [isNameStart, if_pos h]

/-- **What starts a name is a part of names.** -/
theorem isNamePart_of_isNameStart {c : Char} (h : isNameStart c = true) : isNamePart c = true := by
  unfold isNameStart at h
  unfold isNamePart
  split at h
  · rename_i hascii
    rw [if_pos hascii]
    exact isPlainWord_of_isPlainStart h
  · rename_i hascii
    rw [if_neg hascii]
    exact Span.holds_of_within (by decide +kernel) h

/-! ## Digits and blanks -/

theorem isPlainWord_of_isDigit {c : Char} (h : c.isDigit = true) : isPlainWord c = true := by
  simp [isPlainWord, Char.isAlphanum, h]

/-- An ASCII digit is a decimal digit. -/
theorem isDigit_of_ascii {c : Char} (h : c.isDigit = true) : isDigit c = true := by
  rw [isDigit, if_pos (toNat_of_isPlainWord (isPlainWord_of_isDigit h)), h]

theorem isDigit_of_isPlainStart {c : Char} (h : isPlainStart c = true) : isDigit c = false := by
  rw [isDigit, if_pos (toNat_of_isPlainWord (isPlainWord_of_isPlainStart h)), Bool.eq_false_iff]
  intro hd
  unfold isPlainStart Char.isAlpha Char.isUpper Char.isLower at h
  unfold Char.isDigit at hd
  simp only [Bool.or_eq_true, Bool.and_eq_true, decide_eq_true_eq, beq_iff_eq, ge_iff_le,
    UInt32.le_iff_toNat_le] at h hd
  have hA : 'A'.val.toNat = 65 := rfl
  have ha : 'a'.val.toNat = 97 := rfl
  have h9 : '9'.val.toNat = 57 := rfl
  rcases h with (h | h) | rfl
  · omega
  · omega
  · exact absurd hd (by decide)

theorem isPlainStart_of_isDigit {c : Char} (h : c.isDigit = true) : isPlainStart c = false := by
  rw [Bool.eq_false_iff]
  intro hstart
  have hd := isDigit_of_isPlainStart hstart
  rw [isDigit_of_ascii h] at hd
  cases hd

theorem not_digit_of_isPlainStart {c : Char} (h : isPlainStart c = true) : c.isDigit = false := by
  rw [Bool.eq_false_iff]
  intro hd
  rw [isPlainStart_of_isDigit hd] at h
  cases h

theorem isPlainStart_of_isWord {c : Char} (h : isWord c = false) : isPlainStart c = false := by
  rw [Bool.eq_false_iff]
  intro hstart
  rw [isWord_of_isPlainWord (isPlainWord_of_isPlainStart hstart)] at h
  cases h

/-- **Decimal digits of any script are word characters.** -/
theorem isWord_of_isDigit {c : Char} (h : isDigit c = true) : isWord c = true := by
  unfold isDigit at h
  split at h
  · exact isWord_of_isPlainWord (isPlainWord_of_isDigit h)
  · rename_i hascii
    rw [isWord, if_neg hascii]
    exact Span.holds_of_within (by decide) h

theorem isDigit_of_isWord {c : Char} (h : isWord c = false) : isDigit c = false := by
  rw [Bool.eq_false_iff]
  intro hd
  rw [isWord_of_isDigit hd] at h
  cases h

/-- **Marks are no blanks.** -/
theorem isBlank_mark {c : Char}
    (h : c ∈ ['(', ')', ',', '+', '-', '*', '/', '^', '.', '_', '#', '<', '>', '=', '!']) :
    isBlank c = false := by
  have hall : (['(', ')', ',', '+', '-', '*', '/', '^', '.', '_', '#', '<', '>', '=', '!'].all
      fun c => !isBlank c) = true := by decide
  simpa using List.all_eq_true.mp hall c h

theorem ne_of_isBlank {c d : Char} (hc : isBlank c = true) (hd : isBlank d = false) : c ≠ d := by
  rintro rfl
  rw [hc] at hd
  cases hd

/-- No interval of one table meets one of the other. -/
def Span.apart (s t : Span) : Bool := s.all fun r => t.all fun q => q.2 < r.1 || r.2 < q.1

theorem Span.not_holds_of_apart {s t : Span} (h : s.apart t = true) {c : Char}
    (hc : s.holds c = true) : t.holds c = false := by
  rw [Bool.eq_false_iff]
  intro ht
  obtain ⟨r, hr, h1, h2⟩ := Span.holds_iff.mp hc
  obtain ⟨q, hq, h3, h4⟩ := Span.holds_iff.mp ht
  have hapart := List.all_eq_true.mp (List.all_eq_true.mp h r hr) q hq
  simp only [Bool.or_eq_true, decide_eq_true_eq] at hapart
  omega

/-- **Blanks are no word characters.** -/
theorem isWord_of_isBlank {c : Char} (h : isBlank c = true) : isWord c = false := by
  have htable : Span.holds wordSpan c = false := Span.not_holds_of_apart (by decide +kernel) h
  unfold isWord
  split
  · rw [Bool.eq_false_iff]
    intro hplain
    have hin : Span.holds wordSpan c = true := by
      have hascii : Span.holds [(0x30, 0x39), (0x41, 0x5A), (0x5F, 0x5F), (0x61, 0x7A)] c = true := by
        unfold isPlainWord Char.isAlphanum Char.isAlpha Char.isUpper Char.isLower Char.isDigit at hplain
        simp only [Bool.or_eq_true, Bool.and_eq_true, decide_eq_true_eq, beq_iff_eq, ge_iff_le,
          UInt32.le_iff_toNat_le] at hplain
        rw [Span.holds_iff]
        have hval : c.toNat = c.val.toNat := rfl
        have hA : 'A'.val.toNat = 65 := rfl
        have hZ : 'Z'.val.toNat = 90 := rfl
        have ha : 'a'.val.toNat = 97 := rfl
        have hz : 'z'.val.toNat = 122 := rfl
        have h0 : '0'.val.toNat = 48 := rfl
        have h9 : '9'.val.toNat = 57 := rfl
        rcases hplain with ((hc | hc) | hc) | hc
        · exact ⟨(0x41, 0x5A), by simp, by dsimp only; omega, by dsimp only; omega⟩
        · exact ⟨(0x61, 0x7A), by simp, by dsimp only; omega, by dsimp only; omega⟩
        · exact ⟨(0x30, 0x39), by simp, by dsimp only; omega, by dsimp only; omega⟩
        · rw [hc]
          exact ⟨(0x5F, 0x5F), by simp, by decide, by decide⟩
      exact Span.holds_of_within (by decide) hascii
    rw [htable] at hin
    cases hin
  · exact htable

theorem endsWord_some {c : Char} : endsWord (some c) = isWord c := rfl

theorem endsWord_of_stops {rest : List Char} (h : StopsAt isWord rest) :
    endsWord rest.head? = false := by
  rcases rest with _ | ⟨c, rest⟩
  · rfl
  · exact h c rfl

theorem stopsAt_of_endsWord {xs : List Char} (h : endsWord xs.head? = false) :
    StopsAt isWord xs := by
  intro c hc
  rw [hc] at h
  exact h

end InitialValue.Text
