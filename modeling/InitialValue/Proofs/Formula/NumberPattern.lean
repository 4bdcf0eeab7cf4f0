/-
  Numbers as the passes find them.

  The pattern for numbers takes figures, that is digits of any script with points among them, and
  perhaps an exponent (`number_split`).  A number that stands as an operand is found as the same
  number (`IsNumber.append`), and nothing that starts in front of it ends inside it: whatever could be
  an operand of a power ends in front of it, takes it whole, or runs on (`operand_reach`).
-/
import InitialValue.Proofs.Formula.Apart
import InitialValue.Proofs.Formula.StateName.Lengths
import InitialValue.Proofs.Formula.Surroundings

namespace InitialValue.Formula

open InitialValue.Text
open Decimal (isSign)
open StateName (callLengths groupLength?_cons isInner mantissaLength? nameLength?_eq numberLength?_eq
  operandLengths_eq signLength_eq)

/-! ## Shape -/

/-- A character of the number in front of the exponent. -/
def isFigure (c : Char) : Bool := isDigit c || c == '.'

/-- The mark of an exponent. -/
def isMark (c : Char) : Bool := c == 'e' || c == 'E'

/-- An exponent: a mark, perhaps a sign, and digits. -/
def IsScale (x : List Char) : Prop :=
  ∃ e s ds, x = e :: (s ++ ds) ∧ isMark e = true ∧ (s = [] ∨ ∃ c, s = [c] ∧ isSign c = true) ∧
    ds ≠ [] ∧ ∀ d ∈ ds, isDigit d = true

/-- The two parts of a number: figures, and perhaps an exponent. -/
structure NumberParts (m x : List Char) : Prop where
  full : m ≠ []
  figures : ∀ c ∈ m, isFigure c = true
  scale : x = [] ∨ IsScale x

/-- A text that the pattern for numbers takes from end to end. -/
def IsNumber (x : List Char) : Prop := numberLength? x = some x.length

variable {xs ys a b cs m x : List Char} {n : Nat} {c : Char}

theorem isSolid_of_isFigure (h : isFigure c = true) : isSolid c = true := by
  rcases Bool.or_eq_true_iff.mp h with h | h
  · exact Bool.or_eq_true_iff.mpr (Or.inl (isWord_of_isDigit h))
  · exact Bool.or_eq_true_iff.mpr (Or.inr h)

theorem not_isPlainStart_of_isFigure (h : isFigure c = true) : isPlainStart c = false := by
  rcases Bool.or_eq_true_iff.mp h with h | h
  · rw [Bool.eq_false_iff]
    intro hstart
    rw [isDigit_of_isPlainStart hstart] at h
    cases h
  · rw [beq_iff_eq.mp h]
    decide

theorem isMark_iff : isMark c = true ↔ c = 'e' ∨ c = 'E' := by
  rw [isMark, Bool.or_eq_true, beq_iff_eq, beq_iff_eq]

theorem isSign_iff : isSign c = true ↔ c = '+' ∨ c = '-' := by
  rw [isSign, Bool.or_eq_true, beq_iff_eq, beq_iff_eq]

theorem not_isFigure_of_isMark (h : isMark c = true) : isFigure c = false := by
  rcases isMark_iff.mp h with rfl | rfl <;> decide

theorem not_isFigure_of_isSign (h : isSign c = true) : isFigure c = false := by
  rcases isSign_iff.mp h with rfl | rfl <;> decide

theorem not_isMark_of_isSign (h : isSign c = true) : isMark c = false := by
  rcases isSign_iff.mp h with rfl | rfl <;> decide

theorem isFigure_of_isDigit (h : isDigit c = true) : isFigure c = true := by
  rw [isFigure, h]
  rfl

theorem not_isMark_of_isFigure (h : isFigure c = true) : isMark c = false := by
  rw [Bool.eq_false_iff]
  intro hmark
  rw [not_isFigure_of_isMark hmark] at h
  cases h

theorem not_isSign_of_isFigure (h : isFigure c = true) : isSign c = false := by
  rw [Bool.eq_false_iff]
  intro hsign
  rw [not_isFigure_of_isSign hsign] at h
  cases h

theorem mantissa_split (h : mantissaLength? cs = some n) : ∃ m rest, cs = m ++ rest ∧
    n = m.length ∧ m ≠ [] ∧ ∀ c ∈ m, isFigure c = true := by
  have hdigits : ∀ ys : List Char, ∀ c ∈ ys.takeWhile isDigit, isFigure c = true :=
    fun _ _ hc => isFigure_of_isDigit (mem_takeWhile hc)
  have hsplit := (List.takeWhile_append_dropWhile (p := isDigit) (l := cs)).symm
  unfold mantissaLength? at h
  dsimp only at h
  rw [drop_length_takeWhile] at h
  split at h
  · rename_i hpoint
    obtain ⟨rest, hrest⟩ := List.head?_eq_some_iff.mp hpoint
    have hdrop : cs.drop ((cs.takeWhile isDigit).length + 1) = rest := by
      rw [← List.drop_drop, drop_length_takeWhile, hrest]
      rfl
    rw [hdrop] at h
    split at h
    · cases h
    · refine ⟨cs.takeWhile isDigit ++ '.' :: rest.takeWhile isDigit, rest.dropWhile isDigit, ?_, ?_,
        by simp, ?_⟩
      · rw [List.append_assoc, List.cons_append, List.takeWhile_append_dropWhile, ← hrest]
        exact hsplit
      · rw [← Option.some.inj h, List.length_append, List.length_cons]
        omega
      · intro c hc
        rcases List.mem_append.mp hc with hc | hc
        · exact hdigits _ c hc
        · rcases List.mem_cons.mp hc with rfl | hc
          · rfl
          · exact hdigits _ c hc
  · split at h
    · cases h
    · rename_i hne
      refine ⟨cs.takeWhile isDigit, _, hsplit, (Option.some.inj h).symm, ?_, hdigits cs⟩
      exact fun hnil => hne (by rw [hnil]; rfl)

theorem sign_split (ys : List Char) : ∃ s rest, ys = s ++ rest ∧ signLength ys = s.length ∧
    (s = [] ∨ ∃ c, s = [c] ∧ isSign c = true) := by
  rw [signLength_eq]
  split
  · rename_i h
    rcases h with h | h <;>
      · obtain ⟨rest, rfl⟩ := List.head?_eq_some_iff.mp h
        exact ⟨[_], rest, rfl, rfl, Or.inr ⟨_, rfl, rfl⟩⟩
  · exact ⟨[], ys, rfl, rfl, Or.inl rfl⟩

theorem exponent_split (ys : List Char) : ∃ x rest, ys = x ++ rest ∧
    exponentLength ys = x.length ∧ (x = [] ∨ IsScale x ∧ StopsAt isDigit rest) := by
  rcases ys with _ | ⟨e, ys⟩
  · exact ⟨[], [], rfl, rfl, Or.inl rfl⟩
  obtain ⟨s, more, rfl, hlength, hs⟩ := sign_split ys
  rw [exponentLength_cons, hlength, List.drop_left]
  split
  · rename_i hmark
    split
    · exact ⟨[], _, rfl, rfl, Or.inl rfl⟩
    · rename_i hdigits
      refine ⟨e :: (s ++ more.takeWhile isDigit), more.dropWhile isDigit, ?_, ?_, Or.inr ⟨⟨e, s,
        more.takeWhile isDigit, rfl, hmark, hs, ?_, fun _ hd => mem_takeWhile hd⟩,
        stopsAt_dropWhile more⟩⟩
      · rw [List.cons_append, List.append_assoc, List.takeWhile_append_dropWhile]
      · rw [List.length_cons, List.length_append]
        omega
      · exact fun hnil => hdigits (List.isEmpty_iff.mpr hnil)
  · exact ⟨[], _, rfl, rfl, Or.inl rfl⟩

/-- **What the pattern for numbers takes** are figures and perhaps an exponent, with all its digits. -/
theorem number_split (h : numberLength? cs = some n) : ∃ m x rest, cs = m ++ (x ++ rest) ∧
    n = (m ++ x).length ∧ NumberParts m x ∧ (x = [] ∨ StopsAt isDigit rest) := by
  rw [numberLength?_eq] at h
  obtain ⟨k, hk, h⟩ := Option.map_eq_some_iff.mp h
  obtain ⟨m, more, rfl, rfl, hfull, hfigures⟩ := mantissa_split hk
  obtain ⟨x, rest, rfl, hlength, hx⟩ := exponent_split more
  rw [List.drop_left, hlength] at h
  exact ⟨m, x, rest, rfl, by rw [← h, List.length_append],
    ⟨hfull, hfigures, hx.imp_right And.left⟩, hx.imp_right And.right⟩

theorem IsNumber.split (h : IsNumber cs) : ∃ m x, cs = m ++ x ∧ NumberParts m x := by
  obtain ⟨m, x, rest, hcs, hlength, hparts, -⟩ := number_split h
  have hrest : rest = [] := by
    have hcount := congrArg List.length hcs
    rw [← List.append_assoc, List.length_append, ← hlength] at hcount
    exact List.length_eq_zero_iff.mp (by omega)
  rw [hrest, List.append_nil] at hcs
  exact ⟨m, x, hcs, hparts⟩

/-! ## Characters -/

namespace NumberParts

variable (h : NumberParts m x)
include h

theorem head : ∃ c rest, m ++ x = c :: rest ∧ isFigure c = true := by
  obtain ⟨c, rest, rfl⟩ := List.exists_cons_of_ne_nil h.full
  exact ⟨c, rest ++ x, rfl, h.figures c List.mem_cons_self⟩

/-- A number ends with a figure. -/
theorem last : ∃ front c, m ++ x = front ++ [c] ∧ isFigure c = true := by
  rcases h.scale with rfl | ⟨e, s, ds, rfl, -, -, hne, hds⟩
  · obtain ⟨front, c, hm⟩ := (List.eq_nil_or_concat m).resolve_left h.full
    rw [List.concat_eq_append] at hm
    refine ⟨front, c, by rw [List.append_nil, hm], h.figures c ?_⟩
    rw [hm]
    exact List.mem_append_right _ List.mem_cons_self
  · obtain ⟨front, d, hd⟩ := (List.eq_nil_or_concat ds).resolve_left hne
    rw [List.concat_eq_append] at hd
    refine ⟨m ++ e :: (s ++ front), d, by rw [hd]; simp, isFigure_of_isDigit (hds d ?_)⟩
    rw [hd]
    exact List.mem_append_right _ List.mem_cons_self

/-- **A mark stands behind the figures**, and the exponent starts with it. -/
theorem at_mark {front back : List Char} (hsplit : m ++ x = front ++ c :: back)
    (hc : isMark c = true) : front = m ∧ x = c :: back := by
  rcases h.scale with rfl | ⟨e, s, ds, rfl, he, hs, -, hds⟩
  · have hmem : c ∈ m := by
      rw [List.append_nil] at hsplit
      rw [hsplit]
      exact List.mem_append_right _ List.mem_cons_self
    rw [not_isMark_of_isFigure (h.figures c hmem)] at hc
    cases hc
  · have hother : ∀ z ∈ s ++ ds, (!isMark z) = true := by
      intro z hz
      rw [Bool.not_eq_true']
      rcases List.mem_append.mp hz with hz | hz
      · rcases hs with rfl | ⟨c, rfl, hsign⟩
        · cases hz
        · rw [List.mem_singleton.mp hz]
          exact not_isMark_of_isSign hsign
      · exact not_isMark_of_isFigure (isFigure_of_isDigit (hds z hz))
    obtain ⟨hfront, rfl, hback⟩ := parted_once (p := fun z => !isMark z) hsplit.symm
      (fun z hz => by rw [Bool.not_eq_true']; exact not_isMark_of_isFigure (h.figures z hz)) hother
      (by rw [hc]; rfl)
    exact ⟨hfront, by rw [hback]⟩

/-- **A sign stands in the exponent**, between the mark and the digits. -/
theorem at_sign {front back : List Char} (hsplit : m ++ x = front ++ c :: back)
    (hc : isSign c = true) : ∃ e, isMark e = true ∧ front = m ++ [e] ∧ x = e :: c :: back ∧
      back ≠ [] ∧ ∀ d ∈ back, isDigit d = true := by
  have hfigure : ∀ z, isFigure z = true → (!isSign z) = true := by
    intro z hz
    rw [Bool.not_eq_true']
    exact not_isSign_of_isFigure hz
  have hmem : c ∈ m ++ x := by
    rw [hsplit]
    exact List.mem_append_right _ List.mem_cons_self
  rcases h.scale with rfl | ⟨e, s, ds, rfl, he, hs, hne, hds⟩
  · rw [List.append_nil] at hmem
    rw [not_isSign_of_isFigure (h.figures c hmem)] at hc
    cases hc
  · have hother : isSign e = false := by
      rcases isMark_iff.mp he with rfl | rfl <;> rfl
    have hall : ∀ z ∈ m ++ [e], (!isSign z) = true := by
      intro z hz
      rcases List.mem_append.mp hz with hz | hz
      · exact hfigure z (h.figures z hz)
      · rw [List.mem_singleton.mp hz, hother]
        rfl
    have hdigits : ∀ z ∈ ds, (!isSign z) = true := fun z hz =>
      hfigure z (isFigure_of_isDigit (hds z hz))
    rcases hs with rfl | ⟨s, rfl, hs⟩
    · exfalso
      have hcs : (!isSign c) = true := by
        rw [show m ++ e :: ([] ++ ds) = (m ++ [e]) ++ ds by simp] at hmem
        exact (List.mem_append.mp hmem).elim (hall c) (hdigits c)
      rw [hc] at hcs
      cases hcs
    · rw [show m ++ e :: ([s] ++ ds) = (m ++ [e]) ++ s :: ds by simp] at hsplit
      obtain ⟨hfront, rfl, rfl⟩ := parted_once (p := fun z => !isSign z) hsplit.symm hall hdigits
        (by rw [hc]; rfl)
      exact ⟨e, he, hfront, rfl, hne, hds⟩

/-- The characters of a number. -/
theorem mem (hc : c ∈ m ++ x) : isFigure c = true ∨ isMark c = true ∨ isSign c = true := by
  rcases List.mem_append.mp hc with hc | hc
  · exact Or.inl (h.figures c hc)
  · rcases h.scale with rfl | ⟨e, s, ds, rfl, he, hs, -, hds⟩
    · cases hc
    · rcases List.mem_cons.mp hc with rfl | hc
      · exact Or.inr (Or.inl he)
      · rcases List.mem_append.mp hc with hc | hc
        · rcases hs with rfl | ⟨s, rfl, hs⟩
          · cases hc
          · rw [List.mem_singleton.mp hc]
            exact Or.inr (Or.inr hs)
        · exact Or.inl (isFigure_of_isDigit (hds c hc))

end NumberParts

/-- A number starts with a figure. -/
theorem IsNumber.head (h : IsNumber cs) : ∃ c rest, cs = c :: rest ∧ isFigure c = true := by
  obtain ⟨m, x, rfl, hparts⟩ := h.split
  exact hparts.head

/-- A number ends with a figure. -/
theorem IsNumber.last (h : IsNumber cs) : ∃ front c, cs = front ++ [c] ∧ isFigure c = true := by
  obtain ⟨m, x, rfl, hparts⟩ := h.split
  exact hparts.last

theorem IsNumber.ne_nil (h : IsNumber cs) : cs ≠ [] := by
  obtain ⟨c, rest, rfl, -⟩ := h.head
  exact List.cons_ne_nil _ _

theorem IsNumber.mem (h : IsNumber cs) (hc : c ∈ cs) :
    isFigure c = true ∨ isMark c = true ∨ isSign c = true := by
  obtain ⟨m, x, rfl, hparts⟩ := h.split
  exact hparts.mem hc

/-! ## Numbers in a text -/

/-- A whole exponent is found whatever stands behind it. -/
theorem exponentLength_scale (hxs : xs = [] ∨ IsScale xs) (hb : EndsPattern b) :
    exponentLength (xs ++ b) = xs.length := by
  rcases hxs with rfl | ⟨e, s, ds, rfl, he, hs, hne, hds⟩
  · rcases b with _ | ⟨c, b⟩
    · rfl
    · have hc := hb c rfl
      simp only [Bool.or_eq_false_iff] at hc
      rw [List.nil_append, exponentLength_cons, hc.1.2, hc.2]
      rfl
  · have hdigit : StopsAt isDigit b := hb.imp fun c hc => by rw [hc]; rfl
    have hrun : (ds ++ b).takeWhile isDigit = ds := takeWhile_append_stop hds hdigit
    have hsign : signLength (s ++ (ds ++ b)) = s.length := by
      rw [signLength_eq]
      rcases hs with rfl | ⟨c, rfl, hc⟩
      · obtain ⟨d, more, rfl⟩ := List.exists_cons_of_ne_nil hne
        have hd := not_isSign_of_isFigure (isFigure_of_isDigit (hds d List.mem_cons_self))
        rw [isSign, Bool.or_eq_false_iff, beq_eq_false_iff_ne, beq_eq_false_iff_ne] at hd
        simp [hd.1, hd.2]
      · rcases isSign_iff.mp hc with rfl | rfl <;> rfl
    rw [List.cons_append, List.append_assoc, exponentLength_cons, hsign, List.drop_left, hrun,
      if_pos (show (e == 'e' || e == 'E') = true from he), if_neg (by simpa using hne)]
    simp only [List.length_cons, List.length_append]
    omega

/-- **A number is found as the same number**, if nothing stands behind it that it runs on with. -/
theorem IsNumber.append (h : IsNumber xs) (hb : StopsAt isSolid b) :
    numberLength? (xs ++ b) = some xs.length := by
  have hlength := h
  rw [IsNumber, numberLength?_eq] at hlength
  obtain ⟨k, hk, hsum⟩ := Option.map_eq_some_iff.mp hlength
  obtain ⟨m, x, rfl, rfl, -, -⟩ := mantissa_split hk
  rw [List.drop_left, List.length_append, Nat.add_left_cancel_iff] at hsum
  have hx : x = [] ∨ IsScale x := by
    obtain ⟨y, rest, rfl, hy, hscale⟩ := exponent_split x
    have hnil : rest = [] := by
      rw [hy, List.length_append] at hsum
      exact List.length_eq_zero_iff.mp (by omega)
    rw [hnil, List.append_nil]
    exact hscale.imp_right And.left
  rw [numberLength?_eq, mantissaLength?_append _ hb, hk, Option.map_some, List.append_assoc,
    List.drop_left, exponentLength_scale hx (endsPattern_of_clear hb), List.length_append]

/-- Digits are a number. -/
theorem isNumber_digits (hne : xs ≠ []) (h : ∀ d ∈ xs, isDigit d = true) : IsNumber xs := by
  have hrun : xs.takeWhile isDigit = xs := List.takeWhile_eq_self_iff.mpr h
  have hnone : xs.length ≠ 0 := fun hzero => hne (List.length_eq_zero_iff.mp hzero)
  rw [IsNumber, numberLength?_eq, mantissaLength?]
  simp [hrun, hnone, exponentLength]

/-! ## Operands -/

/-- A word, or a text that ends with a bracket: an operand that is no number. -/
def IsTerm (t : List Char) : Prop :=
  (t ≠ [] ∧ ∀ c ∈ t, isWord c = true) ∨ ∃ front, t = front ++ [')']

/-- A group ends with its bracket. -/
theorem group_split (h : groupLength? cs = some n) :
    ∃ front rest, cs = front ++ [')'] ++ rest ∧ n = (front ++ [')']).length := by
  rcases cs with _ | ⟨z, cs⟩
  · cases h
  rw [groupLength?_cons] at h
  obtain ⟨⟨rfl, hclose⟩, hsize⟩ := Option.ite_none_right_eq_some.mp h
  obtain ⟨rest, hrest⟩ := List.head?_eq_some_iff.mp hclose
  refine ⟨'(' :: cs.takeWhile isInner, rest, ?_, ?_⟩
  · rw [drop_length_takeWhile] at hrest
    conv_lhs => rw [← List.takeWhile_append_dropWhile (p := isInner) (l := cs), hrest]
    simp
  · rw [← Option.some.inj hsize]
    simp

/-- A name, or a name with a group behind it. -/
theorem call_split {k : Nat} (hk : nameLength? cs = some k) (h : n ∈ callLengths cs k) :
    ∃ t rest, cs = t ++ rest ∧ n = t.length ∧ IsTerm t := by
  rw [nameLength?_eq] at hk
  obtain ⟨hstart, hlength⟩ := Option.ite_none_right_eq_some.mp hk
  cases hlength
  have hsplit := (List.takeWhile_append_dropWhile (p := isWord) (l := cs)).symm
  have hname : IsTerm (cs.takeWhile isWord) := by
    refine Or.inl ⟨?_, fun c hc => mem_takeWhile hc⟩
    rcases cs with _ | ⟨z, cs⟩
    · cases hstart
    · rw [List.takeWhile_cons_of_pos (isWord_of_isPlainWord (isPlainWord_of_isPlainStart hstart))]
      exact List.cons_ne_nil _ _
  rw [callLengths, drop_length_takeWhile, drop_length_takeWhile] at h
  rcases hg : groupLength? ((cs.dropWhile isWord).dropWhile isBlank) with _ | g
  · rw [hg] at h
    exact ⟨_, _, hsplit, List.mem_singleton.mp h, hname⟩
  · rw [hg] at h
    rcases List.mem_cons.mp h with rfl | h
    · obtain ⟨front, rest, hfront, rfl⟩ := group_split hg
      refine ⟨cs.takeWhile isWord ++ ((cs.dropWhile isWord).takeWhile isBlank ++ front) ++ [')'],
        rest, ?_, by simp [Nat.add_assoc], Or.inr ⟨_, rfl⟩⟩
      rw [List.append_assoc, List.append_assoc, List.append_assoc, ← List.append_assoc front,
        ← hfront, List.takeWhile_append_dropWhile]
      exact hsplit
    · exact ⟨_, _, hsplit, List.mem_singleton.mp h, hname⟩

/-- **Operands** are numbers, words, or end with a bracket. -/
theorem operand_cases (h : n ∈ operandLengths cs) : numberLength? cs = some n ∨
    ∃ t rest, cs = t ++ rest ∧ n = t.length ∧ IsTerm t := by
  rw [operandLengths_eq, List.mem_append, List.mem_append, Option.mem_toList,
    Option.mem_toList] at h
  rcases h with (h | h) | h
  · rcases hk : nameLength? cs with _ | k
    · rw [hk] at h
      cases h
    · rw [hk] at h
      exact Or.inr (call_split hk h)
  · exact Or.inl h
  · obtain ⟨front, rest, hcs, hn⟩ := group_split h
    exact Or.inr ⟨_, rest, hcs, hn, Or.inr ⟨front, rfl⟩⟩

/-- An operand starts with a solid character or an opening bracket. -/
theorem operand_head (h : n ∈ operandLengths cs) :
    ∃ c rest, cs = c :: rest ∧ (isSolid c = true ∨ c = '(') := by
  rcases cs with _ | ⟨c, cs⟩
  · cases h
  refine ⟨c, cs, rfl, ?_⟩
  by_contra hnot
  rw [not_or, isSolid, Bool.or_eq_true, not_or, beq_iff_eq] at hnot
  obtain ⟨⟨hword, hpoint⟩, hopen⟩ := hnot
  have hstart : isPlainStart c = false := Bool.eq_false_iff.mpr fun h =>
    hword (isWord_of_isPlainWord (isPlainWord_of_isPlainStart h))
  have hd : isDigit c = false := Bool.eq_false_iff.mpr fun h => hword (isWord_of_isDigit h)
  rw [operandLengths_other hstart hd hpoint hopen] at h
  cases h

theorem IsTerm.last {t : List Char} (h : IsTerm t) :
    ∃ front c, t = front ++ [c] ∧ (isSolid c = true ∨ c = ')') := by
  rcases h with ⟨hne, hword⟩ | ⟨front, rfl⟩
  · obtain ⟨front, c, rfl⟩ := (List.eq_nil_or_concat t).resolve_left hne
    rw [List.concat_eq_append] at hword ⊢
    refine ⟨front, c, rfl, Or.inl ?_⟩
    rw [isSolid, hword c (by simp)]
    rfl
  · exact ⟨front, ')', rfl, Or.inr rfl⟩

/-- An operand ends with a solid character or a closing bracket. -/
theorem operand_last (h : n ∈ operandLengths cs) :
    ∃ front c rest, cs = front ++ c :: rest ∧ n = front.length + 1 ∧
      (isSolid c = true ∨ c = ')') := by
  obtain ⟨t, rest, rfl, rfl, front, c, rfl, hc⟩ : ∃ t rest, cs = t ++ rest ∧ n = t.length ∧
      ∃ front c, t = front ++ [c] ∧ (isSolid c = true ∨ c = ')') := by
    rcases operand_cases h with h | ⟨t, rest, hcs, hn, ht⟩
    · obtain ⟨m, x, rest, hcs, hn, hparts, -⟩ := number_split h
      obtain ⟨front, c, hsplit, hfigure⟩ := hparts.last
      rw [← List.append_assoc] at hcs
      exact ⟨m ++ x, rest, hcs, hn, front, c, hsplit, Or.inl (isSolid_of_isFigure hfigure)⟩
    · exact ⟨t, rest, hcs, hn, ht.last⟩
  exact ⟨front, c, rest, by simp, by simp, hc⟩

/-! ## Between marks -/

theorem not_isSolid_of_opens (h : opensOperand c = true) : isSolid c = false ∧ c ≠ ')' := by
  have hall : ∀ c ∈ "+-*/%@&|^~<>=([\x7b,:".toList, isSolid c = false ∧ c ≠ ')' :=
    forall_mem_of_all (by decide)
  exact hall c (List.contains_iff_mem.mp h)

theorem not_isSolid_of_closes (h : closesOperand c = true) : isSolid c = false ∧ c ≠ '(' := by
  have hall : ∀ c ∈ "+-*/%@&|^~<>=!)]\x7d,:".toList, isSolid c = false ∧ c ≠ '(' :=
    forall_mem_of_all (by decide)
  exact hall c (List.contains_iff_mem.mp h)

/-- Neither a word nor a number nor a group starts where an operand ends. -/
theorem EndsOperand.head (h : EndsOperand (c :: cs)) : isSolid c = false ∧ c ≠ '(' := by
  by_cases hblank : isBlank c = true
  · refine ⟨isSolid_of_isBlank hblank, ?_⟩
    rintro rfl
    exact absurd hblank (by decide)
  · exact not_isSolid_of_closes ((meets_cons (Bool.eq_false_iff.mpr hblank)).mp h)

theorem EndsOperand.stops (h : EndsOperand b) : StopsAt isSolid b := by
  intro c hc
  obtain ⟨rest, rfl⟩ := List.head?_eq_some_iff.mp hc
  exact h.head.1

/-- No bracket opens where an operand ends, whatever blanks stand there. -/
theorem EndsOperand.not_open (h : EndsOperand b) : (skipBlanks b).head? ≠ some '(' :=
  fun hopen => absurd (h '(' hopen) (by decide)

/-- Neither a word nor a number nor a group ends where an operand is awaited. -/
theorem AwaitsOperand.last (h : AwaitsOperand (xs ++ [c])) : isSolid c = false ∧ c ≠ ')' := by
  rw [AwaitsOperand, List.reverse_append] at h
  by_cases hblank : isBlank c = true
  · refine ⟨isSolid_of_isBlank hblank, ?_⟩
    rintro rfl
    exact absurd hblank (by decide)
  · exact not_isSolid_of_opens ((meets_cons (Bool.eq_false_iff.mpr hblank)).mp h)

/-- Two ways to take a text apart, the second piece at least as long. -/
theorem exists_of_append_eq (h : a ++ b = xs ++ ys) (hlength : a.length ≤ xs.length) :
    ∃ y, xs = a ++ y ∧ b = y ++ ys := by
  rcases List.append_eq_append_iff.mp h with ⟨y, hxs, hb⟩ | ⟨y, ha, hys⟩
  · exact ⟨y, hxs, hb⟩
  · have hnil : y = [] := by
      rw [ha, List.length_append] at hlength
      exact List.length_eq_zero_iff.mp (by omega)
    subst hnil
    exact ⟨[], by simpa using ha.symm, by simpa using hys.symm⟩

variable {x : List Char} (hx : IsNumber x)
include hx

/-- **A number that starts in front of a number between marks** ends in front of it as well, ends
    with it, or runs on.  Only the digits of an exponent can come behind a mark. -/
theorem number_reach (ha : AwaitsOperand a) (hb : EndsOperand b)
    (h : numberLength? (a ++ (x ++ b)) = some n) : n < a.length ∨ n = (a ++ x).length ∨
      ∃ c rest, (a ++ (x ++ b)).drop n = c :: rest ∧ isSolid c = true := by
  rcases List.eq_nil_or_concat a with rfl | ⟨front, s, rfl⟩
  · rw [List.nil_append, hx.append hb.stops] at h
    exact Or.inr (Or.inl (Option.some.inj h).symm)
  rw [List.concat_eq_append] at ha h ⊢
  obtain ⟨m, e, rest, hcs, rfl, hparts, hrest⟩ := number_split h
  rw [← List.append_assoc m] at hcs
  rcases Nat.lt_or_ge (m ++ e).length (front ++ [s]).length with hless | hlength
  · exact Or.inl hless
  right
  obtain ⟨y, hy, hxb⟩ := exists_of_append_eq hcs hlength
  have hsplit : m ++ e = front ++ s :: y := by rw [hy]; simp
  have hsign : isSign s = true := by
    have hsolid := ha.last.1
    rcases hparts.mem (c := s) (by rw [hsplit]; simp) with hs | hs | hs
    · rw [isSolid_of_isFigure hs] at hsolid
      cases hsolid
    · rcases isMark_iff.mp hs with rfl | rfl <;> exact absurd hsolid (by decide)
    · exact hs
  obtain ⟨mark, hmark, -, he, hyne, hdigits⟩ := hparts.at_sign hsplit hsign
  have hstop : StopsAt isDigit rest := hrest.resolve_left (by rw [he]; simp)
  -- the digits of the exponent are the number, or it starts with them and runs on
  rcases List.append_eq_append_iff.mp hxb with ⟨more, rfl, hb'⟩ | ⟨more, rfl, hrest'⟩
  · rcases more with _ | ⟨d, more⟩
    · left
      rw [hy, List.append_nil]
    · have hd := hb.stops d (by rw [hb']; rfl)
      rw [isSolid_of_isFigure (isFigure_of_isDigit (hdigits d (by simp)))] at hd
      cases hd
  · rcases more with _ | ⟨z, more⟩
    · left
      rw [hy, List.append_nil]
    · right
      refine ⟨z, more ++ b, ?_, ?_⟩
      · rw [hcs, List.drop_left, hrest']
        rfl
      · obtain ⟨m', x', hx', hparts'⟩ := hx.split
        rcases hparts'.mem (c := z) (by rw [← hx']; simp) with hz | hz | hz
        · exact isSolid_of_isFigure hz
        · rcases isMark_iff.mp hz with rfl | rfl <;> decide
        · obtain ⟨e', he', hy', -⟩ := hparts'.at_sign hx'.symm hz
          have hnot := isFigure_of_isDigit (hdigits e' (by rw [hy']; simp))
          rw [not_isFigure_of_isMark he'] at hnot
          cases hnot

/-- No name starts where a number does. -/
theorem nameLength?_number : nameLength? (x ++ b) = none := by
  obtain ⟨c, rest, rfl, hc⟩ := hx.head
  exact nameLength?_other (not_isPlainStart_of_isFigure hc) _

/-- At a number between marks, the number is the one operand. -/
theorem operandLengths_number (hb : EndsOperand b) : operandLengths (x ++ b) = [x.length] := by
  have hgroup : groupLength? (x ++ b) = none := by
    obtain ⟨c, rest, rfl, hc⟩ := hx.head
    rw [List.cons_append]
    refine groupLength?_other ?_ _
    rintro rfl
    exact absurd hc (by decide)
  rw [operandLengths_eq, hx.append hb.stops, nameLength?_number hx, hgroup]
  rfl

omit hx in
/-- **What starts in a number** behind a character that no word or number runs on from, is a number. -/
theorem IsNumber.inner (hx : IsNumber x) {pre : List Char} (hsplit : x = pre ++ c :: cs)
    (hfree : ∀ d ∈ pre.getLast?, isSolid d = false) : IsNumber (c :: cs) := by
  rcases List.eq_nil_or_concat pre with rfl | ⟨front, d, rfl⟩
  · rwa [hsplit] at hx
  rw [List.concat_eq_append] at hsplit hfree
  have hd : isSolid d = false := hfree d (by simp)
  obtain ⟨m, e, rfl, hparts⟩ := hx.split
  have hcut : m ++ e = front ++ d :: (c :: cs) := by rw [hsplit]; simp
  rcases hparts.mem (c := d) (by rw [hcut]; simp) with h | h | h
  · rw [isSolid_of_isFigure h] at hd
    cases hd
  · rcases isMark_iff.mp h with rfl | rfl <;> exact absurd hd (by decide)
  · obtain ⟨-, -, -, -, hne, hdigits⟩ := hparts.at_sign hcut h
    exact isNumber_digits hne hdigits

/-- **What could be an operand** in front of a number between marks ends in front of it, takes it
    whole, or runs on. -/
theorem operand_reach (ha : AwaitsOperand a) (hb : EndsOperand b)
    (h : n ∈ operandLengths (a ++ (x ++ b))) : n < a.length ∨
      (∃ b₁ b₂, b = b₁ ++ b₂ ∧ n = (a ++ (x ++ b₁)).length) ∨
      ∃ c rest, (a ++ (x ++ b)).drop n = c :: rest ∧ isSolid c = true := by
  rcases List.eq_nil_or_concat a with rfl | ⟨before, s, rfl⟩
  · rw [List.nil_append, operandLengths_number hx hb] at h
    exact Or.inr (Or.inl ⟨[], b, rfl, by rw [List.mem_singleton.mp h]; simp⟩)
  rw [List.concat_eq_append] at ha h ⊢
  rcases operand_cases h with h | ⟨t, rest, hcs, rfl, ht⟩
  · refine (number_reach hx ha hb h).imp_right (Or.imp_left fun hn => ⟨[], b, rfl, ?_⟩)
    rw [hn, List.append_nil]
  rcases Nat.lt_or_ge t.length (before ++ [s]).length with hless | hlength
  · exact Or.inl hless
  obtain ⟨y, rfl, hxb⟩ := exists_of_append_eq hcs hlength
  rcases ht with ⟨-, hword⟩ | ⟨front, hfront⟩
  · -- a word does not reach over a mark
    have hsolid := ha.last.1
    rw [isSolid, hword s (by simp)] at hsolid
    cases hsolid
  · rcases List.eq_nil_or_concat y with rfl | ⟨y, z, rfl⟩
    · rw [List.append_nil] at hfront
      exact absurd (List.append_inj_right' hfront rfl) (by simpa using ha.last.2)
    · rw [List.concat_eq_append, ← List.append_assoc] at hfront
      obtain rfl : z = ')' := by simpa using List.append_inj_right' hfront rfl
      rw [List.concat_eq_append] at hxb ⊢
      -- no bracket stands in a number
      rcases Nat.lt_or_ge (y ++ [')']).length x.length with hless | hlength'
      · obtain ⟨more, hmore, -⟩ := exists_of_append_eq hxb.symm hless.le
        rcases hx.mem (c := ')') (by rw [hmore]; simp) with h | h | h <;>
          exact absurd h (by decide)
      · obtain ⟨b₁, hb₁, hb₂⟩ := exists_of_append_eq hxb hlength'
        exact Or.inr (Or.inl ⟨b₁, rest, hb₂, by rw [hb₁]⟩)

end InitialValue.Formula
