/-
  Numbers through the passes.

  A number between marks is left where it is by every rule (`Rule.Spares`).

  Most rules take no digit and no point (`Rule.Bare`), so their hits end in front of the number, and
  inside it they could only start at the mark or the sign of its exponent.  A name or number in front
  of a bracket ends in front of the number too, since no bracket follows that one.  A power may have
  the number as its base or exponent, and writes it again.

  There is one exception.  The rules for the constant `e` and for blanks around operators look for the
  exponent of a number behind a digit.  A number with a point in front of its mark and a sign behind it
  (`Dotted`) is taken apart.
-/
import InitialValue.Proofs.Formula.NumberPattern
import InitialValue.Proofs.Formula.StateName.Products

namespace InitialValue.Formula

open InitialValue.Text
open Decimal (isSign)
open StateName (blanksRule_eq bracketTermRule_eq eulerRule_eq inExponent nameLength?_eq piRule_eq
  powerSignRule_eq starsRule_eq)

/-- A number with a point right in front of a signed exponent. -/
def Dotted (x : List Char) : Prop :=
  ∃ front e s back, x = front ++ '.' :: e :: s :: back ∧ isMark e = true ∧ isSign s = true

variable {a b x : List Char} {r : Rule}

/-- **Next to the mark of an exponent stands a digit**, in front of it or behind it, unless a point
    stands in front and a sign behind. -/
theorem digit_at_mark (hx : IsNumber x) (hdotted : ¬ Dotted x) {pre post : List Char} {c : Char}
    (hsplit : x = pre ++ c :: post) (hc : isMark c = true) :
    (∃ front d, pre = front ++ [d] ∧ isDigit d = true) ∨ ∃ d rest, post = d :: rest ∧
      isDigit d = true := by
  obtain ⟨m, e, rfl, hparts⟩ := hx.split
  obtain ⟨rfl, rfl⟩ := hparts.at_mark hsplit hc
  obtain ⟨front, d, rfl⟩ := (List.eq_nil_or_concat pre).resolve_left hparts.full
  rw [List.concat_eq_append] at hparts hdotted ⊢
  rcases Bool.or_eq_true_iff.mp (hparts.figures d (by simp)) with hd | hd
  · exact Or.inl ⟨front, d, rfl, hd⟩
  rw [beq_iff_eq] at hd
  subst hd
  right
  obtain ⟨mark, s, ds, he, -, hs, hne, hds⟩ := hparts.scale.resolve_left (List.cons_ne_nil _ _)
  obtain ⟨rfl, rfl⟩ := List.cons.inj he
  rcases hs with rfl | ⟨s, rfl, hs⟩
  · obtain ⟨d, rest, rfl⟩ := List.exists_cons_of_ne_nil hne
    exact ⟨d, rest, rfl, hds d List.mem_cons_self⟩
  · exact absurd ⟨front, c, s, ds, by simp, hc, hs⟩ hdotted

/-! ## Rules that take no digits -/

/-- The hits of a rule take no digit, point or hash sign. -/
def Rule.Bare (r : Rule) : Prop :=
  ∀ before cs hit, r before cs = some hit → ∀ c ∈ cs.take (hit.extra + 1), isFixed c = false

theorem isFixed_of_isFigure {c : Char} (h : isFigure c = true) : isFixed c = true := by
  rw [isFixed, show (isDigit c || c == '.') = true from h]
  rfl

/-- **Where no digit or point is taken**, a hit ends in front of a number. -/
theorem short_of_bare {k : Nat} (hx : IsNumber x)
    (h : ∀ c ∈ (a ++ (x ++ b)).take k, isFixed c = false) : k ≤ a.length := by
  by_contra hless
  obtain ⟨c, rest, rfl, hfigure⟩ := hx.head
  obtain ⟨j, hj⟩ : ∃ j, k = a.length + (j + 1) := ⟨k - a.length - 1, by omega⟩
  have hmem : c ∈ (a ++ (c :: rest ++ b)).take k := by
    rw [hj, List.take_length_add_append]
    exact List.mem_append_right _ List.mem_cons_self
  have hfree := h c hmem
  rw [isFixed_of_isFigure hfigure] at hfree
  cases hfree

namespace Rule

theorem Bare.spares (hbare : r.Bare) (hmild : r.Mild) (hx : IsNumber x)
    (hquiet : ∀ before b pre c post, x = pre ++ c :: post → isMark c = true ∨ isSign c = true →
      r (pre.reverse ++ before) (c :: (post ++ b)) = none) : r.Spares x where
  mild := hmild
  hit before a b hit _ _ hhit := Or.inl (short_of_bare hx (hbare before _ hit hhit))
  quiet before b _ _ _ pre c post hsplit := by
    rcases hx.mem (c := c) (by rw [hsplit]; simp) with hc | hc
    · rw [Option.eq_none_iff_forall_ne_some]
      intro hit hhit
      have hfree := hbare _ _ hit hhit c (by rw [List.take_succ_cons]; exact List.mem_cons_self)
      rw [isFixed_of_isFigure hc] at hfree
      cases hfree
    · exact hquiet before b pre c post hsplit hc

/-- A rule that starts at neither a mark nor a sign has no part in exponents. -/
theorem Bare.spares_of_ignores (hbare : r.Bare) (hmild : r.Mild) (hx : IsNumber x)
    (hignores : ∀ c ∈ ['e', 'E', '+', '-'], r.Ignores c) : r.Spares x := by
  refine hbare.spares hmild hx fun before b pre c post _ hc => hignores c ?_ _ _
  rcases hc with hc | hc
  · rcases isMark_iff.mp hc with rfl | rfl <;> decide
  · rcases isSign_iff.mp hc with rfl | rfl <;> decide

/-! ### Marks for marks -/

/-- What is written in the place of marks and blanks. -/
def remarks : List (List Char) :=
  ["^", ")*", " + ", " - ", " * ", " / ", " ** ", " "].map String.toList

/-- The hits of a rule take marks and blanks and write marks, or blanks in the place of blanks. -/
def Remarks (r : Rule) : Prop := ∀ before cs hit, r before cs = some hit → hit.text ∈ remarks ∧
  (∀ c ∈ cs.take (hit.extra + 1), isBlank c = true ∨ c ∈ ['+', '-', '*', '/', '^', ')']) ∧
  (hit.text = [' '] → ∀ c ∈ cs.take (hit.extra + 1), isBlank c = true)

theorem not_isFixed_of_isBlank {c : Char} (h : isBlank c = true) : isFixed c = false := by
  rw [Bool.eq_false_iff]
  intro hfixed
  simp only [isFixed, Bool.or_eq_true, beq_iff_eq] at hfixed
  rcases hfixed with (hd | rfl) | rfl
  · rw [isBlank_of_isWord (isWord_of_isDigit hd)] at h
    cases h
  · exact absurd h (by decide)
  · exact absurd h (by decide)

theorem Remarks.bare (h : r.Remarks) : r.Bare := by
  have hall : ∀ c ∈ ['+', '-', '*', '/', '^', ')'], isFixed c = false :=
    forall_mem_of_all (by decide)
  intro before cs hit hhit c hc
  exact ((h before cs hit hhit).2.1 c hc).elim not_isFixed_of_isBlank (hall c)

theorem Remarks.mild (h : r.Remarks) : r.Mild := by
  have hall : ∀ t ∈ remarks, t.filter isFixed = [] ∧ AwaitsOperand t ∧ EndsOperand t ∧
      (t = [' '] ∨ t.all isBlank = false) := forall_mem_of_all (by decide +kernel)
  intro before cs hit hhit
  obtain ⟨htext, -, hblank⟩ := h before cs hit hhit
  obtain ⟨hfixed, hopens, hcloses, hinky⟩ := hall _ htext
  have hnone : (cs.take (hit.extra + 1)).filter isFixed = [] :=
    List.filter_eq_nil_iff.mpr fun c hc => by simp [h.bare before cs hit hhit c hc]
  refine Alike.marks (fun h => hblank (hinky.resolve_right fun hnot => ?_))
    (hfixed.trans hnone.symm) hopens hcloses
  rw [List.all_eq_true.mpr h] at hnot
  cases hnot

end Rule

theorem starsRule_remarks : starsRule.Remarks := by
  intro before cs hit h
  rw [starsRule_eq] at h
  obtain ⟨⟨hfirst, hsecond⟩, hhit⟩ := Option.ite_none_right_eq_some.mp h
  cases hhit
  rcases cs with _ | ⟨c, _ | ⟨d, cs⟩⟩
  · cases hfirst
  · cases hsecond
  · cases hfirst
    cases hsecond
    have htext : ['^'] ∈ Rule.remarks := by decide
    exact ⟨htext, by simp, by rintro ⟨⟩⟩

/-- A mark and the blanks behind it. -/
theorem take_mark_gap (c : Char) (cs : List Char) :
    (c :: cs).take ((cs.takeWhile isBlank).length + 1) = c :: cs.takeWhile isBlank := by
  rw [List.take_succ_cons, ← List.prefix_iff_eq_take.mp (List.takeWhile_prefix isBlank)]

theorem bracketTermRule_remarks : bracketTermRule.Remarks := by
  intro before cs hit h
  rw [bracketTermRule_eq] at h
  obtain ⟨⟨hfirst, -⟩, hhit⟩ := Option.ite_none_right_eq_some.mp h
  cases hhit
  obtain ⟨rest, rfl⟩ := List.head?_eq_some_iff.mp hfirst
  have htext : [')', '*'] ∈ Rule.remarks := by decide
  rw [List.drop_one, List.tail_cons, take_mark_gap]
  refine ⟨htext, fun c hc => ?_, by rintro ⟨⟩⟩
  rcases List.mem_cons.mp hc with rfl | hc
  · exact Or.inr (by decide)
  · exact Or.inl (mem_takeWhile hc)

theorem powerSignRule_remarks : powerSignRule.Remarks := by
  intro before cs hit h
  rw [powerSignRule_eq] at h
  obtain ⟨hcaret, hhit⟩ := Option.ite_none_right_eq_some.mp h
  cases hhit
  obtain ⟨rest, hrest⟩ := List.head?_eq_some_iff.mp hcaret
  have hsplit : cs = cs.takeWhile isBlank ++ '^' :: rest := by
    rw [← hrest]
    exact (List.takeWhile_append_dropWhile).symm
  have hgap : ∀ c ∈ cs.takeWhile isBlank, isBlank c = true := fun c hc => mem_takeWhile hc
  rw [hrest, List.drop_one, List.tail_cons]
  generalize cs.takeWhile isBlank = gap at hsplit hgap
  have htext : " ** ".toList ∈ Rule.remarks := by decide
  rw [hsplit, Nat.add_assoc, List.take_length_add_append, take_mark_gap]
  refine ⟨htext, fun c hc => ?_, by rintro ⟨⟩⟩
  rcases List.mem_append.mp hc with hc | hc
  · exact Or.inl (hgap c hc)
  · rcases List.mem_cons.mp hc with rfl | hc
    · exact Or.inr (by decide)
    · exact Or.inl (mem_takeWhile hc)

theorem blanksRule_remarks : blanksRule.Remarks := by
  intro before cs hit h
  rw [blanksRule_eq] at h
  obtain ⟨hblank, hhit⟩ := Option.ite_none_right_eq_some.mp h
  cases hhit
  rcases cs with _ | ⟨c, cs⟩
  · cases hblank
  have hc : isBlank c = true := hblank
  have hall : ∀ d ∈ c :: cs.takeWhile isBlank, isBlank d = true := by
    rw [List.forall_mem_cons]
    exact ⟨hc, fun d hd => mem_takeWhile hd⟩
  have htext : [' '] ∈ Rule.remarks := by decide
  rw [List.drop_one, List.tail_cons, take_mark_gap]
  exact ⟨htext, fun d hd => Or.inl (hall d hd), fun _ => hall⟩

theorem spacingRule_remarks : spacingRule.Remarks := by
  have hall : ∀ c ∈ ['+', '-', '*', '/'], [' ', c, ' '] ∈ Rule.remarks ∧
      c ∈ ['+', '-', '*', '/', '^', ')'] := forall_mem_of_all (by decide)
  intro before cs hit h
  rcases cs with _ | ⟨c, cs⟩
  · cases h
  rw [StateName.spacingRule_cons] at h
  obtain ⟨hc, hhit⟩ := Option.ite_none_right_eq_some.mp h
  cases hhit
  have hmem : c ∈ ['+', '-', '*', '/'] := by
    have hc := (Bool.and_eq_true_iff.mp hc).1
    simpa only [isSpaced, Bool.or_eq_true, beq_iff_eq, List.mem_cons, List.not_mem_nil, or_false,
      or_assoc] using hc
  obtain ⟨htext, hmark⟩ := hall c hmem
  refine ⟨htext, fun d hd => Or.inr ?_, by rintro ⟨⟩⟩
  rw [List.take_succ_cons, List.take_zero, List.mem_singleton] at hd
  rwa [hd]

theorem spacingRule_spares (hx : IsNumber x) (hdotted : ¬ Dotted x) : spacingRule.Spares x := by
  refine spacingRule_remarks.bare.spares spacingRule_remarks.mild hx
    fun before b pre c post hsplit hc => ?_
  rcases hc with hc | hc
  · refine spacingRule_ignores ?_ _ _
    rcases isMark_iff.mp hc with rfl | rfl <;> decide
  · obtain ⟨m, e, hparts⟩ : ∃ m e, x = m ++ e ∧ NumberParts m e := hx.split
    obtain ⟨mark, hmark, rfl, rfl, -⟩ := hparts.2.at_sign (hparts.1 ▸ hsplit) hc
    rcases digit_at_mark hx hdotted hparts.1 hmark with ⟨front, d, rfl, hd⟩ | ⟨d, rest, hd, hdigit⟩
    · have hin : inExponent ((front ++ [d] ++ [mark]).reverse ++ before) = true := by
        rw [List.reverse_append, List.reverse_append]
        exact Bool.and_eq_true_iff.mpr ⟨hmark, hd⟩
      rw [StateName.spacingRule_cons, hin, Bool.not_true, Bool.and_false, if_neg (by decide)]
    · rw [← (List.cons.inj hd).1] at hdigit
      rw [not_isSign_of_isFigure (isFigure_of_isDigit hdigit)] at hc
      cases hc

/-! ### Letters -/

/-- The letters of the constants are parts of words and no digits. -/
theorem letter_solid {l c : Char} (hl : l ∈ ['p', 'i', 'e']) (h : sameLetter l c = true) :
    isSolid c = true ∧ isFixed c = false := by
  have hall : ∀ l ∈ ['p', 'i', 'e'], sameLetter l '.' = false ∧ sameLetter l '#' = false :=
    forall_mem_of_all (by decide)
  have hpoint : c ≠ '.' := by
    rintro rfl
    exact Bool.false_ne_true ((hall l hl).1.symm.trans h)
  have hhash : c ≠ '#' := by
    rintro rfl
    exact Bool.false_ne_true ((hall l hl).2.symm.trans h)
  have hword : isWord c = true := by
    refine (sameLetter_cases h).elim (fun hc => ?_) id
    have hall : ∀ l ∈ ['p', 'i', 'e'], isWord l = true := forall_mem_of_all (by decide)
    rw [hc]
    exact hall l hl
  have hdigit : isDigit c = false := by
    simp only [List.mem_cons, List.not_mem_nil, or_false] at hl
    rcases hl with rfl | rfl | rfl
    · rw [← shade_digit, shade_pi (Or.inl rfl) h]
      decide
    · rw [← shade_digit, shade_pi (Or.inr rfl) h]
      decide
    · exact isDigit_of_isPlainStart (sameLetter_start (Or.inr rfl) h)
  exact ⟨by rw [isSolid, hword]; rfl, by simp [isFixed, hdigit, hpoint, hhash]⟩

/-- **Anything may stand for a term** with the same digits and points: a term starts and ends with a
    solid character or with its brackets, so it is next to no operand. -/
theorem Alike.of_ends {c d : Char} {cs front ys : List Char} (hhead : isSolid c = true ∨ c = '(')
    (hlast : isSolid d = true ∨ d = ')') (hsplit : c :: cs = front ++ [d])
    (hfixed : ys.filter isFixed = (c :: cs).filter isFixed)
    (hblank : ys.all isBlank = false) : Alike (c :: cs) ys := by
  have hinky : ¬ ∀ z ∈ ys, isBlank z = true := fun h =>
    Bool.false_ne_true (hblank.symm.trans (List.all_eq_true.mpr h))
  refine Alike.term (fun h => ?_) (fun h => ?_) hfixed hinky
  · rw [hsplit] at h
    exact hlast.elim (fun hd => Bool.false_ne_true (h.last.1.symm.trans hd)) h.last.2
  · exact hhead.elim (fun hc => Bool.false_ne_true (h.head.1.symm.trans hc)) h.head.2

theorem piRule_bare : piRule.Bare := by
  intro before cs hit h c hc
  rw [piRule_eq] at h
  obtain ⟨⟨hfirst, hsecond, -⟩, hhit⟩ := Option.ite_none_right_eq_some.mp h
  cases hhit
  rcases cs with _ | ⟨a, _ | ⟨b, rest⟩⟩
  · cases hfirst
  · cases hsecond
  · simp only [List.take_succ_cons, List.take_zero, List.mem_cons, List.not_mem_nil, or_false] at hc
    rcases hc with rfl | rfl
    · exact (letter_solid (by decide) hfirst).2
    · exact (letter_solid (by decide) hsecond).2

theorem piRule_mild : piRule.Mild := by
  intro before cs hit h
  have hbare := piRule_bare before cs hit h
  rw [piRule_eq] at h
  obtain ⟨⟨hfirst, hsecond, -⟩, hhit⟩ := Option.ite_none_right_eq_some.mp h
  cases hhit
  rcases cs with _ | ⟨a, _ | ⟨b, rest⟩⟩
  · cases hfirst
  · cases hsecond
  · have hsplit : [a, b] = [a] ++ [b] := rfl
    refine Alike.of_ends (Or.inl (letter_solid (by decide) hfirst).1)
      (Or.inl (letter_solid (by decide) hsecond).1) hsplit ?_ (by decide)
    have hnone := List.filter_eq_nil_iff.mpr fun c hc => Bool.eq_false_iff.mp (hbare c hc)
    exact Eq.trans (by decide) hnone.symm

theorem piRule_spares (hx : IsNumber x) : piRule.Spares x := by
  refine piRule_bare.spares_of_ignores piRule_mild hx fun c hc before rest => ?_
  have hall : ∀ c ∈ ['e', 'E', '+', '-'], sameLetter 'p' c = false := forall_mem_of_all (by decide)
  rw [piRule_eq, if_neg]
  rintro ⟨h, -⟩
  exact Bool.false_ne_true ((hall c hc).symm.trans h)

theorem eulerRule_bare : eulerRule.Bare := by
  intro before cs hit h c hc
  rw [eulerRule_eq] at h
  obtain ⟨⟨hfirst, -⟩, hhit⟩ := Option.ite_none_right_eq_some.mp h
  cases hhit
  rcases cs with _ | ⟨a, rest⟩
  · cases hfirst
  · rw [List.take_succ_cons, List.take_zero, List.mem_singleton] at hc
    rw [hc]
    exact (letter_solid (by decide) hfirst).2

theorem eulerRule_mild : eulerRule.Mild := by
  intro before cs hit h
  have hbare := eulerRule_bare before cs hit h
  rw [eulerRule_eq] at h
  obtain ⟨⟨hfirst, -⟩, hhit⟩ := Option.ite_none_right_eq_some.mp h
  cases hhit
  rcases cs with _ | ⟨a, rest⟩
  · cases hfirst
  · have hsolid := (letter_solid (by decide) hfirst).1
    have hsplit : [a] = [] ++ [a] := rfl
    refine Alike.of_ends (Or.inl hsolid) (Or.inl hsolid) hsplit ?_ (by decide)
    have hnone := List.filter_eq_nil_iff.mpr fun c hc => Bool.eq_false_iff.mp (hbare c hc)
    exact Eq.trans (by decide) hnone.symm

theorem eulerRule_spares (hx : IsNumber x) (hdotted : ¬ Dotted x) : eulerRule.Spares x := by
  refine eulerRule_bare.spares eulerRule_mild hx fun before b pre c post hsplit hc => ?_
  have hall : ∀ c ∈ ['+', '-'], sameLetter 'e' c = false := forall_mem_of_all (by decide)
  rw [eulerRule_eq, if_neg]
  rintro ⟨hletter, hbefore, hbehind⟩
  rcases hc with hc | hc
  · rcases digit_at_mark hx hdotted hsplit hc with ⟨front, d, rfl, hd⟩ | ⟨d, rest, rfl, hd⟩
    · rw [List.reverse_append, List.append_assoc] at hbefore
      exact Bool.false_ne_true (hbefore.symm.trans (isWord_of_isDigit hd))
    · exact Bool.false_ne_true (hbehind.symm.trans (isWord_of_isDigit hd))
  · have hsign : c ∈ ['+', '-'] := by
      rcases isSign_iff.mp hc with rfl | rfl <;> decide
    exact Bool.false_ne_true ((hall c hsign).symm.trans hletter)

/-! ### Brackets -/

/-- A bracket behind blanks may have a star in front of it instead. -/
theorem Alike.bracket {cs : List Char} {n : Nat} (h : (skipBlanks (cs.drop n)).head? = some '(') :
    Alike (cs.take (n + ((cs.drop n).takeWhile isBlank).length + 1)) (cs.take n ++ ['*', '(']) := by
  obtain ⟨tail, htail⟩ := List.head?_eq_some_iff.mp h
  rw [take_bracket htail]
  have hgap : ((cs.drop n).takeWhile isBlank).filter isFixed = [] :=
    List.filter_eq_nil_iff.mpr fun c hc => by
      rw [Rule.not_isFixed_of_isBlank (mem_takeWhile hc)]
      decide
  refine (Alike.refl _).append (Alike.marks (fun h => ?_) ?_ (by decide) (by decide))
  · exact absurd (h '*' List.mem_cons_self) (by decide)
  · rw [List.filter_append, hgap]
    decide

/-- A bracket behind blanks stands in front of a number, if the blanks start there. -/
theorem bracket_short (hx : IsNumber x) {n : Nat} (hn : n < a.length)
    (h : (skipBlanks ((a ++ (x ++ b)).drop n)).head? = some '(') :
    n + (((a ++ (x ++ b)).drop n).takeWhile isBlank).length + 1 ≤ a.length := by
  obtain ⟨tail, htail⟩ := List.head?_eq_some_iff.mp h
  have hdrop : (a ++ (x ++ b)).drop n = a.drop n ++ (x ++ b) := List.drop_append_of_le_length hn.le
  rw [hdrop] at htail ⊢
  have hopen : skipBlanks ((a.drop n ++ (x ++ b)).drop 0) = '(' :: tail := htail
  have htake := take_bracket hopen
  rw [List.take_zero, List.nil_append, Nat.zero_add, List.drop_zero] at htake
  have hshort := short_of_bare (a := a.drop n) (b := b) hx (k := _ + 1) (by
    rw [htake]
    intro c hc
    rcases List.mem_append.mp hc with hc | hc
    · exact Rule.not_isFixed_of_isBlank (mem_takeWhile hc)
    · rw [List.mem_singleton.mp hc]
      decide)
  rw [List.length_drop] at hshort
  omega

/-- Where a solid character stands, no bracket opens. -/
theorem not_open_of_solid {c : Char} {rest : List Char} (hc : isSolid c = true) :
    (skipBlanks (c :: rest)).head? ≠ some '(' := by
  rw [skipBlanks_cons (isBlank_of_isSolid hc)]
  rintro h
  rw [Option.some.inj h] at hc
  exact absurd hc (by decide)

/-- A text that starts in a number between marks has no bracket behind its word or number. -/
theorem not_open_behind {y : List Char} (hy : ∀ c ∈ y, isBlank c = false ∧ c ≠ '(')
    (hb : EndsOperand b) : (skipBlanks (y ++ b)).head? ≠ some '(' := by
  rcases y with _ | ⟨c, y⟩
  · exact hb.not_open
  · obtain ⟨hblank, hne⟩ := hy c List.mem_cons_self
    rw [List.cons_append, skipBlanks_cons hblank]
    exact fun h => hne (Option.some.inj h)

theorem IsNumber.inky (hx : IsNumber x) : ∀ c ∈ x, isBlank c = false ∧ c ≠ '(' := by
  intro c hc
  rcases hx.mem hc with hc | hc | hc
  · refine ⟨isBlank_of_isSolid (isSolid_of_isFigure hc), ?_⟩
    rintro rfl
    exact absurd hc (by decide)
  · rcases isMark_iff.mp hc with rfl | rfl <;> decide
  · rcases isSign_iff.mp hc with rfl | rfl <;> decide

/-- A bracket gets at most a star in front of it. -/
theorem bracketRule_mild {blocked called : List Char → Bool} {length? : List Char → Option Nat}
    {before cs : List Char} {hit : Hit}
    (h : bracketRule blocked length? called before cs = some hit) :
    Alike (cs.take (hit.extra + 1)) hit.text := by
  obtain ⟨n, -, hopen, hextra, htext | htext⟩ := bracketRule_found h
  · rw [hextra, htext]
    exact Alike.refl _
  · rw [hextra, htext]
    exact Alike.bracket hopen

theorem numberBracketRule_spares (hx : IsNumber x) : numberBracketRule.Spares x where
  mild before cs hit h := by
    rw [numberBracketRule_eq_bracketRule] at h
    exact bracketRule_mild h
  hit before a b hit ha hb h := by
    refine Or.inl ?_
    rw [numberBracketRule_eq_bracketRule] at h
    obtain ⟨n, hn, hopen, hextra, -⟩ := bracketRule_found h
    rw [hextra]
    rcases number_reach hx ha.suffix hb hn with hless | hlength | ⟨c, rest, hdrop, hc⟩
    · exact bracket_short hx hless hopen
    · rw [hlength, ← List.append_assoc, List.drop_left] at hopen
      exact absurd hopen hb.not_open
    · rw [hdrop] at hopen
      exact absurd hopen (not_open_of_solid hc)
  quiet before b _ hb _ pre c post hsplit := by
    rw [numberBracketRule_if]
    split
    · rfl
    · rename_i hfree
      have hnumber : IsNumber (c :: post) := hx.inner hsplit fun d hd => by
        obtain ⟨front, rfl⟩ := List.getLast?_eq_some_iff.mp hd
        rw [List.reverse_append] at hfree
        exact Bool.eq_false_iff.mpr hfree
      rw [← List.cons_append, hnumber.append hb.stops, Option.bind_some, List.drop_left,
        if_neg hb.not_open]

theorem nameBracketRule_spares (hx : IsNumber x) : nameBracketRule.Spares x where
  mild before cs hit h := by
    rw [nameBracketRule_eq_bracketRule] at h
    exact bracketRule_mild h
  hit before a b hit ha hb h := by
    refine Or.inl ?_
    rw [nameBracketRule_eq_bracketRule] at h
    obtain ⟨n, hn, hopen, hextra, -⟩ := bracketRule_found h
    rw [hextra]
    refine bracket_short hx ?_ hopen
    -- the name ends at the last mark in front of the number
    rcases List.eq_nil_or_concat a with rfl | ⟨front, s, rfl⟩
    · rw [List.nil_append, nameLength?_number hx] at hn
      cases hn
    rw [List.concat_eq_append] at ha hn ⊢
    have hstop : StopsAt isWord (s :: (x ++ b)) :=
      (stopsAt_cons ha.suffix.last.1).imp fun c hc => by rw [isSolid, hc]; rfl
    rw [nameLength?_eq, List.append_assoc, List.singleton_append,
      takeWhile_append_of_stop front hstop] at hn
    obtain ⟨-, hlength⟩ := Option.ite_none_right_eq_some.mp hn
    have hle := (List.takeWhile_sublist (l := front) isWord).length_le
    rw [← Option.some.inj hlength, List.length_append]
    exact Nat.lt_succ_of_le hle
  quiet before b _ hb _ pre c post hsplit := by
    have hstop : StopsAt isWord b := hb.stops.imp fun c hc => by rw [isSolid, hc]; rfl
    have hinky : ∀ d ∈ (c :: post).dropWhile isWord, isBlank d = false ∧ d ≠ '(' := fun d hd =>
      hx.inky d (by
        rw [hsplit]
        exact List.mem_append_right _ ((List.dropWhile_sublist _).subset hd))
    rw [nameBracketRule_if]
    split
    · rfl
    rw [nameLength?_eq, ← List.cons_append]
    split
    · rw [Option.bind_some, drop_length_takeWhile, dropWhile_append_of_stop _ hstop,
        if_neg (not_open_behind hinky hb)]
    · rfl

end InitialValue.Formula
