/-
  Numbers that the passes take apart.

  A number with a point in front of a signed exponent never survives.  By itself it goes through most
  passes unchanged, since it is a number without brackets (`Rule.Spares.alone`).  The rule for the
  constant `e` finds no word character on either side of the mark, and the rule for blanks no digit in
  front of it, so the mark is set in lower case and the sign gets its blanks (`normalize_dotted`).
-/
import InitialValue.Proofs.Formula.Literals

namespace InitialValue.Formula

open InitialValue.Text
open Decimal (isSign)

variable {x xs cs m ds : List Char} {c d e s : Char} {r : Rule}

/-! ## Rules that find nothing -/

theorem Rule.find?_ignored (h : ∀ c ∈ xs, r.Ignores c) : r.find? xs = none := by
  have hquiet : ∀ pre c post, xs = pre ++ c :: post →
      r (pre.reverse ++ []) (c :: (post ++ [])) = none := fun pre c post hsplit =>
    h c (by rw [hsplit]; simp) _ _
  have hfind := Rule.findFrom?_append hquiet
  rwa [List.append_nil] at hfind

/-- A rule that finds one character, and can start at no other. -/
theorem Rule.apply_once {front back text : List Char} (hfront : ∀ d ∈ front, r.Ignores d)
    (hhit : r front.reverse (c :: back) = some ⟨0, text⟩) (hback : ∀ d ∈ back, r.Ignores d) :
    r.apply (front ++ c :: back) = front ++ (text ++ back) := by
  have hpass : r.pass 0 front.reverse (c :: back) = text ++ r.pass 0 (c :: front.reverse) back := by
    rw [Rule.pass, hhit]
  rw [Rule.apply, Rule.pass_ignored hfront, List.append_nil, hpass, Rule.pass_ignored_end hback]

/-- A rule that spares a number and finds nothing at its front leaves it as it is. -/
theorem Rule.Spares.alone (hr : r.Spares x) (h : r [] x = none) : r.apply x = x := by
  refine Rule.pass_quiet_end fun pre c post hsplit => ?_
  have hquiet := hr.quiet [] [] (by decide) (by decide) (by rwa [List.append_nil]) pre c post hsplit
  rwa [List.append_nil post] at hquiet

theorem powerSignRule_apply (h : '^' ∉ cs) : powerSignRule.apply cs = cs := by
  refine Rule.pass_quiet_end fun pre c post hsplit => ?_
  refine powerSignRule_none (fun z hz => beq_eq_false_iff_ne.mpr ?_) _
  rintro rfl
  obtain ⟨rest, hrest⟩ := List.head?_eq_some_iff.mp hz
  have hmem : '^' ∈ c :: post := by
    have hsuffix := List.dropWhile_suffix (l := c :: post) isBlank
    rw [show (c :: post).dropWhile isBlank = '^' :: rest from hrest] at hsuffix
    exact hsuffix.mem List.mem_cons_self
  exact h (hsplit ▸ List.mem_append_right pre hmem)

/-- A text between two characters that are no blanks is trimmed already. -/
theorem trim_between (hc : isBlank c = false) (hd : isBlank d = false) {front rest : List Char}
    (hhead : cs = c :: rest) (hlast : cs = front ++ [d]) : trim cs = cs := by
  rw [trim_eq, hhead, skipBlanks_cons hc, ← hhead, hlast, dropEnd_concat hd]

/-! ## A number by itself -/

/-- A number holds no mark that a rule starts at. -/
theorem IsNumber.unmarked (hx : IsNumber x) (hc : c ∈ x) :
    c ≠ ')' ∧ c ≠ '^' ∧ isMultiplicative c = false := by
  rcases hx.mem hc with h | h | h
  · have hsolid := isSolid_of_isFigure h
    refine ⟨?_, ?_, ?_⟩
    · rintro rfl
      exact absurd hsolid (by decide)
    · rintro rfl
      exact absurd hsolid (by decide)
    · rw [Bool.eq_false_iff]
      intro hmark
      rw [isSolid_of_isMultiplicative hmark] at hsolid
      cases hsolid
  · rcases isMark_iff.mp h with rfl | rfl <;> decide
  · rcases isSign_iff.mp h with rfl | rfl <;> decide

/-- **The passes in front of the constant** `e` leave a number by itself as it is. -/
theorem IsNumber.normalize_eq (hx : IsNumber x) : normalize x = .ok (trim (blanksRule.apply
    (powerSignRule.apply (spacingRule.apply (eulerRule.apply x))))) := by
  have hstar : ∀ c ∈ x, c ≠ '*' := by
    rintro c hc rfl
    exact absurd (hx.unmarked hc).2.2 (by decide)
  have htrim : trim x = x := by
    obtain ⟨c, rest, hhead, hc⟩ := hx.head
    obtain ⟨front, d, hlast, hd⟩ := hx.last
    exact trim_between (isBlank_of_isSolid (isSolid_of_isFigure hc))
      (isBlank_of_isSolid (isSolid_of_isFigure hd)) hhead hlast
  have hpowers : spellPowers x = x := by
    have hmarks : powerMarks x = 0 := by
      refine List.countP_eq_zero.mpr fun c hc => ?_
      simp [(hx.unmarked hc).2.1, hstar c hc]
    rw [spellPowers, hmarks]
    rfl
  have hstars : starsRule.apply x = x :=
    Rule.pass_ignored_end (fun c hc => starsRule_ignores (hstar c hc)) []
  have hcheck : checkOperators x = .ok () := by
    rw [checkOperators, Rule.find?_ignored fun c hc => doubledRule_ignores (hx.unmarked hc).2.2]
  have hnames : nameBracketRule.apply x = x := (nameBracketRule_spares hx).alone (by
    have hnone := nameLength?_number hx (b := [])
    rw [List.append_nil] at hnone
    rw [nameBracketRule_if, hnone]
    rfl)
  have hnumbers : numberBracketRule.apply x = x := (numberBracketRule_spares hx).alone (by
    rw [numberBracketRule_if, show numberLength? x = some x.length from hx,
      Option.bind_some, List.drop_length]
    rfl)
  have hbrackets : bracketTermRule.apply x = x :=
    Rule.pass_ignored_end (fun c hc => bracketTermRule_ignores (hx.unmarked hc).1) []
  have hpi : piRule.apply x = x := (piRule_spares hx).alone (by
    obtain ⟨c, rest, rfl, hc⟩ := hx.head
    exact piRule_ignores (not_isPlainStart_of_isFigure hc) [] rest)
  rw [normalize, htrim, hpowers, hstars, hcheck, finish, hnames, hnumbers, hbrackets, hpi]
  rfl

/-! ## The exponent -/

section

variable (hm : ∀ c ∈ m ++ ['.'], isFigure c = true) (hds : ∀ d ∈ ds, isDigit d = true)
  (hs : isSign s = true)
include hm hds hs

/-- Between a point and a sign, the mark is taken for the constant. -/
theorem eulerRule_dotted (he : isMark e = true) :
    eulerRule.apply (m ++ ['.'] ++ e :: s :: ds) = m ++ ['.', 'e'] ++ s :: ds := by
  have hletter : sameLetter 'e' e = true := by
    rcases isMark_iff.mp he with rfl | rfl <;> decide
  have hsign : isWord s = false ∧ isPlainStart s = false := by
    rcases isSign_iff.mp hs with rfl | rfl <;> decide
  have hpoint : isWord '.' = false := by decide
  have hhit : eulerRule (m ++ ['.']).reverse (e :: s :: ds) = some ⟨0, ['e']⟩ := by
    rw [eulerRule_cons, hletter, List.reverse_append]
    simp [endsWord, hsign.1, hpoint]
  rw [Rule.apply_once (fun c hc => eulerRule_ignores (not_isPlainStart_of_isFigure (hm c hc))) hhit
    fun c hc => eulerRule_ignores ?_]
  · simp
  · rcases List.mem_cons.mp hc with rfl | hc
    · exact hsign.2
    · exact not_isPlainStart_of_isFigure (isFigure_of_isDigit (hds c hc))

/-- Behind a point and a mark, the sign gets its blanks. -/
theorem spacingRule_dotted : spacingRule.apply (m ++ ['.', 'e'] ++ s :: ds) =
    m ++ ['.', 'e', ' ', s, ' '] ++ ds := by
  have hfigure : ∀ c, isFigure c = true → isSpaced c = false := by
    have hall : ∀ c ∈ ['+', '-', '*', '/'], isSolid c = false := forall_mem_of_all (by decide)
    intro c hc
    rw [Bool.eq_false_iff]
    intro hspaced
    simp only [isSpaced, Bool.or_eq_true, beq_iff_eq, or_assoc] at hspaced
    have hsolid := hall c (by simpa using hspaced)
    rw [isSolid_of_isFigure hc] at hsolid
    cases hsolid
  have hspaced : isSpaced s = true := by
    rcases isSign_iff.mp hs with rfl | rfl <;> decide
  have hpoint : isDigit '.' = false := by decide
  have hhit : spacingRule (m ++ ['.', 'e']).reverse (s :: ds) = some ⟨0, [' ', s, ' ']⟩ := by
    rw [StateName.spacingRule_cons, List.reverse_append]
    simp [StateName.inExponent, hspaced, hpoint]
  rw [Rule.apply_once (fun c hc => spacingRule_ignores ?_) hhit
    fun c hc => spacingRule_ignores (hfigure c (isFigure_of_isDigit (hds c hc)))]
  · simp
  · rw [List.mem_append, List.mem_pair] at hc
    rcases hc with hc | rfl | rfl
    · exact hfigure c (hm c (List.mem_append_left _ hc))
    · decide
    · decide

/-- The blanks around the sign stay. -/
theorem blanksRule_dotted : blanksRule.apply (m ++ ['.', 'e', ' ', s, ' '] ++ ds) =
    m ++ ['.', 'e', ' ', s, ' '] ++ ds := by
  have hinky : ∀ c, isFigure c = true → isBlank c = false := fun c hc =>
    isBlank_of_isSolid (isSolid_of_isFigure hc)
  have hsign : isBlank s = false := by
    rcases isSign_iff.mp hs with rfl | rfl <;> decide
  have hfront : ∀ c ∈ m ++ ['.', 'e'], blanksRule.Ignores c := by
    intro c hc
    rw [List.mem_append, List.mem_pair] at hc
    rcases hc with hc | rfl | rfl
    · exact blanksRule_ignores (hinky c (hm c (List.mem_append_left _ hc)))
    · exact blanksRule_ignores (by decide)
    · exact blanksRule_ignores (by decide)
  have hback : ∀ d ∈ ds, blanksRule.Ignores d := fun d hd =>
    blanksRule_ignores (hinky d (isFigure_of_isDigit (hds d hd)))
  have hstop : StopsAt isBlank ds := fun d hd =>
    hinky d (isFigure_of_isDigit (hds d (List.mem_of_head? hd)))
  have hnext : StopsAt isBlank (s :: ([' '] ++ ds)) := stopsAt_cons hsign
  have hgap : ∀ c ∈ [' '], isBlank c = true := forall_mem_of_all (by decide)
  have hassoc : m ++ ['.', 'e', ' ', s, ' '] ++ ds =
      m ++ ['.', 'e'] ++ ([' '] ++ s :: ([' '] ++ ds)) := by simp
  obtain ⟨before, hfirst⟩ := pass_run (List.cons_ne_nil ' ' []) hgap ((m ++ ['.', 'e']).reverse ++ []) hnext
  obtain ⟨before', hsecond⟩ := pass_run (List.cons_ne_nil ' ' []) hgap (s :: before) hstop
  rw [hassoc, Rule.apply, Rule.pass_ignored hfront, hfirst,
    Rule.pass_none (blanksRule_ignores hsign _ _), hsecond, Rule.pass_ignored_end hback]
  rfl

omit hs in
theorem trim_dotted (hne : ds ≠ []) : trim (m ++ ['.', 'e', ' ', s, ' '] ++ ds) =
    m ++ ['.', 'e', ' ', s, ' '] ++ ds := by
  obtain ⟨c, rest, hhead⟩ : ∃ c rest, m ++ ['.'] = c :: rest :=
    List.exists_cons_of_ne_nil (by simp)
  obtain ⟨front, d, hlast⟩ := (List.eq_nil_or_concat ds).resolve_left hne
  rw [List.concat_eq_append] at hlast
  have hc := isSolid_of_isFigure (hm c (by rw [hhead]; exact List.mem_cons_self))
  have hd := isSolid_of_isFigure (isFigure_of_isDigit (hds d (by rw [hlast]; simp)))
  have hcons : m ++ ['.', 'e', ' ', s, ' '] ++ ds = c :: (rest ++ ['e', ' ', s, ' '] ++ ds) := by
    rw [← List.cons_append, ← List.cons_append, ← hhead]
    simp
  have hconcat : m ++ ['.', 'e', ' ', s, ' '] ++ ds =
      m ++ ['.', 'e', ' ', s, ' '] ++ front ++ [d] := by rw [hlast, ← List.append_assoc]
  exact trim_between (isBlank_of_isSolid hc) (isBlank_of_isSolid hd) hcons hconcat

end

/-- **A number with a point in front of a signed exponent is taken apart**: the mark is written as the
    constant, and the sign as an operator. -/
theorem normalize_dotted (hx : IsNumber (m ++ '.' :: e :: s :: ds)) (he : isMark e = true)
    (hs : isSign s = true) :
    normalize (m ++ '.' :: e :: s :: ds) = .ok (m ++ ['.', 'e', ' ', s, ' '] ++ ds) := by
  obtain ⟨figures, scale, hsplit, hparts⟩ := hx.split
  have hcut : figures ++ scale = m ++ ['.', e] ++ s :: ds := by
    rw [← hsplit]
    simp
  obtain ⟨mark, -, hfront, -, hne, hds⟩ := hparts.at_sign hcut hs
  have hm : ∀ c ∈ m ++ ['.'], isFigure c = true := by
    have hends : m ++ ['.'] ++ [e] = figures ++ [mark] := by rw [← hfront]; simp
    rw [List.append_inj_left' hends rfl]
    exact hparts.figures
  have hassoc : m ++ '.' :: e :: s :: ds = m ++ ['.'] ++ e :: s :: ds := by simp
  have hcaret : '^' ∉ m ++ ['.', 'e', ' ', s, ' '] ++ ds := by
    intro hmem
    have hcases : '^' ∈ m ∨ '^' = s ∨ '^' ∈ ds := by simpa using hmem
    have hin : '^' ∈ m ++ '.' :: e :: s :: ds := by
      rcases hcases with h | h | h
      · simp [h]
      · simp [← h]
      · simp [h]
    exact (hx.unmarked hin).2.1 rfl
  rw [hx.normalize_eq, hassoc, eulerRule_dotted hm hds hs he, spacingRule_dotted hm hds hs,
    powerSignRule_apply hcaret, blanksRule_dotted hm hds hs, trim_dotted hm hds hne]

end InitialValue.Formula
