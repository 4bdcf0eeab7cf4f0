/-
  Formulas, piece by piece.

  Over the characters that formulas are written with, a piece is a word, a number or a mark.  Whether
  a refused fragment occurs in a formula (`occurs_cut`), which names it has (`scanNames_cut`) and what
  tokens it is cut into (`scanAll_cut`) can be told from its pieces, so blanks between them do not
  matter.  Power signs are written as double stars in the end (`raise`), which are two pieces and one
  token; so tokens are told from the pieces before that.
-/
import InitialValue.Proofs.Formula.Apart
import InitialValue.Proofs.Formula.Fragments

namespace InitialValue.Formula

open InitialValue.Text
open Token (isPlainSolid lexemeMarks scanAll behind behind_map behind_nil)

/-! ## Formulas, piece by piece -/

/-- The marks of formulas. -/
def formulaMarks : List Char := ['(', ')', ',', '+', '-', '*', '/', '^']

/-- A character that formulas are written with. -/
def isFormulaChar (c : Char) : Bool := isBlank c || isPlainSolid c || formulaMarks.contains c

/-- A text over the characters of formulas. -/
def Formulaic (cs : List Char) : Prop := ∀ c ∈ cs, isFormulaChar c = true

/-- A text with its power signs written as double stars. -/
def raise (cs : List Char) : List Char := cs.flatMap fun c => if c = '^' then ['*', '*'] else [c]

section

variable {c : Char} {w cs : List Char}

theorem formulaic_cons (h : Formulaic (c :: cs)) : isFormulaChar c = true ∧ Formulaic cs :=
  List.forall_mem_cons.mp h

theorem formulaic_append (h : Formulaic (w ++ cs)) : Formulaic w ∧ Formulaic cs :=
  List.forall_mem_append.mp h

theorem isSolid_of_plainSolid (h : isPlainSolid c = true) : isSolid c = true := by
  rw [isPlainSolid, Bool.or_eq_true] at h
  rw [isSolid, Bool.or_eq_true]
  exact h.imp_left isWord_of_isPlainWord

theorem isSolid_mark : ∀ x ∈ formulaMarks, isSolid x = false := forall_mem_of_all (by decide)

/-- The solid characters of formulas are plain. -/
theorem plainSolid_of_formula (h : isFormulaChar c = true) (hc : isSolid c = true) :
    isPlainSolid c = true := by
  have hmark : c ∉ formulaMarks := fun hmem => by
    rw [isSolid_mark c hmem] at hc
    cases hc
  simpa [isFormulaChar, isBlank_of_isSolid hc, hmark] using h

/-- What is neither solid nor blank is a mark. -/
theorem mark_of_formula (h : isFormulaChar c = true) (hc : isSolid c = false)
    (hblank : isBlank c = false) : c ∈ formulaMarks := by
  have hplain : isPlainSolid c = false := by
    rw [Bool.eq_false_iff]
    intro hplain
    rw [isSolid_of_plainSolid hplain] at hc
    cases hc
  simpa [isFormulaChar, hblank, hplain] using h

/-- A piece ends in front of a blank or mark. -/
theorem stopsAt_of_formula {q : Char → Bool} (hblank : ∀ x ∈ cs, isBlank x = true → q x = false)
    (hmark : ∀ x ∈ formulaMarks, q x = false) (h : Formulaic cs) (hcs : StopsAt isSolid cs) :
    StopsAt q cs := by
  rcases cs with _ | ⟨c, cs⟩
  · exact stopsAt_nil
  · refine stopsAt_cons ?_
    by_cases hc : isBlank c = true
    · exact hblank c List.mem_cons_self hc
    · exact hmark c (mark_of_formula (h c List.mem_cons_self) (hcs c rfl) (Bool.eq_false_iff.mpr hc))

/-- **Whether a refused fragment occurs** can be told piece by piece. -/
theorem occurs_cut {f : Fragment × String} (hf : f ∈ refusedFragments) (h : Formulaic cs) :
    f.1.occurs cs = (cut cs).any f.1.occurs := by
  have hwall : ∀ {c}, isWall c = true → ∀ cs, f.1.occurs (c :: cs) = f.1.occurs cs :=
    fun {c} hc cs => occurs_walls hf (g := [c]) (fun x hx => by rwa [List.mem_singleton.mp hx]) cs
  induction cs using runs_induction isSolid with
  | nil => rfl
  | other c cs hc ih =>
    obtain ⟨hchar, hcs⟩ := formulaic_cons h
    by_cases hblank : isBlank c = true
    · rw [cut_blank hblank, hwall (isWall_of_isBlank hblank), ih hcs]
    · have hmark := mark_of_formula hchar hc (Bool.eq_false_iff.mpr hblank)
      have hlone : f.1.occurs [c] = false := hwall (isWall_mark hmark) []
      rw [cut_mark (Bool.eq_false_iff.mpr hblank) hc, hwall (isWall_mark hmark), ih hcs,
        List.any_cons, hlone, Bool.false_or]
  | run w cs hne hw hcs ih =>
    obtain ⟨-, hrest⟩ := formulaic_append h
    have hstop : StopsAt (fun c => !isWall c) cs :=
      stopsAt_of_formula (fun x _ hx => by rw [isWall_of_isBlank hx]; rfl)
        (fun x hx => by rw [isWall_mark hx]; rfl) hrest hcs
    rw [cut_run hne hw hcs, occurs_stops hf hstop, ih hrest, List.any_cons]

/-- **The names of a formula** are those of its pieces. -/
theorem scanNames_cut (h : Formulaic cs) {b : Option Char}
    (hb : endsWord b = false ∨ StopsAt isSolid cs) :
    scanNames 0 b cs = (cut cs).flatMap (scanNames 0 none) := by
  induction cs using runs_induction isSolid generalizing b with
  | nil => rfl
  | other c cs hc ih =>
    obtain ⟨hchar, hcs⟩ := formulaic_cons h
    have hword : isWord c = false := (Bool.or_eq_false_iff.mp hc).1
    have hskip : scanNames 0 b (c :: cs) = scanNames 0 (some c) cs := by
      rw [scanNames, isPlainStart_of_isWord hword]
      rfl
    rw [hskip, ih hcs (Or.inl (show endsWord (some c) = false from hword))]
    by_cases hblank : isBlank c = true
    · rw [cut_blank hblank]
    · have hlone : scanNames 0 none [c] = [] := by
        rw [scanNames, isPlainStart_of_isWord hword]
        rfl
      rw [cut_mark (Bool.eq_false_iff.mpr hblank) hc, List.flatMap_cons, hlone, List.nil_append]
  | run w cs hne hw hcs ih =>
    obtain ⟨-, hrest⟩ := formulaic_append h
    have hfree : endsWord b = false := hb.resolve_right (not_stopsAt_run hne hw)
    rw [cut_run hne hw hcs, List.flatMap_cons, scanNames_append (stopsAt_isWord hcs) (Nat.zero_le _),
      scanNames_free (Or.inl hfree), ih hrest (Or.inr hcs)]

/-! ## Double stars for power signs -/

theorem raise_append (xs ys : List Char) : raise (xs ++ ys) = raise xs ++ raise ys :=
  List.flatMap_append

theorem raise_cons (hc : c ≠ '^') (cs : List Char) : raise (c :: cs) = c :: raise cs := by
  rw [raise, List.flatMap_cons, if_neg hc]
  rfl

theorem raise_caret (cs : List Char) : raise ('^' :: cs) = '*' :: '*' :: raise cs := rfl

theorem raise_run (hw : ∀ c ∈ w, isSolid c = true) : raise w = w := by
  induction w with
  | nil => rfl
  | cons c w ih =>
    have hc : c ≠ '^' := by
      rintro rfl
      exact absurd (hw '^' List.mem_cons_self) (by decide)
    rw [raise_cons hc, ih fun x hx => hw x (List.mem_cons_of_mem _ hx)]

/-- A text starts with a star where the other one starts with a power sign. -/
theorem stopsAt_raise {q : Char → Bool} (h : StopsAt q cs) (hstar : q '*' = false) :
    StopsAt q (raise cs) := by
  rcases cs with _ | ⟨c, cs⟩
  · exact stopsAt_nil
  · by_cases hc : c = '^'
    · subst hc
      exact stopsAt_cons hstar
    · rw [raise_cons hc]
      exact stopsAt_cons (h c rfl)

/-- The pieces of a text with double stars. -/
def raisePieces (ws : List (List Char)) : List (List Char) :=
  ws.flatMap fun x => if x = ['^'] then [['*'], ['*']] else [x]

theorem cut_raise (cs : List Char) : cut (raise cs) = raisePieces (cut cs) := by
  have hother : ∀ {x ws}, x ≠ ['^'] → raisePieces (x :: ws) = x :: raisePieces ws := by
    intro x ws hx
    rw [raisePieces, List.flatMap_cons, if_neg hx]
    rfl
  induction cs using runs_induction isSolid with
  | nil => rfl
  | other c cs hc ih =>
    by_cases hblank : isBlank c = true
    · rw [raise_cons (ne_of_isBlank hblank (isBlank_mark (by decide))), cut_blank hblank,
        cut_blank hblank, ih]
    · have hmark := Bool.eq_false_iff.mpr hblank
      rw [cut_mark hmark hc]
      by_cases hcaret : c = '^'
      · subst hcaret
        have hstar : isBlank '*' = false := isBlank_mark (by decide)
        rw [raise_caret, cut_mark hstar (by decide), cut_mark hstar (by decide), ih]
        rfl
      · rw [raise_cons hcaret, cut_mark hmark hc, hother (by simpa using hcaret), ih]
  | run w cs hne hw hcs ih =>
    have hcaret : w ≠ ['^'] := by
      rintro rfl
      exact absurd (hw '^' List.mem_cons_self) (by decide)
    rw [raise_append, raise_run hw, cut_run hne hw hcs, hother hcaret,
      cut_run hne hw (stopsAt_raise hcs (by decide)), ih]

/-! ## Tokens, piece by piece -/

/-- The tokens of pieces, one piece after the other. -/
def tokensOf (ws : List (List Char)) : Option (List Token) :=
  ws.foldr (fun x o => behind (scanAll (raise x)) o) (some [])

/-- No operator stands directly in front of a power sign. -/
def Aired (cs : List Char) : Prop :=
  cs.IsChain fun a b => isMultiplicative a = true → b ≠ '^'

/-- No sign stands directly behind an exponent mark. -/
def Unsigned (cs : List Char) : Prop :=
  cs.IsChain fun a b => a = 'e' ∨ a = 'E' → Decimal.isSign b = false

theorem scanAll_lexeme {rest : List Char} (hc : c ∈ lexemeMarks)
    (hrest : isMultiplicative c = true → StopsAt isMultiplicative rest) :
    scanAll (c :: rest) = (scanAll rest).map (.mark (String.ofList [c]) :: ·) :=
  Token.scan_mark hc hrest _

theorem scanAll_power (rest : List Char) :
    scanAll ('*' :: '*' :: rest) = (scanAll rest).map (.mark "**" :: ·) := by
  have hfuel : rest.length < ('*' :: '*' :: rest).length := by
    rw [List.length_cons, List.length_cons]
    omega
  rw [scanAll, Token.scan_power, Token.scan_eq hfuel]

/-- Behind an operator that is not doubled, none comes. -/
theorem stopsAt_of_calm (hasks : doubles.asks [c] (cut cs) = false)
    (hc : isMultiplicative c = true) : StopsAt isMultiplicative cs := by
  rw [Link.asks, ← head_skipBlanks] at hasks
  refine stopsAt_of_skipBlanks ((stopsAt_of_any hasks).imp fun d hd => ?_)
  rw [doubles_mark, hc, hd]
  rfl

instance : DecidablePred Unsigned := fun cs =>
  inferInstanceAs (Decidable (cs.IsChain fun a b => a = 'e' ∨ a = 'E' → Decimal.isSign b = false))

/-- **The tokens of a formula** are those of its pieces. -/
theorem scanAll_cut (h : Formulaic cs) (hblanks : ∀ c ∈ cs, isBlank c = true → c = ' ')
    (hcalm : Calm doubles (cut cs)) (hair : Aired cs) (hsigns : Unsigned cs) :
    scanAll (raise cs) = tokensOf (cut cs) := by
  induction cs using runs_induction isSolid with
  | nil => rfl
  | other c cs hc ih =>
    obtain ⟨hchar, hcs⟩ := formulaic_cons h
    have hrest := fun hcalm => ih hcs (fun x hx => hblanks x (List.mem_cons_of_mem _ hx)) hcalm
      (List.isChain_cons.mp hair).2 (List.isChain_cons.mp hsigns).2
    by_cases hblank : isBlank c = true
    · obtain rfl := hblanks c List.mem_cons_self hblank
      rw [cut_blank hblank] at hcalm ⊢
      rw [raise_cons (by decide), Token.scanAll_space, hrest hcalm]
    · have hmark := mark_of_formula hchar hc (Bool.eq_false_iff.mpr hblank)
      rw [cut_mark (Bool.eq_false_iff.mpr hblank) hc] at hcalm ⊢
      rw [tokensOf, List.foldr_cons, ← tokensOf]
      by_cases hcaret : c = '^'
      · -- a power sign is written as two stars, which are one token
        subst hcaret
        have hlone : scanAll (raise ['^']) = (some []).map (.mark "**" :: ·) := rfl
        rw [hlone, behind_map, behind_nil, raise_caret, scanAll_power, hrest hcalm.2]
      · have hlexeme : c ∈ lexemeMarks := by
          have hall : ∀ x ∈ formulaMarks, x = '^' ∨ x ∈ lexemeMarks := forall_mem_of_all (by decide)
          exact (hall c hmark).resolve_left hcaret
        have hstop : isMultiplicative c = true → StopsAt isMultiplicative (raise cs) := by
          intro hc
          have hcs := stopsAt_of_calm hcalm.1 hc
          rcases cs with _ | ⟨d, cs⟩
          · exact stopsAt_nil
          · rw [raise_cons ((List.isChain_cons_cons.mp hair).1 hc)]
            exact stopsAt_cons (hcs d rfl)
        have hlone : scanAll (raise [c]) = (some []).map (.mark (String.ofList [c]) :: ·) := by
          rw [raise_cons hcaret]
          exact scanAll_lexeme hlexeme fun _ => stopsAt_nil
        rw [hlone, behind_map, behind_nil, raise_cons hcaret, scanAll_lexeme hlexeme hstop,
          hrest hcalm.2]
  | run w cs hne hw hcs ih =>
    obtain ⟨hrun, hrest⟩ := formulaic_append h
    obtain ⟨-, hairRest, -⟩ := List.isChain_append.mp hair
    obtain ⟨-, hsignsRest, hbetween⟩ := List.isChain_append.mp hsigns
    have hpart : StopsAt isNamePart (raise cs) := by
      have hmarks : ∀ x ∈ formulaMarks, isNamePart x = false := forall_mem_of_all (by decide)
      refine stopsAt_raise (stopsAt_of_formula (fun x hx hblank => ?_) hmarks hrest hcs) (by decide)
      rw [hblanks x (List.mem_append_right _ hx) hblank]
      decide
    have hfinished : Decimal.Finished w (raise cs) := by
      intro hlast
      refine stopsAt_raise (fun d hd => ?_) (by decide)
      rcases hlast with hlast | hlast
      · exact hbetween 'e' hlast d hd (Or.inl rfl)
      · exact hbetween 'E' hlast d hd (Or.inr rfl)
    -- neither a name nor an exponent goes on behind the run
    rw [cut_run hne hw hcs] at hcalm ⊢
    rw [raise_append, raise_run hw, tokensOf, List.foldr_cons, ← tokensOf, raise_run hw,
      Token.scanAll_run (fun c hc => plainSolid_of_formula (hrun c hc) (hw c hc))
        (stopsAt_raise hcs (by decide)) hpart hfinished,
      ih hrest (fun x hx => hblanks x (List.mem_append_right _ hx)) hcalm.2 hairRest hsignsRest]

end

end InitialValue.Formula
