/-
  What asks for a star.

  The three rules that write stars weave, each for neighbours of its own kind: a word in front of a
  bracket unless it names a function (`wordAsks`), a number in front of a bracket (`numberAsks`), and
  a closing bracket in front of a term (`closingAsks`).  A pattern for words may end in the middle of
  a piece, behind a point, and a pattern for numbers may take the sign of an exponent and the piece
  behind it along; in either case the star comes where the last piece ends.

  Doubled operators are neighbours too (`doubles`), and a text passes the check for them if it has
  none (`checkOperators_iff`).
-/
import InitialValue.Proofs.Formula.StateName.Lengths
import InitialValue.Proofs.Formula.Weaving

namespace InitialValue.Formula

open InitialValue.Text
open StateName (mantissaLength? numberLength?_eq signLength_eq)

variable {before x cs : List Char}

theorem stopsAt_of_any {q : Char → Bool} (h : cs.head?.any q = false) : StopsAt q cs := by
  intro c hc
  rw [hc] at h
  exact h

/-! ## Doubled operators -/

/-- An operator in front of another one. -/
def doubles : Link := fun x c => (x == ['*'] || x == ['/']) && isMultiplicative c

theorem doubles_mark (c d : Char) :
    doubles [c] d = (isMultiplicative c && isMultiplicative d) := by
  simp [doubles, isMultiplicative]

theorem isSolid_of_isMultiplicative {c : Char} (h : isMultiplicative c = true) :
    isSolid c = false := by
  unfold isMultiplicative at h
  simp only [Bool.or_eq_true, beq_iff_eq] at h
  rcases h with rfl | rfl <;> decide

theorem isMultiplicative_of_isSolid {c : Char} (h : isSolid c = true) :
    isMultiplicative c = false := by
  rw [Bool.eq_false_iff]
  intro hop
  rw [isSolid_of_isMultiplicative hop] at h
  cases h

theorem isMultiplicative_of_isBlank {c : Char} (h : isBlank c = true) :
    isMultiplicative c = false := by
  have hstar : c ≠ '*' := ne_of_isBlank h (isBlank_mark (by decide))
  have hslash : c ≠ '/' := ne_of_isBlank h (isBlank_mark (by decide))
  simp [isMultiplicative, hstar, hslash]

theorem doubledRule_iff (before : List Char) (c : Char) (cs : List Char) :
    doubledRule before (c :: cs) = none ↔ (skipBlanks cs).head?.any (doubles [c]) = false := by
  have hgap : cs.drop (cs.takeWhile isBlank).length = skipBlanks cs := drop_length_takeWhile cs
  unfold doubledRule
  dsimp only
  rw [hgap]
  by_cases hc : isMultiplicative c = true
  · rw [if_pos hc]
    cases skipBlanks cs with
    | nil => exact ⟨fun _ => rfl, fun _ => rfl⟩
    | cons d rest => by_cases hd : isMultiplicative d = true <;> simp [doubles_mark, hc, hd]
  · rw [if_neg hc]
    cases skipBlanks cs <;> simp [doubles_mark, hc]

theorem findFrom?_doubled (cs before : List Char) :
    doubledRule.findFrom? before cs = none ↔ Calm doubles (cut cs) := by
  induction cs using runs_induction isSolid generalizing before with
  | nil => exact ⟨fun _ => trivial, fun _ => rfl⟩
  | other c cs hc ih =>
    rw [Rule.findFrom?]
    by_cases hblank : isBlank c = true
    · rw [doubledRule_ignores (isMultiplicative_of_isBlank hblank), cut_blank hblank]
      exact ih _
    · rw [cut_mark (Bool.eq_false_iff.mpr hblank) hc, Calm, asks_cut, ← doubledRule_iff before]
      cases doubledRule before (c :: cs) with
      | none => exact (ih _).trans (by simp)
      | some hit => simp
  | run w cs hne hw hcs ih =>
    have hquiet : ∀ d ∈ w, isMultiplicative d = false :=
      fun d hd => isMultiplicative_of_isSolid (hw d hd)
    have hasks : doubles.asks w (cut cs) = false := by
      rw [Bool.eq_false_iff]
      intro hasks
      obtain ⟨c, -, hop⟩ := Link.asks_iff.mp hasks
      have hmark := (Bool.and_eq_true_iff.mp hop).1
      rw [Bool.or_eq_true, beq_iff_eq, beq_iff_eq] at hmark
      rcases hmark with rfl | rfl <;> exact absurd (hw _ List.mem_cons_self) (by decide)
    rw [cut_run hne hw hcs, Calm, hasks, Rule.findFrom?_append fun pre c post hsplit =>
      doubledRule_ignores (hquiet c (by rw [hsplit]; simp)) _ _]
    exact (ih _).trans (by simp)

/-- **A text passes the check for doubled operators** if none of its pieces is an operator in front of
    another one. -/
theorem checkOperators_iff {cs : List Char} :
    checkOperators cs = .ok () ↔ Calm doubles (cut cs) := by
  rw [← findFrom?_doubled cs []]
  unfold checkOperators Rule.find?
  cases doubledRule.findFrom? [] cs <;> simp

/-! ## Closing brackets -/

/-- A closing bracket in front of a term. -/
def closingAsks : Link := fun x c => x == [')'] && startsTerm c

theorem bracketTermRule_weaves : Weaves bracketTermRule closingAsks where
  blank c hc := bracketTermRule_ignores (ne_of_isBlank hc (isBlank_mark (by decide)))
  keep h hquiet := by
    cases h with
    | @mark c cs hblank hsolid =>
      by_cases hc : c = ')'
      · subst hc
        exact Rule.pass_none (bracketTermRule_none (stopsAt_of_any hquiet) _)
      · exact Rule.pass_none (bracketTermRule_ignores hc _ _)
    | run hne hw =>
      refine Rule.pass_ignored (fun c hc => bracketTermRule_ignores ?_) _ _
      rintro rfl
      exact absurd (hw _ hc) (by decide)
  sew h hg hc := by
    rename_i before x g tail c
    obtain ⟨hx, hterm⟩ := Bool.and_eq_true_iff.mp hc
    rw [beq_iff_eq.mp hx]
    have hblank : isBlank c = false := not_blank_of_touches (s := .bracket) hterm
    have hskip : skipBlanks (g ++ c :: tail) = c :: tail := by
      rw [skipBlanks_blanks hg, skipBlanks_cons hblank]
    have hgap : (g ++ c :: tail).takeWhile isBlank = g :=
      takeWhile_append_stop hg (stopsAt_cons hblank)
    have hhit : bracketTermRule before (')' :: (g ++ c :: tail)) = some ⟨g.length, [')', '*']⟩ := by
      rw [bracketTermRule_term hskip hterm, hgap]
    rw [List.singleton_append, Rule.pass_hit hhit]
    simp

/-! ## Words -/

/-- The word that a piece ends with. -/
def lastWord (x : List Char) : List Char := (x.reverse.takeWhile isWord).reverse

theorem lastWord_behind {c : Char} (hc : isWord c = false) (y x : List Char) :
    lastWord (y ++ c :: x) = lastWord x := by
  have hsplit : (y ++ c :: x).reverse = x.reverse ++ c :: y.reverse := by simp
  rw [lastWord, hsplit, takeWhile_append_of_stop _ (stopsAt_cons hc), lastWord]

theorem lastWord_mark {c : Char} (hc : isWord c = false) (x : List Char) :
    lastWord (c :: x) = lastWord x := lastWord_behind hc [] x

theorem lastWord_word {w : List Char} (hw : ∀ c ∈ w, isWord c = true) : lastWord w = w := by
  rw [lastWord, List.takeWhile_eq_self_iff.mpr fun c hc => hw c (List.mem_reverse.mp hc),
    List.reverse_reverse]

theorem mem_lastWord {c : Char} (h : c ∈ lastWord x) : isWord c = true :=
  mem_takeWhile (List.mem_reverse.mp h)

/-- Does a word ask for a star in front of a bracket? -/
def isFactor : List Char → Bool
  | [] => false
  | c :: w => isPlainStart c && !functionNames.contains (String.ofList (c :: w))

/-- A word in front of a bracket, unless it names a function. -/
def wordAsks : Link := fun x c => c == '(' && isFactor (lastWord x)

/-- A word starts like a name or the rule finds nothing at it. -/
theorem isNameText_or {w : List Char} (hne : w ≠ []) (hw : ∀ c ∈ w, isWord c = true) :
    IsNameText w ∨ ∃ c w', w = c :: w' ∧ isPlainStart c = false := by
  obtain ⟨c, w, rfl⟩ := List.exists_cons_of_ne_nil hne
  by_cases hc : isPlainStart c = true
  · exact Or.inl ⟨c, w, rfl, hc, fun x hx => hw x (List.mem_cons_of_mem _ hx)⟩
  · exact Or.inr ⟨c, w, rfl, Bool.eq_false_iff.mpr hc⟩

/-- At a word with no bracket behind it, the rule for words finds nothing. -/
theorem nameBracketRule_quiet {w rest : List Char} (hne : w ≠ []) (hw : ∀ c ∈ w, isWord c = true)
    (hrest : StopsAt isWord rest) (hopen : StopsAt (· == '(') (skipBlanks rest))
    (before : List Char) : nameBracketRule before (w ++ rest) = none := by
  rcases isNameText_or hne hw with hname | ⟨c, w, rfl, hc⟩
  · exact nameBracketRule_none hname hrest hopen before
  · exact nameBracketRule_ignores hc _ _

/-- Over a run of words and points, the rule for words gets to the last word of it. -/
theorem nameBracketRule_front (hx : ∀ c ∈ x, isSolid c = true) (cs : List Char)
    (h : endsWord before.head? = false ∨ StopsAt isWord x) :
    ∃ front, x = front ++ lastWord x ∧
      (endsWord (front.reverse ++ before).head? = false ∨ lastWord x = []) ∧
      nameBracketRule.pass 0 before (x ++ cs) =
        front ++ nameBracketRule.pass 0 (front.reverse ++ before) (lastWord x ++ cs) := by
  induction x using runs_induction isWord generalizing before with
  | nil => exact ⟨[], rfl, Or.inr rfl, rfl⟩
  | other c x hc ih =>
    obtain ⟨front, hsplit, hfront, hpass⟩ := ih (fun d hd => hx d (List.mem_cons_of_mem _ hd))
      (Or.inl (show endsWord (c :: before).head? = false from hc))
    have hstart : isPlainStart c = false := isPlainStart_of_isWord hc
    have hrev : (c :: front).reverse ++ before = front.reverse ++ c :: before := by simp
    refine ⟨c :: front, ?_, ?_, ?_⟩
    · rw [lastWord_mark hc, List.cons_append, ← hsplit]
    · rwa [lastWord_mark hc, hrev]
    · rw [lastWord_mark hc, hrev, List.cons_append, Rule.pass_none (nameBracketRule_ignores hstart _ _),
        hpass, List.cons_append]
  | run w x hne hw hstop ih =>
    have hbefore : endsWord before.head? = false := h.resolve_right (not_stopsAt_run hne hw)
    rcases x with _ | ⟨d, x⟩
    · rw [List.append_nil, lastWord_word hw]
      exact ⟨[], rfl, Or.inl hbefore, rfl⟩
    · -- more of the run comes behind this word, so no bracket does
      have hd : isWord d = false := hstop d rfl
      have hsolid : isSolid d = true := hx d (by simp)
      obtain ⟨front, hsplit, hfront, hpass⟩ := ih (fun e he => hx e (List.mem_append_right _ he))
        (Or.inr hstop)
      have hopen : StopsAt (· == '(') (skipBlanks (d :: (x ++ cs))) := by
        rw [skipBlanks_cons (isBlank_of_isSolid hsolid)]
        refine stopsAt_cons (beq_eq_false_iff_ne.mpr ?_)
        rintro rfl
        exact absurd hsolid (by decide)
      have hquiet : nameBracketRule before (w ++ (d :: x ++ cs)) = none :=
        nameBracketRule_quiet hne hw (stopsAt_cons hd) hopen before
      have hrev : (w ++ front).reverse ++ before = front.reverse ++ (w.reverse ++ before) := by simp
      rw [lastWord_behind hd, ← lastWord_mark hd]
      refine ⟨w ++ front, ?_, ?_, ?_⟩
      · rw [List.append_assoc, ← hsplit]
      · rwa [hrev]
      · rw [hrev, List.append_assoc, pass_word_behind (fun _ cs h => nameBracketRule_behind h cs) hw
          hquiet, hpass, List.append_assoc]

/-- A function in front of its bracket is written again. -/
theorem nameBracketRule_function {w g tail : List Char} (hw : IsNameText w)
    (hfunction : functionNames.contains (String.ofList w) = true)
    (hrest : StopsAt isWord (g ++ '(' :: tail)) (hg : ∀ c ∈ g, isBlank c = true)
    (hbefore : endsWord before.head? = false) :
    nameBracketRule.pass 0 before (w ++ (g ++ '(' :: tail)) =
      w ++ nameBracketRule.pass 0 (w.reverse ++ before) (g ++ '(' :: tail) := by
  have hopen : nameBracketRule.Ignores '(' := nameBracketRule_ignores (by decide)
  have hblank : ∀ c ∈ g, nameBracketRule.Ignores c :=
    fun c hc => nameBracketRule_ignores (isPlainStart_of_isBlank (hg c hc))
  have hhit := nameBracketRule_bracket hw hrest hg hbefore
  rw [if_pos hfunction] at hhit
  have hsplit : w ++ (g ++ '(' :: tail) = (w ++ (g ++ ['('])) ++ tail := by simp
  have hlength : w.length + g.length + 1 = (w ++ (g ++ ['('])).length := by
    simp only [List.length_append, List.length_cons, List.length_nil]
    omega
  have hne : w ++ (g ++ '(' :: tail) ≠ [] := by simp
  rw [Rule.pass_found (Nat.le_add_left 1 (w.length + g.length)) hne hhit, hsplit, hlength,
    List.take_left, List.drop_left, Rule.pass_ignored hblank, Rule.pass_none (hopen _ _)]
  simp

/-- The rule for words writes the last word of a run again, unless it asks for a star. -/
theorem nameBracketRule_last {w : List Char} (hne : w ≠ []) (hw : ∀ c ∈ w, isWord c = true)
    (hcs : StopsAt isWord cs) (hbefore : endsWord before.head? = false)
    (hquiet : (skipBlanks cs).head? = some '(' → isFactor w = false) :
    nameBracketRule.pass 0 before (w ++ cs) =
      w ++ nameBracketRule.pass 0 (w.reverse ++ before) cs := by
  have hbehind : ∀ before cs, endsWord before.head? = true → nameBracketRule before cs = none :=
    fun _ cs h => nameBracketRule_behind h cs
  by_cases hopen : (skipBlanks cs).head? = some '('
  · have hfactor := hquiet hopen
    rcases isNameText_or hne hw with ⟨c, w, rfl, hstart, hmore⟩ | ⟨c, w, rfl, hc⟩
    · obtain ⟨tail, htail⟩ := List.head?_eq_some_iff.mp hopen
      obtain ⟨g, hg, hsplit⟩ := exists_gap cs
      rw [htail] at hsplit
      subst hsplit
      rw [isFactor, hstart, Bool.true_and, Bool.not_eq_false'] at hfactor
      exact nameBracketRule_function ⟨c, w, rfl, hstart, hmore⟩ hfactor hcs hg hbefore
    · exact pass_word_behind hbehind hw (nameBracketRule_ignores hc _ _)
  · refine pass_word_behind hbehind hw (nameBracketRule_quiet hne hw hcs (fun c hc => ?_) before)
    rw [beq_eq_false_iff_ne]
    rintro rfl
    exact hopen hc

theorem nameBracketRule_weaves : Weaves nameBracketRule wordAsks where
  blank c hc := nameBracketRule_ignores (isPlainStart_of_isBlank hc)
  keep h hquiet := by
    rename_i before x cs
    cases h with
    | @mark c cs hblank hsolid =>
      have hword : isWord c = false := (Bool.or_eq_false_iff.mp hsolid).1
      exact Rule.pass_none (nameBracketRule_ignores (isPlainStart_of_isWord hword) _ _)
    | run hne hw hbefore hcs =>
      obtain ⟨front, hsplit, hfront, hpass⟩ :=
        nameBracketRule_front hw cs (Or.inl (not_endsWord hbefore))
      have hlast : nameBracketRule.pass 0 (front.reverse ++ before) (lastWord x ++ cs) =
          lastWord x ++ nameBracketRule.pass 0 (x.reverse ++ before) cs := by
        conv_rhs => rw [hsplit, List.reverse_append, List.append_assoc, ← hsplit]
        by_cases hempty : lastWord x = []
        · rw [hempty]
          rfl
        · refine nameBracketRule_last hempty (fun _ => mem_lastWord) (stopsAt_isWord hcs)
            (hfront.resolve_right hempty) fun hopen => ?_
          rw [hopen] at hquiet
          exact hquiet
      rw [hpass, hlast, ← List.append_assoc, ← hsplit]
  sew h hg hc := by
    rename_i before x g tail c
    obtain ⟨hopen, hfactor⟩ := Bool.and_eq_true_iff.mp hc
    rw [beq_iff_eq.mp hopen] at h ⊢
    obtain ⟨d, w, hlast, hstart, hfunction⟩ : ∃ d w, lastWord x = d :: w ∧ isPlainStart d = true ∧
        functionNames.contains (String.ofList (d :: w)) = false := by
      rcases hlast : lastWord x with _ | ⟨d, w⟩
      · rw [hlast] at hfactor
        cases hfactor
      · rw [hlast, isFactor, Bool.and_eq_true, Bool.not_eq_true'] at hfactor
        exact ⟨d, w, rfl, hfactor⟩
    cases h with
    | @mark e cs hblank hsolid =>
      rw [lastWord_mark (Bool.or_eq_false_iff.mp hsolid).1] at hlast
      cases hlast
    | run hne hw hbefore hcs =>
      obtain ⟨front, hsplit, hfront, hpass⟩ :=
        nameBracketRule_front hw (g ++ '(' :: tail) (Or.inl (not_endsWord hbefore))
      have hname : IsNameText (lastWord x) :=
        ⟨d, w, hlast, hstart, fun c hc => mem_lastWord (by rw [hlast]; exact List.mem_cons_of_mem _ hc)⟩
      have hne' : lastWord x ≠ [] := by
        rw [hlast]
        exact List.cons_ne_nil _ _
      have hhit := nameBracketRule_bracket hname (stopsAt_isWord hcs) hg (hfront.resolve_right hne')
      rw [if_neg (by rw [hlast, hfunction]; decide)] at hhit
      rw [hpass, pass_star hne' hhit (nameBracketRule_ignores (by decide))]
      conv_rhs => rw [hsplit, List.reverse_append, List.append_assoc, List.append_assoc]

/-! ## Numbers -/

theorem isSolid_of_isDigit {c : Char} (h : isDigit c = true) : isSolid c = true := by
  rw [isSolid, isWord_of_isDigit h]
  rfl

/-- No number begins with a mark. -/
theorem isDigit_of_mark {c : Char} (h : isSolid c = false) : isDigit c = false ∧ c ≠ '.' := by
  constructor
  · rw [Bool.eq_false_iff]
    intro hd
    rw [isSolid_of_isDigit hd] at h
    cases h
  · rintro rfl
    exact absurd h (by decide)

theorem mantissaLength?_append (x : List Char) (hcs : StopsAt isSolid cs) :
    mantissaLength? (x ++ cs) = mantissaLength? x := by
  have hdigits : StopsAt isDigit cs := hcs.imp fun _ => isSolid_of_isDigit
  have hrun : ∀ y : List Char, (y ++ cs).takeWhile isDigit = y.takeWhile isDigit :=
    fun y => takeWhile_append_of_stop y hdigits
  have hle : (x.takeWhile isDigit).length ≤ x.length := (List.takeWhile_sublist _).length_le
  have hpoint : ((x ++ cs).drop (x.takeWhile isDigit).length).head? = some '.' ↔
      (x.drop (x.takeWhile isDigit).length).head? = some '.' := by
    rw [List.drop_append_of_le_length hle]
    cases x.drop (x.takeWhile isDigit).length with
    | nil =>
      refine ⟨fun h => ?_, fun h => by cases h⟩
      exact absurd (hcs '.' h) (by decide)
    | cons c rest => exact Iff.rfl
  unfold mantissaLength?
  simp only [hrun, hpoint]
  by_cases h : (x.drop (x.takeWhile isDigit).length).head? = some '.'
  · have hless : (x.takeWhile isDigit).length + 1 ≤ x.length := by
      by_contra hmore
      rw [List.drop_of_length_le (by omega)] at h
      cases h
    rw [List.drop_append_of_le_length hless, hrun]
  · rw [if_neg h, if_neg h]

theorem le_of_mantissaLength? {n : Nat} (h : mantissaLength? x = some n) : n ≤ x.length := by
  have hle : (x.takeWhile isDigit).length ≤ x.length := (List.takeWhile_sublist _).length_le
  unfold mantissaLength? at h
  dsimp only at h
  split at h
  · rename_i hpoint
    have hless : (x.takeWhile isDigit).length + 1 ≤ x.length := by
      by_contra hmore
      rw [List.drop_of_length_le (by omega)] at hpoint
      cases hpoint
    have hfraction : ((x.drop ((x.takeWhile isDigit).length + 1)).takeWhile isDigit).length ≤ _ :=
      (List.takeWhile_sublist isDigit).length_le
    rw [List.length_drop] at hfraction
    split at h
    · cases h
    · have hn := Option.some.inj h
      omega
  · split at h
    · cases h
    · have hn := Option.some.inj h
      omega

theorem signLength_le (x : List Char) : signLength x ≤ x.length := by
  rw [signLength_eq]
  cases x with
  | nil => simp
  | cons c x =>
    rw [List.length_cons]
    split <;> omega

theorem exponentLength_le (x : List Char) : exponentLength x ≤ x.length := by
  rcases x with _ | ⟨e, x⟩
  · exact Nat.le_refl 0
  · have hsign := signLength_le x
    have hdigits : ((x.drop (signLength x)).takeWhile isDigit).length ≤ _ :=
      (List.takeWhile_sublist isDigit).length_le
    rw [List.length_drop] at hdigits
    rw [exponentLength_cons, List.length_cons]
    split
    · split <;> omega
    · omega

theorem le_of_numberLength? {n : Nat} (h : numberLength? x = some n) : n ≤ x.length := by
  rw [numberLength?_eq, Option.map_eq_some_iff] at h
  obtain ⟨m, hm, rfl⟩ := h
  have hle := le_of_mantissaLength? hm
  have hexponent := exponentLength_le (x.drop m)
  rw [List.length_drop] at hexponent
  omega

/-- What an exponent mark at the end of a run can take along: a sign and the digits behind it. -/
structure SignedDigits (cs : List Char) (sign : Char) (ds rest : List Char) : Prop where
  split : cs = sign :: (ds ++ rest)
  sign : sign = '+' ∨ sign = '-'
  ne : ds ≠ []
  digits : ∀ d ∈ ds, isDigit d = true
  stops : StopsAt isDigit rest

theorem signLength_of_solid {d : Char} (hd : isSolid d = true) (y : List Char) :
    signLength (d :: y) = 0 := by
  rw [signLength_eq, if_neg]
  rintro (h | h)
  · rw [Option.some.inj h] at hd
    exact absurd hd (by decide)
  · rw [Option.some.inj h] at hd
    exact absurd hd (by decide)

/-- Digits that a run does not go on with stand behind a sign. -/
theorem signed_of_digits (hcs : StopsAt isSolid cs)
    (h : (cs.drop (signLength cs)).takeWhile isDigit ≠ []) :
    signLength cs = 1 ∧ ∃ sign rest,
      SignedDigits cs sign ((cs.drop (signLength cs)).takeWhile isDigit) rest := by
  rcases cs with _ | ⟨sign, cs⟩
  · exact absurd rfl h
  by_cases hsign : sign = '+' ∨ sign = '-'
  · have hone : signLength (sign :: cs) = 1 := by rcases hsign with rfl | rfl <;> rfl
    rw [hone] at h ⊢
    exact ⟨rfl, sign, cs.dropWhile isDigit, by rw [List.drop_one, List.tail_cons,
      List.takeWhile_append_dropWhile], hsign, h, fun d hd => mem_takeWhile hd, stopsAt_dropWhile cs⟩
  · have hzero : signLength (sign :: cs) = 0 := by
      rw [signLength_eq, if_neg (by simpa using hsign)]
    have hdigit : isDigit sign = false := hcs.imp (fun _ => isSolid_of_isDigit) sign rfl
    rw [hzero, List.drop_zero, List.takeWhile_cons_of_neg (by rw [hdigit]; decide)] at h
    exact absurd rfl h

/-- What stands behind an exponent mark is looked at only if the mark is all of the piece. -/
theorem exponentLength_append (hx : ∀ c ∈ x, isSolid c = true) (hcs : StopsAt isSolid cs) :
    exponentLength (x ++ cs) = exponentLength x ∨
      ∃ e sign ds rest, x = [e] ∧ SignedDigits cs sign ds rest ∧
        exponentLength (x ++ cs) = 2 + ds.length := by
  rcases x with _ | ⟨e, _ | ⟨d, x⟩⟩
  · -- no exponent mark is in front of a piece
    left
    rcases cs with _ | ⟨c, cs⟩
    · rfl
    · have hc : (c == 'e' || c == 'E') = false := by
        rw [Bool.eq_false_iff]
        intro he
        rw [Bool.or_eq_true, beq_iff_eq, beq_iff_eq] at he
        rcases he with rfl | rfl <;> exact absurd (hcs _ rfl) (by decide)
      rw [List.nil_append, exponentLength_cons, hc]
      rfl
  · rw [List.singleton_append, exponentLength_cons, exponentLength_cons]
    by_cases hmark : (e == 'e' || e == 'E') = true
    · rw [if_pos hmark, if_pos hmark]
      by_cases hempty : ((cs.drop (signLength cs)).takeWhile isDigit).isEmpty = true
      · rw [if_pos hempty]
        exact Or.inl rfl
      · rw [if_neg hempty]
        obtain ⟨hone, sign, rest, hsigned⟩ := signed_of_digits hcs (mt List.isEmpty_iff.mpr hempty)
        refine Or.inr ⟨e, sign, _, rest, rfl, hsigned, ?_⟩
        rw [hone]
    · rw [if_neg hmark, if_neg hmark]
      exact Or.inl rfl
  · left
    have hd : isSolid d = true := hx d (by simp)
    have hrun := takeWhile_append_of_stop (d :: x) (hcs.imp fun _ => isSolid_of_isDigit)
    rw [List.cons_append] at hrun
    rw [List.cons_append, List.cons_append, exponentLength_cons, exponentLength_cons,
      signLength_of_solid hd, signLength_of_solid hd, List.drop_zero, List.drop_zero, hrun]

/-- **A pattern for numbers stops where its piece does**, or takes the sign and the digits of an
    exponent along. -/
theorem numberLength?_piece (hx : ∀ c ∈ x, isSolid c = true) (hcs : StopsAt isSolid cs) :
    numberLength? (x ++ cs) = numberLength? x ∨
      ∃ sign ds rest, SignedDigits cs sign ds rest ∧
        numberLength? (x ++ cs) = some (x ++ sign :: ds).length := by
  rw [numberLength?_eq, numberLength?_eq, mantissaLength?_append x hcs]
  rcases hm : mantissaLength? x with _ | m
  · exact Or.inl rfl
  have hle := le_of_mantissaLength? hm
  rw [Option.map_some, Option.map_some, List.drop_append_of_le_length hle]
  rcases exponentLength_append (x := x.drop m) (fun c hc => hx c (List.mem_of_mem_drop hc)) hcs with
    h | ⟨e, sign, ds, rest, hmark, hsigned, h⟩
  · rw [h]
    exact Or.inl rfl
  · refine Or.inr ⟨sign, ds, rest, hsigned, ?_⟩
    have hlength := congrArg List.length hmark
    rw [List.length_drop, List.length_singleton] at hlength
    rw [h, List.length_append, List.length_cons]
    congr 1
    omega

/-- A number in front of a bracket. -/
def numberAsks : Link := fun x c => c == '(' && numberLength? x == some x.length

theorem stopsAt_bracket {g tail : List Char} (hg : ∀ c ∈ g, isBlank c = true) :
    StopsAt isSolid (g ++ '(' :: tail) := by
  rcases g with _ | ⟨c, g⟩
  · exact stopsAt_cons (by decide)
  · exact stopsAt_cons (isSolid_of_isBlank (hg c List.mem_cons_self))

/-- In front of a bracket, a pattern for numbers takes no exponent along. -/
theorem numberLength?_bracket {g tail : List Char} (hx : ∀ c ∈ x, isSolid c = true)
    (hg : ∀ c ∈ g, isBlank c = true) : numberLength? (x ++ (g ++ '(' :: tail)) = numberLength? x := by
  refine (numberLength?_piece hx (stopsAt_bracket hg)).resolve_right ?_
  rintro ⟨sign, ds, rest, hsigned, -⟩
  have hsign := hsigned.sign
  rcases g with _ | ⟨c, g⟩
  · rw [← (List.cons.inj hsigned.split).1] at hsign
    revert hsign
    decide
  · have hblank := hg c List.mem_cons_self
    rw [(List.cons.inj hsigned.split).1] at hblank
    rcases hsign with rfl | rfl <;> exact absurd hblank (by decide)

theorem numberLength?_digits {ds : List Char} (hne : ds ≠ []) (hds : ∀ d ∈ ds, isDigit d = true) :
    numberLength? ds = some ds.length := by
  have hrun : ds.takeWhile isDigit = ds := List.takeWhile_eq_self_iff.mpr hds
  have hlength : ds.length ≠ 0 := fun h => hne (List.length_eq_zero_iff.mp h)
  rw [numberLength?_eq, mantissaLength?]
  simp only [hrun, List.drop_length]
  simp [hlength, exponentLength]

/-- The rule for numbers puts a star in front of a bracket. -/
theorem pass_number_star {g tail : List Char} (hne : x ≠ [])
    (hx : numberLength? (x ++ (g ++ '(' :: tail)) = some x.length)
    (hg : ∀ c ∈ g, isBlank c = true) (hbefore : Decimal.Clear before) :
    numberBracketRule.pass 0 before (x ++ (g ++ '(' :: tail)) =
      x ++ '*' :: numberBracketRule.pass 0 (g.reverse ++ (x.reverse ++ before)) ('(' :: tail) :=
  pass_star hne (numberBracketRule_bracket hx hg hbefore)
    (numberBracketRule_ignores (by decide) (by decide))

/-- Where the rule for numbers finds nothing at the front of a piece, it finds nothing in it. -/
theorem pass_number_quiet (hx : ∀ c ∈ x, isSolid c = true)
    (hnone : numberBracketRule before (x ++ cs) = none) :
    numberBracketRule.pass 0 before (x ++ cs) =
      x ++ numberBracketRule.pass 0 (x.reverse ++ before) cs :=
  Rule.pass_behind (fun d _ _ hd => numberBracketRule_behind d _ _ hd) hx hnone

/-- A number that goes on behind a sign gets its star where the piece behind the sign gets it. -/
theorem pass_number_signed (hx : ∀ c ∈ x, isSolid c = true)
    (hbefore : Decimal.Clear before) {sign : Char} {ds rest : List Char}
    (hsigned : SignedDigits cs sign ds rest)
    (hlength : numberLength? (x ++ cs) = some (x ++ sign :: ds).length) :
    numberBracketRule.pass 0 before (x ++ cs) =
      x ++ numberBracketRule.pass 0 (x.reverse ++ before) cs := by
  obtain ⟨hsplit, hsign, hdigits, hds, -⟩ := hsigned
  have hcut : x ++ cs = (x ++ sign :: ds) ++ rest := by
    rw [hsplit]
    simp
  by_cases hopen : (skipBlanks rest).head? = some '('
  · -- both ways the star stands in front of the bracket
    obtain ⟨tail, htail⟩ := List.head?_eq_some_iff.mp hopen
    obtain ⟨g, hg, hrest⟩ := exists_gap rest
    rw [htail] at hrest
    subst hrest
    have hmark : isDigit sign = false ∧ isSolid sign = false ∧ sign ≠ '.' := by
      rcases hsign with rfl | rfl <;> decide
    have hrun : numberLength? (ds ++ (g ++ '(' :: tail)) = some ds.length := by
      rw [numberLength?_bracket (fun d hd => isSolid_of_isDigit (hds d hd)) hg,
        numberLength?_digits hdigits hds]
    rw [hcut] at hlength
    rw [hcut, pass_number_star (by simp) hlength hg hbefore, hsplit,
      Rule.pass_none (numberBracketRule_ignores hmark.1 hmark.2.2 _ _),
      pass_number_star hdigits hrun hg (stopsAt_cons hmark.2.1)]
    simp
  · refine pass_number_quiet hx ?_
    rw [hcut] at hlength ⊢
    refine numberBracketRule_none hlength (fun c hc => beq_eq_false_iff_ne.mpr ?_) before
    rintro rfl
    exact hopen hc

/-- Where a piece is no number in front of a bracket, the rule for numbers finds nothing. -/
theorem numberBracketRule_short {n : Nat} (hx : ∀ c ∈ x, isSolid c = true)
    (hn : numberLength? x = some n) (hlength : numberLength? (x ++ cs) = some n)
    (hquiet : n = x.length → StopsAt (· == '(') (skipBlanks cs)) (before : List Char) :
    numberBracketRule before (x ++ cs) = none := by
  have hle := le_of_numberLength? hn
  have hfront : (x.take n).length = n := by rw [List.length_take, Nat.min_eq_left hle]
  have hsplit : x ++ cs = x.take n ++ (x.drop n ++ cs) := by
    rw [← List.append_assoc, List.take_append_drop]
  rw [hsplit] at hlength ⊢
  refine numberBracketRule_none (by rw [hfront]; exact hlength) ?_ before
  rcases hrest : x.drop n with _ | ⟨d, rest⟩
  · have hfull := List.drop_eq_nil_iff.mp hrest
    exact hquiet (by omega)
  · have hd : isSolid d = true := hx d (List.mem_of_mem_drop (by rw [hrest]; simp))
    rw [List.cons_append, skipBlanks_cons (isBlank_of_isSolid hd)]
    refine stopsAt_cons (beq_eq_false_iff_ne.mpr ?_)
    rintro rfl
    exact absurd hd (by decide)

theorem numberBracketRule_weaves : Weaves numberBracketRule numberAsks where
  blank c hc :=
    numberBracketRule_ignores (isDigit_of_isBlank hc) (ne_of_isBlank hc (isBlank_mark (by decide)))
  keep h hquiet := by
    rename_i before x cs
    cases h with
    | @mark c cs hblank hsolid =>
      obtain ⟨hdigit, hpoint⟩ := isDigit_of_mark hsolid
      exact Rule.pass_none (numberBracketRule_ignores hdigit hpoint _ _)
    | run hne hw hbefore hcs =>
      rcases numberLength?_piece hw hcs with hsame | ⟨sign, ds, rest, hsigned, hlength⟩
      · refine pass_number_quiet hw ?_
        rcases hn : numberLength? x with _ | n
        · rw [numberBracketRule_eq, hsame, hn]
          exact ite_self none
        · refine numberBracketRule_short hw hn (hsame.trans hn) ?_ before
          rintro rfl
          refine (stopsAt_of_any hquiet).imp fun c hc => ?_
          rw [numberAsks, hn, beq_iff_eq.mp hc]
          simp
      · exact pass_number_signed hw hbefore hsigned hlength
  sew h hg hc := by
    rename_i before x g tail c
    obtain ⟨hopen, hnumber⟩ := Bool.and_eq_true_iff.mp hc
    rw [beq_iff_eq.mp hopen] at h ⊢
    rw [beq_iff_eq] at hnumber
    cases h with
    | @mark d cs _ hsolid =>
      obtain ⟨hdigit, hpoint⟩ := isDigit_of_mark hsolid
      rw [show [d] = d :: [] from rfl, numberLength?_other hdigit hpoint] at hnumber
      cases hnumber
    | run hne hw hbefore hcs =>
      exact pass_number_star hne (by rw [numberLength?_bracket hw hg, hnumber]) hg hbefore

end InitialValue.Formula
