/-
  Power signs, doubled operators and products without a sign.

  After the spelling of powers, double stars become power signs, doubled operators are looked for, of
  which lexemes that fit have none, and three rules write the stars of products without a sign, each
  for one kind of seam.

  A name in front of a bracket is taken for a function or gets a star; a number gets one unless its
  pattern stops inside it, at an underscore.
-/
import InitialValue.Proofs.Formula.Room

namespace InitialValue.Formula

open InitialValue.Text

/-! ## Characters of lexemes -/

/-- A mark that stands in no number and no word. -/
def isOuter (c : Char) : Bool := !(isWord c || c == '.' || c == '+' || c == '-')

theorem Numeral.ne {n : Numeral} {c d : Char} (hc : c ∈ n.text) (hd : isOuter d = true) :
    c ≠ d := by
  rintro rfl
  simp only [isOuter, Bool.not_eq_true', Bool.or_eq_false_iff, beq_eq_false_iff_ne] at hd
  obtain ⟨⟨⟨hword, hpoint⟩, hplus⟩, hminus⟩ := hd
  rcases n.mem hc with h | h | h
  · rcases Numeral.word_or_point_of_isBodyChar h with h | h
    · rw [h] at hword
      cases hword
    · exact hpoint h
  · exact hplus h
  · exact hminus h

theorem ne_outer {c d : Char} (hc : isPlainWord c = true) (hd : isOuter d = true) : c ≠ d := by
  rintro rfl
  simp [isOuter, isWord_of_isPlainWord hc] at hd

/-- What has to be known of the characters of a lexeme for a rule to leave it alone. -/
theorem leaves_cases {r : Rule} {d : Char} (hr : ∀ c, c ≠ d → r.Ignores c)
    (hd : isOuter d = true) {l : Lexeme} (hcall : ∀ f, l = .call f → d ≠ '(')
    (hmark : l.starts = false → d ∉ l.text) (hopen : l = .opening → d ≠ '(')
    (hsub : l = .arith .sub → d ≠ '-') : Leaves r l := by
  refine leaves_ignored fun c hc => hr c ?_
  cases l with
  | number n => exact Numeral.ne hc hd
  | name w => exact ne_outer (w.mem hc) hd
  | call f =>
    rcases List.mem_append.mp hc with hc | hc
    · exact ne_outer (FunctionName.mem f hc) hd
    · rw [List.mem_singleton.mp hc]
      exact (hcall f rfl).symm
  | opening =>
    rw [List.mem_singleton.mp hc]
    exact (hopen rfl).symm
  | arith op =>
    cases op with
    | sub =>
      rw [List.mem_singleton.mp hc]
      exact (hsub rfl).symm
    | _ =>
      rintro rfl
      exact hmark rfl hc
  | _ =>
    rintro rfl
    exact hmark rfl hc

/-! ## Double stars -/

/-- The lexeme with a single power sign. -/
def Lexeme.caret : Lexeme → Lexeme
  | power _ => power false
  | l => l

theorem starsRule_ignores {c : Char} (h : c ≠ '*') : starsRule.Ignores c := by
  intro before rest
  unfold starsRule
  split
  · rename_i heq
    exact absurd (List.cons.inj heq).1 h
  · rfl

theorem starsRule_star {rest : List Char} (h : StopsAt (· == '*') rest) (before : List Char) :
    starsRule before ('*' :: rest) = none := by
  unfold starsRule
  split
  · rename_i more heq
    rw [(List.cons.inj heq).2] at h
    cases h '*' rfl
  · rfl

theorem starsRule_single {rest : List Char} (h : StopsAt isMultiplicative (skipBlanks rest))
    (before : List Char) : starsRule before ('*' :: rest) = none := by
  refine starsRule_star (fun c hc => ?_) before
  rw [beq_eq_false_iff_ne]
  rintro rfl
  obtain ⟨more, rfl⟩ := List.head?_eq_some_iff.mp hc
  rw [skipBlanks_cons (isBlank_mark (by decide))] at h
  cases h '*' rfl

theorem starsRule_replaces (l : Lexeme) : Replaces starsRule l l.caret := by
  cases l with
  | power doubled =>
    intro before rest _
    refine ⟨[], [], by simp, by simp, ?_⟩
    cases doubled with
    | false => exact Rule.pass_none (starsRule_ignores (by decide) _ _)
    | true => exact @Rule.pass_hit _ _ '*' ['*'] _ _ rfl
  | arith op =>
    refine Leaves.replaces fun before rest hroom => ?_
    cases op with
    | mul => exact Rule.pass_none (starsRule_single (hroom.next .mul rfl) before)
    | add => exact Rule.pass_none (starsRule_ignores (by decide) _ _)
    | sub => exact Rule.pass_none (starsRule_ignores (by decide) _ _)
    | div => exact Rule.pass_none (starsRule_ignores (by decide) _ _)
  | _ =>
    refine (leaves_cases (d := '*') (fun c hc => starsRule_ignores hc) (by decide) ?_ ?_ ?_
      ?_).replaces
    · exact fun _ _ => by decide
    · simp [Lexeme.starts, Lexeme.text]
    · exact fun _ => by decide
    · exact fun _ => by decide

/-! ## Doubled operators -/

theorem doubledRule_ignores {c : Char} (h : isMultiplicative c = false) : doubledRule.Ignores c := by
  intro before rest
  unfold doubledRule
  dsimp only
  rw [h]
  rfl

theorem doubledRule_single {c : Char} {rest : List Char}
    (h : StopsAt isMultiplicative (skipBlanks rest)) (before : List Char) :
    doubledRule before (c :: rest) = none := by
  have hgap : rest.drop (rest.takeWhile isBlank).length = skipBlanks rest :=
    drop_length_takeWhile rest
  unfold doubledRule
  dsimp only
  split
  · rw [hgap]
    split
    · rename_i d _ heq
      rw [if_neg (by rw [h d (by rw [heq]; rfl)]; decide)]
    · rfl
  · rfl

/-- In a lexeme, no operator is doubled. -/
theorem doubledRule_lexeme {l : Lexeme} (hl : l ≠ .power true) {before rest : List Char}
    (hroom : Room before l rest) {pre post : List Char} {c : Char} (h : l.text = pre ++ c :: post) :
    doubledRule (pre.reverse ++ before) (c :: (post ++ rest)) = none := by
  by_cases hop : ∃ op, l = .arith op
  · obtain ⟨op, rfl⟩ := hop
    rcases pre with _ | ⟨x, pre⟩
    · obtain ⟨rfl, rfl⟩ := List.cons.inj h
      exact doubledRule_single (hroom.next op rfl) before
    · have hlength := congrArg List.length h
      simp [Lexeme.text] at hlength
  · have hc : c ∈ l.text := by rw [h]; simp
    have hne : c ≠ '*' ∧ c ≠ '/' := by
      cases l with
      | number n => exact ⟨Numeral.ne hc (by decide), Numeral.ne hc (by decide)⟩
      | name w => exact ⟨ne_outer (w.mem hc) (by decide), ne_outer (w.mem hc) (by decide)⟩
      | call f =>
        rcases List.mem_append.mp hc with hc | hc
        · have hplain := FunctionName.mem f hc
          exact ⟨ne_outer hplain (by decide), ne_outer hplain (by decide)⟩
        · rw [List.mem_singleton.mp hc]
          decide
      | arith op => exact absurd ⟨op, rfl⟩ hop
      | power doubled =>
        cases doubled with
        | true => exact absurd rfl hl
        | false =>
          rw [List.mem_singleton.mp hc]
          decide
      | joint s => cases hc
      | _ =>
        rw [List.mem_singleton.mp hc]
        decide
    exact doubledRule_ignores (by simp [isMultiplicative, hne]) _ _

/-- **Lexemes that fit have no doubled operator.** -/
theorem checkOperators_spells {ls : List Lexeme} {cs : List Char} (h : Spells isBlank ls cs)
    (hchain : Chained ls) (hpower : .power true ∉ ls) : checkOperators cs = .ok () := by
  have hgap : ∀ g : List Char, (∀ c ∈ g, isBlank c = true) → ∀ before rest,
      doubledRule.findFrom? before (g ++ rest) = doubledRule.findFrom? (g.reverse ++ before) rest := by
    intro g hg before rest
    refine Rule.findFrom?_append fun pre c post hsplit => doubledRule_ignores ?_ _ _
    have hc := hg c (by rw [hsplit]; simp)
    have hstar : c ≠ '*' := ne_of_isBlank hc (isBlank_mark (by decide))
    have hslash : c ≠ '/' := ne_of_isBlank hc (isBlank_mark (by decide))
    simp [isMultiplicative, hstar, hslash]
  have hnone : ∀ before, (∀ b, ls.head? = some b → b.fresh = true → Decimal.Clear before) →
      doubledRule.findFrom? before cs = none := by
    induction h with
    | nil hg =>
      intro before _
      have hfind := hgap _ hg before []
      rw [List.append_nil] at hfind
      rw [hfind]
      rfl
    | cons hg h ih =>
      rename_i g l ls cs
      intro before hbefore
      have hclear : l.fresh = true → Decimal.Clear (g.reverse ++ before) :=
        fun hl => clear_blanks hg (hbefore l rfl hl)
      have hroom := room h hchain hclear
      have hl : l ≠ .power true := by
        rintro rfl
        exact hpower List.mem_cons_self
      rw [hgap _ hg, Rule.findFrom?_append fun pre c post hsplit => doubledRule_lexeme hl hroom hsplit]
      exact ih (List.isChain_cons.mp hchain).2 (fun hmem => hpower (List.mem_cons_of_mem _ hmem)) _
        (clear_next hchain hclear)
  unfold checkOperators Rule.find?
  rw [hnone [] fun _ _ _ => stopsAt_nil]

/-! ## Stars in front of brackets -/

/-- A hit that takes a piece, blanks and a bracket, and puts a star in front of the bracket. -/
theorem pass_star {r : Rule} {w g before tail : List Char} (hne : w ≠ [])
    (h : r before (w ++ (g ++ '(' :: tail)) = some ⟨w.length + g.length, w ++ ['*', '(']⟩)
    (hopen : r.Ignores '(') : r.pass 0 before (w ++ (g ++ '(' :: tail)) =
      w ++ '*' :: r.pass 0 (g.reverse ++ (w.reverse ++ before)) ('(' :: tail) := by
  obtain ⟨c, w', rfl⟩ := List.exists_cons_of_ne_nil hne
  have hsplit : c :: w' ++ (g ++ '(' :: tail) = c :: ((w' ++ (g ++ ['('])) ++ tail) := by simp
  have hlength : (c :: w').length + g.length = (w' ++ (g ++ ['('])).length := by
    simp only [List.length_cons, List.length_append, List.length_nil]
    omega
  rw [hsplit, hlength] at h
  rw [hsplit, Rule.pass_hit h, Rule.pass_none (hopen _ _)]
  simp

/-! ### Operands and brackets -/

/-- What two rules do: behind an operand, an opening bracket gets a star, unless the operand is one
    that is called.  Where `blocked` holds of what stands in front, no operand starts. -/
def bracketRule (blocked : List Char → Bool) (length? : List Char → Option Nat)
    (called : List Char → Bool) : Rule := fun before xs =>
  if blocked before then none
  else (length? xs).bind fun n =>
    if (skipBlanks (xs.drop n)).head? = some '(' then
      some ⟨n + ((xs.drop n).takeWhile isBlank).length,
        if called (xs.take n) then xs.take (n + ((xs.drop n).takeWhile isBlank).length + 1)
        else xs.take n ++ ['*', '(']⟩
    else none

section

variable {blocked : List Char → Bool} {length? : List Char → Option Nat}
variable {called : List Char → Bool} {before cs : List Char} {hit : Hit}

/-- What such a rule finds and writes. -/
theorem bracketRule_found (h : bracketRule blocked length? called before cs = some hit) :
    ∃ n, length? cs = some n ∧ (skipBlanks (cs.drop n)).head? = some '(' ∧
      hit.extra = n + ((cs.drop n).takeWhile isBlank).length ∧
      (hit.text = cs.take (n + ((cs.drop n).takeWhile isBlank).length + 1) ∨
        hit.text = cs.take n ++ ['*', '(']) := by
  obtain ⟨-, h⟩ := Option.ite_none_left_eq_some.mp h
  obtain ⟨n, hn, h⟩ := Option.bind_eq_some_iff.mp h
  obtain ⟨hopen, h⟩ := Option.ite_none_right_eq_some.mp h
  cases h
  exact ⟨n, hn, hopen, rfl, ite_eq_or_eq _ _ _⟩

end

/-! ### Names -/

theorem nameBracketRule_eq (before cs : List Char) : nameBracketRule before cs =
    if endsWord before.head? then none
    else (nameLength? cs).bind fun n =>
      match skipBlanks (cs.drop n) with
      | '(' :: _ =>
        if functionNames.contains (String.ofList (cs.take n)) then
          some ⟨n + ((cs.drop n).takeWhile isBlank).length,
            cs.take (n + ((cs.drop n).takeWhile isBlank).length + 1)⟩
        else some ⟨n + ((cs.drop n).takeWhile isBlank).length, cs.take n ++ ['*', '(']⟩
      | _ => none := by
  have hgap : ∀ xs : List Char, xs.drop (xs.takeWhile isBlank).length = skipBlanks xs :=
    drop_length_takeWhile
  unfold nameBracketRule
  simp only [hgap]
  rfl

theorem nameBracketRule_if (before xs : List Char) : nameBracketRule before xs =
    if endsWord before.head? then none
    else (nameLength? xs).bind fun n =>
      if (skipBlanks (xs.drop n)).head? = some '(' then
        some ⟨n + ((xs.drop n).takeWhile isBlank).length,
          if functionNames.contains (String.ofList (xs.take n)) then
            xs.take (n + ((xs.drop n).takeWhile isBlank).length + 1)
          else xs.take n ++ ['*', '(']⟩
      else none := by
  rw [nameBracketRule_eq]
  congr 2
  funext n
  cases skipBlanks (xs.drop n) with
  | nil => rfl
  | cons c rest =>
    by_cases hc : c = '('
    · subst hc
      rw [if_pos (List.head?_cons ..)]
      show (if _ then some _ else some _) = _
      split <;> rfl
    · simp [hc]

theorem nameBracketRule_eq_bracketRule :
    nameBracketRule = bracketRule (fun before => endsWord before.head?) nameLength?
      fun xs => functionNames.contains (String.ofList xs) := by
  funext before xs
  rw [nameBracketRule_if]
  rfl

theorem nameBracketRule_ignores {c : Char} (h : isPlainStart c = false) :
    nameBracketRule.Ignores c := by
  intro before rest
  rw [nameBracketRule_eq, nameLength?_other h]
  exact ite_self none

theorem nameBracketRule_behind {before : List Char} (h : endsWord before.head? = true)
    (cs : List Char) : nameBracketRule before cs = none := by
  rw [nameBracketRule_eq, if_pos h]

theorem not_endsWord {before : List Char} (h : Decimal.Clear before) :
    endsWord before.head? = false := by
  rcases before with _ | ⟨c, before⟩
  · rfl
  · have hc := h c rfl
    simp only [Bool.or_eq_false_iff] at hc
    exact hc.1

/-- Inside a word, the rule finds nothing. -/
theorem pass_word_behind {r : Rule} (hr : ∀ before cs, endsWord before.head? = true →
      r before cs = none) {w before rest : List Char} (hw : ∀ c ∈ w, isWord c = true)
    (h : r before (w ++ rest) = none) :
    r.pass 0 before (w ++ rest) = w ++ r.pass 0 (w.reverse ++ before) rest :=
  Rule.pass_behind (fun _ _ _ hd => hr _ _ hd) hw h

/-- Over a number, a rule for words finds nothing. -/
theorem pass_number_behind {r : Rule} (hr : ∀ before cs, endsWord before.head? = true →
      r before cs = none) (hstart : ∀ c, isPlainStart c = false → r.Ignores c) (n : Numeral)
    (before rest : List Char) :
    r.pass 0 before (n.text ++ rest) = n.text ++ r.pass 0 (n.text.reverse ++ before) rest := by
  refine Rule.pass_quiet fun pre c post hsplit => ?_
  by_cases hc : isPlainStart c = true
  · obtain ⟨front, d, rfl, hd⟩ := n.behind_word hsplit hc
    rw [List.reverse_append]
    exact hr _ _ hd
  · exact hstart c (Bool.eq_false_iff.mpr hc) _ _

/-- At a word in front of something else than a bracket, the rule finds nothing. -/
theorem nameBracketRule_none {w rest : List Char} (hw : IsNameText w)
    (hrest : StopsAt isWord rest) (h : StopsAt (· == '(') (skipBlanks rest)) (before : List Char) :
    nameBracketRule before (w ++ rest) = none := by
  rw [nameBracketRule_eq, nameLength?_word hw hrest, Option.bind_some, List.drop_left]
  split
  · rfl
  · split
    · rename_i heq
      rw [heq] at h
      cases h '(' rfl
    · rfl

/-- At a word in front of a bracket, the rule writes the word of a function again, and a star behind
    any other. -/
theorem nameBracketRule_bracket {w g tail : List Char} (hw : IsNameText w)
    (hrest : StopsAt isWord (g ++ '(' :: tail)) (hg : ∀ c ∈ g, isBlank c = true)
    {before : List Char} (hbefore : endsWord before.head? = false) :
    nameBracketRule before (w ++ (g ++ '(' :: tail)) =
      if functionNames.contains (String.ofList w) then
        some ⟨w.length + g.length, (w ++ (g ++ '(' :: tail)).take (w.length + g.length + 1)⟩
      else some ⟨w.length + g.length, w ++ ['*', '(']⟩ := by
  have hblank : isBlank '(' = false := isBlank_mark (by decide)
  have hgap : (g ++ '(' :: tail).takeWhile isBlank = g :=
    takeWhile_append_stop hg (stopsAt_cons hblank)
  have hskip : skipBlanks (g ++ '(' :: tail) = '(' :: tail := by
    rw [skipBlanks_blanks hg, skipBlanks_cons hblank]
  rw [nameBracketRule_eq, if_neg (by rw [hbefore]; decide), nameLength?_word hw hrest,
    Option.bind_some, List.drop_left, List.take_left, hgap]
  simp only [hskip]

theorem nameBracketRule_keeps : Keeps nameBracketRule .name := by
  intro before l rest hroom hkeep
  cases l with
  | number n =>
    exact pass_number_behind (fun _ cs h => nameBracketRule_behind h cs)
      (fun c hc => nameBracketRule_ignores hc) n before rest
  | name w =>
    refine pass_word_behind (fun _ cs h => nameBracketRule_behind h cs)
      (word_of_isPlainText w.plain) ?_
    show nameBracketRule before (w.text ++ rest) = none
    exact nameBracketRule_none (isNameText_of_plain w.plain) (stopsAt_isWord (hroom.right rfl))
      (hkeep rfl) before
  | call f =>
    -- the name of a function is written again, and its bracket with it
    have hstop : StopsAt isWord ([] ++ '(' :: rest) := stopsAt_cons (by decide)
    obtain ⟨c, tail, htext, -, -⟩ := FunctionName.head f
    have hsplit : f.val.toList ++ '(' :: rest = (c :: (tail ++ ['('])) ++ rest := by
      rw [htext]
      simp
    have hlength : f.val.toList.length + ([] : List Char).length + 1 =
        (c :: (tail ++ ['('])).length := by
      rw [htext]
      simp
    have hhit : nameBracketRule before (f.val.toList ++ '(' :: rest) =
        some ⟨(tail ++ ['(']).length, c :: (tail ++ ['('])⟩ := by
      have hbracket := nameBracketRule_bracket
        (isNameText_of_plain (FunctionName.plain f)) hstop (fun c hc => by cases hc)
        (not_endsWord (hroom.left rfl))
      rw [if_pos (by rw [String.ofList_toList]; exact f.property), List.nil_append, hlength, hsplit,
        List.take_left, Nat.succ.inj hlength, ← hsplit] at hbracket
      exact hbracket
    rw [hsplit, List.cons_append] at hhit
    rw [Lexeme.text, List.append_assoc, List.singleton_append, hsplit, List.cons_append,
      Rule.pass_hit hhit, htext]
    rfl
  | joint s => rfl
  | arith op => cases op <;> exact Rule.pass_none (nameBracketRule_ignores (by decide) _ _)
  | power doubled =>
    refine Rule.pass_ignored (fun c hc => nameBracketRule_ignores ?_) before rest
    rcases Phrase.mem_powerSign hc with ⟨rfl, -⟩ | ⟨rfl, -⟩ <;> decide
  | _ => exact Rule.pass_none (nameBracketRule_ignores (by decide) _ _)

theorem nameBracketRule_sews : Sews nameBracketRule .name := by
  intro before l g c tail hroom hl hg hc
  rw [beq_iff_eq.mp hc] at hroom ⊢
  cases l with
  | name w =>
    have hne : w.text ≠ [] := by
      obtain ⟨x, xs, htext, -, -⟩ := w.head
      rw [htext]
      exact List.cons_ne_nil _ _
    refine pass_star hne ?_ (nameBracketRule_ignores (by decide))
    show nameBracketRule before (w.text ++ (g ++ '(' :: tail)) = _
    rw [nameBracketRule_bracket (isNameText_of_plain w.plain) (stopsAt_isWord (hroom.right rfl)) hg
      (not_endsWord (hroom.left rfl)), if_neg (by rw [w.free]; decide)]
    rfl
  | _ => cases hl

/-! ### Numbers -/

theorem numberBracketRule_eq (before cs : List Char) : numberBracketRule before cs =
    if before.head?.elim false fun c => isWord c || c == '.' then none
    else (numberLength? cs).bind fun n =>
      match skipBlanks (cs.drop n) with
      | '(' :: _ => some ⟨n + ((cs.drop n).takeWhile isBlank).length, cs.take n ++ ['*', '(']⟩
      | _ => none := by
  have hgap : ∀ xs : List Char, xs.drop (xs.takeWhile isBlank).length = skipBlanks xs :=
    drop_length_takeWhile
  unfold numberBracketRule
  simp only [hgap]
  rfl

theorem numberBracketRule_if (before xs : List Char) : numberBracketRule before xs =
    if before.head?.elim false fun c => isWord c || c == '.' then none
    else (numberLength? xs).bind fun n =>
      if (skipBlanks (xs.drop n)).head? = some '(' then
        some ⟨n + ((xs.drop n).takeWhile isBlank).length, xs.take n ++ ['*', '(']⟩
      else none := by
  rw [numberBracketRule_eq]
  congr 2
  funext n
  cases skipBlanks (xs.drop n) with
  | nil => rfl
  | cons c rest =>
    by_cases hc : c = '('
    · simp [hc]
    · simp [hc]

theorem numberBracketRule_eq_bracketRule :
    numberBracketRule = bracketRule (fun before => before.head?.elim false fun c => isWord c || c == '.')
      numberLength? fun _ => false := by
  funext before xs
  rw [numberBracketRule_if]
  rfl

theorem numberBracketRule_behind (d : Char) (before cs : List Char)
    (h : (isWord d || d == '.') = true) : numberBracketRule (d :: before) cs = none := by
  rw [numberBracketRule_eq]
  exact if_pos h

theorem numberBracketRule_ignores {c : Char} (hd : isDigit c = false) (hpoint : c ≠ '.') :
    numberBracketRule.Ignores c := by
  intro before rest
  rw [numberBracketRule_eq, numberLength?_other hd hpoint]
  exact ite_self none

theorem numberBracketRule_none {p rest : List Char}
    (h : numberLength? (p ++ rest) = some p.length) (hrest : StopsAt (· == '(') (skipBlanks rest))
    (before : List Char) : numberBracketRule before (p ++ rest) = none := by
  rw [numberBracketRule_eq, h, Option.bind_some, List.drop_left]
  split
  · rfl
  · split
    · rename_i heq
      rw [heq] at hrest
      cases hrest '(' rfl
    · rfl

theorem numberBracketRule_bracket {p g tail : List Char}
    (h : numberLength? (p ++ (g ++ '(' :: tail)) = some p.length)
    (hg : ∀ c ∈ g, isBlank c = true) {before : List Char} (hbefore : Decimal.Clear before) :
    numberBracketRule before (p ++ (g ++ '(' :: tail)) =
      some ⟨p.length + g.length, p ++ ['*', '(']⟩ := by
  have hblank : isBlank '(' = false := isBlank_mark (by decide)
  have hgap : (g ++ '(' :: tail).takeWhile isBlank = g :=
    takeWhile_append_stop hg (stopsAt_cons hblank)
  have hskip : skipBlanks (g ++ '(' :: tail) = '(' :: tail := by
    rw [skipBlanks_blanks hg, skipBlanks_cons hblank]
  have hopen : (before.head?.elim false fun c => isWord c || c == '.') = false := by
    rcases before with _ | ⟨c, before⟩
    · rfl
    · exact hbefore c rfl
  rw [numberBracketRule_eq, if_neg (by rw [hopen]; decide), h, Option.bind_some, List.drop_left,
    List.take_left, hgap]
  simp only [hskip]

/-- Where the pattern for numbers stops at an underscore, the rule finds nothing. -/
theorem numberBracketRule_underscore {p q rest : List Char}
    (h : numberLength? (p ++ q ++ rest) = some p.length) (hq : ∃ more, q = '_' :: more)
    (before : List Char) : numberBracketRule before (p ++ q ++ rest) = none := by
  obtain ⟨more, rfl⟩ := hq
  rw [List.append_assoc] at h ⊢
  refine numberBracketRule_none h ?_ before
  rw [List.cons_append, skipBlanks_cons (isBlank_mark (by decide))]
  exact stopsAt_cons (by decide)

theorem isDigit_of_plain {w : List Char} (hw : isPlainText w = true) :
    ∃ c tail, w = c :: tail ∧ isDigit c = false ∧ c ≠ '.' := by
  obtain ⟨c, tail, hsplit, hstart, -⟩ := head_of_isPlainText hw
  exact ⟨c, tail, hsplit, isDigit_of_isPlainStart hstart,
    ne_of_plain (isPlainWord_of_isPlainStart hstart) (by decide)⟩

/-- Over a word, the rule finds nothing. -/
theorem numberBracketRule_word {w : List Char} (hw : isPlainText w = true) (before rest : List Char) :
    numberBracketRule.pass 0 before (w ++ rest) =
      w ++ numberBracketRule.pass 0 (w.reverse ++ before) rest := by
  have hbehind : ∀ before cs, endsWord before.head? = true → numberBracketRule before cs = none := by
    intro before cs h
    rcases before with _ | ⟨d, before⟩
    · cases h
    · exact numberBracketRule_behind d before cs (by rw [show isWord d = true from h]; rfl)
  refine pass_word_behind hbehind (word_of_isPlainText hw) ?_
  obtain ⟨c, tail, rfl, hd, hpoint⟩ := isDigit_of_plain hw
  exact numberBracketRule_ignores hd hpoint _ _

theorem numberBracketRule_keeps : Keeps numberBracketRule .number := by
  intro before l rest hroom hkeep
  cases l with
  | number n =>
    have hclear : Decimal.Clear rest := hroom.right rfl
    have hstop : StopsAt (· == '(') (skipBlanks rest) := hkeep rfl
    refine n.pass_quiet numberBracketRule_behind ?_ fun front sign run _ _ hrun => ?_
    · obtain ⟨p, q, htext, hlength, -, hq⟩ := n.numberLength?_append hclear
      rw [htext] at hlength ⊢
      rcases hq with rfl | hq
      · rw [List.append_nil] at hlength ⊢
        exact numberBracketRule_none hlength hstop before
      · exact numberBracketRule_underscore hlength hq before
    · obtain ⟨p, q, htext, hlength, -, hq⟩ := numberLength?_run hrun hclear
      rw [htext] at hlength ⊢
      rcases hq with rfl | hq
      · rw [List.append_nil] at hlength ⊢
        exact numberBracketRule_none hlength hstop _
      · exact numberBracketRule_underscore hlength hq _
  | name w => exact numberBracketRule_word w.plain before rest
  | call f =>
    have hopen : numberBracketRule.Ignores '(' :=
      numberBracketRule_ignores (by decide) (by decide)
    rw [Lexeme.text, List.append_assoc, numberBracketRule_word (FunctionName.plain f),
      List.singleton_append, Rule.pass_none (hopen _ _)]
    simp
  | joint s => rfl
  | arith op =>
    cases op <;>
      exact Rule.pass_none (numberBracketRule_ignores (by decide) (by decide) _ _)
  | power doubled =>
    refine Rule.pass_ignored (fun c hc => ?_) before rest
    rcases Phrase.mem_powerSign hc with ⟨rfl, -⟩ | ⟨rfl, -⟩ <;>
      exact numberBracketRule_ignores (by decide) (by decide)
  | _ => exact Rule.pass_none (numberBracketRule_ignores (by decide) (by decide) _ _)

/-- In a fragile number, an underscore stands in front of the sign of the exponent and none behind
    it. -/
theorem Numeral.fragile_parts {n : Numeral} (h : n.fragile = true) :
    ∃ front sign run, n.text = front ++ sign :: run ∧ (sign = '+' ∨ sign = '-') ∧
      '_' ∈ front ∧ '_' ∉ run := by
  unfold Numeral.fragile at h
  split at h
  · rename_i sign run hdrop
    have hsplit : n.text = (n.text.takeWhile fun c => c != '+' && c != '-') ++ sign :: run := by
      rw [← hdrop, List.takeWhile_append_dropWhile]
    simp only [Bool.and_eq_true, Bool.not_eq_true', Bool.eq_false_iff, ne_eq,
      List.contains_iff_mem] at h
    refine ⟨_, sign, run, hsplit, ?_, h.1, h.2⟩
    have hsign := stopsAt_dropWhile (p := fun c => c != '+' && c != '-') n.text sign
      (by rw [hdrop]; rfl)
    simpa [bne, or_iff_not_imp_left] using hsign
  · cases h

/-- Where the rule finds nothing at the start of a number, it finds nothing up to the sign of the
    exponent either. -/
theorem numberBracketRule_front {before front rest : List Char} {sign : Char}
    (hbody : ∀ d ∈ front, Numeral.isBodyChar d = true)
    (hhead : numberBracketRule before (front ++ sign :: rest) = none) :
    numberBracketRule.pass 0 before ((front ++ [sign]) ++ rest) = (front ++ [sign]) ++
      numberBracketRule.pass 0 ((front ++ [sign]).reverse ++ before) rest := by
  refine Rule.pass_quiet fun pre x post hpre => ?_
  rcases List.eq_nil_or_concat pre with rfl | ⟨pre, d, rfl⟩
  · have hcut : x :: (post ++ rest) = front ++ sign :: rest := by
      rw [← List.cons_append, ← List.nil_append (x :: post), ← hpre]
      simp
    rw [hcut]
    exact hhead
  · -- further on, a character of the number stands behind
    rw [List.concat_eq_append] at hpre ⊢
    have hd : d ∈ front := by
      have hdrop := congrArg List.dropLast hpre
      rw [List.dropLast_concat] at hdrop
      rw [hdrop]
      cases post <;> simp
    rw [List.reverse_append]
    refine numberBracketRule_behind d _ _ ?_
    rcases Numeral.word_or_point_of_isBodyChar (hbody d hd) with hword | rfl
    · rw [hword]
      rfl
    · rfl

/-- In a fragile number, the rule finds the digits of the exponent, and its star comes behind them. -/
theorem numberBracketRule_fragile {n : Numeral} {before g tail : List Char}
    (hfragile : n.fragile = true) (hg : ∀ c ∈ g, isBlank c = true)
    (hclear : Decimal.Clear (g ++ '(' :: tail))
    (hhead : numberBracketRule before (n.text ++ (g ++ '(' :: tail)) = none) :
    numberBracketRule.pass 0 before (n.text ++ (g ++ '(' :: tail)) =
      n.text ++ '*' :: numberBracketRule.pass 0 (g.reverse ++ (n.text.reverse ++ before))
        ('(' :: tail) := by
  obtain ⟨front, sign, run, hsplit, hsign, -, hrun⟩ := Numeral.fragile_parts hfragile
  obtain ⟨hbody, hdigits, -⟩ := n.at_sign hsplit hsign
  have hcut : n.text ++ (g ++ '(' :: tail) =
      (front ++ [sign]) ++ (run ++ (g ++ '(' :: tail)) := by
    rw [hsplit]
    simp
  have hlength : numberLength? (run ++ (g ++ '(' :: tail)) = some run.length := by
    obtain ⟨ds, q, hds, hlength, -, hq⟩ := numberLength?_run hdigits hclear
    rcases hq with rfl | ⟨more, rfl⟩
    · rw [List.append_nil] at hds
      rwa [hds] at hlength ⊢
    · exact absurd (by rw [hds]; simp) hrun
  have hbehind : Decimal.Clear ((front ++ [sign]).reverse ++ before) := by
    rw [List.reverse_append]
    refine stopsAt_cons ?_
    rcases hsign with rfl | rfl <;> decide
  rw [hcut, numberBracketRule_front hbody (by rw [hsplit] at hhead; simpa using hhead),
    pass_star hdigits.ne_nil (numberBracketRule_bracket hlength hg hbehind)
      (numberBracketRule_ignores (by decide) (by decide)), hsplit]
  simp

theorem numberBracketRule_sews : Sews numberBracketRule .number := by
  intro before l g c tail hroom hl hg hc
  rw [beq_iff_eq.mp hc] at hroom ⊢
  cases l with
  | number n =>
    have hclear : Decimal.Clear (g ++ '(' :: tail) := hroom.right rfl
    obtain ⟨p, q, htext, hlength, hunder, hq⟩ := n.numberLength?_append hclear
    show numberBracketRule.pass 0 before (n.text ++ (g ++ '(' :: tail)) = n.text ++ _
    by_cases hgroups : '_' ∈ n.text
    · -- the pattern stops at the underscore, so the number has to be one with a signed exponent
      have hfragile : n.fragile = true := by
        have hgrouped : n.grouped = false := Bool.not_eq_true' _ ▸ hl
        unfold Numeral.grouped at hgrouped
        rw [List.contains_iff_mem.mpr hgroups] at hgrouped
        simpa using hgrouped
      refine numberBracketRule_fragile hfragile hg hclear ?_
      have hq' : ∃ more, q = '_' :: more := by
        refine hq.resolve_left ?_
        rintro rfl
        rw [List.append_nil] at htext
        exact hunder (htext ▸ hgroups)
      rw [htext] at hlength ⊢
      exact numberBracketRule_underscore hlength hq' before
    · have hp : n.text = p := by
        rcases hq with rfl | ⟨more, rfl⟩
        · rw [htext, List.append_nil]
        · exact absurd (by rw [htext]; simp) hgroups
      have hne : n.text ≠ [] := by
        obtain ⟨x, xs, hx, -⟩ := n.head
        rw [hx]
        exact List.cons_ne_nil _ _
      rw [← hp] at hlength
      exact pass_star hne (numberBracketRule_bracket hlength hg (hroom.left rfl))
        (numberBracketRule_ignores (by decide) (by decide))
  | _ => cases hl

/-! ### Closing brackets -/

theorem bracketTermRule_ignores {c : Char} (h : c ≠ ')') : bracketTermRule.Ignores c := by
  intro before rest
  unfold bracketTermRule
  split
  · rename_i heq
    exact absurd (List.cons.inj heq).1 h
  · rfl

/-- In front of something that starts no term, the rule finds nothing. -/
theorem bracketTermRule_none {rest : List Char} (h : StopsAt startsTerm (skipBlanks rest))
    (before : List Char) : bracketTermRule before (')' :: rest) = none := by
  have hgap : rest.drop (rest.takeWhile isBlank).length = skipBlanks rest :=
    drop_length_takeWhile rest
  unfold bracketTermRule
  simp only [hgap]
  split
  · rename_i c _ heq
    rw [if_neg (by rw [h c (by rw [heq]; rfl)]; decide)]
  · rfl

theorem bracketTermRule_term {rest tail : List Char} {c : Char} (h : skipBlanks rest = c :: tail)
    (hc : startsTerm c = true) (before : List Char) :
    bracketTermRule before (')' :: rest) =
      some ⟨(rest.takeWhile isBlank).length, [')', '*']⟩ := by
  have hgap : rest.drop (rest.takeWhile isBlank).length = skipBlanks rest :=
    drop_length_takeWhile rest
  unfold bracketTermRule
  simp only [hgap, h, hc, if_true]

theorem bracketTermRule_keeps : Keeps bracketTermRule .bracket := by
  intro before l rest hroom hkeep
  by_cases hl : l = .closing
  · subst hl
    exact Rule.pass_none (bracketTermRule_none (hkeep rfl) before)
  · refine leaves_cases (d := ')') (fun c hc => bracketTermRule_ignores hc) (by decide)
      (fun _ _ => by decide) ?_ (fun _ => by decide) (fun _ => by decide) before rest hroom
    cases l with
    | closing => exact absurd rfl hl
    | arith op => cases op <;> simp [Lexeme.text, Arith.mark]
    | power doubled => cases doubled <;> simp [Lexeme.text, powerSign]
    | _ => simp [Lexeme.starts, Lexeme.text]

theorem bracketTermRule_sews : Sews bracketTermRule .bracket := by
  intro before l g c tail hroom hl hg hc
  cases l with
  | closing =>
    have hblank : isBlank c = false := not_blank_of_touches hc
    have hgap : (g ++ c :: tail).takeWhile isBlank = g :=
      takeWhile_append_stop hg (stopsAt_cons hblank)
    have hhit : bracketTermRule before (')' :: (g ++ c :: tail)) = some ⟨g.length, [')', '*']⟩ := by
      have hskip : skipBlanks (g ++ c :: tail) = c :: tail := by
        rw [skipBlanks_blanks hg, skipBlanks_cons hblank]
      rw [bracketTermRule_term hskip hc, hgap]
    show bracketTermRule.pass 0 before (')' :: (g ++ c :: tail)) = _
    rw [Rule.pass_hit hhit]
    simp [Lexeme.text]
  | _ => cases hl

end InitialValue.Formula
