/-
  Operands of powers at the front of a text.

  `operandLengths` lists what could be an operand at the front of a text.  Where a phrase that is an
  operand stands there, one entry of the list is its whole text; every other entry stops in front of
  a word character or a bracket (`operandLengths_phrase`), so that nothing can be made of it.  The
  one exception is a name in front of a bracket group without further brackets, which is listed
  together with the group.
-/
import InitialValue.Proofs.Formula.PhraseText

namespace InitialValue.Formula

open InitialValue.Text

/-! ## Groups -/

theorem groupLength?_open (cs : List Char) :
    groupLength? ('(' :: cs) =
      match cs.drop (cs.takeWhile fun c => c != '(' && c != ')').length with
      | ')' :: _ => some ((cs.takeWhile fun c => c != '(' && c != ')').length + 2)
      | _ => none := rfl

theorem groupLength?_flat {inner after : List Char} (h : ∀ c ∈ inner, Phrase.isParen c = false) :
    groupLength? ('(' :: (inner ++ ')' :: after)) = some (inner.length + 2) := by
  have hrun : (inner ++ ')' :: after).takeWhile (fun c => c != '(' && c != ')') = inner := by
    refine takeWhile_append_stop (fun c hc => ?_) (stopsAt_cons rfl)
    have hparen := h c hc
    unfold Phrase.isParen at hparen
    simp only [Bool.or_eq_false_iff] at hparen
    simp only [bne, hparen, Bool.not_false, Bool.and_self]
  rw [groupLength?_open, hrun, List.drop_left]
  rfl

theorem groupLength?_deep {inner rest : List Char} (h : Phrase.FirstOpens true inner) :
    groupLength? ('(' :: (inner ++ rest)) = none := by
  cases h with
  | @opening cs more hcs =>
    have hrun : (cs ++ '(' :: (more ++ rest)).takeWhile (fun c => c != '(' && c != ')') = cs := by
      refine takeWhile_append_stop (fun c hc => ?_) (stopsAt_cons rfl)
      have hparen := hcs c hc
      unfold Phrase.isParen at hparen
      simp only [Bool.or_eq_false_iff] at hparen
      simp only [bne, hparen, Bool.not_false, Bool.and_self]
    rw [List.append_assoc, List.cons_append, groupLength?_open, hrun, List.drop_left]
    rfl

theorem groupLength?_other {c : Char} (h : c ≠ '(') (cs : List Char) :
    groupLength? (c :: cs) = none := by
  unfold groupLength?
  split
  · rename_i heq
    exact absurd (List.cons.inj heq).1 h
  · rfl

/-- A phrase in brackets is a flat group unless it has brackets of its own. -/
theorem groupLength?_phrase (g : Gap) (q : Phrase) (g' : Gap) (rest : List Char) :
    groupLength? ('(' :: (g.text ++ (q.text ++ (g'.text ++ [')'])) ++ rest)) =
      if q.hasBracket then none
      else some ('(' :: (g.text ++ (q.text ++ (g'.text ++ [')'])))).length := by
  have hfirst := q.first_bracket
  rcases hbracket : q.hasBracket with _ | _
  · rw [hbracket] at hfirst
    have hinner : ∀ c ∈ g.text ++ (q.text ++ g'.text), Phrase.isParen c = false := by
      cases hfirst with
      | none hq =>
        intro c hc
        simp only [List.mem_append] at hc
        rcases hc with hc | hc | hc
        · exact Phrase.isParen_of_gap hc
        · exact hq c hc
        · exact Phrase.isParen_of_gap hc
    have hsplit : g.text ++ (q.text ++ (g'.text ++ [')'])) ++ rest =
        (g.text ++ (q.text ++ g'.text)) ++ ')' :: rest := by simp
    rw [hsplit, groupLength?_flat hinner, if_neg (by decide)]
    congr 1
    simp only [List.length_append, List.length_cons, List.length_nil]
    omega
  · rw [hbracket] at hfirst
    have hdeep : Phrase.FirstOpens true (g.text ++ q.text) :=
      hfirst.pass fun c hc => Phrase.isParen_of_gap hc
    have hsplit : g.text ++ (q.text ++ (g'.text ++ [')'])) ++ rest =
        (g.text ++ q.text) ++ (g'.text ++ ')' :: rest) := by simp
    rw [hsplit, groupLength?_deep hdeep, if_pos rfl]

/-! ## Names and numbers -/

theorem nameLength?_other {c : Char} (h : isPlainStart c = false) (cs : List Char) :
    nameLength? (c :: cs) = none := by
  rw [nameLength?, if_neg (by rw [h]; decide)]

/-- A name as the passes find it: word characters of any script behind a plain first one. -/
def IsNameText (w : List Char) : Prop :=
  ∃ c tail, w = c :: tail ∧ isPlainStart c = true ∧ ∀ x ∈ tail, isWord x = true

theorem isNameText_of_plain {w : List Char} (h : isPlainText w = true) : IsNameText w := by
  obtain ⟨c, tail, rfl, hstart, htail⟩ := head_of_isPlainText h
  exact ⟨c, tail, rfl, hstart, fun x hx => isWord_of_isPlainWord (htail x hx)⟩

theorem nameLength?_word {w rest : List Char} (hw : IsNameText w)
    (hrest : StopsAt isWord rest) : nameLength? (w ++ rest) = some w.length := by
  obtain ⟨c, tail, rfl, hstart, htail⟩ := hw
  have hrun : (tail ++ rest).takeWhile isWord = tail := takeWhile_append_stop htail hrest
  rw [List.cons_append, nameLength?, if_pos hstart, hrun]
  rfl

theorem numberLength?_other {c : Char} (hd : isDigit c = false) (hpoint : c ≠ '.')
    (cs : List Char) : numberLength? (c :: cs) = none := by
  have hrun : (c :: cs).takeWhile isDigit = [] := by
    rw [List.takeWhile_cons_of_neg (by rw [hd]; decide)]
  unfold numberLength?
  dsimp only
  rw [hrun]
  split
  · rename_i heq
    exact absurd (List.cons.inj heq).1 hpoint
  · rfl

/-! ## Operands -/

/-- At most characters no operand starts. -/
theorem operandLengths_other {c : Char} (hstart : isPlainStart c = false) (hd : isDigit c = false)
    (hpoint : c ≠ '.') (hopen : c ≠ '(') (cs : List Char) : operandLengths (c :: cs) = [] := by
  unfold operandLengths
  rw [nameLength?_other hstart, numberLength?_other hd hpoint, groupLength?_other hopen]
  rfl

theorem operandLengths_word {w rest : List Char} (hw : isPlainText w = true)
    (hrest : StopsAt isWord rest) :
    operandLengths (w ++ rest) =
      match groupLength? (skipBlanks rest) with
      | some g => [w.length + (rest.takeWhile isBlank).length + g, w.length]
      | none => [w.length] := by
  have hgap : rest.drop (rest.takeWhile isBlank).length = skipBlanks rest :=
    drop_length_takeWhile rest
  have hnumber : numberLength? (w ++ rest) = none ∧ groupLength? (w ++ rest) = none := by
    obtain ⟨c, tail, rfl, hstart, -⟩ := head_of_isPlainText hw
    have hplain := isPlainWord_of_isPlainStart hstart
    exact ⟨numberLength?_other (isDigit_of_isPlainStart hstart) (ne_of_plain hplain (by decide)) _,
      groupLength?_other (ne_of_plain hplain (by decide)) _⟩
  unfold operandLengths
  rw [nameLength?_word (isNameText_of_plain hw) hrest, hnumber.1, hnumber.2]
  dsimp only
  rw [List.drop_left, hgap]
  cases groupLength? (skipBlanks rest) <;> rfl

theorem operandLengths_group (cs : List Char) :
    operandLengths ('(' :: cs) = (groupLength? ('(' :: cs)).toList := by
  unfold operandLengths
  rw [nameLength?_other (by decide), numberLength?_other (by decide) (by decide)]
  rfl

theorem operandLengths_numeral (n : Numeral) (rest : List Char) :
    operandLengths (n.text ++ rest) = (numberLength? (n.text ++ rest)).toList := by
  obtain ⟨c, cs, htext, hc⟩ := n.head
  have hstart : isPlainStart c = false := by
    rcases hc with hc | rfl
    · exact isPlainStart_of_isDigit hc
    · decide
  have hopen : c ≠ '(' := by
    rintro rfl
    rcases hc with hc | hc
    · exact absurd hc (by decide)
    · exact absurd hc (by decide)
  unfold operandLengths
  rw [htext, List.cons_append, nameLength?_other hstart, groupLength?_other hopen]
  simp

/-! ## Phrases as operands -/

/-- Text in front of which no power ends and no power sign stands. -/
def RunsOn (rest : List Char) : Prop :=
  ∃ c more, rest = c :: more ∧ (isWord c = true ∨ c = '(')

/-- No power sign stands in front, blanks passed over. -/
def NoPower (rest : List Char) : Prop := powerSignLength? (skipBlanks rest) = none

theorem powerSignLength?_other {c : Char} (hcaret : c ≠ '^') (hstar : c ≠ '*') (cs : List Char) :
    powerSignLength? (c :: cs) = none := by
  unfold powerSignLength?
  split
  · rename_i heq
    exact absurd (List.cons.inj heq).1 hcaret
  · rename_i heq
    exact absurd (List.cons.inj heq).1 hstar
  · rfl

theorem skipBlanks_cons {c : Char} (h : isBlank c = false) (cs : List Char) :
    skipBlanks (c :: cs) = c :: cs := by
  rw [skipBlanks, List.dropWhile_cons_of_neg (by rw [h]; decide)]

theorem isBlank_of_isWord {c : Char} (h : isWord c = true) : isBlank c = false := by
  rw [Bool.eq_false_iff]
  intro hblank
  rw [isWord_of_isBlank hblank] at h
  cases h

theorem RunsOn.noPower {rest : List Char} (h : RunsOn rest) : NoPower rest := by
  obtain ⟨c, more, rfl, hc⟩ := h
  have hblank : isBlank c = false := by
    rcases hc with hc | rfl
    · exact isBlank_of_isWord hc
    · exact isBlank_mark (by decide)
  unfold NoPower
  rw [skipBlanks_cons hblank]
  refine powerSignLength?_other ?_ ?_ _
  · rintro rfl
    exact hc.elim (fun h => absurd h (by decide)) (fun h => absurd h (by decide))
  · rintro rfl
    exact hc.elim (fun h => absurd h (by decide)) (fun h => absurd h (by decide))

theorem RunsOn.not_endsPower {rest : List Char} (h : RunsOn rest) : endsPower rest = false := by
  obtain ⟨c, more, rfl, hc⟩ := h
  unfold endsPower
  rcases hc with hc | rfl
  · simp [hc]
  · simp

/-- Behind a name or number, nothing follows that it could run on with. -/
def Stops (e : Ending) (rest : List Char) : Prop := e ≠ .bracket → Decimal.Clear rest

theorem stopsAt_isWord {rest : List Char} (h : Decimal.Clear rest) : StopsAt isWord rest :=
  StopsAt.imp h fun c hc => by rw [hc]; rfl

/-- At the front of a call, the call may be an operand, and the name of the function is listed. -/
theorem operandLengths_call (a : Phrase) (f : FunctionName) (cs : List Char)
    (htext : a.text = f.val.toList ++ '(' :: cs) {rest : List Char}
    (hgroup : ∀ k, groupLength? ('(' :: cs ++ rest) = some k → k = ('(' :: cs).length) :
    ∀ m ∈ operandLengths (a.text ++ rest),
      m = a.text.length ∨ RunsOn ((a.text ++ rest).drop m) := by
  intro m hm
  have hblank : isBlank '(' = false := isBlank_mark (by decide)
  have hzero : (List.takeWhile isBlank ('(' :: cs ++ rest)).length = 0 := by
    rw [List.cons_append, List.takeWhile_cons_of_neg (by rw [hblank]; decide)]
    rfl
  have hname : m = f.val.toList.length → RunsOn ((a.text ++ rest).drop m) := by
    rintro rfl
    rw [htext, List.append_assoc, List.drop_left]
    exact ⟨'(', _, rfl, Or.inr rfl⟩
  have hstop : StopsAt isWord ('(' :: cs ++ rest) := stopsAt_cons (by decide)
  rw [htext, List.append_assoc, operandLengths_word (FunctionName.plain f) hstop, hzero,
    List.cons_append, skipBlanks_cons hblank, ← List.cons_append] at hm
  split at hm
  · rename_i k hk
    rcases List.mem_cons.mp hm with hm | hm
    · left
      rw [hm, hgroup k hk, htext]
      simp only [List.length_append, List.length_cons]
      omega
    · exact Or.inr (hname (List.mem_singleton.mp hm))
  · exact Or.inr (hname (List.mem_singleton.mp hm))

/-- **Operands at the front of a phrase that is one.** -/
theorem operandLengths_phrase {a : Phrase} (ha : a.strength = 6) {rest : List Char}
    (hstops : Stops a.ending rest)
    (hname : a.ending = .free → groupLength? (skipBlanks rest) = none) :
    ∀ m ∈ operandLengths (a.text ++ rest),
      m = a.text.length ∨ RunsOn ((a.text ++ rest).drop m) := by
  intro m hm
  rcases Phrase.atom_cases ha with ⟨n, rfl⟩ | ⟨w, rfl⟩ | ⟨f, g, args, g', rfl⟩ | ⟨f, g, rfl⟩ |
    ⟨g, q, g', rfl⟩
  · have hclear : Decimal.Clear rest := hstops Phrase.number_ending
    obtain ⟨p, q, htext, hlength, -, hq⟩ := n.numberLength?_append hclear
    rw [Phrase.text, operandLengths_numeral, hlength] at hm
    rw [Phrase.text, List.mem_singleton.mp hm]
    rcases hq with rfl | ⟨more, rfl⟩
    · left
      rw [htext, List.append_nil]
    · right
      rw [htext, List.append_assoc, List.drop_left]
      exact ⟨'_', more ++ rest, rfl, Or.inl (by decide)⟩
  · have hclear : Decimal.Clear rest := hstops (by simp [Phrase.ending])
    rw [Phrase.text, operandLengths_word w.plain (stopsAt_isWord hclear), hname rfl] at hm
    exact Or.inl (List.mem_singleton.mp hm)
  · exact operandLengths_call (.call f g args g') f (g.text ++ (args.text ++ (g'.text ++ [')'])))
      rfl (by
        intro k hk
        rw [List.cons_append, groupLength?_phrase] at hk
        split at hk
        · cases hk
        · exact (Option.some.inj hk).symm) m hm
  · exact operandLengths_call (.bare f g) f (g.text ++ [')']) rfl (by
      intro k hk
      have hsplit : '(' :: (g.text ++ [')']) ++ rest = '(' :: (g.text ++ ')' :: rest) := by simp
      rw [hsplit, groupLength?_flat fun c hc => Phrase.isParen_of_gap hc] at hk
      rw [← Option.some.inj hk]
      simp) m hm
  · rw [Phrase.text, List.cons_append, operandLengths_group, groupLength?_phrase] at hm
    split at hm
    · cases hm
    · exact Or.inl (List.mem_singleton.mp hm)

end InitialValue.Formula
