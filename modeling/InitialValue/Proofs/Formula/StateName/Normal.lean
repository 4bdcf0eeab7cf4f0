/-
  The normal text of a formula, whatever its state is called.

  The power rule finds an operand, a sign and an exponent, all by lengths, and copies the operand
  and the exponent into a call (`neat_spelled`).  With it every rule treats all names for the state
  alike, so every pass carries cells to cells (`Carries`), repeated as often as there are power
  signs or not, and the blanks at the ends are no part of a name.  Altogether the normal text
  consists of the same cells (`normalize_named`).
-/
import InitialValue.Proofs.Formula.StateName.Products

namespace InitialValue.Formula.StateName

open InitialValue.Text

/-! ## Powers -/

section

variable {w : List Char} {b : Bool} {bs cs exponent tail : List Cell} {n : Nat}

theorem gap_skip : cs.takeWhile (Cell.is isBlank) ++ skip cs = cs :=
  List.takeWhile_append_dropWhile

/-- The cells of a power sign are marks. -/
theorem powerSign_cells {sign : Nat} (h : powerSignLength? (plain cs) = some sign) :
    cs.take sign ≠ [] ∧ ∀ c ∈ cs.take sign, c.is isWord = false := by
  rw [powerSignLength?_eq] at h
  split at h
  · rename_i hcaret
    obtain rfl := Option.some.inj h
    obtain ⟨xs, rfl⟩ := exists_of_head hcaret (by decide)
    show [Cell.char '^'] ≠ [] ∧ ∀ c ∈ [Cell.char '^'], c.is isWord = false
    decide
  · split at h
    · rename_i hstars
      obtain rfl := Option.some.inj h
      obtain ⟨xs, rfl⟩ := exists_of_head hstars.1 (by decide)
      obtain ⟨ys, rfl⟩ := exists_of_head hstars.2 (by decide)
      show [Cell.char '*', .char '*'] ≠ [] ∧
        ∀ c ∈ [Cell.char '*', .char '*'], c.is isWord = false
      decide
    · cases h

/-- What `exponentCells?` finds stands behind blanks and a sign, and no word runs on from it. -/
theorem exponentCells?_spec (h : exponentCells? cs = some (exponent, tail)) :
    ∃ front, cs = front ++ (exponent ++ tail) ∧ front ≠ [] ∧ (∀ c ∈ front, c.is isWord = false) ∧
      leads false tail = false := by
  unfold exponentCells? at h
  obtain ⟨sign, hsign, h⟩ := Option.bind_eq_some_iff.mp h
  obtain ⟨m, -, h⟩ := List.exists_of_findSome?_eq_some h
  split at h
  · rename_i hends
    obtain ⟨rfl, rfl⟩ := Prod.mk.inj (Option.some.inj h)
    generalize hrest : (skip cs).drop sign = rest at hends ⊢
    have hfront : cs = cs.takeWhile (Cell.is isBlank) ++ ((skip cs).take sign ++
        (rest.takeWhile (Cell.is isBlank) ++ skip rest)) := by
      rw [gap_skip, ← hrest, List.take_append_drop, gap_skip]
    have hmarks := powerSign_cells hsign
    refine ⟨cs.takeWhile (Cell.is isBlank) ++ ((skip cs).take sign ++
      rest.takeWhile (Cell.is isBlank)), ?_, ?_, ?_, ?_⟩
    · rw [List.take_append_drop, List.append_assoc, List.append_assoc]
      exact hfront
    · simp [hmarks.1]
    · intro c hc
      rcases List.mem_append.mp hc with hc | hc
      · exact gap_not_word c hc
      · rcases List.mem_append.mp hc with hc | hc
        · exact hmarks.2 c hc
        · exact gap_not_word c hc
    · rw [leads_eq]
      rw [endsPower_eq, Bool.and_eq_true] at hends
      cases hhead : (plain ((skip rest).drop (minusLength (plain (skip rest)) + m))).head? with
      | none => rfl
      | some c =>
        have hc := hends.1
        rw [hhead, Option.elim_some, Bool.not_eq_true', Bool.or_eq_false_iff,
          Bool.or_eq_false_iff] at hc
        exact hc.1.1
  · cases h

/-- A power spelled as a call, in cells. -/
def spelledCells (base exponent : List Cell) : List Cell :=
  "pow(".toList.map .char ++ (base ++ ([.char ',', .char ' '] ++ (exponent ++ [.char ')'])))

theorem plain_spelledCells {base : List Cell} :
    plain (spelledCells base exponent) = spelled (plain base) (plain exponent) := by
  unfold spelledCells spelled
  rw [plain_append, plain_append, plain_append, plain_append, plain_map_char]
  simp only [List.append_assoc]
  rfl

theorem named_spelledCells {base : List Cell} :
    named w (spelledCells base exponent) = spelled (named w base) (named w exponent) := by
  unfold spelledCells spelled
  rw [named_append, named_append, named_append, named_append, named_map_char]
  simp only [List.append_assoc]
  rfl

/-- The call keeps the words of the power. -/
theorem neat_spelled {k : Nat} (hb : b = false) (hmarked : Marked b cs false)
    (h : exponentCells? (cs.drop n) = some (exponent, tail)) (hk : cs.drop k = tail) :
    Neat b cs k (spelledCells (cs.take n) exponent) := by
  obtain ⟨front, hcs, hne, hfront, htail⟩ := exponentCells?_spec h
  refine neat_of_bounds (List.append_ne_nil_of_left_ne_nil (by decide) _) hb (by rw [hk, htail])
    fun b' e' _ _ => ?_
  have hbase := hmarked.take (n := n)
  have hbehind := hmarked.drop (n := n)
  rw [hcs, leads_append_gap hfront hne, hb] at hbase
  rw [hcs, marked_append, trails_of_forall hfront hne, marked_append, htail] at hbehind
  unfold spelledCells
  rw [marked_append, marked_append, marked_append, marked_append]
  refine ⟨marked_of_other (other_map_char _ (by decide)), hbase, ?_, hbehind.2.1, ?_⟩
  · exact marked_of_other (other_map_char [',', ' '] (by decide))
  · exact marked_of_other (other_map_char [')'] (by decide))

theorem startBlocked_named (hw : IsStateName w) :
    startBlocked (namedBack w bs) = startBlocked (plain bs) := by
  refine before_named hw fun d hd => ?_
  rw [isWord_of_isPlainWord (isPlainWord_of_isDigit hd)]
  rfl

theorem leads_of_startBlocked (h : startBlocked (plain bs) = false) : leads false bs = false := by
  cases bs with
  | nil => rfl
  | cons c bs => exact (Bool.or_eq_false_iff.mp (Bool.or_eq_false_iff.mp h).1).1

/-- Lengths up to what is left over. -/
theorem span_sub (h : cs.drop n = tail) :
    (named w cs).length - (named w tail).length = span w cs n := by
  have hlength : (named w cs).length = span w cs n + (named w tail).length := by
    conv_lhs => rw [← List.take_append_drop n cs, named_append, List.length_append, h]
    rfl
  omega

/-- How many cells a power has, and how it is spelled. -/
def powerCells? (bs cs : List Cell) : Option (Nat × List Cell) :=
  if startBlocked (plain bs) then none
  else (operandLengths (plain cs)).findSome? fun n => (exponentCells? (cs.drop n)).map fun p =>
    (cs.length - p.2.length - 1, spelledCells (cs.take n) p.1)

theorem length_of_exponentCells? (h : exponentCells? (cs.drop n) = some (exponent, tail)) :
    cs.drop (cs.length - tail.length - 1 + 1) = tail := by
  obtain ⟨front, hcs, hne, -, -⟩ := exponentCells?_spec h
  have hwhole : cs = (cs.take n ++ (front ++ exponent)) ++ tail := by
    rw [List.append_assoc, List.append_assoc, ← hcs, List.take_append_drop]
  have hpos : 0 < (cs.take n ++ (front ++ exponent)).length := by
    rw [List.length_append, List.length_append]
    have := List.length_pos_iff.mpr hne
    omega
  generalize cs.take n ++ (front ++ exponent) = xs at hwhole hpos
  rw [hwhole, List.length_append, Nat.add_sub_cancel, Nat.sub_add_cancel hpos, List.drop_left]

theorem powerRule_respects (hw : IsStateName w) : Respects w powerRule := by
  refine respects_of_cells powerCells? ?_ ?_ ?_ ?_
  · intro a before d cs ha _
    refine powerRule_blocked ?_ _
    rw [startBlocked, List.head?_cons, Option.elim_some, ha]
    rfl
  · intro bs c cs _
    rw [powerRule_eq, powerCells?]
    split
    · rfl
    · rw [List.map_findSome?]
      congr 1
      funext n
      rw [Function.comp, plain_drop, exponent?_plain, Option.map_map, Option.map_map]
      congr 1
      funext p
      rw [Function.comp, Function.comp, plain_spelledCells, plain_take]
      simp only [Prod.map, length_plain]
  · intro bs c cs _
    rw [powerRule_eq, powerCells?, startBlocked_named hw, operandLengths_named hw]
    split
    · rfl
    · rw [List.map_findSome?, List.findSome?_map]
      congr 1
      funext n
      rw [Function.comp, Function.comp, named_drop, exponent?_named hw, Option.map_map,
        Option.map_map]
      refine Option.map_congr fun p hp => ?_
      have hlength := length_of_exponentCells? hp
      rw [Function.comp, Function.comp, named_spelledCells, named_take]
      simp only [Prod.map]
      rw [span_sub hlength]
  · intro bs c cs n out hmarked h
    rw [powerCells?] at h
    split at h
    · cases h
    · rename_i hbefore
      obtain ⟨m, -, h⟩ := List.exists_of_findSome?_eq_some h
      obtain ⟨⟨exponent, tail⟩, hexp, h⟩ := Option.map_eq_some_iff.mp h
      obtain ⟨rfl, rfl⟩ := Prod.mk.inj h
      exact neat_spelled (leads_of_startBlocked (Bool.eq_false_iff.mpr hbefore)) hmarked hexp
        (length_of_exponentCells? hexp)

end

/-! ## Passes -/

/-- A pass over texts that treats all names for the state alike. -/
def Carries (w : List Char) (f : List Char → List Char) : Prop :=
  ∀ cs, Marked false cs false → ∃ outs, f (plain cs) = plain outs ∧
    f (named w cs) = named w outs ∧ Marked false outs false

section

variable {w : List Char}

theorem Carries.comp {f g : List Char → List Char} (hg : Carries w g) (hf : Carries w f) :
    Carries w fun xs => g (f xs) := by
  intro cs hcs
  obtain ⟨mid, hplain, hnamed, hmid⟩ := hf cs hcs
  obtain ⟨outs, hplain', hnamed', houts⟩ := hg mid hmid
  exact ⟨outs, (congrArg g hplain).trans hplain', (congrArg g hnamed).trans hnamed', houts⟩

variable (hw : IsStateName w)

include hw

theorem apply_carries {r : Rule} (hr : Respects w r) : Carries w r.apply := fun _ hcs =>
  apply_named hw hr hcs

theorem powerMarks_named (cs : List Cell) : powerMarks (named w cs) = powerMarks (plain cs) := by
  have hname : powerMarks w = 0 := by
    obtain ⟨ds, rfl, hds⟩ := hw
    refine List.countP_eq_zero.mpr fun c hc h => ?_
    rcases List.mem_cons.mp hc with rfl | hc
    · exact absurd h (by decide)
    · rcases Bool.or_eq_true_iff.mp h with h | h
      · exact absurd (hds c hc) (by rw [eq_of_beq h]; decide)
      · exact absurd (hds c hc) (by rw [eq_of_beq h]; decide)
  induction cs with
  | nil => rfl
  | cons c cs ih =>
    cases c with
    | char a =>
      rw [named_char, plain_char, powerMarks, powerMarks, List.countP_cons, List.countP_cons]
      exact congrArg (· + _) ih
    | state =>
      rw [named_state, plain_state, powerMarks, List.countP_append]
      show powerMarks w + powerMarks (named w cs) = _
      rw [hname, ih, Nat.zero_add, powerMarks, powerMarks, List.countP_cons_of_neg (by decide)]

theorem spellPowersUpTo_carries (n : Nat) : Carries w (spellPowersUpTo n) := by
  induction n with
  | zero => exact fun cs hcs => ⟨cs, rfl, rfl, hcs⟩
  | succ n ih =>
    intro cs hcs
    have hfind := find?_named hw (powerRule_respects hw).alike hcs
    rw [spellPowersUpTo, spellPowersUpTo, hfind]
    split
    · exact ih.comp (apply_carries hw (powerRule_respects hw)) cs hcs
    · exact ⟨cs, rfl, rfl, hcs⟩

theorem spellPowers_carries : Carries w spellPowers := by
  intro cs hcs
  rw [spellPowers, spellPowers, powerMarks_named hw]
  exact spellPowersUpTo_carries hw _ cs hcs

/-! ## Blanks at the ends -/

/-- A text without the blanks at its end. -/
def stripEnd (xs : List Char) : List Char := (xs.reverse.dropWhile isBlank).reverse

theorem skipBlanks_carries : Carries w skipBlanks := by
  intro cs hcs
  refine ⟨skip cs, skipBlanks_plain, skipBlanks_named hw, ?_⟩
  have hsplit : cs.takeWhile (Cell.is isBlank) ++ skip cs = cs := gap_skip
  rw [← hsplit, marked_append, trails_of_gap gap_not_word] at hcs
  exact hcs.2

omit hw in
theorem stripEnd_stop {xs : List Char} {c : Char} (hc : isBlank c = false) :
    stripEnd (xs ++ [c]) = xs ++ [c] := by
  rw [stripEnd, List.reverse_append, List.reverse_singleton, List.singleton_append,
    List.dropWhile_cons_of_neg (by rw [hc]; decide), List.reverse_cons, List.reverse_reverse]

omit hw in
theorem stripEnd_blank {xs : List Char} {c : Char} (hc : isBlank c = true) :
    stripEnd (xs ++ [c]) = stripEnd xs := by
  rw [stripEnd, List.reverse_append, List.reverse_singleton, List.singleton_append,
    List.dropWhile_cons_of_pos hc]
  rfl

theorem stripEnd_carries : Carries w stripEnd := by
  intro cs
  induction cs using List.reverseRecOn with
  | nil => exact fun hcs => ⟨[], rfl, rfl, hcs⟩
  | append_singleton cs c ih =>
    intro hcs
    cases hblank : c.is isBlank with
    | true =>
      cases c with
      | state => exact absurd hblank (by decide)
      | char a =>
        have hfront := (marked_append.mp hcs).1
        have ha : leads false [Cell.char a] = false := isWord_of_isBlank hblank
        rw [ha] at hfront
        obtain ⟨outs, hplain, hnamed, houts⟩ := ih hfront
        refine ⟨outs, ?_, ?_, houts⟩
        · rw [plain_append, ← hplain]
          exact stripEnd_blank hblank
        · rw [named_append, ← hnamed]
          exact stripEnd_blank hblank
    | false =>
      refine ⟨cs ++ [c], ?_, ?_, hcs⟩
      · rw [plain_append]
        exact stripEnd_stop hblank
      · rw [named_append]
        cases c with
        | char a => exact stripEnd_stop hblank
        | state =>
          obtain ⟨d, rest, hlast, hd⟩ := exists_last hw
          have hd' : isBlank d = false := by
            rcases hd with rfl | hd
            · decide
            · exact isBlank_of_isWord (isWord_of_isPlainWord (isPlainWord_of_isDigit hd))
          have hend : named w [.state] = rest.reverse ++ [d] := by
            rw [named_state, named_nil, List.append_nil, ← List.reverse_reverse w, hlast,
              List.reverse_cons]
          rw [hend, ← List.append_assoc]
          exact stripEnd_stop hd'

theorem trim_carries : Carries w trim := (stripEnd_carries hw).comp (skipBlanks_carries hw)

/-! ## The normal text -/

theorem finish_carries : Carries w finish :=
  (trim_carries hw).comp <| (apply_carries hw (blanksRule_respects hw)).comp <|
    (apply_carries hw (powerSignRule_respects hw)).comp <|
      (apply_carries hw (spacingRule_respects hw)).comp <|
        (apply_carries hw (eulerRule_respects hw)).comp <|
          (apply_carries hw (piRule_respects hw)).comp <|
            (apply_carries hw (bracketTermRule_respects hw)).comp <|
              (apply_carries hw (numberBracketRule_respects hw)).comp
                (apply_carries hw (nameBracketRule_respects hw))

/-- **The normal text of a formula** is found in the same cells, whatever the state is called. -/
theorem normalize_named {cs : List Cell} {n : List Char} (hcs : Marked false cs false)
    (h : normalize (plain cs) = .ok n) : ∃ outs, n = plain outs ∧
      normalize (named w cs) = .ok (named w outs) ∧ Marked false outs false := by
  have hspell : Carries w fun xs => starsRule.apply (spellPowers (trim xs)) :=
    (apply_carries hw (starsRule_respects hw)).comp
      ((spellPowers_carries hw).comp (trim_carries hw))
  obtain ⟨mid, hplain, hnamed, hmid⟩ := hspell cs hcs
  obtain ⟨outs, hplain', hnamed', houts⟩ := finish_carries hw mid hmid
  have hfind := find?_named hw (doubledRule_alike hw) hmid
  have hcheck : ∀ xs, (doubledRule.find? xs).isSome = false ↔ checkOperators xs = .ok () := by
    intro xs
    unfold checkOperators
    cases doubledRule.find? xs with
    | none => simp
    | some p => simp
  unfold normalize at h ⊢
  dsimp only at h hplain hnamed ⊢
  rw [hplain, hplain'] at h
  rw [hnamed, hnamed']
  cases hoperators : checkOperators (plain mid) with
  | error fault =>
    rw [hoperators] at h
    cases h
  | ok =>
    rw [hoperators] at h
    rw [(hcheck (named w mid)).mp (hfind.trans ((hcheck _).mpr hoperators))]
    exact ⟨outs, (Except.ok.inj h).symm, rfl, houts⟩

end

end InitialValue.Formula.StateName
