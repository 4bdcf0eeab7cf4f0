/-
  When a normal text is its own normal text.

  All passes but one leave a normal text as it is: nothing in it asks for a star any more, its
  constants are settled and its blanks are set (`Settled`, `finish_settled`).  The exception is the
  first pass.  A power that was out of its reach, behind a closing bracket or in front of an opening
  one, has blanks around it in the normal text and may be within reach there.  Then it becomes a call,
  and the comma of the call tells the two texts apart (`count_powers`).  So a normal text is normal
  again exactly when the power rule finds nothing in it (`normalize_stable_iff`), and not every one is
  (`normalize_unstable`).
-/
import InitialValue.Proofs.Formula.Layout
import InitialValue.Proofs.Formula.Settling
import InitialValue.Proofs.Formula.Seclusion
import InitialValue.Proofs.Formula.Spelling
import Mathlib.Data.List.DropRight

namespace InitialValue.Formula

open InitialValue.Text

/-! ## Settled texts -/

/-- **Pieces that all passes behind the first leave alone**: no operator is doubled, no star is asked
    for, and both constants are written small. -/
structure Settled (ws : List (List Char)) : Prop where
  operators : Calm doubles ws
  words : Calm wordAsks ws
  numbers : Calm numberAsks ws
  closings : Calm closingAsks ws
  constants : ∀ x ∈ ws, Recast smallPi x x ∧ Recast smallEuler x x

/-- The links that stars are written for. -/
def Sewing (p : Link) : Prop := p = wordAsks ∨ p = numberAsks ∨ p = closingAsks

variable {p q : Link} {ws : List (List Char)} {cs : List Char}

/-- No star is asked for beside an operator. -/
theorem Sewing.operator (hp : Sewing p) {x : List Char} {c : Char} (h : p x c = true) :
    isMultiplicative c = false ∧ x ≠ ['*'] ∧ x ≠ ['/'] := by
  rcases hp with rfl | rfl | rfl
  · obtain ⟨hopen, hfactor⟩ := Bool.and_eq_true_iff.mp h
    rw [beq_iff_eq.mp hopen]
    refine ⟨by decide, ?_, ?_⟩ <;> rintro rfl <;> exact absurd hfactor (by decide)
  · obtain ⟨hopen, hnumber⟩ := Bool.and_eq_true_iff.mp h
    rw [beq_iff_eq.mp hopen]
    refine ⟨by decide, ?_, ?_⟩ <;> rintro rfl <;> exact absurd hnumber (by decide)
  · obtain ⟨hclosing, hterm⟩ := Bool.and_eq_true_iff.mp h
    rw [beq_iff_eq.mp hclosing]
    refine ⟨?_, by decide, by decide⟩
    rw [Bool.eq_false_iff]
    intro hop
    unfold isMultiplicative at hop
    rw [Bool.or_eq_true, beq_iff_eq, beq_iff_eq] at hop
    rcases hop with rfl | rfl <;> exact absurd hterm (by decide)

/-- A star asks for none, and is no second operator. -/
theorem Sewing.star (hp : Sewing p) (hq : Sewing q ∨ q = doubles) {x : List Char} {c : Char}
    (h : p x c = true) : q x '*' = false ∧ q ['*'] c = false := by
  obtain ⟨hc, hstar, hslash⟩ := hp.operator h
  rcases hq with hq | rfl
  · constructor
    · rw [Bool.eq_false_iff]
      exact fun hasks => absurd (hq.operator hasks).1 (by decide)
    · rw [Bool.eq_false_iff]
      exact fun hasks => (hq.operator hasks).2.1 rfl
  · constructor
    · simp [doubles, hstar, hslash]
    · simp [doubles, hc]

/-- Writing stars brings calm, and keeps what calm there is. -/
theorem Sewing.calm (hp : Sewing p) (hq : Sewing q ∨ q = doubles) (h : q = p ∨ Calm q ws) :
    Calm q (weave p ws) := by
  refine calm_weave (p := p) (q := q) (fun x c hasks => hp.star hq hasks) ?_
  rcases h with rfl | h
  · exact (calm_never ws).mono fun x c hnever => by simp at hnever
  · exact h.mono fun x c hboth => (Bool.and_eq_true_iff.mp hboth).1

theorem sewing_words : Sewing wordAsks := Or.inl rfl

theorem sewing_numbers : Sewing numberAsks := Or.inr (Or.inl rfl)

theorem sewing_closings : Sewing closingAsks := Or.inr (Or.inr rfl)

theorem Weaves.apply {r : Rule} (hr : Weaves r p) (cs : List Char) : Woven p cs (r.apply cs) :=
  hr.pass cs [] (Or.inl stopsAt_nil)

theorem Recasts.apply {r : Rule} {f : List Char → List Char} (hr : Recasts r f) (hf : Settling f)
    (cs : List Char) : Resettled f cs (r.apply cs) :=
  hr.pass hf cs [] (Or.inl stopsAt_nil)

/-- A text with its stars written. -/
def starred (cs : List Char) : List Char :=
  bracketTermRule.apply (numberBracketRule.apply (nameBracketRule.apply cs))

theorem cut_starred (cs : List Char) :
    cut (starred cs) = weave closingAsks (weave numberAsks (weave wordAsks (cut cs))) := by
  rw [starred, (bracketTermRule_weaves.apply _).cut, (numberBracketRule_weaves.apply _).cut,
    (nameBracketRule_weaves.apply _).cut]

theorem calm_starred (hq : Sewing q ∨ q = doubles) (h : Sewing q ∨ Calm q (cut cs)) :
    Calm q (cut (starred cs)) := by
  rw [cut_starred]
  rcases h with h | h
  · rcases h with rfl | rfl | rfl
    · exact sewing_closings.calm hq (Or.inr (sewing_numbers.calm hq (Or.inr
        (sewing_words.calm hq (Or.inl rfl)))))
    · exact sewing_closings.calm hq (Or.inr (sewing_numbers.calm hq (Or.inl rfl)))
    · exact sewing_closings.calm hq (Or.inl rfl)
  · exact sewing_closings.calm hq (Or.inr (sewing_numbers.calm hq (Or.inr
      (sewing_words.calm hq (Or.inr h)))))

/-- What the passes for stars and constants make of a text without doubled operators is settled. -/
theorem settled_passes (h : Calm doubles (cut cs)) :
    Settled (cut (eulerRule.apply (piRule.apply (starred cs)))) := by
  have hpi := piRule_recasts.apply settling_smallPi (starred cs)
  have heuler := eulerRule_recasts.apply settling_smallEuler (piRule.apply (starred cs))
  have hcalm : ∀ {q}, Unmoved q → Sewing q ∨ q = doubles → Sewing q ∨ Calm q (cut cs) →
      Calm q (cut (eulerRule.apply (piRule.apply (starred cs)))) := fun hunmoved hq hcs =>
    calm_settled hunmoved settling_smallEuler heuler.pieces
      (calm_settled hunmoved settling_smallPi hpi.pieces (calm_starred hq hcs))
  exact ⟨hcalm doubles_unmoved (Or.inr rfl) (Or.inr h),
    hcalm wordAsks_unmoved (Or.inl sewing_words) (Or.inl sewing_words),
    hcalm numberAsks_unmoved (Or.inl sewing_numbers) (Or.inl sewing_numbers),
    hcalm closingAsks_unmoved (Or.inl sewing_closings) (Or.inl sewing_closings),
    settled_pieces hpi.pieces heuler.pieces⟩

theorem finish_eq (cs : List Char) :
    finish cs = typeset (doubled (spaced (eulerRule.apply (piRule.apply (starred cs))))) :=
  layout_eq _

/-- **Of a settled text, the passes change the layout only.** -/
theorem finish_settled (h : Settled (cut cs)) : finish cs = typeset (doubled (spaced cs)) := by
  have hwords := (nameBracketRule_weaves.apply cs).calm h.words
  have hnumbers := (numberBracketRule_weaves.apply cs).calm h.numbers
  have hclosings := (bracketTermRule_weaves.apply cs).calm h.closings
  have hpi := (piRule_recasts.apply settling_smallPi cs).fixed fun x hx => (h.constants x hx).1
  have heuler := (eulerRule_recasts.apply settling_smallEuler cs).fixed
    fun x hx => (h.constants x hx).2
  rw [finish_eq, starred, hwords, hnumbers, hclosings, hpi, heuler]

/-! ## Normal texts -/

theorem trim_trim (cs : List Char) : trim (trim cs) = trim cs := by
  have hend : ∀ xs, dropEnd xs = xs.rdropWhile isBlank := fun _ => rfl
  have hskip : skipBlanks (dropEnd (skipBlanks cs)) = dropEnd (skipBlanks cs) := by
    rcases hxs : dropEnd (skipBlanks cs) with _ | ⟨c, xs⟩
    · rfl
    · obtain ⟨ys, hys⟩ := List.rdropWhile_prefix isBlank (skipBlanks cs)
      rw [← hend, hxs] at hys
      have hhead : (skipBlanks cs).head? = some c := by rw [← hys]; rfl
      exact skipBlanks_cons (stopsAt_dropWhile cs c hhead) xs
  rw [trim_eq, trim_eq, hskip, hend, hend, List.rdropWhile_idempotent]

theorem isChain_of_calm (h : Calm doubles ws) :
    ws.IsChain fun x y => ¬(x = ['*'] ∧ y = ['*']) := by
  induction ws with
  | nil => exact .nil
  | cons x ws ih =>
    refine List.isChain_cons.mpr ⟨fun y hy hstars => ?_, ih h.2⟩
    have hasks : doubles.asks x ws = true := by
      rw [Link.asks, Option.mem_def.mp hy, hstars.1, hstars.2]
      rfl
    rw [h.1] at hasks
    cases hasks

theorem normalize_ok {cs n : List Char} : normalize cs = .ok n ↔
    checkOperators (starsRule.apply (spellPowers (trim cs))) = .ok () ∧
      finish (starsRule.apply (spellPowers (trim cs))) = n := by
  unfold normalize
  dsimp only
  cases checkOperators (starsRule.apply (spellPowers (trim cs))) with
  | error e =>
    constructor
    · intro h
      cases h
    · intro h
      cases h.1
  | ok u =>
    constructor
    · intro h
      exact ⟨rfl, pure_eq_ok.mp h⟩
    · intro h
      exact pure_eq_ok.mpr h.2

/-- **A normal text is the layout of settled pieces.** -/
theorem normalize_settled {cs n : List Char} (h : normalize cs = .ok n) :
    ∃ text, Settled (cut text) ∧ n = typeset (doubled (spaced text)) := by
  obtain ⟨hcheck, rfl⟩ := normalize_ok.mp h
  exact ⟨_, settled_passes (checkOperators_iff.mp hcheck), finish_eq _⟩

theorem trim_normal {cs n : List Char} (h : normalize cs = .ok n) : trim n = n := by
  obtain ⟨-, rfl⟩ := normalize_ok.mp h
  exact trim_trim _

theorem spellPowers_none {cs : List Char} (h : powerRule.find? cs = none) : spellPowers cs = cs := by
  unfold spellPowers
  cases powerMarks cs with
  | zero => rfl
  | succ n => rw [spellPowersUpTo, h]; rfl

/-- **What the power rule finds nothing in stays as it is** when it is normalized again. -/
theorem normalize_again {cs n : List Char} (h : normalize cs = .ok n)
    (hpowers : powerRule.find? n = none) : normalize n = .ok n := by
  obtain ⟨text, hsettled, hn⟩ := normalize_settled h
  have hstars : starsRule.apply n = typeset (spaced text) := by
    rw [hn, starsRule_layout (isChain_of_calm hsettled.operators)]
  have hcut : Settled (cut (typeset (spaced text))) := by rwa [cut_spaced]
  rw [normalize_ok, trim_normal h, spellPowers_none hpowers, hstars]
  refine ⟨checkOperators_iff.mpr hcut.operators, ?_⟩
  rw [finish_settled hcut, spaced_spaced, ← hn]

/-! ## Marks -/

section

variable {m : Char}

/-- The occurrences of a mark in a text, counted as pieces. -/
theorem count_cut (hblank : isBlank m = false) (hm : isSolid m = false) (cs : List Char) :
    (cut cs).count [m] = cs.count m := by
  induction cs using runs_induction isSolid with
  | nil => rfl
  | other c cs hc ih =>
    by_cases hcblank : isBlank c = true
    · have hne : c ≠ m := ne_of_isBlank hcblank hblank
      rw [cut_blank hcblank, ih, List.count_cons_of_ne hne]
    · rw [cut_mark (Bool.eq_false_iff.mpr hcblank) hc, List.count_cons, List.count_cons, ih]
      simp
  | run w cs hne hw hcs ih =>
    have hfree : m ∉ w := fun hmem => by rw [hw m hmem] at hm; cases hm
    have hpiece : w ≠ [m] := by
      rintro rfl
      exact hfree List.mem_cons_self
    rw [cut_run hne hw hcs, List.count_cons_of_ne hpiece, ih, List.count_append,
      List.count_eq_zero_of_not_mem hfree, Nat.zero_add]

theorem count_weave (hstar : m ≠ '*') (p : Link) (ws : List (List Char)) :
    (weave p ws).count [m] = ws.count [m] := by
  have hpiece : ['*'] ≠ [m] := fun h => hstar (List.cons.inj h).1.symm
  induction ws with
  | nil => rfl
  | cons x ws ih =>
    rw [weave]
    split
    · rw [List.count_cons, List.count_cons_of_ne hpiece, ih, List.count_cons]
    · rw [List.count_cons, ih, List.count_cons]

theorem count_recast (hm : isWord m = false) {f : List Char → List Char} (hf : Settling f)
    {ws vs : List (List Char)} (h : List.Forall₂ (Recast f) ws vs) :
    vs.count [m] = ws.count [m] := by
  induction h with
  | nil => rfl
  | @cons x y ws vs hxy _ ih =>
    have hmark : x = [m] ↔ y = [m] := by
      constructor
      · rintro rfl
        obtain ⟨y', rfl, hrest⟩ := hxy.of_other hm
        rw [hrest.of_nil]
      · rintro rfl
        exact hxy.of_mark hm hf
    rw [List.count_cons, List.count_cons, ih]
    simp [hmark]

/-- **No other marks than stars** are written with the stars and constants. -/
theorem count_passes (hblank : isBlank m = false) (hm : isSolid m = false) (hstar : m ≠ '*')
    (cs : List Char) : (eulerRule.apply (piRule.apply (starred cs))).count m = cs.count m := by
  have hword : isWord m = false := (Bool.or_eq_false_iff.mp hm).1
  have hpi := piRule_recasts.apply settling_smallPi (starred cs)
  have heuler := eulerRule_recasts.apply settling_smallEuler (piRule.apply (starred cs))
  rw [← count_cut hblank hm, count_recast hword settling_smallEuler heuler.pieces,
    count_recast hword settling_smallPi hpi.pieces, cut_starred, count_weave hstar,
    count_weave hstar, count_weave hstar, count_cut hblank hm]

end

/-! ## Commas -/

theorem count_stars (cs : List Char) : (starsRule.apply cs).count ',' = cs.count ',' := by
  refine Rule.pass_induction (r := starsRule)
    (R := fun cs out : List Char => out.count ',' = cs.count ',') rfl (fun c cs out h => ?_)
    (fun before cs hit out hhit h => ?_) 0 [] cs
  · rw [List.count_cons, List.count_cons, h]
  · unfold starsRule at hhit
    split at hhit
    · cases hhit
      rw [List.singleton_append, List.count_cons_of_ne (by decide), h,
        List.count_cons_of_ne (by decide), List.count_cons_of_ne (by decide)]
      rfl
    · cases hhit

/-- **The commas of a normal text** are those of the text with its powers spelled. -/
theorem count_normal {cs n : List Char} (h : normalize cs = .ok n) :
    n.count ',' = (spellPowers (trim cs)).count ',' := by
  obtain ⟨hcheck, rfl⟩ := normalize_ok.mp h
  rw [finish_eq]
  rw [checkOperators_iff] at hcheck
  rw [← count_stars (spellPowers (trim cs))]
  generalize starsRule.apply (spellPowers (trim cs)) = text at hcheck
  have hblank : isBlank ',' = false := isBlank_mark (by decide)
  have hsettled := settled_passes hcheck
  rw [← count_stars, starsRule_layout (isChain_of_calm hsettled.operators),
    ← count_cut hblank (by decide), cut_spaced, count_cut hblank (by decide),
    count_passes hblank (by decide) (by decide)]

/-- **Where there is a power to spell, spelling adds a comma.** -/
theorem count_powers {cs : List Char} (h : powerRule.find? cs ≠ none) :
    cs.count ',' < (spellPowers cs).count ',' := by
  obtain ⟨n, k, hspelling⟩ := spelling_upTo (Nat.le_refl (powerMarks cs))
  have hcommas := hspelling.respelled.commas
  have hblank : isBlank ',' = false := isBlank_mark (by decide)
  rw [count_unspaced hblank, count_unspaced hblank] at hcommas
  rw [spellPowers, hcommas]
  exact Nat.lt_add_of_pos_right (hspelling.pos h)

/-- **A normal text is its own normal text exactly when no power in it is within reach.**  Of all
    passes, only the one that spells powers can find something in a text that has been normalized. -/
theorem normalize_stable_iff {cs n : List Char} (h : normalize cs = .ok n) :
    normalize n = .ok n ↔ powerRule.find? n = none := by
  refine ⟨fun hagain => ?_, normalize_again h⟩
  by_contra hpowers
  have hless := count_powers hpowers
  have hsame := count_normal hagain
  rw [trim_normal h] at hsame
  omega

theorem normalize_stable_sum :
    normalize "t^2+2(y)".toList = .ok "pow(t, 2) + 2 * (y)".toList ∧
      normalize "pow(t, 2) + 2 * (y)".toList = .ok "pow(t, 2) + 2 * (y)".toList := by
  have hnormal : normalize "t^2+2(y)".toList = .ok "pow(t, 2) + 2 * (y)".toList := by decide +kernel
  exact ⟨hnormal, (normalize_stable_iff hnormal).mpr (by decide +kernel)⟩

/-- **Not every normal text is its own normal text**: the bracket right behind the exponent keeps the
    power in `t^2(y)` from being spelled, and in the normal text a blank stands there. -/
theorem normalize_unstable :
    ¬ ∀ cs n : List Char, normalize cs = .ok n → normalize n = .ok n := by
  intro h
  have hnormal : normalize "t^2(y)".toList = .ok "t ** 2 * (y)".toList := by decide +kernel
  have hagain : normalize "t ** 2 * (y)".toList = .ok "pow(t, 2) * (y)".toList := by decide +kernel
  have hsame := (h _ _ hnormal).symm.trans hagain
  exact absurd (Except.ok.inj hsame) (by decide)

end InitialValue.Formula
