/-
  The normal text of a phrase.

  All passes together: `normalize` gives a text that is made, with single spaces, of the lexemes of a
  phrase with the same tree up to the spelling of powers (`normalize_phrase`).  Every seam has its
  star there, every power sign is doubled and every constant written small (`Lexeme.normal`).
-/
import InitialValue.Proofs.Formula.Spacing

namespace InitialValue.Formula

open InitialValue.Text

/-! ## Lists of lexemes -/

/-- Lexemes that fit, from the start of a phrase to the end of one. -/
structure Fitted (ls : List Lexeme) : Prop where
  chain : Chained ls
  first : ∀ b, ls.head? = some b → b.starts = true
  last : ∀ b, ls.getLast? = some b → b.ends = true

theorem Phrase.fitted {p : Phrase} (h : p.Sound) : Fitted p.lexemes := by
  refine ⟨p.chain h.proper h.uncaught, fun b hb => ?_, fun b hb => ?_⟩
  · obtain ⟨l, ls, hls, hstarts, -⟩ := p.first h.proper
    rw [hls] at hb
    cases hb
    exact hstarts
  · obtain ⟨ls, l, hls, hends, -⟩ := p.final
    rw [hls, List.getLast?_concat] at hb
    cases hb
    exact hends

/-- Replacing lexemes in a way that keeps what fits. -/
structure Tame (f : Lexeme → Lexeme) : Prop where
  fits : ∀ a b, Lexeme.fits a b = true → (f a).fits (f b) = true
  starts : ∀ l, Lexeme.starts l = true → (f l).starts = true
  ends : ∀ l, Lexeme.ends l = true → (f l).ends = true

theorem Fitted.map {f : Lexeme → Lexeme} (hf : Tame f) {ls : List Lexeme} (h : Fitted ls) :
    Fitted (ls.map f) := by
  refine ⟨List.isChain_map_of_isChain f (fun a b => hf.fits a b) h.chain, fun b hb => ?_,
    fun b hb => ?_⟩
  · rw [List.head?_map] at hb
    obtain ⟨l, hl, rfl⟩ := Option.map_eq_some_iff.mp hb
    exact hf.starts l (h.first l hl)
  · rw [List.getLast?_map] at hb
    obtain ⟨l, hl, rfl⟩ := Option.map_eq_some_iff.mp hb
    exact hf.ends l (h.last l hl)

theorem Tame.comp {f g : Lexeme → Lexeme} (hf : Tame f) (hg : Tame g) : Tame (f ∘ g) :=
  ⟨fun a b h => hf.fits _ _ (hg.fits a b h), fun l h => hf.starts _ (hg.starts l h),
    fun l h => hf.ends _ (hg.ends l h)⟩

theorem Fitted.head_ne {ls : List Lexeme} (h : Fitted ls) (s : Seam) :
    ls.head? ≠ some (.joint s) := fun hs => by cases h.first _ hs

namespace Lexeme

theorem tame_caret : Tame caret :=
  ⟨fun a b h => by cases a <;> cases b <;> exact h, fun l h => by cases l <;> exact h,
    fun l h => by cases l <;> exact h⟩

theorem tame_settlePi : Tame settlePi :=
  ⟨fun a b h => by
    cases b with
    | joint s => cases a <;> cases s <;> exact h
    | _ => cases a <;> exact h, fun l h => by cases l <;> exact h,
    fun l h => by cases l <;> exact h⟩

theorem tame_settleEuler : Tame settleEuler :=
  ⟨fun a b h => by
    cases b with
    | joint s => cases a <;> cases s <;> exact h
    | _ => cases a <;> exact h, fun l h => by cases l <;> exact h,
    fun l h => by cases l <;> exact h⟩

theorem tame_double : Tame double :=
  ⟨fun a b h => by cases a <;> cases b <;> exact h, fun l h => by cases l <;> exact h,
    fun l h => by cases l <;> exact h⟩

theorem ends_of_leaves {a : Lexeme} {s : Seam} (h : a.leaves s = true) : a.ends = true := by
  cases a <;> cases s <;> first | rfl | cases h

theorem starts_of_joins {b : Lexeme} {s : Seam} (h : b.joins s = true) : b.starts = true := by
  cases b <;> first | rfl | cases h

theorem sew_of_ends {l : Lexeme} (s : Seam) (h : l.ends = true) : l.sew s = l := by
  cases l <;> first | rfl | cases h

theorem sew_of_starts {l : Lexeme} (s : Seam) (h : l.starts = true) : l.sew s = l := by
  cases l <;> first | rfl | cases h

theorem tame_sew (s : Seam) : Tame (sew s) := by
  refine ⟨fun a b h => ?_, fun l h => ?_, fun l h => ?_⟩
  · by_cases ha : ∃ t, a = joint t
    · obtain ⟨t, rfl⟩ := ha
      have hstarts : b.starts = true := starts_of_joins (s := t) h
      rw [sew_of_starts s hstarts, sew]
      split
      · exact fits_starts (Or.inr (Or.inr (Or.inl ⟨.mul, rfl⟩))) hstarts
      · exact h
    · rw [sew_eq fun has => ha ⟨s, has⟩]
      cases b with
      | joint t =>
        rw [sew]
        split
        · exact fits_follows (ends_of_leaves (leaves_of_fits h)) rfl
        · exact h
      | _ => exact h
  · rw [sew_of_starts s h]
    exact h
  · rw [sew_of_ends s h]
    exact h

/-- The lexeme as normal texts have it. -/
def normal : Lexeme → Lexeme
  | name w => name w.settlePi.settleEuler
  | power _ => power true
  | joint _ => arith .mul
  | l => l

/-- One pass after the other makes a lexeme normal. -/
theorem normal_eq : double ∘ settleEuler ∘ settlePi ∘ sew .bracket ∘ sew .number ∘ sew .name ∘
    caret = normal := by
  funext l
  cases l with
  | joint s => cases s <;> rfl
  | _ => rfl

theorem tame_normal : Tame normal := by
  rw [← normal_eq]
  exact tame_double.comp (tame_settleEuler.comp (tame_settlePi.comp ((tame_sew _).comp
    ((tame_sew _).comp ((tame_sew _).comp tame_caret)))))

end Lexeme

/-! ## The passes together -/

theorem sewn_map {f : Lexeme → Lexeme} (hf : ∀ l, l.isJoint = false → (f l).isJoint = false)
    {ls : List Lexeme} (h : Sewn ls) : Sewn (ls.map f) := by
  intro l hl
  obtain ⟨x, hx, rfl⟩ := List.mem_map.mp hl
  exact hf x (h x hx)

theorem sewn_sew (ls : List Lexeme) :
    Sewn (((ls.map (Lexeme.sew .name)).map (Lexeme.sew .number)).map (Lexeme.sew .bracket)) := by
  intro l hl
  simp only [List.map_map, List.mem_map] at hl
  obtain ⟨x, -, rfl⟩ := hl
  cases x with
  | joint s => cases s <;> rfl
  | _ => rfl

theorem isPlainStart_of_isBlank {c : Char} (hc : isBlank c = true) : isPlainStart c = false :=
  isPlainStart_of_isWord (isWord_of_isBlank hc)

theorem isDigit_of_isBlank {c : Char} (hc : isBlank c = true) : isDigit c = false :=
  isDigit_of_isWord (isWord_of_isBlank hc)

theorem isSpaced_of_isBlank {c : Char} (hc : isBlank c = true) : isSpaced c = false := by
  have hplus : c ≠ '+' := ne_of_isBlank hc (isBlank_mark (by decide))
  have hminus : c ≠ '-' := ne_of_isBlank hc (isBlank_mark (by decide))
  have hstar : c ≠ '*' := ne_of_isBlank hc (isBlank_mark (by decide))
  have hslash : c ≠ '/' := ne_of_isBlank hc (isBlank_mark (by decide))
  simp [isSpaced, hplus, hminus, hstar, hslash]

/-- In front of a whole text, there is nothing to touch. -/
theorem clear_start {ls : List Lexeme} :
    ∀ b, ls.head? = some b → b.fresh = true → Decimal.Clear [] := fun _ _ _ => stopsAt_nil

/-- **The passes behind the check for doubled operators.** -/
theorem finish_spells {ls : List Lexeme} {cs : List Char} (h : Spells isBlank ls cs)
    (hfitted : Fitted ls) (hpower : ∀ l ∈ ls, l ≠ .power true) :
    Spells isSpace (((((((ls.map (Lexeme.sew .name)).map (Lexeme.sew .number)).map
      (Lexeme.sew .bracket)).map Lexeme.settlePi).map Lexeme.settleEuler)).map Lexeme.double)
      (finish cs) := by
  have hname := pass_seam (fun c hc => nameBracketRule_ignores (isPlainStart_of_isBlank hc))
    nameBracketRule_keeps nameBracketRule_sews h hfitted.chain clear_start (hfitted.head_ne _)
    hfitted.last
  have hfitted₁ := hfitted.map (Lexeme.tame_sew .name)
  have hnumber := pass_seam (fun c hc => numberBracketRule_ignores (isDigit_of_isBlank hc)
      (ne_of_isBlank hc (isBlank_mark (by decide))))
    numberBracketRule_keeps numberBracketRule_sews hname hfitted₁.chain clear_start
    (hfitted₁.head_ne _) hfitted₁.last
  have hfitted₂ := hfitted₁.map (Lexeme.tame_sew .number)
  have hbracket := pass_seam
    (fun c hc => bracketTermRule_ignores (ne_of_isBlank hc (isBlank_mark (by decide))))
    bracketTermRule_keeps bracketTermRule_sews hnumber hfitted₂.chain clear_start
    (hfitted₂.head_ne _) hfitted₂.last
  have hfitted₃ := hfitted₂.map (Lexeme.tame_sew .bracket)
  have hpi := pass_local (fun c hc => piRule_ignores (isPlainStart_of_isBlank hc))
    (fun l _ => piRule_replaces l) hbracket hfitted₃.chain clear_start
  have hfitted₄ := hfitted₃.map Lexeme.tame_settlePi
  have heuler := pass_local (fun c hc => eulerRule_ignores (isPlainStart_of_isBlank hc))
    (fun l _ => eulerRule_replaces l) hpi hfitted₄.chain clear_start
  have hfitted₅ := hfitted₄.map Lexeme.tame_settleEuler
  have hspacing := pass_local (f := id) (fun c hc => spacingRule_ignores (isSpaced_of_isBlank hc))
    (fun l hl => spacingRule_replaces (by
      simp only [List.map_map, List.mem_map] at hl
      obtain ⟨x, hx, rfl⟩ := hl
      have hne := hpower x hx
      cases x with
      | joint s => cases s <;> simp [Lexeme.sew, Lexeme.settlePi, Lexeme.settleEuler]
      | power doubled =>
        cases doubled
        · simp [Lexeme.sew, Lexeme.settlePi, Lexeme.settleEuler]
        · exact absurd rfl hne
      | _ => simp [Lexeme.sew, Lexeme.settlePi, Lexeme.settleEuler]))
    heuler hfitted₅.chain clear_start
  -- from here on every product has its star, so no lexeme is without text
  rw [List.map_id] at hspacing
  have hsewn : Sewn _ := sewn_map (f := Lexeme.settleEuler) (fun l hl => by cases l <;> exact hl)
    (sewn_map (f := Lexeme.settlePi) (fun l hl => by cases l <;> exact hl) (sewn_sew ls))
  have hsigns := pass_powerSign_spells hspacing hsewn []
  have hsewn' := sewn_map (f := Lexeme.double) (fun l hl => by cases l <;> exact hl) hsewn
  exact (pass_blanks_spells hsigns hsewn' []).trim hsewn'

/-- Blanks around a phrase are trimmed. -/
theorem trim_phrase {p : Phrase} (hp : p.proper = true) (g g' : Gap) :
    trim (g.text ++ (p.text ++ g'.text)) = p.text := by
  obtain ⟨c, cs, hhead, hc⟩ := p.head hp
  obtain ⟨front, d, hlast, hd⟩ := p.last
  have hskip : skipBlanks (g.text ++ (p.text ++ g'.text)) = p.text ++ g'.text := by
    rw [skipBlanks_blanks g.blank, hhead, List.cons_append, skipBlanks_cons hc.not_blank]
  have hblank : isBlank d = false := by
    unfold Phrase.IsLast at hd
    split at hd
    · rw [hd]
      exact isBlank_mark (by decide)
    · exact isBlank_of_isWord (isWord_of_isPlainWord hd)
  rw [trim_eq, hskip, dropEnd_blanks g'.blank, hlast, dropEnd_concat hblank]

/-- **The normal text of a phrase** is made of the lexemes of a phrase with the same tree. -/
theorem normalize_phrase {p : Phrase} (h : p.Sound) (hstrength : 2 ≤ p.strength) (g g' : Gap) :
    ∃ (p' : Phrase) (n : List Char), p'.Sound ∧ 2 ≤ p'.strength ∧
      p'.tree.identify = p.tree.identify ∧ normalize (g.text ++ (p.text ++ g'.text)) = .ok n ∧
      Spells isSpace (p'.lexemes.map Lexeme.normal) n := by
  obtain ⟨p', htext, hsound, hstrength', htree, -⟩ :=
    spellPowersUpTo_text (powerMarks p.text) h hstrength
  have hfitted := Phrase.fitted hsound
  have hstars := pass_local
    (fun c hc => starsRule_ignores (ne_of_isBlank hc (isBlank_mark (by decide))))
    (fun l _ => starsRule_replaces l) p'.spells hfitted.chain clear_start
  have hfitted' := hfitted.map Lexeme.tame_caret
  have hpower : ∀ l ∈ p'.lexemes.map Lexeme.caret, l ≠ .power true := by
    intro l hl
    obtain ⟨x, -, rfl⟩ := List.mem_map.mp hl
    cases x <;> simp [Lexeme.caret]
  have hcheck := checkOperators_spells hstars hfitted'.chain fun hmem => hpower _ hmem rfl
  refine ⟨p', finish (starsRule.apply p'.text), hsound, hstrength', htree, ?_, ?_⟩
  · unfold normalize
    rw [trim_phrase h.proper g g']
    show (do
      checkOperators (starsRule.apply (spellPowersUpTo (powerMarks p.text) p.text))
      return finish (starsRule.apply (spellPowersUpTo (powerMarks p.text) p.text))) = _
    rw [htext]
    show (do
      checkOperators (starsRule.pass 0 [] p'.text)
      return finish (starsRule.pass 0 [] p'.text)) = _
    rw [hcheck]
    rfl
  · have hspells := finish_spells hstars hfitted' hpower
    simp only [List.map_map] at hspells
    rw [Lexeme.normal_eq] at hspells
    exact hspells

end InitialValue.Formula
