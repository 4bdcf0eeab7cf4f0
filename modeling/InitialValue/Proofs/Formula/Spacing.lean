/-
  The blanks of a normal text.

  Blanks are set around operators (`spacingRule_replaces`), taken away around power signs
  (`pass_powerSign_spells`), made single spaces (`pass_blanks_spells`) and removed at both ends
  (`Spells.trim`).  The last three rules look at runs of blanks, so they are followed along the
  lexemes by an induction of their own, for lists without seams.
-/
import InitialValue.Proofs.Formula.Constants

namespace InitialValue.Formula

open InitialValue.Text

/-! ## Blanks around operators -/

theorem spacingRule_ignores {c : Char} (h : isSpaced c = false) : spacingRule.Ignores c := by
  intro before rest
  unfold spacingRule
  simp [h]

/-- Behind a digit and an exponent mark, a sign gets no blanks. -/
theorem spacingRule_exponent {d mark : Char} (hd : d.isDigit = true)
    (hmark : mark = 'e' ∨ mark = 'E') (before cs : List Char) :
    spacingRule (mark :: d :: before) cs = none := by
  have hin : ((mark == 'e' || mark == 'E') && isDigit d) = true := by
    rw [isDigit_of_ascii hd]
    rcases hmark with rfl | rfl <;> rfl
  unfold spacingRule
  split
  · dsimp only
    rw [hin]
    simp
  · rfl

theorem isSpaced_of_outer {c : Char} (h : isSpaced c = true) :
    isPlainWord c = false ∧ Numeral.isBodyChar c = false ∧ c ≠ '(' := by
  have hall : ∀ c ∈ ['+', '-', '*', '/'],
      isPlainWord c = false ∧ Numeral.isBodyChar c = false ∧ c ≠ '(' :=
    forall_mem_of_all (by decide)
  refine hall c ?_
  unfold isSpaced at h
  simp only [Bool.or_eq_true, beq_iff_eq] at h
  rcases h with ((rfl | rfl) | rfl) | rfl <;> decide

theorem spacingRule_number (n : Numeral) (before rest : List Char) :
    spacingRule.pass 0 before (n.text ++ rest) =
      n.text ++ spacingRule.pass 0 (n.text.reverse ++ before) rest := by
  refine Rule.pass_quiet fun pre c post hsplit => ?_
  by_cases hc : isSpaced c = true
  · have hsign : c = '+' ∨ c = '-' := by
      refine (n.mem (c := c) (by rw [hsplit]; simp)).resolve_left ?_
      rw [(isSpaced_of_outer hc).2.1]
      decide
    obtain ⟨-, -, body, d, mark, rfl, hd, hmark⟩ := n.at_sign hsplit hsign
    rw [List.reverse_append]
    exact spacingRule_exponent hd hmark _ _
  · exact spacingRule_ignores (Bool.eq_false_iff.mpr hc) _ _

theorem spacingRule_replaces {l : Lexeme} (hl : l ≠ .power true) : Replaces spacingRule l l := by
  cases l with
  | number n => exact Leaves.replaces fun before rest _ => spacingRule_number n before rest
  | arith op =>
    intro before rest _
    have hcases : spacingRule before (op.mark :: rest) = none ∨
        spacingRule before (op.mark :: rest) = some ⟨0, [' ', op.mark, ' ']⟩ := by
      unfold spacingRule
      dsimp only
      exact (ite_eq_or_eq _ _ _).symm
    rcases hcases with h | h
    · exact ⟨[], [], by simp, by simp, Rule.pass_none h⟩
    · have hblank : ∀ c ∈ [' '], isBlank c = true := forall_mem_of_all (by decide)
      exact ⟨[' '], [' '], hblank, hblank, @Rule.pass_hit _ _ _ [] _ _ h⟩
  | power doubled =>
    cases doubled with
    | true => exact absurd rfl hl
    | false => exact Leaves.replaces fun before rest _ =>
        Rule.pass_none (spacingRule_ignores (by decide) _ _)
  | name w =>
    refine (leaves_ignored fun c hc => spacingRule_ignores ?_).replaces
    rw [Bool.eq_false_iff]
    intro hspaced
    have hword : isPlainWord c = true := w.mem hc
    rw [(isSpaced_of_outer hspaced).1] at hword
    cases hword
  | call f =>
    refine (leaves_ignored fun c hc => spacingRule_ignores ?_).replaces
    rw [Bool.eq_false_iff]
    intro hspaced
    obtain ⟨hplain, -, hopen⟩ := isSpaced_of_outer hspaced
    rcases List.mem_append.mp hc with hc | hc
    · rw [FunctionName.mem f hc] at hplain
      cases hplain
    · exact hopen (List.mem_singleton.mp hc)
  | joint s => exact (leaves_ignored fun c hc => by cases hc).replaces
  | _ => exact Leaves.replaces fun before rest _ =>
      Rule.pass_none (spacingRule_ignores (by decide) _ _)

/-! ## Lexemes without blanks -/

namespace Lexeme

theorem not_blank {l : Lexeme} {c : Char} (hc : c ∈ l.text) : isBlank c = false := by
  have hmark : ∀ c ∈ ['(', ')', ',', '+', '-', '*', '/', '^', '.'], isBlank c = false :=
    forall_mem_of_all (by decide)
  cases l with
  | number n =>
    rcases n.mem hc with h | rfl | rfl
    · rcases Numeral.word_or_point_of_isBodyChar h with h | rfl
      · exact isBlank_of_isWord h
      · exact hmark _ (by decide)
    · exact hmark _ (by decide)
    · exact hmark _ (by decide)
  | name w => exact isBlank_of_isWord (isWord_of_isPlainWord (w.mem hc))
  | call f =>
    rcases List.mem_append.mp hc with hc | hc
    · exact isBlank_of_isWord (isWord_of_isPlainWord (FunctionName.mem f hc))
    · rw [List.mem_singleton.mp hc]
      exact hmark _ (by decide)
  | arith op =>
    rw [List.mem_singleton.mp hc]
    exact hmark _ (by cases op <;> decide)
  | power doubled =>
    rcases Phrase.mem_powerSign hc with ⟨rfl, -⟩ | ⟨rfl, -⟩ <;> exact hmark _ (by decide)
  | joint s => cases hc
  | _ =>
    rw [List.mem_singleton.mp hc]
    exact hmark _ (by decide)

/-- Is the lexeme a seam? -/
def isJoint : Lexeme → Bool
  | joint _ => true
  | _ => false

/-- Only seams have no text. -/
theorem text_ne {l : Lexeme} (hl : l.isJoint = false) : ∃ c tail, l.text = c :: tail := by
  cases l with
  | number n =>
    obtain ⟨c, tail, htext, -⟩ := n.head
    exact ⟨c, tail, htext⟩
  | name w =>
    obtain ⟨c, tail, htext, -⟩ := w.head
    exact ⟨c, tail, htext⟩
  | call f =>
    obtain ⟨c, tail, htext, -⟩ := FunctionName.head f
    exact ⟨c, tail ++ ['('], by rw [text, htext]; rfl⟩
  | power doubled => cases doubled <;> exact ⟨_, _, rfl⟩
  | joint s => cases hl
  | _ => exact ⟨_, _, rfl⟩

theorem not_caret {l : Lexeme} (hl : l ≠ power false) {c : Char} (hc : c ∈ l.text) : c ≠ '^' := by
  cases l with
  | number n => exact Numeral.ne hc (by decide)
  | name w => exact ne_outer (w.mem hc) (by decide)
  | call f =>
    rcases List.mem_append.mp hc with hc | hc
    · exact ne_outer (FunctionName.mem f hc) (by decide)
    · rw [List.mem_singleton.mp hc]
      decide
  | arith op =>
    rw [List.mem_singleton.mp hc]
    cases op <;> decide
  | power doubled =>
    rcases Phrase.mem_powerSign hc with ⟨-, rfl⟩ | ⟨rfl, -⟩
    · exact absurd rfl hl
    · decide
  | joint s => cases hc
  | _ =>
    rw [List.mem_singleton.mp hc]
    decide

end Lexeme

/-- No lexeme is a seam. -/
def Sewn (ls : List Lexeme) : Prop := ∀ l ∈ ls, l.isJoint = false

theorem Sewn.of_cons {l : Lexeme} {ls : List Lexeme} (h : Sewn (l :: ls)) :
    l.isJoint = false ∧ Sewn ls :=
  ⟨h l List.mem_cons_self, fun x hx => h x (List.mem_cons_of_mem _ hx)⟩

/-- Without the blanks in front, a text is made of the same lexemes. -/
theorem Spells.skip {ok : Char → Bool} {ls : List Lexeme} {cs : List Char}
    (h : Spells ok ls cs) (hok : ∀ c, ok c = true → isBlank c = true) (hsewn : Sewn ls) :
    Spells ok ls (skipBlanks cs) := by
  cases h with
  | nil hg =>
    rw [skipBlanks_all fun c hc => hok c (hg c hc)]
    exact Spells.none
  | cons hg h =>
    rename_i g l ls cs
    obtain ⟨c, tail, htext⟩ := Lexeme.text_ne hsewn.of_cons.1
    have hc : isBlank c = false := Lexeme.not_blank (l := l) (by rw [htext]; exact List.mem_cons_self)
    have hskip : skipBlanks (g ++ (l.text ++ cs)) = l.text ++ cs := by
      rw [skipBlanks_blanks fun c hc => hok c (hg c hc), htext, List.cons_append, skipBlanks_cons hc]
    rw [hskip]
    exact h.piece l

/-! ## Power signs -/

/-- The lexeme with a power sign of two stars. -/
def Lexeme.double : Lexeme → Lexeme
  | power _ => power true
  | l => l

theorem Lexeme.double_eq {l : Lexeme} (hl : l ≠ power false) : l.double = l := by
  cases l with
  | power doubled =>
    cases doubled
    · exact absurd rfl hl
    · rfl
  | _ => rfl

theorem powerSignRule_none {cs : List Char} (h : StopsAt (· == '^') (skipBlanks cs))
    (before : List Char) : powerSignRule before cs = none := by
  have hgap : cs.drop (cs.takeWhile isBlank).length = skipBlanks cs := drop_length_takeWhile cs
  unfold powerSignRule
  simp only [hgap]
  split
  · rename_i heq
    rw [heq] at h
    cases h '^' rfl
  · rfl

/-- Over blanks and a power sign, the rule writes the sign as two stars between spaces. -/
theorem pass_caret {g : List Char} (hg : ∀ c ∈ g, isBlank c = true) (before rest : List Char) :
    ∃ before', powerSignRule.pass 0 before (g ++ '^' :: rest) =
      [' '] ++ (['*', '*'] ++ ([' '] ++ powerSignRule.pass 0 before' (skipBlanks rest))) := by
  have hblank : isBlank '^' = false := isBlank_mark (by decide)
  have hsign : " ** ".toList = [' ', '*', '*', ' '] := by simp
  have hrun : (g ++ '^' :: rest).takeWhile isBlank = g :=
    takeWhile_append_stop hg (stopsAt_cons hblank)
  have hrule : powerSignRule before (g ++ '^' :: rest) =
      some ⟨g.length + (rest.takeWhile isBlank).length, [' ', '*', '*', ' ']⟩ := by
    unfold powerSignRule
    simp only [hrun, List.drop_left, hsign]
  have hrest : rest = rest.takeWhile isBlank ++ skipBlanks rest :=
    (List.takeWhile_append_dropWhile).symm
  generalize skipBlanks rest = more at hrest ⊢
  generalize rest.takeWhile isBlank = g' at hrule hrest
  subst hrest
  rcases g with _ | ⟨b, g⟩
  · rw [List.nil_append, List.length_nil, Nat.zero_add] at hrule
    exact ⟨_, Rule.pass_hit hrule⟩
  · have hsplit : b :: g ++ '^' :: (g' ++ more) = b :: ((g ++ '^' :: g') ++ more) := by simp
    have hlength : (b :: g).length + g'.length = (g ++ '^' :: g').length := by
      simp only [List.length_cons, List.length_append]
      omega
    rw [hsplit, hlength] at hrule
    rw [hsplit]
    exact ⟨_, Rule.pass_hit hrule⟩

/-- **The pass over power signs** writes them all as two stars. -/
theorem pass_powerSign_spells {ls : List Lexeme} {cs : List Char} (h : Spells isBlank ls cs)
    (hsewn : Sewn ls) (before : List Char) :
    Spells isBlank (ls.map Lexeme.double) (powerSignRule.pass 0 before cs) := by
  induction ls generalizing cs before with
  | nil =>
    have hg := h.of_nil
    have hpass : powerSignRule.pass 0 before cs = cs := by
      refine Rule.pass_quiet_end fun pre c post hsplit => powerSignRule_none ?_ _
      rw [skipBlanks_all fun x hx => hg x (by rw [hsplit]; simp_all)]
      exact stopsAt_nil
    rw [hpass]
    exact .nil hg
  | cons l ls ih =>
    obtain ⟨g, rest, hg, hrest, rfl⟩ := h.of_cons
    by_cases hl : l = .power false
    · subst hl
      -- the rule takes the blanks on both sides along with the sign
      obtain ⟨before', hpass⟩ := pass_caret hg before rest
      have hspace : ∀ c ∈ [' '], isBlank c = true := forall_mem_of_all (by decide)
      show Spells isBlank (.power true :: ls.map Lexeme.double)
        (powerSignRule.pass 0 before (g ++ '^' :: rest))
      rw [hpass]
      exact (((ih (hrest.skip (fun _ hc => hc) hsewn.of_cons.2) hsewn.of_cons.2 before').gap
        hspace).piece (.power true)).gap hspace
    · obtain ⟨c, tail, htext⟩ := Lexeme.text_ne hsewn.of_cons.1
      have hc : c ∈ l.text := by rw [htext]; exact List.mem_cons_self
      have hfront : StopsAt (· == '^') (skipBlanks (l.text ++ rest)) := by
        rw [htext, List.cons_append, skipBlanks_cons (Lexeme.not_blank hc)]
        exact stopsAt_cons (by simpa using Lexeme.not_caret hl hc)
      have hquiet : powerSignRule.pass 0 before (g ++ (l.text ++ rest)) =
          g ++ powerSignRule.pass 0 (g.reverse ++ before) (l.text ++ rest) := by
        refine Rule.pass_quiet fun pre x post hsplit => powerSignRule_none ?_ _
        rw [← List.cons_append, skipBlanks_blanks fun y hy => hg y (by rw [hsplit]; simp_all)]
        exact hfront
      have hpiece : powerSignRule.pass 0 (g.reverse ++ before) (l.text ++ rest) =
          l.text ++ powerSignRule.pass 0 (l.text.reverse ++ (g.reverse ++ before)) rest := by
        refine Rule.pass_ignored (fun x hx before' rest' => powerSignRule_none ?_ _) _ _
        rw [skipBlanks_cons (Lexeme.not_blank hx)]
        exact stopsAt_cons (by simpa using Lexeme.not_caret hl hx)
      rw [hquiet, hpiece, List.map_cons, Lexeme.double_eq hl]
      exact ((ih hrest hsewn.of_cons.2 _).piece l).gap hg

/-! ## Runs of blanks -/

/-- The space. -/
def isSpace (c : Char) : Bool := c == ' '

theorem isBlank_of_isSpace {c : Char} (h : isSpace c = true) : isBlank c = true := by
  rw [beq_iff_eq.mp h]
  decide

theorem blanksRule_ignores {c : Char} (h : isBlank c = false) : blanksRule.Ignores c := by
  intro before rest
  unfold blanksRule
  dsimp only
  rw [h]
  rfl

/-- Over a run of blanks, the rule writes one space. -/
theorem pass_run {g : List Char} (hne : g ≠ []) (hg : ∀ c ∈ g, isBlank c = true)
    (before : List Char) {rest : List Char} (hrest : StopsAt isBlank rest) :
    ∃ before', blanksRule.pass 0 before (g ++ rest) = ' ' :: blanksRule.pass 0 before' rest := by
  obtain ⟨b, g, rfl⟩ := List.exists_cons_of_ne_nil hne
  have hrun : (g ++ rest).takeWhile isBlank = g :=
    takeWhile_append_stop (fun c hc => hg c (List.mem_cons_of_mem _ hc)) hrest
  have hhit : blanksRule before (b :: (g ++ rest)) = some ⟨g.length, [' ']⟩ := by
    unfold blanksRule
    dsimp only
    rw [if_pos (hg b List.mem_cons_self), hrun]
  exact ⟨_, Rule.pass_hit hhit⟩

/-- Over blanks, or none, the rule writes at most a space. -/
theorem pass_gap_blanks {g : List Char} (hg : ∀ c ∈ g, isBlank c = true) (before : List Char)
    {rest : List Char} (hrest : StopsAt isBlank rest) :
    ∃ g' before', (∀ c ∈ g', isSpace c = true) ∧
      blanksRule.pass 0 before (g ++ rest) = g' ++ blanksRule.pass 0 before' rest := by
  rcases g with _ | ⟨b, g⟩
  · exact ⟨[], before, by simp, rfl⟩
  · obtain ⟨before', hpass⟩ := pass_run (List.cons_ne_nil b g) hg before hrest
    exact ⟨[' '], before', forall_mem_of_all (by decide), hpass⟩

/-- **The pass over blanks** leaves single spaces. -/
theorem pass_blanks_spells {ls : List Lexeme} {cs : List Char} (h : Spells isBlank ls cs)
    (hsewn : Sewn ls) (before : List Char) :
    Spells isSpace ls (blanksRule.pass 0 before cs) := by
  induction h generalizing before with
  | nil hg =>
    rename_i g
    obtain ⟨g', before', hg', hpass⟩ := pass_gap_blanks hg before stopsAt_nil
    rw [List.append_nil, Rule.pass_nil, List.append_nil] at hpass
    rw [hpass]
    exact .nil hg'
  | cons hg h ih =>
    rename_i g l ls cs
    obtain ⟨c, tail, htext⟩ := Lexeme.text_ne hsewn.of_cons.1
    have hfront : StopsAt isBlank (l.text ++ cs) := by
      rw [htext]
      exact stopsAt_cons (Lexeme.not_blank (l := l) (by rw [htext]; exact List.mem_cons_self))
    obtain ⟨g', before', hg', hpass⟩ := pass_gap_blanks hg before hfront
    rw [hpass, Rule.pass_ignored fun x hx => blanksRule_ignores (Lexeme.not_blank hx)]
    exact .cons hg' (ih hsewn.of_cons.2 _)

/-! ## Trimming -/

/-- A text without the blanks at its end. -/
def dropEnd (cs : List Char) : List Char := (cs.reverse.dropWhile isBlank).reverse

theorem trim_eq (cs : List Char) : trim cs = dropEnd (skipBlanks cs) := rfl

theorem dropEnd_blanks {g : List Char} (hg : ∀ c ∈ g, isBlank c = true) (xs : List Char) :
    dropEnd (xs ++ g) = dropEnd xs := by
  unfold dropEnd
  rw [List.reverse_append, List.dropWhile_append_of_pos fun c hc => hg c (List.mem_reverse.mp hc)]

theorem dropEnd_concat {c : Char} (hc : isBlank c = false) (xs : List Char) :
    dropEnd (xs ++ [c]) = xs ++ [c] := by
  unfold dropEnd
  rw [List.reverse_append, List.reverse_singleton, List.singleton_append,
    List.dropWhile_cons_of_neg (by rw [hc]; decide), List.reverse_cons, List.reverse_reverse]

/-- Behind a text that does not end with a blank, only the blanks at the end are dropped. -/
theorem dropEnd_append {c : Char} (hc : isBlank c = false) (xs ys : List Char) :
    dropEnd (xs ++ [c] ++ ys) = xs ++ [c] ++ dropEnd ys := by
  have hsplit : ys = dropEnd ys ++ (ys.reverse.takeWhile isBlank).reverse := by
    unfold dropEnd
    rw [← List.reverse_append, List.takeWhile_append_dropWhile, List.reverse_reverse]
  have hblanks : ∀ x ∈ (ys.reverse.takeWhile isBlank).reverse, isBlank x = true :=
    fun x hx => mem_takeWhile (List.mem_reverse.mp hx)
  rcases List.eq_nil_or_concat (dropEnd ys) with hnil | ⟨front, d, hd⟩
  · rw [hnil, List.nil_append] at hsplit
    rw [hnil, hsplit, dropEnd_blanks hblanks, dropEnd_concat hc, List.append_nil]
  · rw [List.concat_eq_append] at hd
    have hdblank : isBlank d = false := by
      have hstop := stopsAt_dropWhile (p := isBlank) ys.reverse d
      have hrev : ys.reverse.dropWhile isBlank = d :: front.reverse := by
        unfold dropEnd at hd
        rw [← List.reverse_reverse (ys.reverse.dropWhile isBlank), hd]
        simp
      exact hstop (by rw [hrev]; rfl)
    have hcut : xs ++ [c] ++ ys =
        (xs ++ [c] ++ front ++ [d]) ++ (ys.reverse.takeWhile isBlank).reverse := by
      conv_lhs => rw [hsplit, hd]
      simp
    rw [hcut, dropEnd_blanks hblanks, dropEnd_concat hdblank, hd]
    simp

/-- **Without the blanks at its ends**, a text is made of the same lexemes. -/
theorem Spells.trim {ls : List Lexeme} {cs : List Char} (h : Spells isSpace ls cs)
    (hsewn : Sewn ls) : Spells isSpace ls (trim cs) := by
  rw [trim_eq]
  have hskip := h.skip (fun c hc => isBlank_of_isSpace hc) hsewn
  generalize skipBlanks cs = cs' at hskip
  clear h
  induction hskip with
  | nil hg =>
    rename_i g
    have hall := dropEnd_blanks (fun c hc => isBlank_of_isSpace (hg c hc)) []
    rw [List.nil_append] at hall
    rw [hall]
    exact Spells.none
  | cons hg h ih =>
    rename_i g l ls cs
    obtain ⟨c, tail, htext⟩ := Lexeme.text_ne hsewn.of_cons.1
    have hne : l.text ≠ [] := by rw [htext]; exact List.cons_ne_nil _ _
    have hlast : l.text = l.text.dropLast ++ [l.text.getLast hne] :=
      (List.dropLast_concat_getLast hne).symm
    have hblank : isBlank (l.text.getLast hne) = false := Lexeme.not_blank (List.getLast_mem hne)
    have hdrop : dropEnd (g ++ (l.text ++ cs)) = g ++ (l.text ++ dropEnd cs) := by
      rw [hlast, ← List.append_assoc, ← List.append_assoc, ← List.append_assoc g,
        dropEnd_append hblank]
      simp
    rw [hdrop]
    exact .cons hg (ih hsewn.of_cons.2)

end InitialValue.Formula
