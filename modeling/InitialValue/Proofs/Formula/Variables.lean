/-
  The names of a phrase and of its tree.

  The words of the lexemes of a phrase are the names in its tree, from left to right
  (`words_eq`).  Spelling powers as calls only adds the name `pow`, which is known, so the
  variables depend on the tree up to the spelling of powers alone (`variableNames_identify`).
-/
import InitialValue.Proofs.Formula.Reader

namespace InitialValue.Formula

namespace Expr

/-! ## Names up to the spelling of powers -/

theorem namesOfAll_items (x : Expr) : namesOfAll x.items = names x := by
  unfold items
  split
  · rw [names]
  · rw [namesOfAll, namesOfAll, List.append_nil]

theorem isKnown_pow : isKnown "pow" = true := by decide

/-- The variables among some names. -/
def unknown (ss : List String) : List String := ss.filter fun s => !isKnown s

theorem unknown_append (ss ts : List String) : unknown (ss ++ ts) = unknown ss ++ unknown ts :=
  List.filter_append ss ts

theorem unknown_applied (f : Expr) (args : List Expr) :
    unknown (applied f args).names = unknown f.names ++ unknown (namesOfAll args) := by
  unfold applied
  split
  · rw [names, names, namesOfAll, namesOfAll, namesOfAll, List.append_nil, unknown_append]
    have hpow : unknown ["pow"] = [] := List.filter_cons_of_neg (by rw [isKnown_pow]; decide)
    rw [hpow, List.nil_append]
  · rw [names, unknown_append]

mutual

/-- **The variables of a tree** do not depend on the spelling of powers. -/
theorem unknown_identify : (x : Expr) → unknown x.identify.names = unknown x.names
  | .signed s x => by
    rw [identify, names, names]
    exact unknown_identify x
  | .binary op x y => by
    rw [identify, names, names, unknown_append, unknown_append, unknown_identify x,
      unknown_identify y]
  | .call f args => by
    rw [identify, unknown_applied, names, unknown_append, unknown_identifyAll args]
  | .collection b items => by
    rw [identify, names, names]
    exact unknown_identifyAll items
  | .number _ => rfl
  | .name _ => rfl
  | .compare _ _ => rfl
  | .either _ _ => rfl
  | .both _ _ => rfl
  | .item _ _ => rfl
  | .pairs _ => rfl

theorem unknown_identifyAll : (xs : List Expr) →
    unknown (namesOfAll (identifyAll xs)) = unknown (namesOfAll xs)
  | [] => rfl
  | x :: xs => by
    rw [identifyAll, namesOfAll, namesOfAll, unknown_append, unknown_append, unknown_identify x,
      unknown_identifyAll xs]

end

theorem variableNames_identify (x : Expr) : x.identify.variableNames = x.variableNames :=
  unknown_identify x

end Expr

/-! ## The words of a phrase -/

namespace Phrase

/-- The words of the normal text of a phrase. -/
def words (p : Phrase) : List String := (p.lexemes.map Lexeme.normal).flatMap Lexeme.words

theorem words_append (xs ys : List Lexeme) :
    ((xs ++ ys).map Lexeme.normal).flatMap Lexeme.words =
      (xs.map Lexeme.normal).flatMap Lexeme.words ++
        (ys.map Lexeme.normal).flatMap Lexeme.words := by
  rw [List.map_append, List.flatMap_append]

/-- **The words of a phrase are the names of its tree.** -/
theorem words_eq (p : Phrase) : p.words = p.tree.names := by
  induction p with
  | number n => rfl
  | name w => rfl
  | call f g args g' ih =>
    have hargs : (call f g args g').words = f.val :: args.words := by
      refine congrArg (f.val :: ·) ((words_append args.lexemes [.closing]).trans ?_)
      exact List.append_nil _
    rw [hargs, tree, Expr.names, Expr.names, Expr.namesOfAll_items, ih]
    rfl
  | bare f g => rfl
  | group g p g' ih =>
    have hinner : (group g p g').words = p.words :=
      (words_append p.lexemes [.closing]).trans (List.append_nil _)
    rw [hinner, ih]
    rfl
  | power b g doubled g' e ihb ihe =>
    have hparts : (power b g doubled g' e).words = b.words ++ e.words :=
      words_append b.lexemes (.power doubled :: e.lexemes)
    rw [hparts, ihb, ihe]
    rfl
  | minus g p ih => exact ih
  | binary op x g g' y ihx ihy =>
    have hparts : (binary op x g g' y).words = x.words ++ y.words :=
      words_append x.lexemes (.arith op :: y.lexemes)
    rw [hparts, ihx, ihy]
    rfl
  | joint x y ihx ihy =>
    have hparts : (joint x y).words = x.words ++ y.words :=
      words_append x.lexemes (.joint x.seam :: y.lexemes)
    rw [hparts, ihx, ihy]
    rfl
  | comma x g g' y ihx ihy =>
    have hparts : (comma x g g' y).words = x.words ++ y.words :=
      words_append x.lexemes (.comma :: y.lexemes)
    rw [hparts, ihx, ihy, tree, Expr.names, Expr.namesOfAll, Expr.namesOfAll_items]

end Phrase

/-! ## Normal texts of phrases -/

/-- What a normal text has in common with a phrase: the variables, and tokens that the reader makes
    a tree of. -/
structure Renders (n : List Char) (tree : Expr) : Prop where
  names : namesIn n = tree.variableNames.foldr insertName []
  reads : ∃ ts x, Token.scan (n.length + 1) n = some ts ∧ Expr.ofTokens? ts = some x ∧
    x.identify = tree.identify

theorem sewn_normal (ls : List Lexeme) : Sewn (ls.map Lexeme.normal) := by
  intro l hl
  obtain ⟨x, -, rfl⟩ := List.mem_map.mp hl
  cases x <;> rfl

/-- **What a text says that consists of the normal lexemes of a phrase**: the variables and the tree
    of the phrase. -/
theorem renders_of_spells {p : Phrase} (h : p.Sound) (hstrength : 2 ≤ p.strength) {n : List Char}
    (hspells : Spells isSpace (p.lexemes.map Lexeme.normal) n) : n ≠ [] ∧ Renders n p.tree := by
  have hchain : Chained (p.lexemes.map Lexeme.normal) :=
    ((Phrase.fitted h).map Lexeme.tame_normal).chain
  have hblank := hspells.mono fun c hc => isBlank_of_isSpace hc
  have hscan := scanNames_spells hblank hchain clear_start
  have hnames : scanNames 0 none n = p.tree.names := hscan.trans p.words_eq
  have hpower : ∀ l ∈ p.lexemes.map Lexeme.normal, l ≠ .power false := by
    intro l hl
    obtain ⟨x, -, rfl⟩ := List.mem_map.mp hl
    cases x <;> simp [Lexeme.normal]
  obtain ⟨x, hx, hxtree⟩ := Phrase.ofTokens?_tokens h.proper hstrength
  refine ⟨?_, ?_, p.tokens, x, ?_, hx, hxtree⟩
  · rintro rfl
    obtain ⟨l, ls, hls, -⟩ := p.first h.proper
    rw [hls, List.map_cons] at hspells
    obtain ⟨g₁, rest, -, -, heq⟩ := hspells.of_cons
    obtain ⟨c, tail, htext⟩ := Lexeme.text_ne (sewn_normal (l :: ls) l.normal List.mem_cons_self)
    rw [htext] at heq
    simp at heq
  · unfold namesIn
    rw [hnames]
    rfl
  · exact scan_spells hspells hchain (sewn_normal _) hpower (Nat.lt_succ_self _)

/-- **What the normal text of a phrase says.**  Normalizing succeeds, and the normal text has the
    variables and the tree of the phrase. -/
theorem normalize_renders {p : Phrase} (h : p.Sound) (hstrength : 2 ≤ p.strength) (g g' : Gap) :
    ∃ n, normalize (g.text ++ (p.text ++ g'.text)) = .ok n ∧ n ≠ [] ∧ Renders n p.tree := by
  obtain ⟨p', n, hsound, hstrength', htree, hnormal, hspells⟩ := normalize_phrase h hstrength g g'
  obtain ⟨hne, hnames, ts, x, hts, hx, hxtree⟩ := renders_of_spells hsound hstrength' hspells
  refine ⟨n, hnormal, hne, hnames.trans ?_, ts, x, hts, hx, hxtree.trans htree⟩
  rw [← Expr.variableNames_identify, htree, Expr.variableNames_identify]

end InitialValue.Formula
