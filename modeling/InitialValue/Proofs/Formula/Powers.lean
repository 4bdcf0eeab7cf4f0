/-
  Spelling powers keeps the tree.

  One pass of the power rule over the text of a phrase gives the text of another phrase with the
  same tree, up to the spelling of powers (`respells`).  The induction is on the phrase, for every
  text in front of it and behind it.  At a power, the rule either takes the whole of it, which then
  is a call of `pow` on the same two phrases, or goes on inside; everywhere else it finds nothing.

  What has to be known of the new phrase for the phrases around it — how strong it is, what it
  starts and ends with — is collected in `Respelt`.  Passes are repeated; however often, they give
  such a phrase (`spellPowersUpTo_text`).
-/
import InitialValue.Proofs.Formula.PowerRule

namespace InitialValue.Formula

open InitialValue.Text

/-! ## Words and numbers are written again -/

theorem startBlocked_word {before : List Char} {c : Char} (h : isWord c = true) :
    startBlocked (c :: before) = true := by
  show (isWord c || c == '.' || c == ')') = true
  rw [h]
  rfl

theorem startBlocked_mark {c : Char} (h : c ∈ ['(', '+', '-', '*', '/', ',', '^'])
    (before : List Char) : startBlocked (c :: before) = false := by
  have hall : ∀ c ∈ ['(', '+', '-', '*', '/', ',', '^'],
      (isWord c || c == '.' || c == ')') = false := forall_mem_of_all (by decide)
  exact hall c h

theorem pass_word {w before rest : List Char} (hw : isPlainText w = true)
    (h : powerRule before (w ++ rest) = none) :
    powerRule.pass 0 before (w ++ rest) = w ++ powerRule.pass 0 (w.reverse ++ before) rest :=
  Rule.pass_behind
    (fun _ _ cs hd => powerRule_blocked (startBlocked_word (isWord_of_isPlainWord hd)) cs)
    (fun _ hc => mem_of_isPlainText hw hc) h

/-- Operands at the front of a run of digits. -/
theorem operandLengths_run {run rest : List Char} (hrun : DigitRun run)
    (hrest : Decimal.Clear rest) : ∀ m ∈ operandLengths (run ++ rest),
      m = run.length ∧ '_' ∉ run ∨ RunsOn ((run ++ rest).drop m) := by
  intro m hm
  obtain ⟨d, more, hhead, hd⟩ := hrun.head
  obtain ⟨ds, q, hsplit, hlength, hunder, hq⟩ := numberLength?_run hrun hrest
  have hplain := isPlainWord_of_isDigit hd
  have hname : nameLength? (run ++ rest) = none := by
    rw [hhead]
    exact nameLength?_other (isPlainStart_of_isDigit hd) _
  have hgroup : groupLength? (run ++ rest) = none := by
    rw [hhead]
    exact groupLength?_other (ne_of_plain hplain (by decide)) _
  unfold operandLengths at hm
  rw [hname, hlength, hgroup] at hm
  rw [List.mem_singleton.mp hm]
  rcases hq with rfl | ⟨more, rfl⟩
  · left
    rw [List.append_nil] at hsplit
    rw [hsplit]
    exact ⟨rfl, hunder⟩
  · right
    rw [hsplit, List.append_assoc, List.drop_left]
    exact ⟨'_', more ++ rest, rfl, Or.inl (by decide)⟩

/-- Over a number the rule finds nothing, if it finds nothing at its front and none behind the sign
    of its exponent. -/
theorem pass_numeral {n : Numeral} {before rest : List Char}
    (h : powerRule before (n.text ++ rest) = none)
    (hsigned : ∀ front sign run, n.text = front ++ sign :: run → (sign = '+' ∨ sign = '-') →
      DigitRun run → powerRule (sign :: (front.reverse ++ before)) (run ++ rest) = none) :
    powerRule.pass 0 before (n.text ++ rest) =
      n.text ++ powerRule.pass 0 (n.text.reverse ++ before) rest := by
  refine n.pass_quiet (fun d before cs hd => powerRule_blocked ?_ cs) h hsigned
  show (isWord d || d == '.' || d == ')') = true
  rw [hd]
  rfl

/-! ## Trees -/

namespace Expr

theorem identifyAll_items (x : Expr) : identifyAll x.items = (identify x).items := by
  cases x with
  | collection b xs =>
    cases b with
    | round => rfl
    | square => rfl
    | curly => rfl
  | call f args =>
    show [applied f (identifyAll args)] = (applied f (identifyAll args)).items
    unfold applied
    split <;> rfl
  | _ => rfl

end Expr

namespace Phrase

/-- Only comma lists stand for several items. -/
theorem tree_items {p : Phrase} (hp : p.proper = true) (hstrength : 2 ≤ p.strength) :
    p.tree.items = [p.tree] := by
  induction p with
  | group g q g' ih =>
    simp only [proper, Bool.and_eq_true, decide_eq_true_eq] at hp
    exact ih hp.2 hp.1
  | comma => simp [strength] at hstrength
  | _ => rfl

theorem strength_le (p : Phrase) : p.strength ≤ 6 := by
  cases p with
  | binary op => cases op <;> simp [strength, Arith.strength]
  | _ => simp [strength]

/-- The word that a phrase consists of. -/
def word? : Phrase → Option (Numeral ⊕ Name)
  | number n => some (.inl n)
  | name w => some (.inr w)
  | _ => none

theorem isName_eq (p : Phrase) : p.isName = p.word?.any fun w => w.isRight := by cases p <;> rfl

theorem isSigned_eq (p : Phrase) :
    p.isSigned = p.word?.any fun w => w.elim Numeral.signed fun _ => false := by cases p <;> rfl

theorem isFragile_eq (p : Phrase) :
    p.isFragile = p.word?.any fun w => w.elim Numeral.fragile fun _ => false := by cases p <;> rfl

/-- A power as a call. -/
def asCall (b e : Phrase) : Phrase :=
  call ⟨"pow", by decide⟩ .none (comma b .none .single e) .none

theorem asCall_text (b e : Phrase) : (asCall b e).text = spelled b.text e.text := by
  show (asCall b e).text = "pow(".toList ++ b.text ++ [',', ' '] ++ e.text ++ [')']
  simp [asCall, text, Gap.none, Gap.single]

/-- Brackets stand where they have to, and powers can be spelled without harm. -/
structure Sound (p : Phrase) : Prop where
  proper : p.proper = true
  sturdy : p.sturdy = true
  uncaught : p.uncaught = true

section

variable {g g' : Gap} {b e x y : Phrase}

theorem sound_group_iff {q : Phrase} :
    (group g q g').Sound ↔ q.Sound ∧ 2 ≤ q.strength := by
  constructor
  · rintro ⟨hp, hs, hu⟩
    simp only [proper, Bool.and_eq_true, decide_eq_true_eq] at hp
    exact ⟨⟨hp.2, hs, hu⟩, hp.1⟩
  · rintro ⟨h, hstrength⟩
    refine ⟨?_, h.sturdy, h.uncaught⟩
    simp only [proper, Bool.and_eq_true, decide_eq_true_eq]
    exact ⟨hstrength, h.proper⟩

theorem sound_minus_iff {q : Phrase} : (minus g q).Sound ↔ q.Sound ∧ 4 ≤ q.strength := by
  constructor
  · rintro ⟨hp, hs, hu⟩
    simp only [proper, Bool.and_eq_true, decide_eq_true_eq] at hp
    exact ⟨⟨hp.2, hs, hu⟩, hp.1⟩
  · rintro ⟨h, hstrength⟩
    refine ⟨?_, h.sturdy, h.uncaught⟩
    simp only [proper, Bool.and_eq_true, decide_eq_true_eq]
    exact ⟨hstrength, h.proper⟩

theorem sound_power_iff {doubled : Bool} : (power b g doubled g' e).Sound ↔
    b.Sound ∧ e.Sound ∧ b.strength = 6 ∧ 4 ≤ e.strength ∧ b.isFragile = false := by
  constructor
  · rintro ⟨hp, hs, hu⟩
    simp only [proper, sturdy, uncaught, Bool.and_eq_true, beq_iff_eq, decide_eq_true_eq,
      Bool.not_eq_true'] at hp hs hu
    obtain ⟨⟨⟨hb, he⟩, hbp⟩, hep⟩ := hp
    exact ⟨⟨hbp, hs.1.2, hu.1⟩, ⟨hep, hs.2, hu.2⟩, hb, he, hs.1.1⟩
  · rintro ⟨hb, he, hbase, hexponent, hfragile⟩
    constructor <;> simp only [proper, sturdy, uncaught, Bool.and_eq_true, beq_iff_eq,
      decide_eq_true_eq, Bool.not_eq_true']
    · exact ⟨⟨⟨hbase, hexponent⟩, hb.proper⟩, he.proper⟩
    · exact ⟨⟨hfragile, hb.sturdy⟩, he.sturdy⟩
    · exact ⟨hb.uncaught, he.uncaught⟩

theorem sound_binary_iff {op : Arith} : (binary op x g g' y).Sound ↔
    x.Sound ∧ y.Sound ∧ op.strength ≤ x.strength ∧ op.strength < y.strength := by
  constructor
  · rintro ⟨hp, hs, hu⟩
    simp only [proper, sturdy, uncaught, Bool.and_eq_true, decide_eq_true_eq] at hp hs hu
    obtain ⟨⟨⟨hx, hy⟩, hxp⟩, hyp⟩ := hp
    exact ⟨⟨hxp, hs.1, hu.1⟩, ⟨hyp, hs.2, hu.2⟩, hx, hy⟩
  · rintro ⟨hx, hy, hxs, hys⟩
    constructor <;> simp only [proper, sturdy, uncaught, Bool.and_eq_true, decide_eq_true_eq]
    · exact ⟨⟨⟨hxs, hys⟩, hx.proper⟩, hy.proper⟩
    · exact ⟨hx.sturdy, hy.sturdy⟩
    · exact ⟨hx.uncaught, hy.uncaught⟩

theorem sound_comma_iff : (comma x g g' y).Sound ↔ x.Sound ∧ y.Sound ∧ 2 ≤ x.strength := by
  constructor
  · rintro ⟨hp, hs, hu⟩
    simp only [proper, sturdy, uncaught, Bool.and_eq_true, decide_eq_true_eq] at hp hs hu
    obtain ⟨⟨hx, hxp⟩, hyp⟩ := hp
    exact ⟨⟨hxp, hs.1, hu.1⟩, ⟨hyp, hs.2, hu.2⟩, hx⟩
  · rintro ⟨hx, hy, hxs⟩
    constructor <;> simp only [proper, sturdy, uncaught, Bool.and_eq_true, decide_eq_true_eq]
    · exact ⟨⟨hxs, hx.proper⟩, hy.proper⟩
    · exact ⟨hx.sturdy, hy.sturdy⟩
    · exact ⟨hx.uncaught, hy.uncaught⟩

theorem sound_joint_iff : (joint x y).Sound ↔ x.Sound ∧ y.Sound ∧ 3 ≤ x.strength ∧
    5 ≤ y.strength ∧ (x.ending = .bracket ∨ y.opens = true) ∧ apart x y = true := by
  constructor
  · rintro ⟨hp, hs, hu⟩
    simp only [proper, sturdy, uncaught, Bool.and_eq_true, Bool.or_eq_true, beq_iff_eq,
      decide_eq_true_eq] at hp hs hu
    obtain ⟨⟨⟨⟨hx, hy⟩, hjoin⟩, hxp⟩, hyp⟩ := hp
    obtain ⟨⟨hapart, hxu⟩, hyu⟩ := hu
    exact ⟨⟨hxp, hs.1, hxu⟩, ⟨hyp, hs.2, hyu⟩, hx, hy, hjoin, hapart⟩
  · rintro ⟨hx, hy, hxs, hys, hjoin, hapart⟩
    constructor <;> simp only [proper, sturdy, uncaught, Bool.and_eq_true, Bool.or_eq_true,
      beq_iff_eq, decide_eq_true_eq]
    · exact ⟨⟨⟨⟨hxs, hys⟩, hjoin⟩, hx.proper⟩, hy.proper⟩
    · exact ⟨hx.sturdy, hy.sturdy⟩
    · exact ⟨⟨hapart, hx.uncaught⟩, hy.uncaught⟩

end

end Phrase

/-! ## One pass -/

/-- `Respelt p p' before rest` — between these texts, the phrase `p` may be replaced with `p'`. -/
structure Respelt (p p' : Phrase) (before rest : List Char) : Prop where
  sound : p'.Sound
  tree : p'.tree.identify = p.tree.identify
  strength : p.strength ≤ p'.strength
  word : p'.word? = p.word?
  explicit : p.explicit = true → p'.explicit = true
  bracket : p.hasBracket = true → p'.hasBracket = true
  lead : startBlocked before = true → p'.lead = p.lead ∨ p.lead = .flat ∧ p'.lead = .deep
  ending : endsPower rest = false → p'.ending = p.ending

/-- Of two phrases next to each other, what the parts have both have. -/
theorem Respelt.pair {x x' y y' : Phrase} {before after behind rest : List Char}
    (h : Respelt x x' before after) (h' : Respelt y y' behind rest) :
    ((x.explicit && y.explicit) = true → (x'.explicit && y'.explicit) = true) ∧
      ((x.hasBracket || y.hasBracket) = true → (x'.hasBracket || y'.hasBracket) = true) := by
  simp only [Bool.and_eq_true, Bool.or_eq_true]
  exact ⟨And.imp h.explicit h'.explicit, Or.imp h.bracket h'.bracket⟩

/-- The place of a phrase in a text, such that no power of the text starts in front of the phrase
    or ends behind it and no part of the phrase is taken as part of something else. -/
structure Place (p : Phrase) (before rest : List Char) : Prop where
  behind : Behind p.ending rest
  ready : (NoPower rest ∧ (p.ending = .free → ∀ k, groupLength? (skipBlanks rest) = some k →
      NoPower ((skipBlanks rest).drop k))) ∨
    p.strength = 6 ∧ (∀ n, p ≠ .number n) ∧ powerRule before (p.text ++ rest) = none
  risky : p.lead = .risky → startBlocked before = false

/-- Wherever it stands, the power rule writes the phrase again in one pass, up to the spelling of
    its powers. -/
def Respells (p : Phrase) : Prop :=
  p.Sound → ∀ before rest, Place p before rest →
    ∃ p', Respelt p p' before rest ∧
      powerRule.pass 0 before (p.text ++ rest) =
        p'.text ++ powerRule.pass 0 (p.text.reverse ++ before) rest

theorem Closed.place {p : Phrase} {before rest : List Char} (h : Closed rest)
    (hrisky : p.lead = .risky → startBlocked before = false) : Place p before rest :=
  ⟨h.behind _, Or.inl ⟨h.power, fun _ k hk => by rw [h.group] at hk; cases hk⟩, hrisky⟩

theorem respelt_refl {p : Phrase} (h : p.Sound) (before rest : List Char) :
    Respelt p p before rest :=
  ⟨h, rfl, Nat.le_refl _, rfl, id, id, fun _ => Or.inl rfl, fun _ => rfl⟩

/-- Behind a phrase that is no operand, no power starts. -/
theorem Place.noPower {p : Phrase} {before rest : List Char} (h : Place p before rest)
    (hp : p.strength ≠ 6) : NoPower rest ∧ (p.ending = .free → ∀ k,
      groupLength? (skipBlanks rest) = some k → NoPower ((skipBlanks rest).drop k)) :=
  h.ready.resolve_right fun h => hp h.1

/-- At the front of an operand, the rule finds nothing. -/
theorem Place.quiet {p : Phrase} {before rest : List Char} (h : Place p before rest)
    (hp : p.strength = 6) : powerRule before (p.text ++ rest) = none := by
  rcases h.ready with ⟨hpower, hfree⟩ | ⟨-, -, hnone⟩
  · exact powerRule_operand hp h.behind.stops hpower hfree
  · exact hnone

theorem startBlocked_gap (g : Gap) {before : List Char} (h : startBlocked before = false) :
    startBlocked (g.text.reverse ++ before) = false := by
  rcases List.eq_nil_or_concat g.text with hg | ⟨front, b, hg⟩
  · rw [hg]
    exact h
  · rw [List.concat_eq_append] at hg
    have hb : b ∈ g.text := by rw [hg]; simp
    have hword := isWord_of_isBlank (g.blank b hb)
    have hpoint := g.ne hb (d := '.') (isBlank_mark (by decide))
    have hclose := g.ne hb (d := ')') (isBlank_mark (by decide))
    rw [hg, List.reverse_append]
    show (isWord b || b == '.' || b == ')') = false
    simp [hword, hpoint, hclose]

theorem pass_gap (g : Gap) (before rest : List Char) :
    powerRule.pass 0 before (g.text ++ rest) =
      g.text ++ powerRule.pass 0 (g.text.reverse ++ before) rest :=
  Rule.pass_ignored (powerRule_ignores_gap g) before rest

theorem pass_mark {c : Char} (h : c ∈ ['+', '-', '*', '/', ',', ')', '^']) (before rest : List Char) :
    powerRule.pass 0 before (c :: rest) = c :: powerRule.pass 0 (c :: before) rest :=
  Rule.pass_none (powerRule_ignores_mark h before rest)

theorem pass_powerSign (doubled : Bool) (before rest : List Char) :
    powerRule.pass 0 before (powerSign doubled ++ rest) =
      powerSign doubled ++ powerRule.pass 0 ((powerSign doubled).reverse ++ before) rest := by
  cases doubled
  · exact pass_mark (by decide) _ _
  · refine (pass_mark (by decide) _ _).trans ?_
    show '*' :: powerRule.pass 0 ('*' :: before) ('*' :: rest) = _
    rw [pass_mark (by decide)]
    rfl

theorem respells_name (w : Name) : Respells (.name w) := by
  intro hsound before rest hplace
  exact ⟨.name w, respelt_refl hsound _ _, pass_word w.plain (hplace.quiet rfl)⟩

theorem respells_number (n : Numeral) : Respells (.number n) := by
  intro hsound before rest hplace
  refine ⟨.number n, respelt_refl hsound _ _, pass_numeral (hplace.quiet rfl) ?_⟩
  intro front sign run _ _ hrun
  have hclear : Decimal.Clear rest := hplace.behind.stops Phrase.number_ending
  have hpower : NoPower rest := by
    rcases hplace.ready with ⟨hpower, -⟩ | ⟨-, hnumber, -⟩
    · exact hpower
    · exact absurd rfl (hnumber n)
  refine powerRule_none fun m hm => exponent?_noPower ?_
  rcases operandLengths_run hrun hclear m hm with ⟨rfl, -⟩ | hruns
  · rw [List.drop_left]
    exact hpower
  · exact hruns.noPower

/-- Inside brackets, a phrase is followed by the closing one. -/
theorem respells_inside {q : Phrase} (ih : Respells q) (hq : q.Sound) (g g' : Gap)
    {before : List Char} (hbefore : startBlocked before = false) (rest : List Char) :
    ∃ q', Respelt q q' (g.text.reverse ++ before) (g'.text ++ ')' :: rest) ∧
      powerRule.pass 0 before (g.text ++ (q.text ++ (g'.text ++ ')' :: rest))) =
        g.text ++ (q'.text ++ (g'.text ++ ')' :: powerRule.pass 0
          (')' :: (g'.text.reverse ++ (q.text.reverse ++ (g.text.reverse ++ before)))) rest)) := by
  have hclosed : Closed (g'.text ++ ')' :: rest) := closed_gap g' (by decide)
  obtain ⟨q', hrespelt, hpass⟩ := ih hq (g.text.reverse ++ before) (g'.text ++ ')' :: rest)
    (hclosed.place fun _ => startBlocked_gap g hbefore)
  refine ⟨q', hrespelt, ?_⟩
  rw [pass_gap, hpass, pass_gap, pass_mark (by decide)]

theorem respells_group {g g' : Gap} {q : Phrase} (ih : Respells q) :
    Respells (.group g q g') := by
  intro hsound before rest hplace
  obtain ⟨hq, hstrength⟩ := Phrase.sound_group_iff.mp hsound
  obtain ⟨q', h, hpass⟩ := respells_inside ih hq g g'
    (startBlocked_mark (c := '(') (by decide) before) rest
  refine ⟨.group g q' g', ⟨Phrase.sound_group_iff.mpr ⟨h.sound, Nat.le_trans hstrength h.strength⟩,
    h.tree, Nat.le_refl _, rfl, h.explicit, fun _ => rfl, fun _ => ?_, fun _ => rfl⟩, ?_⟩
  · -- a group may get brackets inside, but never loses them
    rw [Phrase.lead, Phrase.lead]
    rcases hbracket : q.hasBracket with _ | _
    · rcases q'.hasBracket with _ | _
      · exact Or.inl rfl
      · exact Or.inr ⟨rfl, rfl⟩
    · rw [h.bracket hbracket]
      exact Or.inl rfl
  · have hstart := hplace.quiet rfl
    have htext : (Phrase.group g q g').text ++ rest =
        '(' :: (g.text ++ (q.text ++ (g'.text ++ ')' :: rest))) := by simp [Phrase.text]
    rw [htext] at hstart ⊢
    rw [Rule.pass_none hstart, hpass]
    simp [Phrase.text]

theorem respells_call {f : FunctionName} {g g' : Gap} {args : Phrase} (ih : Respells args) :
    Respells (.call f g args g') := by
  intro hsound before rest hplace
  have hargs : args.Sound := ⟨hsound.proper, hsound.sturdy, hsound.uncaught⟩
  obtain ⟨args', h, hpass⟩ := respells_inside ih hargs g g'
    (startBlocked_mark (c := '(') (by decide) (f.val.toList.reverse ++ before)) rest
  refine ⟨.call f g args' g', ⟨⟨h.sound.proper, h.sound.sturdy, h.sound.uncaught⟩, ?_,
    Nat.le_refl _, rfl, h.explicit, fun _ => rfl, fun _ => Or.inl rfl, fun _ => rfl⟩, ?_⟩
  · show Expr.applied _ (Expr.identifyAll args'.tree.items) =
      Expr.applied _ (Expr.identifyAll args.tree.items)
    rw [Expr.identifyAll_items, Expr.identifyAll_items, h.tree]
  · have hstart := hplace.quiet rfl
    have htext : (Phrase.call f g args g').text ++ rest =
        f.val.toList ++ '(' :: (g.text ++ (args.text ++ (g'.text ++ ')' :: rest))) := by
      simp [Phrase.text]
    have hopen : powerRule (f.val.toList.reverse ++ before)
        ('(' :: (g.text ++ (args.text ++ (g'.text ++ ')' :: rest)))) = none := by
      obtain ⟨front, c, hfront, hc⟩ := FunctionName.last f
      rw [hfront, List.reverse_append]
      exact powerRule_blocked (startBlocked_word (isWord_of_isPlainWord hc)) _
    rw [htext] at hstart ⊢
    rw [pass_word (FunctionName.plain f) hstart, Rule.pass_none hopen, hpass]
    simp [Phrase.text]

theorem respells_bare (f : FunctionName) (g : Gap) : Respells (.bare f g) := by
  intro hsound before rest hplace
  refine ⟨.bare f g, respelt_refl hsound _ _, ?_⟩
  have hstart := hplace.quiet rfl
  have htext : (Phrase.bare f g).text ++ rest = f.val.toList ++ '(' :: (g.text ++ ')' :: rest) := by
    simp [Phrase.text]
  have hopen :
      powerRule (f.val.toList.reverse ++ before) ('(' :: (g.text ++ ')' :: rest)) = none := by
    obtain ⟨front, c, hfront, hc⟩ := FunctionName.last f
    rw [hfront, List.reverse_append]
    exact powerRule_blocked (startBlocked_word (isWord_of_isPlainWord hc)) _
  rw [htext] at hstart ⊢
  rw [pass_word (FunctionName.plain f) hstart, Rule.pass_none hopen, pass_gap, pass_mark (by decide)]
  simp [Phrase.text]

theorem respells_minus {g : Gap} {p : Phrase} (ih : Respells p) : Respells (.minus g p) := by
  intro hsound before rest hplace
  obtain ⟨hp, hstrength⟩ := Phrase.sound_minus_iff.mp hsound
  obtain ⟨p', h, hpass⟩ := ih hp (g.text.reverse ++ '-' :: before) rest
    ⟨hplace.behind, Or.inl (hplace.noPower (by simp [Phrase.strength])),
      fun _ => startBlocked_gap g (startBlocked_mark (by decide) before)⟩
  refine ⟨.minus g p', ⟨Phrase.sound_minus_iff.mpr ⟨h.sound, Nat.le_trans hstrength h.strength⟩, ?_,
    Nat.le_refl _, rfl, h.explicit, h.bracket, fun _ => Or.inl rfl, h.ending⟩, ?_⟩
  · show Expr.signed _ (Expr.identify p'.tree) = Expr.signed _ (Expr.identify p.tree)
    rw [h.tree]
  · have htext : (Phrase.minus g p).text ++ rest = '-' :: (g.text ++ (p.text ++ rest)) := by
      simp [Phrase.text]
    rw [htext, pass_mark (by decide), pass_gap, hpass]
    simp [Phrase.text]

/-! ## Powers -/

/-- In a number with a sign in its exponent, what stands in front of the sign and behind it. -/
theorem Numeral.signed_parts {n : Numeral} {front run : List Char} {sign : Char}
    (htext : n.text = front ++ sign :: run) (hs : sign = '+' ∨ sign = '-') :
    n.signed = true ∧ n.fragile = (front.contains '_' && !run.contains '_') := by
  have hmem : sign ∈ n.text := by rw [htext]; simp
  refine ⟨List.any_eq_true.mpr ⟨sign, hmem, by rcases hs with rfl | rfl <;> rfl⟩, ?_⟩
  have hnot : ∀ x ∈ front, (x != '+' && x != '-') = true := by
    intro x hx
    have hbody := (n.at_sign htext hs).1 x hx
    have hplus : x ≠ '+' := by rintro rfl; cases hbody
    have hminus : x ≠ '-' := by rintro rfl; cases hbody
    simp [hplus, hminus]
  have hstop : StopsAt (fun x => x != '+' && x != '-') (sign :: run) :=
    stopsAt_cons (by rcases hs with rfl | rfl <;> rfl)
  unfold Numeral.fragile
  rw [htext, takeWhile_append_stop hnot hstop, dropWhile_append_stop hnot hstop]

/-- Over a number that is raised to a power, the rule finds nothing unless it finds the power. -/
theorem pass_base_numeral {n : Numeral} (hfragile : n.fragile = false) {before rest : List Char}
    (hclear : Decimal.Clear rest) (hrisky : n.signed = true → startBlocked before = false)
    (h : powerRule before (n.text ++ rest) = none) :
    powerRule.pass 0 before (n.text ++ rest) =
      n.text ++ powerRule.pass 0 (n.text.reverse ++ before) rest := by
  refine pass_numeral h fun front sign run htext hs hrun => powerRule_none fun m hm => ?_
  obtain ⟨hsigned, hparts⟩ := Numeral.signed_parts htext hs
  rw [hfragile] at hparts
  rcases operandLengths_run hrun hclear m hm with ⟨rfl, hunder⟩ | hruns
  · rw [List.drop_left]
    -- the number has no underscore, so the rule was tried on all of it
    have hnone : '_' ∉ n.text := by
      have hrunder : run.contains '_' = false := by
        rw [Bool.eq_false_iff]
        intro hc
        exact hunder (List.contains_iff_mem.mp hc)
      rw [hrunder, Bool.not_false, Bool.and_true] at hparts
      intro hmem
      rw [htext] at hmem
      rcases List.mem_append.mp hmem with hmem | hmem
      · rw [List.contains_iff_mem.mpr hmem] at hparts
        cases hparts
      · rcases List.mem_cons.mp hmem with hmem | hmem
        · rcases hs with rfl | rfl <;> cases hmem
        · exact hunder hmem
    obtain ⟨p, q, hsplit, hlength, -, hq⟩ := n.numberLength?_append hclear
    rcases hq with rfl | ⟨more, rfl⟩
    · rw [List.append_nil] at hsplit
      rw [powerRule_eq, if_neg (by rw [hrisky hsigned]; decide), operandLengths_numeral, hlength,
        ← hsplit] at h
      have hfirst := List.findSome?_eq_none_iff.mp h n.text.length (List.mem_singleton.mpr rfl)
      rw [List.drop_left] at hfirst
      exact Option.map_eq_none_iff.mp hfirst
    · exact absurd (by rw [hsplit]; simp) hnone
  · exact exponent?_noPower hruns.noPower

theorem Phrase.lead_of_operand {a : Phrase} (ha : a.strength = 6) : a.lead ≠ .risky := by
  rcases Phrase.atom_cases ha with ⟨n, rfl⟩ | ⟨w, rfl⟩ | ⟨f, g, args, g', rfl⟩ | ⟨f, g, rfl⟩ |
    ⟨g, q, g', rfl⟩
  · simp [Phrase.lead]
  · simp [Phrase.lead]
  · simp [Phrase.lead]
  · simp [Phrase.lead]
  · rw [Phrase.lead]
    split <;> simp

/-- The base of a power that is not spelled as a call. -/
theorem respells_base {b : Phrase} (ih : Respells b) (hb : b.strength = 6) (hsound : b.Sound)
    (hfragile : b.isFragile = false) {before rest : List Char}
    (hrisky : b.isSigned = true → startBlocked before = false) (hbehind : Behind b.ending rest)
    (h : powerRule before (b.text ++ rest) = none) :
    ∃ b', Respelt b b' before rest ∧
      powerRule.pass 0 before (b.text ++ rest) =
        b'.text ++ powerRule.pass 0 (b.text.reverse ++ before) rest := by
  by_cases hnumber : ∃ n, b = .number n
  · obtain ⟨n, rfl⟩ := hnumber
    have hclear : Decimal.Clear rest := hbehind.stops Phrase.number_ending
    exact ⟨.number n, respelt_refl hsound _ _, pass_base_numeral hfragile hclear hrisky h⟩
  · refine ih hsound before rest ⟨hbehind, Or.inr ⟨hb, fun n hn => hnumber ⟨n, hn⟩, h⟩, ?_⟩
    exact fun hlead => absurd hlead (Phrase.lead_of_operand hb)

/-- A power that is spelled as a call. -/
theorem respelt_asCall {b e : Phrase} {g g' : Gap} {doubled : Bool}
    (h : (Phrase.power b g doubled g' e).Sound) {before rest : List Char}
    (hstart : startBlocked before = false) (hend : endsPower rest = true) :
    Respelt (.power b g doubled g' e) (Phrase.asCall b e) before rest := by
  obtain ⟨hb, he, hbase, hexponent, -⟩ := Phrase.sound_power_iff.mp h
  have hcomma : (Phrase.comma b .none .single e).Sound :=
    Phrase.sound_comma_iff.mpr ⟨hb, he, by omega⟩
  refine ⟨⟨hcomma.proper, hcomma.sturdy, hcomma.uncaught⟩, ?_,
    by simp [Phrase.strength, Phrase.asCall], rfl, ?_, fun _ => rfl, ?_, ?_⟩
  · show Expr.applied _ (Expr.identifyAll (b.tree :: e.tree.items)) = _
    rw [Phrase.tree_items he.proper (by omega)]
    rfl
  · intro hexplicit
    simp only [Phrase.explicit, Bool.and_eq_true] at hexplicit
    simp only [Phrase.asCall, Phrase.explicit, Bool.and_eq_true]
    exact hexplicit
  · intro hblocked
    rw [hstart] at hblocked
    cases hblocked
  · intro hno
    rw [hend] at hno
    cases hno

theorem startBlocked_powerSign (doubled : Bool) (before : List Char) :
    startBlocked ((powerSign doubled).reverse ++ before) = false := by
  cases doubled
  · exact startBlocked_mark (by decide) _
  · exact startBlocked_mark (by decide) _

/-- The exponent of a power stands where the power stands. -/
theorem Place.exponent {b e : Phrase} {g g' : Gap} {doubled : Bool} {before rest : List Char}
    (h : Place (.power b g doubled g' e) before rest) :
    Place e (g'.text.reverse ++ ((powerSign doubled).reverse ++ (g.text.reverse ++
      (b.text.reverse ++ before)))) rest := by
  obtain ⟨hpower, -⟩ := h.noPower (by simp [Phrase.strength])
  have hbehind := h.behind
  rw [Phrase.ending] at hbehind
  -- a name at the end of an exponent is bound: no flat group may follow it
  have hgroup : e.ending = .free ∨ e.ending = .bound → groupLength? (skipBlanks rest) = none := by
    intro hend
    refine hbehind.bound ?_
    split
    · rfl
    · rename_i hfree
      exact hend.resolve_left hfree
  have hstops : Stops e.ending rest := by
    intro hne
    refine hbehind.stops ?_
    split
    · decide
    · exact hne
  refine ⟨⟨hstops, fun hbound => hgroup (Or.inr hbound)⟩, Or.inl ⟨hpower, fun hfree k hk => ?_⟩,
    fun _ => startBlocked_gap g' (startBlocked_powerSign doubled _)⟩
  rw [hgroup (Or.inl hfree)] at hk
  cases hk

/-- A power whose base and exponent are written again. -/
theorem Respelt.power {b b' e e' : Phrase} {g g' : Gap} {doubled : Bool}
    {before after behind rest : List Char} (hsound : (Phrase.power b g doubled g' e).Sound)
    (h : Respelt b b' before after) (h' : Respelt e e' behind rest) :
    Respelt (.power b g doubled g' e) (.power b' g doubled g' e') before rest := by
  obtain ⟨-, -, hbase, hexponent, hfragile⟩ := Phrase.sound_power_iff.mp hsound
  have hbase' : b'.strength = 6 := Nat.le_antisymm b'.strength_le (hbase ▸ h.strength)
  have hsigned : b'.isSigned = b.isSigned := by
    rw [Phrase.isSigned_eq, Phrase.isSigned_eq, h.word]
  have hfragile' : b'.isFragile = false := by
    rw [← hfragile, Phrase.isFragile_eq, Phrase.isFragile_eq, h.word]
  refine ⟨Phrase.sound_power_iff.mpr ⟨h.sound, h'.sound, hbase',
    Nat.le_trans hexponent h'.strength, hfragile'⟩, ?_, Nat.le_refl _, rfl, (h.pair h').1,
    (h.pair h').2, ?_, ?_⟩
  · show Expr.binary _ (Expr.identify b'.tree) (Expr.identify e'.tree) =
      Expr.binary _ (Expr.identify b.tree) (Expr.identify e.tree)
    rw [h.tree, h'.tree]
  · intro hblocked
    rw [Phrase.lead, Phrase.lead, hsigned]
    split
    · exact Or.inl rfl
    · exact h.lead hblocked
  · intro hno
    rw [Phrase.ending, Phrase.ending, h'.ending hno]

theorem respells_power {b e : Phrase} {g g' : Gap} {doubled : Bool} (ihb : Respells b)
    (ihe : Respells e) : Respells (.power b g doubled g' e) := by
  intro hsound before rest hplace
  obtain ⟨hb, he, hbase, -, hfragile⟩ := Phrase.sound_power_iff.mp hsound
  rcases powerRule_power hsound.proper hplace.behind before with hnone | ⟨hstart, hend, hhit⟩
  · -- the rule goes on inside
    have htext : (Phrase.power b g doubled g' e).text ++ rest =
        b.text ++ (g.text ++ (powerSign doubled ++ (g'.text ++ (e.text ++ rest)))) := by
      simp [Phrase.text]
    have hrisky : b.isSigned = true → startBlocked before = false := by
      intro hsigned
      exact hplace.risky (by rw [Phrase.lead, if_pos hsigned])
    rw [htext] at hnone
    obtain ⟨b', h, hpass⟩ := respells_base ihb hbase hb hfragile hrisky
      (behind_sign g doubled _ _).1 hnone
    obtain ⟨e', h', hpass'⟩ := ihe he _ rest hplace.exponent
    refine ⟨.power b' g doubled g' e', h.power hsound h', ?_⟩
    rw [htext, hpass, pass_gap, pass_powerSign, pass_gap, hpass']
    simp [Phrase.text]
  · -- the rule takes the whole power
    refine ⟨Phrase.asCall b e, respelt_asCall hsound hstart hend, ?_⟩
    obtain ⟨c, cs, htext, -⟩ := (Phrase.power b g doubled g' e).head hsound.proper
    rw [htext, List.cons_append] at hhit ⊢
    rw [Rule.pass_hit hhit, Phrase.asCall_text]

/-! ## Sums, products and lists -/

theorem closed_mark (op : Arith) (g : Gap) {rest : List Char} (hrest : StopsAt (· == '*') rest) :
    Closed (g.text ++ op.mark :: rest) := by
  cases op
  · exact closed_gap g (by decide)
  · exact closed_gap g (by decide)
  · exact closed_star g hrest
  · exact closed_gap g (by decide)

theorem not_star_behind (g : Gap) {y : Phrase} (hy : y.proper = true) (rest : List Char) :
    StopsAt (· == '*') (g.text ++ (y.text ++ rest)) := by
  obtain ⟨c, cs, htext, hc⟩ := y.head hy
  intro x hx
  rcases hg : g.text with _ | ⟨b, more⟩
  · rw [hg, htext] at hx
    cases hx
    simpa using hc.ne (d := '*') (by decide)
  · rw [hg] at hx
    cases hx
    have hb : x ∈ g.text := by rw [hg]; exact List.mem_cons_self
    simpa using g.ne hb (d := '*') (isBlank_mark (by decide))

theorem Arith.mark_mem (op : Arith) : op.mark ∈ ['+', '-', '*', '/', ',', ')', '^'] ∧
    op.mark ∈ ['(', '+', '-', '*', '/', ',', '^'] := by cases op <;> decide

theorem respells_binary {op : Arith} {x y : Phrase} {g g' : Gap} (ihx : Respells x)
    (ihy : Respells y) : Respells (.binary op x g g' y) := by
  intro hsound before rest hplace
  obtain ⟨hx, hy, hxs, hys⟩ := Phrase.sound_binary_iff.mp hsound
  have hready := hplace.noPower (by cases op <;> simp [Phrase.strength, Arith.strength])
  have hclosed : Closed (g.text ++ op.mark :: (g'.text ++ (y.text ++ rest))) :=
    closed_mark op g (not_star_behind g' hy.proper rest)
  obtain ⟨x', h, hpass⟩ := ihx hx before _ (hclosed.place hplace.risky)
  obtain ⟨y', h', hpass'⟩ := ihy hy _ rest
    ⟨hplace.behind, Or.inl hready, fun _ => startBlocked_gap g'
      (startBlocked_mark op.mark_mem.2 (g.text.reverse ++ (x.text.reverse ++ before)))⟩
  have hsound' : (Phrase.binary op x' g g' y').Sound := Phrase.sound_binary_iff.mpr
    ⟨h.sound, h'.sound, Nat.le_trans hxs h.strength, Nat.lt_of_lt_of_le hys h'.strength⟩
  refine ⟨_, ⟨hsound', ?_, Nat.le_refl _, rfl, (h.pair h').1, (h.pair h').2, h.lead, h'.ending⟩, ?_⟩
  · show Expr.binary _ (Expr.identify x'.tree) (Expr.identify y'.tree) =
      Expr.binary _ (Expr.identify x.tree) (Expr.identify y.tree)
    rw [h.tree, h'.tree]
  · have htext : (Phrase.binary op x g g' y).text ++ rest =
        x.text ++ (g.text ++ op.mark :: (g'.text ++ (y.text ++ rest))) := by simp [Phrase.text]
    rw [htext, hpass, pass_gap, pass_mark op.mark_mem.1, pass_gap, hpass']
    simp [Phrase.text]

theorem respells_comma {x y : Phrase} {g g' : Gap} (ihx : Respells x) (ihy : Respells y) :
    Respells (.comma x g g' y) := by
  intro hsound before rest hplace
  obtain ⟨hx, hy, hxs⟩ := Phrase.sound_comma_iff.mp hsound
  have hclosed : Closed (g.text ++ ',' :: (g'.text ++ (y.text ++ rest))) := closed_gap g (by decide)
  obtain ⟨x', h, hpass⟩ := ihx hx before _ (hclosed.place hplace.risky)
  have hready := hplace.noPower (by simp [Phrase.strength])
  obtain ⟨y', h', hpass'⟩ := ihy hy _ rest
    ⟨hplace.behind, Or.inl hready, fun _ => startBlocked_gap g'
      (startBlocked_mark (c := ',') (by decide) (g.text.reverse ++ (x.text.reverse ++ before)))⟩
  refine ⟨.comma x' g g' y', ⟨Phrase.sound_comma_iff.mpr ⟨h.sound, h'.sound,
    Nat.le_trans hxs h.strength⟩, ?_, Nat.le_refl _, rfl, (h.pair h').1, (h.pair h').2, h.lead,
    h'.ending⟩, ?_⟩
  · show Expr.collection _ (Expr.identify x'.tree :: Expr.identifyAll y'.tree.items) =
      Expr.collection _ (Expr.identify x.tree :: Expr.identifyAll y.tree.items)
    rw [Expr.identifyAll_items, Expr.identifyAll_items, h.tree, h'.tree]
  · have htext : (Phrase.comma x g g' y).text ++ rest =
        x.text ++ (g.text ++ ',' :: (g'.text ++ (y.text ++ rest))) := by simp [Phrase.text]
    rw [htext, hpass, pass_gap, pass_mark (by decide), pass_gap, hpass']
    simp [Phrase.text]

/-! ## Products without a sign -/

/-- The second factor of a product without a sign starts with a bracket, a word or a point. -/
theorem joined_head {y : Phrase} (hy : y.proper = true) (hstrength : 5 ≤ y.strength) :
    ∃ c cs, y.text = c :: cs ∧ (c = '(' ∨ isPlainWord c = true ∨ c = '.') ∧
      (y.opens = true → c = '(') := by
  obtain ⟨c, cs, htext, hc⟩ := y.head hy
  refine ⟨c, cs, htext, ?_⟩
  unfold Phrase.IsHead at hc
  split at hc
  · exact ⟨Or.inl hc, fun _ => hc⟩
  · rename_i hopens
    rcases hc with hc | hc | ⟨hc, -⟩
    · exact ⟨Or.inr (Or.inl hc), fun h => absurd h hopens⟩
    · exact ⟨Or.inr (Or.inr hc), fun h => absurd h hopens⟩
    · omega

/-- At the front of a bracket group with further brackets there is no flat group. -/
theorem groupLength?_lead {y : Phrase} (hy : y.proper = true) (hstrength : 5 ≤ y.strength)
    (hlead : y.lead = .deep) (rest : List Char) : groupLength? (y.text ++ rest) = none := by
  have hgroup : ∀ g q g', (Phrase.group g q g').lead = .deep → ∀ rest,
      groupLength? ((Phrase.group g q g').text ++ rest) = none := by
    intro g q g' h rest
    rw [Phrase.lead] at h
    split at h
    · rename_i hbracket
      rw [Phrase.text, List.cons_append, groupLength?_phrase, if_pos hbracket]
    · cases h
  cases y with
  | group g q g' => exact hgroup g q g' hlead rest
  | power b g doubled g' e =>
    simp only [Phrase.proper, Bool.and_eq_true, beq_iff_eq] at hy
    rw [Phrase.lead] at hlead
    split at hlead
    · cases hlead
    · rcases Phrase.atom_cases hy.1.1.1 with ⟨n, rfl⟩ | ⟨w, rfl⟩ | ⟨f, g, args, g', rfl⟩ |
        ⟨f, g, rfl⟩ | ⟨gq, q, gq', rfl⟩
      · cases hlead
      · cases hlead
      · cases hlead
      · cases hlead
      · rw [Phrase.text, List.append_assoc]
        exact hgroup gq q gq' hlead _
  | binary op => cases op <;> simp [Phrase.strength, Arith.strength] at hstrength
  | joint => simp [Phrase.strength] at hstrength
  | comma => simp [Phrase.strength] at hstrength
  | _ => cases hlead

/-- Factors stay apart if the first one ends as before and the second one starts with no fewer
    brackets. -/
theorem apart_of_lead {x x' y y' : Phrase} (hending : x'.ending = x.ending)
    (hlead : y'.lead = y.lead ∨ y.lead = .flat ∧ y'.lead = .deep)
    (hstrength : y.strength ≤ y'.strength) (h : Phrase.apart x y = true) :
    Phrase.apart x' y' = true := by
  unfold Phrase.apart at h ⊢
  rw [hending]
  cases hx : x.ending with
  | free =>
    simp only [hx, Bool.or_eq_true, beq_iff_eq] at h ⊢
    rcases h with hdeep | hoperand
    · rcases hlead with heq | ⟨-, heq⟩
      · exact Or.inl (heq.trans hdeep)
      · exact Or.inl heq
    · exact Or.inr (Nat.le_antisymm y'.strength_le (hoperand ▸ hstrength))
  | bound =>
    simp only [hx, beq_iff_eq] at h ⊢
    rcases hlead with heq | ⟨-, heq⟩
    · exact heq.trans h
    · exact heq
  | fixed => rfl
  | grouped => simp [hx] at h
  | bracket =>
    simp only [hx, bne_iff_ne] at h ⊢
    rcases hlead with heq | ⟨-, heq⟩
    · rw [heq]
      exact h
    · rw [heq]
      decide

/-- The second factor touches the first one, so no power ends with the first one or starts with the
    second one. -/
theorem joined_touch {y : Phrase} (hy : y.proper = true) (hstrength : 5 ≤ y.strength)
    (rest : List Char) : skipBlanks (y.text ++ rest) = y.text ++ rest ∧ NoPower (y.text ++ rest) ∧
      endsPower (y.text ++ rest) = false := by
  obtain ⟨c, cs, htext, hc, -⟩ := joined_head hy hstrength
  have hblank : isBlank c = false := by
    rcases hc with rfl | hc | rfl
    · exact isBlank_mark (by decide)
    · exact isBlank_of_isWord (isWord_of_isPlainWord hc)
    · exact isBlank_mark (by decide)
  have hskip : skipBlanks (y.text ++ rest) = y.text ++ rest := by
    rw [htext, List.cons_append, skipBlanks_cons hblank]
  refine ⟨hskip, ?_, ?_⟩
  · unfold NoPower
    rw [hskip, htext]
    refine powerSignLength?_other ?_ ?_ _
    · rintro rfl
      exact absurd hc (by decide)
    · rintro rfl
      exact absurd hc (by decide)
  · rw [htext]
    unfold endsPower
    rcases hc with rfl | hc | rfl
    · simp
    · simp [isWord_of_isPlainWord hc]
    · simp

/-- Right behind a phrase no power starts. -/
theorem startBlocked_behind (x : Phrase) (before : List Char) :
    startBlocked (x.text.reverse ++ before) = true := by
  obtain ⟨front, d, htext, hd⟩ := x.last
  rw [htext, List.reverse_append]
  unfold Phrase.IsLast at hd
  split at hd
  · rw [hd]
    rfl
  · exact startBlocked_word (isWord_of_isPlainWord hd)

section

variable {x y : Phrase} {before rest : List Char}

/-- Where the first factor stands.  This is where the factors have to be apart: a name takes no flat
    group for its own, unless nothing is raised to a power there. -/
theorem Place.first (h : Place (.joint x y) before rest) (hsound : (Phrase.joint x y).Sound) :
    Place x before (y.text ++ rest) := by
  obtain ⟨-, hy, -, hys, hjoin, hapart⟩ := Phrase.sound_joint_iff.mp hsound
  obtain ⟨hskip, hpower, -⟩ := joined_touch hy.proper hys rest
  have hready := h.noPower (by simp [Phrase.strength])
  refine ⟨⟨?_, ?_⟩, Or.inl ⟨hpower, ?_⟩, h.risky⟩
  · intro hne
    obtain ⟨c, cs, htext, -, hopens⟩ := joined_head hy.proper hys
    rw [htext, hopens (hjoin.resolve_left hne)]
    exact stopsAt_cons (by decide)
  · intro hbound
    rw [Phrase.apart, hbound] at hapart
    rw [hskip]
    exact groupLength?_lead hy.proper hys (beq_iff_eq.mp hapart) rest
  · intro hfree k hk
    rw [Phrase.apart, hfree] at hapart
    simp only [Bool.or_eq_true, beq_iff_eq] at hapart
    rw [hskip] at hk ⊢
    rcases hapart with hdeep | hoperand
    · rw [groupLength?_lead hy.proper hys hdeep] at hk
      cases hk
    · -- the second factor is the flat group, and what follows it follows the product
      have hopen : y.opens = true := hjoin.resolve_left (by rw [hfree]; decide)
      rcases Phrase.atom_cases hoperand with ⟨n, rfl⟩ | ⟨w, rfl⟩ | ⟨f, g, args, g', rfl⟩ |
        ⟨f, g, rfl⟩ | ⟨g, q, g', rfl⟩
      · cases hopen
      · cases hopen
      · cases hopen
      · cases hopen
      · rw [Phrase.text, List.cons_append, groupLength?_phrase] at hk
        split at hk
        · cases hk
        · rw [← Option.some.inj hk, Phrase.text, List.drop_left]
          exact hready.1

/-- Where the second factor stands. -/
theorem Place.second (h : Place (.joint x y) before rest) (hsound : (Phrase.joint x y).Sound) :
    Place y (x.text.reverse ++ before) rest := by
  obtain ⟨-, -, -, -, hjoin, hapart⟩ := Phrase.sound_joint_iff.mp hsound
  have hrisky : y.lead ≠ .risky := by
    intro hrisky
    rcases hjoin with hbracket | hopen
    · rw [Phrase.apart, hbracket, hrisky] at hapart
      cases hapart
    · unfold Phrase.opens at hopen
      rw [hrisky] at hopen
      cases hopen
  obtain ⟨hpower, hfree⟩ := h.noPower (by simp [Phrase.strength])
  have hbehind := h.behind
  rw [Phrase.ending] at hbehind hfree
  by_cases hname : y.isName = true
  · rw [if_pos hname] at hbehind
    cases y with
    | name w =>
      refine ⟨⟨fun _ => hbehind.stops (by decide), fun hb => by cases hb⟩, Or.inr ⟨rfl, ?_, ?_⟩,
        fun hlead => absurd hlead hrisky⟩
      · intro n hn
        cases hn
      · exact powerRule_blocked (startBlocked_behind x before) _
    | _ => cases hname
  · rw [if_neg hname] at hbehind hfree
    exact ⟨hbehind, Or.inl ⟨hpower, hfree⟩, fun hlead => absurd hlead hrisky⟩

/-- A product without a sign whose factors are written again. -/
theorem Respelt.joint {x' y' : Phrase} (hsound : (Phrase.joint x y).Sound)
    (h : Respelt x x' before (y.text ++ rest)) (h' : Respelt y y' (x.text.reverse ++ before) rest) :
    Respelt (.joint x y) (.joint x' y') before rest := by
  obtain ⟨-, hy, hxs, hys, hjoin, hapart⟩ := Phrase.sound_joint_iff.mp hsound
  obtain ⟨-, -, hends⟩ := joined_touch hy.proper hys rest
  have hlead := h'.lead (startBlocked_behind x before)
  have hending := h.ending hends
  have hjoin' : x'.ending = .bracket ∨ y'.opens = true := by
    rw [hending]
    refine hjoin.imp_right fun hopen => ?_
    unfold Phrase.opens at hopen ⊢
    rcases hlead with heq | ⟨-, heq⟩
    · rw [heq]
      exact hopen
    · rw [heq]
      rfl
  refine ⟨Phrase.sound_joint_iff.mpr ⟨h.sound, h'.sound, Nat.le_trans hxs h.strength,
    Nat.le_trans hys h'.strength, hjoin', apart_of_lead hending hlead h'.strength hapart⟩, ?_,
    Nat.le_refl _, rfl, ?_, ?_, h.lead, ?_⟩
  · show Expr.binary _ (Expr.identify x'.tree) (Expr.identify y'.tree) =
      Expr.binary _ (Expr.identify x.tree) (Expr.identify y.tree)
    rw [h.tree, h'.tree]
  · intro hexplicit
    cases hexplicit
  · intro hbracket
    simp only [Phrase.hasBracket, Bool.or_eq_true] at hbracket ⊢
    exact hbracket.imp h.bracket h'.bracket
  · intro hno
    rw [Phrase.ending, Phrase.ending, Phrase.isName_eq, Phrase.isName_eq, h'.word, h'.ending hno]

end

theorem respells_joint {x y : Phrase} (ihx : Respells x) (ihy : Respells y) :
    Respells (.joint x y) := by
  intro hsound before rest hplace
  obtain ⟨hx, hy, -⟩ := Phrase.sound_joint_iff.mp hsound
  obtain ⟨x', h, hpass⟩ := ihx hx before (y.text ++ rest) (hplace.first hsound)
  obtain ⟨y', h', hpass'⟩ := ihy hy (x.text.reverse ++ before) rest (hplace.second hsound)
  refine ⟨.joint x' y', h.joint hsound h', ?_⟩
  have htext : (Phrase.joint x y).text ++ rest = x.text ++ (y.text ++ rest) := by
    simp [Phrase.text]
  rw [htext, hpass, hpass']
  simp [Phrase.text]

/-! ## All passes -/

/-- **One pass of the power rule** writes every phrase again, up to the spelling of its powers. -/
theorem respells (p : Phrase) : Respells p := by
  induction p with
  | number n => exact respells_number n
  | name w => exact respells_name w
  | call f g args g' ih => exact respells_call ih
  | bare f g => exact respells_bare f g
  | group g p g' ih => exact respells_group ih
  | power b g doubled g' e ihb ihe => exact respells_power ihb ihe
  | minus g p ih => exact respells_minus ih
  | binary op x g g' y ihx ihy => exact respells_binary ihx ihy
  | joint x y ihx ihy => exact respells_joint ihx ihy
  | comma x g g' y ihx ihy => exact respells_comma ihx ihy

/-- **However often powers are spelled as calls**, what comes out is a phrase with the same tree, up
    to the spelling of powers. -/
theorem spellPowersUpTo_text (n : Nat) {p : Phrase} (h : p.Sound) (hstrength : 2 ≤ p.strength) :
    ∃ p' : Phrase, spellPowersUpTo n p.text = p'.text ∧ p'.Sound ∧ 2 ≤ p'.strength ∧
      p'.tree.identify = p.tree.identify ∧ (p.explicit = true → p'.explicit = true) := by
  induction n generalizing p with
  | zero => exact ⟨p, rfl, h, hstrength, rfl, id⟩
  | succ n ih =>
    rw [spellPowersUpTo]
    split
    · obtain ⟨p', hrespelt, hpass⟩ := respells p h [] []
        (closed_nil.place fun _ => rfl)
      have happly : powerRule.apply p.text = p'.text := by
        unfold Rule.apply
        rw [List.append_nil] at hpass
        rw [hpass, Rule.pass_nil, List.append_nil]
      obtain ⟨p'', htext, hsound, hstrength', htree, hexplicit⟩ :=
        ih hrespelt.sound (Nat.le_trans hstrength hrespelt.strength)
      rw [happly]
      exact ⟨p'', htext, hsound, hstrength', htree.trans hrespelt.tree,
        fun hp => hexplicit (hrespelt.explicit hp)⟩
    · exact ⟨p, rfl, h, hstrength, rfl, id⟩

end InitialValue.Formula
