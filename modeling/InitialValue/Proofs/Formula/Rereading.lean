/-
  Reading a normal text again.

  The normal text of an accepted formula is itself a formula, with every product and every power
  sign written out.  Where a phrase can be found in it (`IsFormula`), normalizing it a second time
  keeps the tree of that phrase, and so the equation: what is read is the same
  (`reread_formulas`).  The passes do see another text than before.  A power that was out of their
  reach behind a closing bracket, or in front of an opening one, has blanks around its operands in
  the normal text and is spelled as a call now.  That is harmless for a phrase that is `Sound`, and
  it is not for a number with underscores in front of a signed exponent only, which is torn apart
  the second time (`reread_torn`).
-/
import InitialValue.Proofs.Formula.Juxtaposed
import InitialValue.Proofs.Formula.Seclusion
import InitialValue.Proofs.Formula.Whitelist
import InitialValue.Proofs.RightSide

namespace InitialValue.Formula

/-! ## Phrases in normal texts -/

theorem Name.settled_settle (w : Name) : w.settlePi.settleEuler.settled = w.settled := by
  by_cases hpi : isPi w.text = true
  · have hw : w.settlePi = pi := if_pos hpi
    unfold Name.settled
    rw [hw]
    decide
  · have hw : w.settlePi = w := if_neg hpi
    by_cases heuler : isEuler w.text = true
    · have hw' : w.settleEuler = euler := if_pos heuler
      unfold Name.settled
      rw [hw, hw']
      decide
    · have hw' : w.settleEuler = w := if_neg heuler
      rw [hw, hw']

namespace Phrase

/-- `Settles p q` — the second phrase says the same as the first, with a sign in every product. -/
structure Settles (p q : Phrase) : Prop where
  tree : q.tree = p.tree
  strength : q.strength = p.strength
  explicit : q.explicit = true
  fragile : q.isFragile = p.isFragile
  sturdy : q.sturdy = p.sturdy
  proper : p.proper = true → q.proper = true

namespace Settles

variable {p q x x' y y' : Phrase} (g g' g₁ g₂ : Gap)

theorem sound (h : p.Settles q) (hp : p.Sound) : q.Sound :=
  ⟨h.proper hp.proper, h.sturdy.trans hp.sturdy, uncaught_of_explicit h.explicit⟩

theorem name (w : Name) : (Phrase.name w).Settles (.name w.settlePi.settleEuler) :=
  ⟨congrArg Expr.name w.settled_settle, rfl, rfl, rfl, rfl, fun _ => rfl⟩

theorem call (f : FunctionName) (h : p.Settles q) :
    (Phrase.call f g p g').Settles (.call f g₁ q g₂) := by
  refine ⟨?_, rfl, h.explicit, rfl, h.sturdy, h.proper⟩
  rw [Phrase.tree, Phrase.tree, h.tree]

theorem group (h : p.Settles q) : (Phrase.group g p g').Settles (.group g₁ q g₂) := by
  refine ⟨h.tree, rfl, h.explicit, rfl, h.sturdy, fun hproper => ?_⟩
  simp only [Phrase.proper, Bool.and_eq_true, h.strength] at hproper ⊢
  exact ⟨hproper.1, h.proper hproper.2⟩

theorem minus (h : p.Settles q) : (Phrase.minus g p).Settles (.minus g₁ q) := by
  refine ⟨?_, rfl, h.explicit, rfl, h.sturdy, fun hproper => ?_⟩
  · rw [Phrase.tree, Phrase.tree, h.tree]
  · simp only [Phrase.proper, Bool.and_eq_true, h.strength] at hproper ⊢
    exact ⟨hproper.1, h.proper hproper.2⟩

theorem power (doubled : Bool) (hx : x.Settles x') (hy : y.Settles y') :
    (Phrase.power x g doubled g' y).Settles (.power x' g₁ true g₂ y') := by
  refine ⟨?_, rfl, (Bool.and_eq_true _ _).mpr ⟨hx.explicit, hy.explicit⟩, rfl, ?_, fun hproper => ?_⟩
  · rw [Phrase.tree, Phrase.tree, hx.tree, hy.tree]
  · rw [Phrase.sturdy, Phrase.sturdy, hx.fragile, hx.sturdy, hy.sturdy]
  · simp only [Phrase.proper, Bool.and_eq_true, hx.strength, hy.strength] at hproper ⊢
    exact ⟨⟨hproper.1.1, hx.proper hproper.1.2⟩, hy.proper hproper.2⟩

theorem binary (op : Arith) (hx : x.Settles x') (hy : y.Settles y') :
    (Phrase.binary op x g g' y).Settles (.binary op x' g₁ g₂ y') := by
  refine ⟨?_, rfl, (Bool.and_eq_true _ _).mpr ⟨hx.explicit, hy.explicit⟩, rfl, ?_, fun hproper => ?_⟩
  · rw [Phrase.tree, Phrase.tree, hx.tree, hy.tree]
  · rw [Phrase.sturdy, Phrase.sturdy, hx.sturdy, hy.sturdy]
  · simp only [Phrase.proper, Bool.and_eq_true, hx.strength, hy.strength] at hproper ⊢
    exact ⟨⟨hproper.1.1, hx.proper hproper.1.2⟩, hy.proper hproper.2⟩

/-- A star asks for less than the seam it stands at did. -/
theorem joint (hx : x.Settles x') (hy : y.Settles y') :
    (Phrase.joint x y).Settles (.binary .mul x' g₁ g₂ y') := by
  refine ⟨?_, rfl, (Bool.and_eq_true _ _).mpr ⟨hx.explicit, hy.explicit⟩, rfl, ?_, fun hproper => ?_⟩
  · rw [Phrase.tree, Phrase.tree, hx.tree, hy.tree]
    rfl
  · rw [Phrase.sturdy, Phrase.sturdy, hx.sturdy, hy.sturdy]
  · simp only [Phrase.proper, Bool.and_eq_true, hx.strength, hy.strength,
      decide_eq_true_eq] at hproper ⊢
    exact ⟨⟨⟨hproper.1.1.1.1, Nat.lt_of_lt_of_le (by decide) hproper.1.1.1.2⟩,
      hx.proper hproper.1.2⟩, hy.proper hproper.2⟩

theorem comma (hx : x.Settles x') (hy : y.Settles y') :
    (Phrase.comma x g g' y).Settles (.comma x' g₁ g₂ y') := by
  refine ⟨?_, rfl, (Bool.and_eq_true _ _).mpr ⟨hx.explicit, hy.explicit⟩, rfl, ?_, fun hproper => ?_⟩
  · rw [Phrase.tree, Phrase.tree, hx.tree, hy.tree]
  · rw [Phrase.sturdy, Phrase.sturdy, hx.sturdy, hy.sturdy]
  · simp only [Phrase.proper, Bool.and_eq_true, hx.strength] at hproper ⊢
    exact ⟨⟨hproper.1.1, hx.proper hproper.1.2⟩, hy.proper hproper.2⟩

end Settles

/-- Wherever the normal lexemes of a phrase come in a text, there is a phrase that says the same,
    with blanks in front. -/
def Refound (p : Phrase) : Prop :=
  ∀ {ls : List Lexeme} {cs : List Char},
    Spells isSpace (p.lexemes.map Lexeme.normal ++ ls) cs →
      ∃ (g : Gap) (q : Phrase) (cs' : List Char), cs = g.text ++ (q.text ++ cs') ∧
        Spells isSpace ls cs' ∧ p.Settles q

/-- The blanks in front of a lexeme. -/
theorem Spells.front {l : Lexeme} {ls : List Lexeme} {cs : List Char}
    (h : Spells isSpace (l :: ls) cs) :
    ∃ (g : Gap) (cs' : List Char), cs = g.text ++ (l.text ++ cs') ∧ Spells isSpace ls cs' := by
  obtain ⟨g, cs', hg, hrest, rfl⟩ := h.of_cons
  exact ⟨⟨g, fun c hc => isBlank_of_isSpace (hg c hc)⟩, cs', rfl, hrest⟩

/-- A phrase in brackets. -/
theorem Refound.inside {p : Phrase} (hp : p.Refound) {m : Lexeme} {ls : List Lexeme}
    {cs : List Char}
    (h : Spells isSpace ((m :: (p.lexemes ++ [.closing])).map Lexeme.normal ++ ls) cs) :
    ∃ (g g₁ g₂ : Gap) (q : Phrase) (cs' : List Char),
      cs = g.text ++ (m.normal.text ++ (g₁.text ++ (q.text ++ (g₂.text ++ ')' :: cs')))) ∧
        Spells isSpace ls cs' ∧ p.Settles q := by
  rw [List.map_cons, List.cons_append, List.map_append, List.append_assoc] at h
  obtain ⟨g, cs₁, rfl, hinner⟩ := Spells.front h
  obtain ⟨g₁, q, cs₂, rfl, hclose, hq⟩ := hp hinner
  obtain ⟨g₂, cs₃, rfl, hrest⟩ := Spells.front hclose
  exact ⟨g, g₁, g₂, q, cs₃, rfl, hrest, hq⟩

/-- Two phrases with a lexeme between them. -/
theorem Refound.between {x y : Phrase} (hx : x.Refound) (hy : y.Refound) {m : Lexeme}
    {ls : List Lexeme} {cs : List Char}
    (h : Spells isSpace ((x.lexemes ++ m :: y.lexemes).map Lexeme.normal ++ ls) cs) :
    ∃ (g g₁ g₂ : Gap) (x' y' : Phrase) (cs' : List Char), cs = g.text ++ (x'.text ++
        (g₁.text ++ (m.normal.text ++ (g₂.text ++ (y'.text ++ cs'))))) ∧
      Spells isSpace ls cs' ∧ x.Settles x' ∧ y.Settles y' := by
  rw [List.map_append, List.append_assoc, List.map_cons, List.cons_append] at h
  obtain ⟨g, x', cs₁, rfl, hsign, hx'⟩ := hx h
  obtain ⟨g₁, cs₂, rfl, hright⟩ := Spells.front hsign
  obtain ⟨g₂, y', cs₃, rfl, hrest, hy'⟩ := hy hright
  exact ⟨g, g₁, g₂, x', y', cs₃, rfl, hrest, hx', hy'⟩

/-- **A text of the normal lexemes of a phrase is the text of a phrase** that says the same. -/
theorem refound (p : Phrase) : p.Refound := by
  induction p with
  | number n =>
    intro ls cs h
    obtain ⟨g, cs', rfl, hrest⟩ := Spells.front h
    exact ⟨g, .number n, cs', rfl, hrest, rfl, rfl, rfl, rfl, rfl, fun _ => rfl⟩
  | name w =>
    intro ls cs h
    obtain ⟨g, cs', rfl, hrest⟩ := Spells.front h
    exact ⟨g, .name w.settlePi.settleEuler, cs', rfl, hrest, .name w⟩
  | call f _ args _ ih =>
    intro ls cs h
    obtain ⟨g, g₁, g₂, q, cs', rfl, hrest, hq⟩ := ih.inside h
    exact ⟨g, .call f g₁ q g₂, cs', by simp [text, Lexeme.text, Lexeme.normal], hrest,
      hq.call _ _ _ _ f⟩
  | bare f _ =>
    intro ls cs h
    obtain ⟨g, cs₁, rfl, hclose⟩ := Spells.front h
    obtain ⟨g₁, cs₂, rfl, hrest⟩ := Spells.front hclose
    exact ⟨g, .bare f g₁, cs₂, by simp [text, Lexeme.text, Lexeme.normal], hrest,
      rfl, rfl, rfl, rfl, rfl, fun _ => rfl⟩
  | group _ p _ ih =>
    intro ls cs h
    obtain ⟨g, g₁, g₂, q, cs', rfl, hrest, hq⟩ := ih.inside h
    exact ⟨g, .group g₁ q g₂, cs', by simp [text, Lexeme.text, Lexeme.normal], hrest,
      hq.group _ _ _ _⟩
  | power b _ doubled _ e ihb ihe =>
    intro ls cs h
    obtain ⟨g, g₁, g₂, b', e', cs', rfl, hrest, hb, he⟩ := ihb.between ihe h
    exact ⟨g, .power b' g₁ true g₂ e', cs', by simp [text, Lexeme.text, Lexeme.normal], hrest,
      hb.power _ _ _ _ doubled he⟩
  | minus _ p ih =>
    intro ls cs h
    obtain ⟨g, cs₁, rfl, hinner⟩ := Spells.front h
    obtain ⟨g₁, q, cs₂, rfl, hrest, hq⟩ := ih hinner
    exact ⟨g, .minus g₁ q, cs₂, by simp [text, Lexeme.text, Lexeme.normal, Arith.mark], hrest,
      hq.minus _ _⟩
  | binary op x _ _ y ihx ihy =>
    intro ls cs h
    obtain ⟨g, g₁, g₂, x', y', cs', rfl, hrest, hx, hy⟩ := ihx.between ihy h
    exact ⟨g, .binary op x' g₁ g₂ y', cs', by simp [text, Lexeme.text, Lexeme.normal], hrest,
      hx.binary _ _ _ _ op hy⟩
  | joint x y ihx ihy =>
    intro ls cs h
    obtain ⟨g, g₁, g₂, x', y', cs', rfl, hrest, hx, hy⟩ := ihx.between ihy h
    exact ⟨g, .binary .mul x' g₁ g₂ y', cs', by simp [text, Lexeme.text, Lexeme.normal], hrest,
      hx.joint _ _ hy⟩
  | comma x _ _ y ihx ihy =>
    intro ls cs h
    obtain ⟨g, g₁, g₂, x', y', cs', rfl, hrest, hx, hy⟩ := ihx.between ihy h
    exact ⟨g, .comma x' g₁ g₂ y', cs', by simp [text, Lexeme.text, Lexeme.normal], hrest,
      hx.comma _ _ _ _ hy⟩

end Phrase

/-! ## Normalizing twice -/

/-- **Is a text a formula as normal texts have it?**  It consists of the lexemes of a phrase, with
    every product and every power sign written out. -/
def IsFormula (n : List Char) : Prop :=
  ∃ p : Phrase, p.Sound ∧ 2 ≤ p.strength ∧ Spells isSpace (p.lexemes.map Lexeme.normal) n

/-- The normal text of a phrase is a formula. -/
theorem isFormula_normalize {p : Phrase} (h : p.Sound) (hstrength : 2 ≤ p.strength) (g g' : Gap)
    {n : List Char} (hn : normalize (g.text ++ (p.text ++ g'.text)) = .ok n) : IsFormula n := by
  obtain ⟨p', n', hsound, hstrength', -, hnormal, hspells⟩ := normalize_phrase h hstrength g g'
  rw [hn] at hnormal
  cases hnormal
  exact ⟨p', hsound, hstrength', hspells⟩

/-- **A formula that makes an equation makes the same one when it is normalized once more.** -/
theorem IsFormula.compile {n : List Char} {e : Equation} (h : IsFormula n) (hshallow : Shallow n)
    (he : Equation.compile n = .ok e) :
    ∃ m, normalize n = .ok m ∧ m ≠ [] ∧ namesIn m = namesIn n ∧ Equation.compile m = .ok e := by
  obtain ⟨p, hsound, hstrength, hspells⟩ := h
  obtain ⟨-, hrenders⟩ := renders_of_spells hsound hstrength hspells
  obtain ⟨g, q, cs', rfl, hrest, hq⟩ := p.refound (by rwa [List.append_nil])
  obtain ⟨g', rfl⟩ : ∃ g' : Gap, cs' = g'.text :=
    ⟨⟨cs', fun c hc => isBlank_of_isSpace (hrest.of_nil c hc)⟩, rfl⟩
  obtain ⟨m, hm, hne, hrenders'⟩ := normalize_renders (hq.sound hsound)
    (by rwa [hq.strength]) g g'
  rw [hq.tree] at hrenders'
  obtain ⟨ts, x, hts, hx, htree⟩ := hrenders.reads
  obtain ⟨us, y, hus, hy, htree'⟩ := hrenders'.reads
  have hnames := hrenders'.names.trans hrenders.names.symm
  have harith : y.isArithmetic = true := by
    rw [← Expr.isArithmetic_identify, htree', Expr.isArithmetic_identify]
    exact Phrase.isArithmetic_tree hsound.proper hstrength
  -- the text makes an equation, so its own brackets are not nested too deeply
  obtain ⟨vs, hvs, -⟩ := tokens_of_compile he
  obtain ⟨ws, hws, hdeep⟩ := Option.bind_eq_some_iff.mp hvs
  rw [hts] at hws
  cases hws
  have htext : Expr.ofText? (g.text ++ (q.text ++ g'.text)) = some x := by
    refine ofText?_eq hts hx ?_
    by_contra hdeep'
    rw [if_neg hdeep'] at hdeep
    cases hdeep
  refine ⟨m, hm, hne, hnames, ?_⟩
  rw [← he]
  exact compile_eq hnames (ofText?_eq hus hy (hshallow m us hm hus)) htext
    (htree'.trans htree.symm) harith

/-! ## Reading twice -/

/-- What a text was that has a normal text. -/
theorem normalTextOf_eq_ok {v : Value Float} {n : List Char}
    (h : Equation.normalTextOf v = .ok n) :
    ∃ s, v = .text s ∧ checkSafety s.toList = .ok () ∧ normalize s.toList = .ok n ∧ n ≠ [] := by
  cases v with
  | text s =>
    obtain ⟨⟨⟩, hsafe, h⟩ := bind_eq_ok.mp (show Equation.normalText s = .ok n from h)
    obtain ⟨m, hm, h⟩ := bind_eq_ok.mp h
    split at h
    · cases h
    · rename_i hne
      cases pure_eq_ok.mp h
      exact ⟨s, rfl, hsafe, hm, fun hnil => hne (by rw [hnil]; rfl)⟩
  | _ => cases h

/-- The normal text of a text, if there is one. -/
theorem normalText_eq {n m : List Char} (hsafe : checkSafety n = .ok ())
    (hm : normalize n = .ok m) (hne : m ≠ []) :
    Equation.normalTextOf (.text (String.ofList n) : Value Float) = .ok m := by
  show Equation.normalText (String.ofList n) = .ok m
  obtain ⟨c, tail, rfl⟩ := List.exists_cons_of_ne_nil hne
  unfold Equation.normalText
  dsimp only
  rw [String.toList_ofList, hsafe, hm]
  rfl

/-- **The normal text of a formula that makes an equation can be read**, and makes it again. -/
theorem normalTextOf_again {v : Value Float} {n : List Char} {e : Equation}
    (hv : Equation.normalTextOf v = .ok n) (hformula : IsFormula n) (hshallow : Shallow n)
    (he : Equation.compile n = .ok e) :
    ∃ m, Equation.normalTextOf (.text (String.ofList n) : Value Float) = .ok m ∧
      namesIn m = namesIn n ∧ Equation.compile m = .ok e := by
  obtain ⟨s, -, hsafe, hn, -⟩ := normalTextOf_eq_ok hv
  obtain ⟨m, hm, hne, hnames, hcompile⟩ := hformula.compile hshallow he
  exact ⟨m, normalText_eq (normalize_safe hsafe hn) hm hne, hnames, hcompile⟩

/-- A normal text of permitted names that makes an equation with a value is accepted. -/
theorem Single.ofNormal_eq {n : List Char} {e : Equation}
    (hnames : ∀ s ∈ namesIn n, Single.allowed.contains s = true)
    (hcompile : Equation.compile n = .ok e) (htest : Single.test e = .ok ()) :
    Single.ofNormal n = ⟨namesIn n, n, .ok e⟩ := by
  have hunknown : (namesIn n).filter (fun x => !Single.allowed.contains x) = [] := by
    rw [List.filter_eq_nil_iff]
    intro s hs
    rw [hnames s hs]
    decide
  unfold Single.ofNormal
  simp only [hunknown, hcompile, htest]
  rfl

/-- What is read from an accepted formula. -/
theorem Single.read_eq {v : Value Float} {n : List Char} {e : Equation}
    (hv : Equation.normalTextOf v = .ok n)
    (hnames : ∀ s ∈ namesIn n, Single.allowed.contains s = true)
    (hcompile : Equation.compile n = .ok e) (htest : Single.test e = .ok ()) :
    Single.read v = ⟨namesIn n, n, .ok e⟩ := by
  unfold Single.read
  rw [hv]
  exact Single.ofNormal_eq hnames hcompile htest

/-- What is read from a list of accepted formulas. -/
theorem Coupled.ofItems_eq {items : List (Value Float)} {ns : List (List Char)}
    {es : List Equation} (hne : items ≠ []) (hitems : items.mapM Equation.normalTextOf = .ok ns)
    (hnames : ∀ s ∈ ns.flatMap namesIn, Coupled.isAllowed s = true)
    (hcompile : ns.mapM Equation.compile = .ok es) :
    Coupled.ofItems items = ⟨items, Coupled.unionOfNames ns, ns, .ok es⟩ := by
  have hfull : ¬ items.isEmpty = true := by rwa [List.isEmpty_iff]
  have hfind : (Coupled.unionOfNames ns).find? (fun x => !Coupled.isAllowed x) = none := by
    rw [List.find?_eq_none]
    intro s hs
    rw [hnames s (mem_foldr_insertName.mp hs)]
    decide
  unfold Coupled.ofItems
  rw [if_neg hfull, hitems]
  simp only [hfind, hcompile]

/-- The normal texts of formulas as data. -/
def asTexts (ns : List (List Char)) : List (Value Float) := ns.map fun n => .text (String.ofList n)

/-- Each formula of a list is read again as what it was. -/
theorem mapM_normalTextOf_again {items : List (Value Float)} {ns : List (List Char)}
    {es : List Equation} (hitems : items.mapM Equation.normalTextOf = .ok ns)
    (hformulas : ∀ n ∈ ns, IsFormula n ∧ Shallow n) (hcompile : ns.mapM Equation.compile = .ok es) :
    ∃ ms, (asTexts ns).mapM Equation.normalTextOf = .ok ms ∧
      ms.flatMap namesIn = ns.flatMap namesIn ∧ ms.mapM Equation.compile = .ok es := by
  rw [mapM_eq_ok] at hitems hcompile
  induction hcompile generalizing items with
  | nil => exact ⟨[], rfl, rfl, rfl⟩
  | @cons n e ns es he hrest ih =>
    obtain ⟨v, vs, hv, hvs, rfl⟩ := List.forall₂_cons_right_iff.mp hitems
    obtain ⟨hformula, hshallow⟩ := hformulas n List.mem_cons_self
    obtain ⟨m, hm, hnames, he'⟩ := normalTextOf_again hv hformula hshallow he
    obtain ⟨ms, hms, hnames', hes'⟩ := ih hvs fun k hk => hformulas k (List.mem_cons_of_mem _ hk)
    refine ⟨m :: ms, ?_, ?_, ?_⟩
    · rw [mapM_eq_ok] at hms ⊢
      exact .cons hm hms
    · rw [List.flatMap_cons, List.flatMap_cons, hnames, hnames']
    · rw [mapM_eq_ok] at hes' ⊢
      exact .cons he' hes'

/-- **Reading normal texts again changes nothing**, where they are formulas.  A formula or a list of
    formulas that is accepted is accepted again when its normal texts are read, with the same names
    and equations, and it has the same value, or fails in the same way, at every time and state. -/
theorem reread_formulas (v : Value Float) :
    (∀ e : Equation, (Single.read v).outcome = .ok e →
      IsFormula (Single.read v).normal → Shallow (Single.read v).normal →
      let again := Single.read (.text (String.ofList (Single.read v).normal) : Value Float)
      again.outcome = .ok e ∧ again.names = (Single.read v).names ∧
        ∀ t y, again.evaluate t y = (Single.read v).evaluate t y) ∧
    (∀ (c : Coupled) (es : List Equation), Coupled.read v = .ok c → c.outcome = .ok es →
      (∀ n ∈ c.normal, IsFormula n ∧ Shallow n) →
      ∃ again, Coupled.read (.list (asTexts c.normal)) = .ok again ∧ again.outcome = .ok es ∧
        again.names = c.names ∧ ∀ t y, again.evaluate t y = c.evaluate t y) := by
  constructor
  · intro e he hformula hshallow again
    obtain ⟨hv, hnames, hallowed, hcompile, htest⟩ := Single.read_accepted he
    obtain ⟨m, hm, hsame, hcompile'⟩ := normalTextOf_again hv hformula hshallow hcompile
    have hagain : again = ⟨namesIn m, m, .ok e⟩ :=
      Single.read_eq hm (by rwa [hsame]) hcompile' htest
    refine ⟨by rw [hagain], by rw [hagain, hnames, hsame], fun t y => ?_⟩
    unfold Single.evaluate
    rw [hagain, he]
  · intro c es hread hes hformulas
    obtain ⟨items, rfl⟩ := Coupled.read_accepted hread hes
    obtain ⟨hitems, hallowed, hcompile⟩ := Coupled.ofItems_accepted hes
    have hne : items ≠ [] := by
      rintro rfl
      cases hes
    have hallowed' : ∀ s ∈ (Coupled.ofItems items).normal.flatMap namesIn,
        Coupled.isAllowed s = true := by
      intro s hs
      obtain ⟨n, hn, hs⟩ := List.mem_flatMap.mp hs
      exact hallowed n hn s hs
    have honce := Coupled.ofItems_eq hne hitems hallowed' hcompile
    obtain ⟨ms, hms, hsame, hcompile'⟩ := mapM_normalTextOf_again hitems hformulas hcompile
    have htexts : asTexts (Coupled.ofItems items).normal ≠ [] := by
      intro hnil
      rw [asTexts, List.map_eq_nil_iff] at hnil
      rw [hnil, mapM_eq_ok, List.forall₂_nil_right_iff] at hitems
      exact hne hitems
    -- both readings make the same system, up to the names that are gathered
    have hagain := Coupled.ofItems_eq htexts hms (by rwa [hsame]) hcompile'
    have hunion : Coupled.unionOfNames ms = Coupled.unionOfNames (Coupled.ofItems items).normal :=
      congrArg (List.foldr insertName []) hsame
    refine ⟨_, rfl, by rw [hagain], ?_, fun t y => ?_⟩
    · rw [hagain, honce, hunion]
    · rw [hagain, honce]
      unfold Coupled.evaluate Coupled.components
      rw [hunion, honce]

/-- The text of a phrase that is read, and its normal text. -/
theorem formula_of_phrase {p : Phrase} (h : p.Sound) (hstrength : 2 ≤ p.strength) {n m : List Char}
    {ts : List Token} (hn : normalize p.text = .ok n) (hm : normalize n = .ok m)
    (hts : Token.scan (m.length + 1) m = some ts) (hdepth : Token.shallow 0 ts = true) :
    IsFormula n ∧ Shallow n := by
  refine ⟨isFormula_normalize h hstrength .none .none (n := n) ?_, shallow_of_normalize hm hts hdepth⟩
  rw [show Gap.none.text ++ (p.text ++ Gap.none.text) = p.text from List.append_nil _]
  exact hn

/-- A power and a product without a sign, and a system of two equations. -/
theorem reread_formulas_power :
    (∃ e, (Single.read (.text "2^2(y)" : Value Float)).outcome = .ok e ∧
      let again := Single.read (.text "2 ** 2 * (y)" : Value Float)
      again.outcome = .ok e ∧
        again.names = (Single.read (.text "2^2(y)" : Value Float)).names ∧
        ∀ t y, again.evaluate t y =
          (Single.read (.text "2^2(y)" : Value Float)).evaluate t y) ∧
    (∃ c es, Coupled.read (.list [.text "y2", .text "-y1"]) = .ok c ∧ c.outcome = .ok es ∧
      ∃ again, Coupled.read (.list [.text "y2", .text "- y1"]) = .ok again ∧
        again.outcome = .ok es ∧ again.names = c.names ∧
        ∀ t y, again.evaluate t y = c.evaluate t y) := by
  constructor
  · have haccepted : (Single.read (.text "2^2(y)" : Value Float)).outcome.toOption.any
        (fun _ => true) = true := by decide +kernel
    obtain ⟨e, he, -⟩ := exists_ok haccepted
    have hnormal : (Single.read (.text "2^2(y)" : Value Float)).normal = "2 ** 2 * (y)".toList := by
      decide +kernel
    -- the normal text is what a phrase of lexemes spells
    obtain ⟨hformula, hshallow⟩ := formula_of_phrase
      (p := .joint (.power (.number .two) .none false .none (.number .two))
        (.group .none (.name .state) .none))
      ⟨by decide, by decide, by decide⟩ (by decide)
      (n := "2 ** 2 * (y)".toList) (m := "pow(2, 2) * (y)".toList)
      (by decide) (by decide) rfl (by decide)
    have hagain := (reread_formulas (.text "2^2(y)")).1 e he (by rwa [hnormal]) (by rwa [hnormal])
    rw [hnormal] at hagain
    exact ⟨e, he, hagain⟩
  · have haccepted : (Coupled.ofItems [.text "y2", .text "-y1"]).outcome.toOption.any
        (fun _ => true) = true := by decide +kernel
    obtain ⟨es, hes, -⟩ := exists_ok haccepted
    have hnormal : (Coupled.ofItems [.text "y2", .text "-y1"]).normal =
        ["y2".toList, "- y1".toList] := by decide +kernel
    have hfirst : IsFormula "y2".toList ∧ Shallow "y2".toList := formula_of_phrase
      (p := .name ⟨['y', '2'], by decide, by decide, by decide⟩)
      ⟨by decide, by decide, by decide⟩ (by decide) (m := "y2".toList)
      (by decide) (by decide) rfl (by decide)
    have hsecond : IsFormula "- y1".toList ∧ Shallow "- y1".toList := formula_of_phrase
      (p := .minus .none (.name ⟨['y', '1'], by decide, by decide, by decide⟩))
      ⟨by decide, by decide, by decide⟩ (by decide) (m := "- y1".toList)
      (by decide) (by decide) rfl (by decide)
    have hagain := (reread_formulas (.list [.text "y2", .text "-y1"])).2 _ es rfl hes (by
      rw [hnormal]
      intro n hn
      rcases List.mem_pair.mp hn with rfl | rfl
      · exact hfirst
      · exact hsecond)
    rw [hnormal] at hagain
    exact ⟨_, es, rfl, hes, hagain⟩

/-- **A number torn apart the second time**: `1_0e-5^2(t)` is accepted, for the bracket keeps the
    power from being spelled, and its normal text has a blank there and is no formula any more. -/
theorem reread_torn :
    let once := Single.read (.text "1_0e-5^2(t)" : Value Float)
    let again := Single.read (.text (String.ofList once.normal) : Value Float)
    (∃ e, once.outcome = .ok e) ∧ once.normal = "1_0e-5 ** 2 * (t)".toList ∧
      ∃ cause, again.outcome = .error (.notParsed cause) := by
  intro once again
  have haccepted : once.outcome.toOption.any (fun _ => true) = true := by decide +kernel
  obtain ⟨e, he, -⟩ := exists_ok haccepted
  have hnormal : once.normal = "1_0e-5 ** 2 * (t)".toList := by decide +kernel
  refine ⟨⟨e, he⟩, hnormal, ?_⟩
  have hagain : again = Single.read (.text "1_0e-5 ** 2 * (t)" : Value Float) := by
    unfold again
    rw [hnormal]
    rfl
  rw [hagain]
  exact ⟨_, rfl⟩

end InitialValue.Formula
