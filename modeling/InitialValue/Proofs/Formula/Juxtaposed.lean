/-
  Products without a sign.

  A formula in which factors stand next to each other means what it means with stars written between
  them (`read_starred`), as long as the spelling of powers takes no two factors for one operand.
  Powers are spelled before stars are written, so the name in `t(y)^2` is taken for the name of a
  function, and both factors are raised to the power (`factors_raised`).
-/
import InitialValue.Proofs.Formula.Explicit
import InitialValue.Proofs.Formula.Meaning

namespace InitialValue.Formula

/-! ## Stars between factors -/

namespace Phrase

@[simp]
theorem strength_starred (p : Phrase) : p.starred.strength = p.strength := by
  cases p <;> rfl

theorem isFragile_starred (p : Phrase) : p.starred.isFragile = p.isFragile := by
  cases p <;> rfl

/-- **Stars leave the tree as it is.** -/
theorem tree_starred (p : Phrase) : p.starred.tree = p.tree := by
  induction p with
  | number n => rfl
  | name w => rfl
  | call f g args g' ih => rw [starred, tree, tree, ih]
  | bare f g => rfl
  | group g p g' ih => exact ih
  | power b g doubled g' e ihb ihe => rw [starred, tree, tree, ihb, ihe]
  | minus g p ih => rw [starred, tree, tree, ih]
  | binary op x g g' y ihx ihy => rw [starred, tree, tree, ihx, ihy]
  | joint x y ihx ihy =>
    rw [starred, tree, tree, ihx, ihy]
    rfl
  | comma x g g' y ihx ihy => rw [starred, tree, tree, ihx, ihy]

theorem explicit_starred (p : Phrase) : p.starred.explicit = true := by
  induction p with
  | number n => rfl
  | name w => rfl
  | call f g args g' ih => exact ih
  | bare f g => rfl
  | group g p g' ih => exact ih
  | power b g doubled g' e ihb ihe => exact (Bool.and_eq_true _ _).mpr ⟨ihb, ihe⟩
  | minus g p ih => exact ih
  | binary op x g g' y ihx ihy => exact (Bool.and_eq_true _ _).mpr ⟨ihx, ihy⟩
  | joint x y ihx ihy => exact (Bool.and_eq_true _ _).mpr ⟨ihx, ihy⟩
  | comma x g g' y ihx ihy => exact (Bool.and_eq_true _ _).mpr ⟨ihx, ihy⟩

theorem sturdy_starred (p : Phrase) : p.starred.sturdy = p.sturdy := by
  induction p with
  | number n => rfl
  | name w => rfl
  | call f g args g' ih => exact ih
  | bare f g => rfl
  | group g p g' ih => exact ih
  | power b g doubled g' e ihb ihe => rw [starred, sturdy, sturdy, isFragile_starred, ihb, ihe]
  | minus g p ih => exact ih
  | binary op x g g' y ihx ihy => rw [starred, sturdy, sturdy, ihx, ihy]
  | joint x y ihx ihy => rw [starred, sturdy, sturdy, ihx, ihy]
  | comma x g g' y ihx ihy => rw [starred, sturdy, sturdy, ihx, ihy]

theorem proper_starred {p : Phrase} (h : p.proper = true) : p.starred.proper = true := by
  induction p with
  | number n => rfl
  | name w => rfl
  | call f g args g' ih => exact ih h
  | bare f g => rfl
  | group g p g' ih =>
    simp only [proper, Bool.and_eq_true, starred, strength_starred] at h ⊢
    exact ⟨h.1, ih h.2⟩
  | power b g doubled g' e ihb ihe =>
    simp only [proper, Bool.and_eq_true, starred, strength_starred] at h ⊢
    exact ⟨⟨h.1.1, ihb h.1.2⟩, ihe h.2⟩
  | minus g p ih =>
    simp only [proper, Bool.and_eq_true, starred, strength_starred] at h ⊢
    exact ⟨h.1, ih h.2⟩
  | binary op x g g' y ihx ihy =>
    simp only [proper, Bool.and_eq_true, starred, strength_starred] at h ⊢
    exact ⟨⟨h.1.1, ihx h.1.2⟩, ihy h.2⟩
  | joint x y ihx ihy =>
    simp only [proper, Bool.and_eq_true, starred, strength_starred, decide_eq_true_eq] at h ⊢
    exact ⟨⟨⟨h.1.1.1.1, Nat.lt_of_lt_of_le (by decide) h.1.1.1.2⟩, ihx h.1.2⟩, ihy h.2⟩
  | comma x g g' y ihx ihy =>
    simp only [proper, Bool.and_eq_true, starred, strength_starred] at h ⊢
    exact ⟨⟨h.1.1, ihx h.1.2⟩, ihy h.2⟩

theorem Sound.starred {p : Phrase} (h : p.Sound) : p.starred.Sound :=
  ⟨proper_starred h.proper, (sturdy_starred p).trans h.sturdy,
    uncaught_of_explicit (explicit_starred p)⟩

/-- The lexemes with stars at the seams. -/
theorem lexemes_starred (p : Phrase) : p.starred.lexemes =
    p.lexemes.map fun | .joint _ => .arith .mul | l => l := by
  induction p with
  | number n => rfl
  | name w => rfl
  | call f g args g' ih => simp [starred, lexemes, ih]
  | bare f g => rfl
  | group g p g' ih => simp [starred, lexemes, ih]
  | power b g doubled g' e ihb ihe => simp [starred, lexemes, ihb, ihe]
  | minus g p ih => simp [starred, lexemes, ih]
  | binary op x g g' y ihx ihy => simp [starred, lexemes, ihx, ihy]
  | joint x y ihx ihy => simp [starred, lexemes, ihx, ihy]
  | comma x g g' y ihx ihy => simp [starred, lexemes, ihx, ihy]

/-- **Stars make no difference to the check for refused fragments.** -/
theorem checkSafety_starred {p : Phrase} (h : p.Sound) (g g' : Gap) :
    checkSafety (g.text ++ (p.starred.text ++ g'.text)) =
      checkSafety (g.text ++ (p.text ++ g'.text)) := by
  have hrefused : refusedIn? (g.text ++ (p.starred.text ++ g'.text)) =
      refusedIn? (g.text ++ (p.text ++ g'.text)) := by
    refine congrArg (Option.map _) (List.find?_congr fun f hf => ?_)
    rw [occurs_text h.starred g g' hf, occurs_text h g g' hf, lexemes_starred, List.any_map]
    refine List.any_congr rfl fun l => ?_
    cases l with
    | joint s => exact harmless_mark (c := '*') (by simp) f hf
    | _ => rfl
  unfold checkSafety
  rw [hrefused]

end Phrase

/-! ## Reading with and without stars -/

/-- The brackets of a normal text are not nested too deeply to be read. -/
def Shallow (cs : List Char) : Prop :=
  ∀ n ts, normalize cs = .ok n → Token.scan (n.length + 1) n = some ts → Token.shallow 0 ts = true

theorem shallow_of_normalize {cs n : List Char} {ts : List Token} (hn : normalize cs = .ok n)
    (hts : Token.scan (n.length + 1) n = some ts) (hdepth : Token.shallow 0 ts = true) :
    Shallow cs := by
  intro n' ts' hn' hts'
  rw [hn] at hn'
  cases hn'
  rw [hts] at hts'
  cases hts'
  exact hdepth

/-- **Formulas of the same tree** have normal texts with the same names, which compile to the same
    equation. -/
theorem compile_of_tree {p q : Phrase} (hp : p.Sound) (hq : q.Sound) (hstrength : 2 ≤ p.strength)
    (hstrength' : 2 ≤ q.strength) (htrees : p.tree = q.tree) (g g' k k' : Gap)
    (hshallow : Shallow (g.text ++ (p.text ++ g'.text)))
    (hshallow' : Shallow (k.text ++ (q.text ++ k'.text))) :
    ∃ n n', normalize (g.text ++ (p.text ++ g'.text)) = .ok n ∧ n ≠ [] ∧
      normalize (k.text ++ (q.text ++ k'.text)) = .ok n' ∧ n' ≠ [] ∧
      namesIn n = namesIn n' ∧ Equation.compile n = Equation.compile n' := by
  obtain ⟨n, hnormal, hne, hrenders⟩ := normalize_renders hp hstrength g g'
  obtain ⟨n', hnormal', hne', hrenders'⟩ := normalize_renders hq hstrength' k k'
  obtain ⟨ts, x, hts, hx, htree⟩ := hrenders.reads
  obtain ⟨ts', x', hts', hx', htree'⟩ := hrenders'.reads
  rw [← htrees] at htree'
  have hnames : namesIn n = namesIn n' := by
    rw [hrenders.names, hrenders'.names, htrees]
  have harith : x.isArithmetic = true := by
    rw [← Expr.isArithmetic_identify, htree, Expr.isArithmetic_identify]
    exact Phrase.isArithmetic_tree hp.proper hstrength
  refine ⟨n, n', hnormal, hne, hnormal', hne', hnames, ?_⟩
  exact compile_eq hnames (ofText?_eq hts hx (hshallow n ts hnormal hts))
    (ofText?_eq hts' hx' (hshallow' n' ts' hnormal' hts')) (htree.trans htree'.symm) harith

/-- **Stars make no difference to the equation**: both normal texts have the same names and compile
    to the same equation. -/
theorem compile_starred {p : Phrase} (h : p.Sound) (hstrength : 2 ≤ p.strength) (g g' : Gap)
    (hshallow : Shallow (g.text ++ (p.text ++ g'.text)))
    (hshallow' : Shallow (g.text ++ (p.starred.text ++ g'.text))) :
    ∃ n n', normalize (g.text ++ (p.text ++ g'.text)) = .ok n ∧ n ≠ [] ∧
      normalize (g.text ++ (p.starred.text ++ g'.text)) = .ok n' ∧ n' ≠ [] ∧
      namesIn n = namesIn n' ∧ Equation.compile n = Equation.compile n' :=
  compile_of_tree h h.starred hstrength (by rwa [Phrase.strength_starred])
    (Phrase.tree_starred p).symm g g' g g' hshallow hshallow'

/-- What a normal text is read as depends on its names and its equation only. -/
theorem ofNormal_outcome {n n' : List Char} (hnames : namesIn n = namesIn n')
    (hcompile : Equation.compile n = Equation.compile n') :
    (Single.ofNormal n).outcome = (Single.ofNormal n').outcome := by
  unfold Single.ofNormal
  rw [hnames, hcompile]
  dsimp only
  split
  · rfl
  · cases Equation.compile n' with
    | error cause => rfl
    | ok e =>
      dsimp only
      cases Single.test e with
      | error cause => rfl
      | ok u => rfl

/-- What a text is read as, by its check and its normal text. -/
theorem read_outcome {cs n : List Char} (hn : normalize cs = .ok n) (hne : n ≠ []) :
    (Single.read (.text (String.ofList cs) : Value Float)).outcome =
      match checkSafety cs with
      | .error cause => .error (.notParsed cause)
      | .ok () => (Single.ofNormal n).outcome := by
  have hnormal : Equation.normalText (String.ofList cs) = (checkSafety cs).map fun _ => n := by
    obtain ⟨c, tail, rfl⟩ := List.exists_cons_of_ne_nil hne
    unfold Equation.normalText
    dsimp only
    rw [String.toList_ofList, hn]
    cases checkSafety cs <;> rfl
  have htext : Equation.normalTextOf (.text (String.ofList cs) : Value Float) =
      (checkSafety cs).map fun _ => n := hnormal
  unfold Single.read
  rw [htext]
  cases checkSafety cs <;> rfl

/-- **A product without a sign is a product**, where the factors stay apart: the formula is accepted
    exactly when the formula with stars is, and both have the same value everywhere. -/
theorem read_starred {p : Phrase} (h : p.Sound) (hstrength : 2 ≤ p.strength) (g g' : Gap)
    (hshallow : Shallow (g.text ++ (p.text ++ g'.text)))
    (hshallow' : Shallow (g.text ++ (p.starred.text ++ g'.text))) :
    let read := fun cs : List Char => Single.read (.text (String.ofList cs) : Value Float)
    (read (g.text ++ (p.text ++ g'.text))).outcome =
        (read (g.text ++ (p.starred.text ++ g'.text))).outcome ∧
      ∀ t y, (read (g.text ++ (p.text ++ g'.text))).evaluate t y =
        (read (g.text ++ (p.starred.text ++ g'.text))).evaluate t y := by
  intro read
  have houtcome : (read (g.text ++ (p.text ++ g'.text))).outcome =
      (read (g.text ++ (p.starred.text ++ g'.text))).outcome := by
    obtain ⟨n, n', hnormal, hne, hnormal', hne', hnames, hcompile⟩ :=
      compile_starred h hstrength g g' hshallow hshallow'
    rw [read_outcome hnormal hne, read_outcome hnormal' hne', Phrase.checkSafety_starred h g g',
      ofNormal_outcome hnames hcompile]
  refine ⟨houtcome, fun t y => ?_⟩
  unfold Single.evaluate
  rw [houtcome]

/-- The number three. -/
def Numeral.three : Numeral :=
  ⟨['3'], .whole 3, by decide, pointed_of_not_mem (by decide)⟩

/-- Three factors, the middle one a number: `(t)3(y)`. -/
theorem read_starred_factors :
    (Single.read (.text "(t)3(y)" : Value Float)).outcome =
        (Single.read (.text "(t)*3*(y)" : Value Float)).outcome ∧
      ∀ t y, (Single.read (.text "(t)3(y)" : Value Float)).evaluate t y =
        (Single.read (.text "(t)*3*(y)" : Value Float)).evaluate t y := by
  exact read_starred
    (p := .joint (.joint (.group .none (.name .time) .none) (.number .three))
      (.group .none (.name .state) .none))
    ⟨by decide, by decide, by decide⟩ (by decide) .none .none
    (shallow_of_normalize (n := "(t) * 3 * (y)".toList) (by decide) rfl (by decide))
    (shallow_of_normalize (n := "(t) * 3 * (y)".toList) (by decide) rfl (by decide))

/-- The number zero. -/
def Numeral.zero : Numeral :=
  ⟨['0'], .whole 0, by decide, pointed_of_not_mem (by decide)⟩

/-- **Both factors are raised to the power**: at `t = 2` and `y = 3`, `t(y)^0` has the value 1, and
    with the star written it has the value 2. -/
theorem factors_raised : ∃ p : Phrase, p.proper = true ∧ p.sturdy = true ∧ 2 ≤ p.strength ∧
    p.text = "t(y)^0".toList ∧ p.starred.text = "t*(y)^0".toList ∧
    ((Single.read (.text "t(y)^0" : Value Float)).evaluate
      (.real 2.0) (.real 3.0)).toOption.any (· == 1.0) = true ∧
    ((Single.read (.text "t*(y)^0" : Value Float)).evaluate
      (.real 2.0) (.real 3.0)).toOption.any (· == 2.0) = true :=
  ⟨.joint (.name .time) (.power (.group .none (.name .state) .none) .none false .none (.number .zero)),
    by decide, by decide, by decide, by decide, by decide, by decide +kernel, by decide +kernel⟩

end InitialValue.Formula
