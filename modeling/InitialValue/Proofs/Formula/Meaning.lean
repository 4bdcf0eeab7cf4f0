/-
  The meaning of arithmetic trees.

  An arithmetic tree means a term if it means anything, so it makes no difference whether a power in
  it is written as such or as a call (`meaning?_identify`).  An equation depends on its normal text
  only by the names and by the meaning of the tree, so normal texts of one tree make one equation
  (`compile_eq`).
-/
import InitialValue.Formula.Reading
import InitialValue.Proofs.Formula.Names
import InitialValue.Proofs.Formula.Variables

namespace InitialValue.Formula

open InitialValue.Symbolic

/-! ## Arithmetic trees -/

/-- The operators of arithmetic. -/
def Operator.isArithmetic : Operator → Bool
  | .add => true
  | .sub => true
  | .mul => true
  | .div => true
  | .power => true
  | _ => false

namespace Expr

/-- Is a tree the name of a function? -/
def isFunction : Expr → Bool
  | .name s => functionNames.contains s
  | _ => false

mutual

/-- Is a tree made of numbers, names, signs, operators and calls of functions only? -/
def isArithmetic : Expr → Bool
  | .number _ => true
  | .name s => !functionNames.contains s
  | .signed s x => s == .minus && isArithmetic x
  | .binary op x y => op.isArithmetic && isArithmetic x && isArithmetic y
  | .call f args => isFunction f && areArithmetic args
  | _ => false

/-- Are all trees of a list arithmetic? -/
def areArithmetic : List Expr → Bool
  | [] => true
  | x :: xs => isArithmetic x && areArithmetic xs

end

theorem isArithmetic_applied (f : Expr) (args : List Expr) :
    (applied f args).isArithmetic = (f.isFunction && areArithmetic args) := by
  unfold applied
  split
  · rw [isArithmetic, areArithmetic, areArithmetic, areArithmetic, Bool.and_true]
    rfl
  · rw [isArithmetic]

mutual

/-- The spelling of powers makes no tree arithmetic, and none other than arithmetic. -/
theorem isArithmetic_identify : (x : Expr) → x.identify.isArithmetic = x.isArithmetic
  | .signed s x => by rw [identify, isArithmetic, isArithmetic, isArithmetic_identify x]
  | .binary op x y => by
    rw [identify, isArithmetic, isArithmetic, isArithmetic_identify x, isArithmetic_identify y]
  | .call f args => by
    rw [identify, isArithmetic_applied, isArithmetic, areArithmetic_identifyAll args]
  | .collection b items => rfl
  | .number _ => rfl
  | .name _ => rfl
  | .compare _ _ => rfl
  | .either _ _ => rfl
  | .both _ _ => rfl
  | .item _ _ => rfl
  | .pairs _ => rfl

theorem areArithmetic_identifyAll : (xs : List Expr) →
    areArithmetic (identifyAll xs) = areArithmetic xs
  | [] => rfl
  | x :: xs => by
    rw [identifyAll, areArithmetic, areArithmetic, isArithmetic_identify x,
      areArithmetic_identifyAll xs]

end

/-! ## Meanings of arithmetic trees -/

variable {ν : Type} {scope : Scope ν}

theorem ofLiteral?_term {l : Literal} {m : Meaning ν} (h : Meaning.ofLiteral? l = some m) :
    ∃ t, m = .term t := by
  unfold Meaning.ofLiteral? at h
  split at h
  · exact ⟨_, (Option.some.inj h).symm⟩
  · split at h
    · cases h
    · exact ⟨_, (Option.some.inj h).symm⟩

theorem ofName_term {s : String} (hs : functionNames.contains s = false) :
    ∃ t, Meaning.ofName scope s = .term t := by
  unfold Meaning.ofName
  split
  · exact ⟨_, rfl⟩
  · split
    · exact ⟨_, rfl⟩
    · rw [hs]
      exact ⟨_, rfl⟩

variable [Ord ν]

theorem binary?_term {op : Operator} (hop : op.isArithmetic = true) (a b : Term ν) :
    Meaning.binary? op (.term a) (.term b) = (Meaning.arithmetic? op a b).map .term := by
  cases op with
  | add => rfl
  | sub => rfl
  | mul => rfl
  | div => rfl
  | power => rfl
  | _ => cases hop

theorem call?_term {f : Meaning ν} {vs : List (Meaning ν)} {m : Meaning ν}
    (h : f.call? vs = some m) : ∃ t, m = .term t := by
  unfold Meaning.call? at h
  split at h
  · simp only [Option.bind_eq_bind, Option.bind_eq_some_iff] at h
    obtain ⟨xs, -, t, -, ht⟩ := h
    exact ⟨t, (Option.some.inj ht).symm⟩
  · cases h

/-- **An arithmetic tree means a term**, if it means anything. -/
theorem meaning?_term : (x : Expr) → x.isArithmetic = true → ∀ {m : Meaning ν},
    x.meaning? scope = some m → ∃ t, m = .term t
  | .number l, _, m, h => by
    rw [meaning?] at h
    exact ofLiteral?_term h
  | .name s, hx, m, h => by
    rw [meaning?] at h
    rw [isArithmetic, Bool.not_eq_true'] at hx
    obtain ⟨t, ht⟩ : ∃ t, Meaning.ofName scope s = .term t := ofName_term hx
    exact ⟨t, (Option.some.inj h).symm.trans ht⟩
  | .signed s x, hx, m, h => by
    rw [isArithmetic, Bool.and_eq_true, beq_iff_eq] at hx
    rw [meaning?] at h
    obtain ⟨v, hv, h⟩ := Option.bind_eq_some_iff.mp h
    obtain ⟨t, rfl⟩ := meaning?_term x hx.2 hv
    rw [hx.1] at h
    exact ⟨_, (Option.some.inj h).symm⟩
  | .binary op x y, hx, m, h => by
    rw [isArithmetic, Bool.and_eq_true, Bool.and_eq_true] at hx
    rw [meaning?] at h
    obtain ⟨v, hv, h⟩ := Option.bind_eq_some_iff.mp h
    obtain ⟨w, hw, h⟩ := Option.bind_eq_some_iff.mp h
    obtain ⟨a, rfl⟩ := meaning?_term x hx.1.2 hv
    obtain ⟨b, rfl⟩ := meaning?_term y hx.2 hw
    rw [binary?_term hx.1.1] at h
    obtain ⟨t, -, rfl⟩ := Option.map_eq_some_iff.mp h
    exact ⟨t, rfl⟩
  | .call f args, hx, m, h => by
    rw [isArithmetic, Bool.and_eq_true] at hx
    rw [meaning?] at h
    obtain ⟨vs, -, h⟩ := Option.bind_eq_some_iff.mp h
    -- a name that stands for nothing is applied as it is; anything else is called
    cases f with
    | name s =>
      dsimp only at h
      split at h
      · obtain ⟨xs, -, h⟩ := Option.bind_eq_some_iff.mp h
        exact ⟨_, (Option.some.inj h).symm⟩
      · exact call?_term h
    | _ => cases hx.1

/-- A power that is written as a call means the power. -/
theorem meaning?_pow (hscope : scope "pow" = none) {x y : Expr} (hx : x.isArithmetic = true)
    (hy : y.isArithmetic = true) :
    meaning? scope (.call (.name "pow") [x, y]) = meaning? scope (.binary .power x y) := by
  have hname : Meaning.ofName scope "pow" = .function "pow" := by
    unfold Meaning.ofName
    rw [hscope]
    rfl
  rw [meaning?, meaning?]
  dsimp only
  rw [hname]
  cases hmx : meaning? scope x with
  | none => simp [meanings?, hmx]
  | some v =>
    cases hmy : meaning? scope y with
    | none => simp [meanings?, hmx, hmy]
    | some w =>
      obtain ⟨a, rfl⟩ := meaning?_term x hx hmx
      obtain ⟨b, rfl⟩ := meaning?_term y hy hmy
      simp [meanings?, hmx, hmy]
      rfl

theorem meaning?_applied (hscope : scope "pow" = none) {f : Expr} {args : List Expr}
    (h : areArithmetic args = true) :
    meaning? scope (applied f args) = meaning? scope (.call f args) := by
  unfold applied
  split
  · rename_i x y
    rw [areArithmetic, areArithmetic, Bool.and_eq_true, Bool.and_eq_true] at h
    exact (meaning?_pow hscope h.1 h.2.1).symm
  · rfl

/-- A call depends on its arguments by their meanings. -/
theorem meaning?_call (f : Expr) {args args' : List Expr}
    (h : meanings? scope args = meanings? scope args') :
    meaning? scope (.call f args) = meaning? scope (.call f args') := by
  rw [meaning?, meaning?, h]

mutual

/-- **The spelling of powers does not matter** for what an arithmetic tree means. -/
theorem meaning?_identify (hscope : scope "pow" = none) : (x : Expr) → x.isArithmetic = true →
    meaning? scope x.identify = meaning? scope x
  | .signed s x, hx => by
    rw [isArithmetic, Bool.and_eq_true] at hx
    rw [identify, meaning?, meaning?, meaning?_identify hscope x hx.2]
  | .binary op x y, hx => by
    rw [isArithmetic, Bool.and_eq_true, Bool.and_eq_true] at hx
    rw [identify, meaning?, meaning?, meaning?_identify hscope x hx.1.2,
      meaning?_identify hscope y hx.2]
  | .call f args, hx => by
    rw [isArithmetic, Bool.and_eq_true] at hx
    have hargs : areArithmetic (identifyAll args) = true := by
      rw [areArithmetic_identifyAll]
      exact hx.2
    rw [identify, meaning?_applied hscope hargs]
    exact meaning?_call f (meanings?_identifyAll hscope args hx.2)
  | .number _, _ => rfl
  | .name _, _ => rfl
  | .collection _ _, hx => by cases hx
  | .compare _ _, _ => rfl
  | .either _ _, _ => rfl
  | .both _ _, _ => rfl
  | .item _ _, _ => rfl
  | .pairs _, _ => rfl

theorem meanings?_identifyAll (hscope : scope "pow" = none) : (xs : List Expr) →
    areArithmetic xs = true → meanings? scope (identifyAll xs) = meanings? scope xs
  | [], _ => rfl
  | x :: xs, hxs => by
    rw [areArithmetic, Bool.and_eq_true] at hxs
    rw [identifyAll, meanings?, meanings?, meaning?_identify hscope x hxs.1,
      meanings?_identifyAll hscope xs hxs.2]

end

/-- Trees that differ in the spelling of powers mean the same. -/
theorem meaning?_eq (hscope : scope "pow" = none) {x y : Expr} (h : x.identify = y.identify)
    (hx : x.isArithmetic = true) : meaning? scope x = meaning? scope y := by
  have hy : y.isArithmetic = true := by
    rw [← isArithmetic_identify, ← h, isArithmetic_identify]
    exact hx
  rw [← meaning?_identify hscope x hx, h, meaning?_identify hscope y hy]

end Expr

/-! ## The trees of phrases -/

namespace Phrase

theorem settled_free (w : Name) : functionNames.contains w.settled = false :=
  w.settlePi.settleEuler.free

/-- A phrase that is no list of arguments is the one item of its tree. -/
theorem isArithmetic_of_items {p : Phrase} (h : Expr.areArithmetic p.tree.items = true)
    (hp : p.proper = true) (hstrength : 2 ≤ p.strength) : p.tree.isArithmetic = true := by
  rw [tree_items hp hstrength, Expr.areArithmetic, Expr.areArithmetic, Bool.and_true] at h
  exact h

theorem areArithmetic_items (p : Phrase) (hp : p.proper = true) :
    Expr.areArithmetic p.tree.items = true := by
  induction p with
  | number n => rfl
  | name w =>
    show (!functionNames.contains w.settled && true) = true
    rw [settled_free]
    rfl
  | call f g args g' ih =>
    show (functionNames.contains f.val && Expr.areArithmetic args.tree.items && true) = true
    rw [f.property, ih hp]
    rfl
  | bare f g =>
    show (functionNames.contains f.val && true && true) = true
    rw [f.property]
    rfl
  | group g p g' ih =>
    rw [proper, Bool.and_eq_true] at hp
    exact ih hp.2
  | power b g doubled g' e ihb ihe =>
    simp only [proper, Bool.and_eq_true, beq_iff_eq, decide_eq_true_eq] at hp
    have hb := isArithmetic_of_items (ihb hp.1.2) hp.1.2 (by omega)
    have he := isArithmetic_of_items (ihe hp.2) hp.2 (by omega)
    show (true && b.tree.isArithmetic && e.tree.isArithmetic && true) = true
    rw [hb, he]
    rfl
  | minus g p ih =>
    simp only [proper, Bool.and_eq_true, decide_eq_true_eq] at hp
    show (true && p.tree.isArithmetic && true) = true
    rw [isArithmetic_of_items (ih hp.2) hp.2 (by omega)]
    rfl
  | binary op x g g' y ihx ihy =>
    simp only [proper, Bool.and_eq_true, decide_eq_true_eq] at hp
    have hop : 2 ≤ op.strength := by cases op <;> decide
    have hx := isArithmetic_of_items (ihx hp.1.2) hp.1.2 (by omega)
    have hy := isArithmetic_of_items (ihy hp.2) hp.2 (by omega)
    show (op.operator.isArithmetic && x.tree.isArithmetic && y.tree.isArithmetic && true) = true
    rw [hx, hy]
    cases op <;> rfl
  | joint x y ihx ihy =>
    simp only [proper, Bool.and_eq_true, decide_eq_true_eq] at hp
    have hx := isArithmetic_of_items (ihx hp.1.2) hp.1.2 (by omega)
    have hy := isArithmetic_of_items (ihy hp.2) hp.2 (by omega)
    show (true && x.tree.isArithmetic && y.tree.isArithmetic && true) = true
    rw [hx, hy]
    rfl
  | comma x g g' y ihx ihy =>
    simp only [proper, Bool.and_eq_true, decide_eq_true_eq] at hp
    have hx := isArithmetic_of_items (ihx hp.1.2) hp.1.2 hp.1.1
    show (x.tree.isArithmetic && Expr.areArithmetic y.tree.items) = true
    rw [hx, ihy hp.2]
    rfl

/-- **The trees of phrases are arithmetic.** -/
theorem isArithmetic_tree {p : Phrase} (hp : p.proper = true) (hstrength : 2 ≤ p.strength) :
    p.tree.isArithmetic = true :=
  isArithmetic_of_items (areArithmetic_items p hp) hp hstrength

end Phrase

/-! ## Equations -/

theorem placeOf?_none {s : String} {names : List String} (h : s ∉ names) :
    placeOf? s names = none := by
  induction names with
  | nil => rfl
  | cons x xs ih =>
    rw [List.mem_cons, not_or] at h
    have hne : (x == s) = false := beq_false_of_ne fun hx => h.1 hx.symm
    rw [placeOf?, hne, ih h.2]
    rfl

/-- The equation of a tree over names. -/
def Equation.ofTree (names : List String) (x : Expr) : Except Fault Equation := do
  let meaning ← orMalformed (x.meaning? fun name => placeOf? name names)
  let term ← meaning.toTerm
  return ⟨names, ← orMalformed (Calculation.ofTerm? term)⟩

theorem compile_of_ofText? {n : List Char} {x : Expr} (h : Expr.ofText? n = some x) :
    Equation.compile n = Equation.ofTree (namesIn n) x := by
  unfold Equation.compile
  rw [h]
  rfl

/-- **Normal texts of one tree make one equation.** -/
theorem compile_eq {n n' : List Char} {x x' : Expr} (hnames : namesIn n = namesIn n')
    (hx : Expr.ofText? n = some x) (hx' : Expr.ofText? n' = some x')
    (h : x.identify = x'.identify) (harith : x.isArithmetic = true) :
    Equation.compile n = Equation.compile n' := by
  have hpow : placeOf? "pow" (namesIn n') = none := by
    refine placeOf?_none fun hmem => ?_
    have hunknown := (mem_namesIn.mp hmem).2
    rw [Expr.isKnown_pow] at hunknown
    cases hunknown
  rw [compile_of_ofText? hx, compile_of_ofText? hx', hnames]
  unfold Equation.ofTree
  rw [Expr.meaning?_eq hpow h harith]

end InitialValue.Formula
