/-
  The names in terms.

  Terms have two kinds of letters, symbols and strangers: names that mean nothing.  Strangers are
  read off the text as they stand, so what has to be known of them is only which of them there are.

  `Term.Over S t` says that all strangers in `t` have the property `S`.  Taking terms apart and
  putting them together again does not bring in others, and neither does an algebra that
  `Algebra.Keeps` the property.  In the proofs the shape of the operation says which cases there
  are; that every case only uses parts of the operands is then a matter for `grind`.
-/
import InitialValue.Symbolic.Algebra

namespace InitialValue.Symbolic

variable {ν : Type} {S : String → Prop}

namespace Term

/-! ## Terms over names with a property -/

mutual

/-- All names in the term that mean nothing have a property. -/
def Over (S : String → Prop) : Term ν → Prop
  | .stranger s => S s
  | .sum ts => AllOver S ts
  | .product fs => AllOver S fs
  | .power b e => Over S b ∧ Over S e
  | .apply _ args => AllOver S args
  | _ => True

/-- All names in the terms that mean nothing have a property. -/
def AllOver (S : String → Prop) : List (Term ν) → Prop
  | [] => True
  | t :: ts => Over S t ∧ AllOver S ts

end

theorem allOver_iff {ts : List (Term ν)} : AllOver S ts ↔ ∀ t ∈ ts, t.Over S := by
  induction ts with
  | nil => simp [AllOver]
  | cons t ts ih => simp [AllOver, ih]

@[simp, grind .] theorem over_num (n : Coefficient) : (num n : Term ν).Over S :=
  trivial

@[simp, grind .] theorem over_const (c : Constant) : (const c : Term ν).Over S :=
  trivial

@[simp, grind .] theorem over_symbol (v : ν) : (symbol v).Over S :=
  trivial

@[simp, grind =] theorem over_stranger {s : String} : (stranger s : Term ν).Over S ↔ S s :=
  Iff.rfl

@[simp, grind =] theorem over_sum {ts : List (Term ν)} : (sum ts).Over S ↔ ∀ t ∈ ts, t.Over S :=
  allOver_iff

@[simp, grind =] theorem over_product {fs : List (Term ν)} :
    (product fs).Over S ↔ ∀ t ∈ fs, t.Over S :=
  allOver_iff

@[simp, grind =] theorem over_power {b e : Term ν} :
    (power b e).Over S ↔ b.Over S ∧ e.Over S :=
  Iff.rfl

@[simp, grind =] theorem over_apply {f : Fn} {args : List (Term ν)} :
    (apply f args).Over S ↔ ∀ t ∈ args, t.Over S :=
  allOver_iff

@[grind =] theorem over_apply_one {f : Fn} {x : Term ν} : (apply f [x]).Over S ↔ x.Over S := by
  simp

/-! ## Abbreviations -/

@[grind .] theorem over_zero : (zero : Term ν).Over S := over_num _

@[grind .] theorem over_one : (one : Term ν).Over S := over_num _

@[grind .] theorem over_ofInt (n : Int) : (ofInt n : Term ν).Over S := over_num _

@[grind .] theorem over_ofRat (q : Rat) : (ofRat q : Term ν).Over S := over_num _

@[grind .] theorem over_pi : (pi : Term ν).Over S := over_const _

@[grind .] theorem over_euler : (euler : Term ν).Over S := over_const _

@[grind .] theorem over_unit : (unit : Term ν).Over S := over_const _

@[grind .] theorem over_pole : (pole : Term ν).Over S := over_const _

@[grind .] theorem over_undefined : (undefined : Term ν).Over S := over_const _

/-! ## Taking apart and putting together -/

@[grind =] theorem mem_inOrder [Ord ν] {ts : List (Term ν)} {t : Term ν} :
    t ∈ inOrder ts ↔ t ∈ ts := by
  unfold inOrder
  exact List.mem_mergeSort

@[grind →] theorem Over.terms {t : Term ν} (h : t.Over S) : ∀ u ∈ t.terms, u.Over S := by
  unfold Term.terms
  split <;> grind

@[grind →] theorem Over.factors {t : Term ν} (h : t.Over S) : ∀ u ∈ t.factors, u.Over S := by
  unfold Term.factors
  split <;> grind

@[grind ←] theorem over_ofFactors {fs : List (Term ν)} (h : ∀ t ∈ fs, t.Over S) :
    (ofFactors fs).Over S := by
  unfold ofFactors
  split <;> grind

@[grind ←] theorem over_ofTerms {ts : List (Term ν)} (h : ∀ t ∈ ts, t.Over S) :
    (ofTerms ts).Over S := by
  unfold ofTerms
  split <;> grind

@[grind ←] theorem over_split {t : Term ν} (h : t.Over S) : t.split.2.Over S := by
  unfold split
  split <;> grind

@[grind ←] theorem over_splitRat {t : Term ν} (h : t.Over S) : t.splitRat.2.Over S := by
  unfold splitRat
  split <;> grind

@[grind ←] theorem over_negateTerm {t : Term ν} (h : t.Over S) : t.negateTerm.Over S := by
  unfold negateTerm
  split <;> grind

@[grind ←] theorem over_negate [Ord ν] {t : Term ν} (h : t.Over S) : t.negate.Over S := by
  unfold negate
  split <;> grind

theorem over_baseExponent [Ord ν] {t : Term ν} (h : t.Over S) :
    t.baseExponent.1.Over S ∧ t.baseExponent.2.Over S := by
  unfold baseExponent
  split <;> grind

theorem over_getD {o : Option (Term ν)} {d : Term ν} (ho : ∀ t, o = some t → t.Over S)
    (hd : d.Over S) : (o.getD d).Over S := by
  cases o with
  | none => exact hd
  | some t => exact ho t rfl

end Term

open Term

/-! ## Algebras -/

namespace Algebra

/-- **The algebra brings in no new names**: what it makes of terms over names with a property is
    over such names again. -/
structure Keeps (S : String → Prop) (A : Algebra ν) : Prop where
  sum : ∀ ts, (∀ t ∈ ts, t.Over S) → (A.sum ts).Over S
  product : ∀ fs, (∀ t ∈ fs, t.Over S) → (A.product fs).Over S
  power : ∀ b e, b.Over S → e.Over S → (A.power b e).Over S
  apply : ∀ f args, (∀ t ∈ args, t.Over S) → (A.apply f args).Over S

attribute [grind ←] Keeps.sum Keeps.product Keeps.power Keeps.apply

theorem keeps_inert : (inert : Algebra ν).Keeps S where
  sum _ := over_ofTerms
  product _ := over_ofFactors
  power _ _ hb he := over_power.mpr ⟨hb, he⟩
  apply _ _ := over_apply.mpr

variable {A : Algebra ν} {x y : Term ν}

@[grind ←] theorem Keeps.neg (hA : A.Keeps S) (hx : x.Over S) : (A.neg x).Over S :=
  hA.product _ (by simp [hx, over_ofInt])

@[grind ←] theorem Keeps.add (hA : A.Keeps S) (hx : x.Over S) (hy : y.Over S) :
    (A.add x y).Over S :=
  hA.sum _ (by simp [hx, hy])

@[grind ←] theorem Keeps.sub (hA : A.Keeps S) (hx : x.Over S) (hy : y.Over S) :
    (A.sub x y).Over S :=
  hA.sum _ (by simp [hx, hA.neg hy])

@[grind ←] theorem Keeps.mul (hA : A.Keeps S) (hx : x.Over S) (hy : y.Over S) :
    (A.mul x y).Over S :=
  hA.product _ (by simp [hx, hy])

@[grind ←] theorem Keeps.inv (hA : A.Keeps S) (hx : x.Over S) : (A.inv x).Over S :=
  hA.power _ _ hx (over_ofInt _)

@[grind ←] theorem Keeps.div (hA : A.Keeps S) (hx : x.Over S) (hy : y.Over S) :
    (A.div x y).Over S := by
  unfold Algebra.div
  split
  · exact hA.inv hy
  · exact hA.mul hx (hA.inv hy)

@[grind ←] theorem Keeps.sqrt (hA : A.Keeps S) (hx : x.Over S) : (A.sqrt x).Over S :=
  hA.power _ _ hx (over_num _)

end Algebra

end InitialValue.Symbolic
