/-
  Names in sums and products.

  Sums and products are put together from the parts of their operands; collecting equal parts,
  joining powers and multiplying out bring in no names that were not there
  (`Algebra.over_sumStep`, `Algebra.over_productStep`).  What the loops carry along gets a property
  of its own: all terms in it are over the names in question.
-/
import InitialValue.Proofs.Symbolic.Names
import InitialValue.Symbolic.Product
import InitialValue.Symbolic.Sum
import Mathlib.Tactic.SplitIfs

namespace InitialValue.Symbolic

open Term

variable {ν : Type} [Ord ν] {S : String → Prop} {A : Algebra ν} {t f b e : Term ν}
  {ts us fs : List (Term ν)} {c : Coefficient}

/-! ## Sums -/

namespace Sum

theorem over_collect (ht : t.Over S) {l : List (Term ν × Coefficient)}
    (hl : ∀ p ∈ l, p.1.Over S) : ∀ p ∈ collect t c l, p.1.Over S := by
  induction l with
  | nil => grind [collect]
  | cons p l ih => grind [collect]

theorem over_gather (h : ∀ t ∈ ts, t.Over S) : ∀ p ∈ (gather ts).2, p.1.Over S := by
  unfold gather
  refine List.foldlRecOn (motive := fun acc : Coefficient × List (Term ν × Coefficient) =>
    ∀ p ∈ acc.2, p.1.Over S) ts _ (by simp) ?_
  intro acc hacc t ht
  have hsplit := over_split (h t ht)
  split
  · exact hacc
  · rename_i c rest heq
    rw [heq] at hsplit
    exact over_collect hsplit hacc

omit [Ord ν] in
theorem over_multiple (ht : t.Over S) : (multiple t c).Over S := by
  unfold multiple
  grind

theorem over_ofFinite (h : ∀ t ∈ ts, t.Over S) : (ofFinite ts).Over S := by
  have hrest := over_gather h
  unfold ofFinite
  grind [over_multiple]

theorem over_ofInfinite (ht : ∀ t ∈ ts, t.Over S) (hu : ∀ t ∈ us, t.Over S) :
    (ofInfinite ts us).Over S := by
  unfold ofInfinite
  grind [over_ofFinite]

end Sum

/-- **Sums bring in no new names.** -/
theorem Algebra.over_sumStep (h : ∀ t ∈ ts, t.Over S) : (A.sumStep ts).Over S := by
  unfold Algebra.sumStep
  grind [Sum.over_ofFinite, Sum.over_ofInfinite]

/-! ## Products -/

namespace Product

/-- All bases and exponents are over names with a property. -/
structure Parts.Over (S : String → Prop) (p : Parts ν) : Prop where
  numeric : ∀ x ∈ p.numeric, x.1.Over S ∧ x.2.Over S
  powers : ∀ x ∈ p.powers, x.1.Over S ∧ x.2.Over S

omit [Ord ν] in
theorem Parts.over_none : (none : Parts ν).Over S := ⟨by simp [none], by simp [none]⟩

theorem Parts.over_add {p : Parts ν} (hp : p.Over S) (hf : f.Over S) : (p.add f).Over S := by
  have hparts := over_baseExponent hf
  obtain ⟨hnumeric, hpowers⟩ := hp
  unfold Parts.add
  constructor <;> grind [Parts.addSurd]

/-- The base and all exponents of it are over names with a property. -/
def Exponents.Over (S : String → Prop) (x : Exponents ν) : Prop :=
  x.base.Over S ∧ ∀ p ∈ x.parts, p.1.Over S

theorem over_addMultiple (ht : t.Over S) {l : List (Term ν × Coefficient)}
    (hl : ∀ p ∈ l, p.1.Over S) : ∀ p ∈ addMultiple t c l, p.1.Over S := by
  induction l with
  | nil => grind [addMultiple]
  | cons p l ih => grind [addMultiple]

theorem over_collect (hb : b.Over S) (he : e.Over S) {l : List (Exponents ν)}
    (hl : ∀ x ∈ l, x.Over S) : ∀ x ∈ collect b e l, x.Over S := by
  induction l with
  | nil =>
    rw [collect, List.forall_mem_singleton]
    exact ⟨hb, List.forall_mem_singleton.mpr (over_split he)⟩
  | cons p l ih =>
    obtain ⟨⟨hbase, hparts⟩, hl⟩ := List.forall_mem_cons.mp hl
    unfold collect
    split
    · exact List.forall_mem_cons.mpr ⟨⟨hbase, over_addMultiple (over_split he) hparts⟩, hl⟩
    · exact List.forall_mem_cons.mpr ⟨⟨hbase, hparts⟩, ih hl⟩

theorem over_put (he : e.Over S) (hb : b.Over S) {l : List (Term ν × List (Term ν))}
    (hl : ∀ x ∈ l, x.1.Over S ∧ ∀ y ∈ x.2, y.Over S) :
    ∀ x ∈ numericFactors.put e b l, x.1.Over S ∧ ∀ y ∈ x.2, y.Over S := by
  induction l with
  | nil =>
    rw [numericFactors.put, List.forall_mem_singleton]
    exact ⟨he, List.forall_mem_singleton.mpr hb⟩
  | cons p l ih =>
    obtain ⟨⟨hexponent, hbases⟩, hl⟩ := List.forall_mem_cons.mp hl
    unfold numericFactors.put
    split
    · refine List.forall_mem_cons.mpr ⟨⟨hexponent, fun y hy => ?_⟩, hl⟩
      rcases List.mem_append.mp hy with hy | hy
      · exact hbases y hy
      · exact List.mem_singleton.mp hy ▸ hb
    · exact List.forall_mem_cons.mpr ⟨⟨hexponent, hbases⟩, ih hl⟩

omit [Ord ν] in
theorem over_rootFactors (turn : Rat) (roots : List (Nat × Rat)) :
    ∀ x ∈ (rootFactors turn roots : Rat × List (Term ν)).2, x.Over S := by
  unfold rootFactors
  grind

theorem over_ofInfinite (h : ∀ t ∈ fs, t.Over S) : (ofInfinite fs).Over S := by
  unfold ofInfinite
  split_ifs
  · exact over_undefined
  · exact over_pole
  · refine over_ofFactors fun t ht => ?_
    rcases List.mem_cons.mp (mem_inOrder.mp ht) with rfl | ht
    · split <;> exact over_const _
    · obtain ⟨p, hp, rfl⟩ := List.mem_map.mp ht
      exact h _ (List.of_mem_zip (List.mem_filter.mp hp).1).1

/-! ### With the operations of an algebra -/

section

variable (hA : A.Keeps S) {l : List (Term ν × Term ν)}

include hA

theorem over_gather (h : ∀ x ∈ l, x.1.Over S ∧ x.2.Over S) :
    ∀ x ∈ gather A l, x.1.Over S ∧ x.2.Over S := by
  have hcollected : ∀ x ∈ l.foldl (fun acc p => collect p.1 p.2 acc) [], x.Over S := by
    refine List.foldlRecOn (motive := fun acc : List (Exponents ν) => ∀ x ∈ acc, x.Over S)
      l _ (by simp) ?_
    exact fun acc hacc p hp => over_collect (h p hp).1 (h p hp).2 hacc
  unfold gather
  grind [Exponents.Over]

theorem over_evaluate (h : ∀ x ∈ l, x.1.Over S ∧ x.2.Over S) :
    (∀ x ∈ (evaluate A l).1, x.Over S) ∧
      ∀ x ∈ (evaluate A l).2.1, x.1.Over S ∧ x.2.Over S := by
  induction l with
  | nil => exact ⟨by simp [evaluate], by simp [evaluate]⟩
  | cons p l ih =>
    obtain ⟨⟨hb, he⟩, hl⟩ := List.forall_mem_cons.mp h
    have hpower := hA.power _ _ hb he
    have hparts := over_baseExponent hpower
    unfold evaluate at ih ⊢
    rw [List.foldr_cons]
    grind

theorem over_powerFactors (h : ∀ x ∈ l, x.1.Over S ∧ x.2.Over S) :
    ∀ x ∈ powerFactors A l, x.Over S := by
  have honce := over_evaluate hA (over_gather hA h)
  have htwice := over_evaluate hA (over_gather hA honce.2)
  unfold powerFactors
  grind

theorem over_numericFactors (h : ∀ x ∈ l, x.1.Over S ∧ x.2.Over S) :
    ∀ x ∈ numericFactors A l, x.Over S := by
  have hjoined := over_gather hA h
  have hput : ∀ x ∈ (gather A l).foldl (fun acc p => numericFactors.put p.2 p.1 acc) [],
      x.1.Over S ∧ ∀ y ∈ x.2, y.Over S := by
    refine List.foldlRecOn (motive := fun acc : List (Term ν × List (Term ν)) =>
      ∀ x ∈ acc, x.1.Over S ∧ ∀ y ∈ x.2, y.Over S) _ _ (by simp) ?_
    exact fun acc hacc p hp => over_put (hjoined p hp).2 (hjoined p hp).1 hacc
  intro x hx
  obtain ⟨p, hp, rfl⟩ := List.mem_map.mp hx
  exact hA.power _ _ (hA.product _ (hput p hp).2) (hput p hp).1

omit [Ord ν] in
theorem over_distribute (h : ∀ t ∈ ts, t.Over S) : (distribute A c ts).Over S := by
  unfold distribute
  grind

theorem over_assemble (h : ∀ t ∈ fs, t.Over S) : (assemble A c fs).Over S := by
  have hrest : ∀ t ∈ inOrder (fs.filter fun f => !f.isNum), t.Over S := by
    intro t ht
    exact h t (List.mem_filter.mp (mem_inOrder.mp ht)).1
  unfold assemble
  generalize inOrder (fs.filter fun f => !f.isNum) = rest at hrest ⊢
  dsimp only
  split_ifs
  all_goals first
    | exact over_undefined
    | exact over_pole
    | exact over_zero
    | exact over_ofFactors hrest
    | skip
  split
  · exact over_distribute hA (over_sum.mp (hrest _ (List.mem_singleton_self _)))
  · exact over_ofFactors (List.forall_mem_cons.mpr ⟨over_num _, hrest⟩)

theorem over_general (h : ∀ t ∈ fs, t.Over S) : (general A fs).Over S := by
  have hparts : (fs.foldl Parts.add Parts.none).Over S := by
    refine List.foldlRecOn (motive := Parts.Over S) fs _ Parts.over_none ?_
    exact fun p hp f hf => Parts.over_add hp (h f hf)
  have hpowers := over_powerFactors hA hparts.powers
  have hnumeric := over_numericFactors hA hparts.numeric
  unfold general
  grind [over_assemble, over_rootFactors]

omit [Ord ν] in
theorem over_byNumber? (h : ∀ t ∈ fs, t.Over S) (ht : byNumber? A fs = some t) : t.Over S := by
  unfold byNumber? at ht
  split at ht
  · rename_i x y
    have hx := h x (by simp)
    have hy := h y (by simp)
    -- whichever of the two is the number
    generalize hpair : (if y.rat?.isSome then (y, x) else (x, y)) = p at ht
    have hp : p.2.Over S := by
      rw [← hpair]
      split
      · exact hx
      · exact hy
    have hsplit := over_split hp
    obtain ⟨p, q⟩ := p
    dsimp only at ht hsplit
    grind [over_distribute]
  · cases ht

end

end Product

/-- **Products bring in no new names.** -/
theorem Algebra.over_productStep (hA : A.Keeps S) (h : ∀ t ∈ fs, t.Over S) :
    (A.productStep fs).Over S := by
  unfold Algebra.productStep
  grind [Product.over_byNumber?, Product.over_ofInfinite, Product.over_general]

end InitialValue.Symbolic
