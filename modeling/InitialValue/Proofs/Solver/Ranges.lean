/-
  The ranges of a trajectory.

  While running through the points, the ranges so far are widened by one state after another.  Values
  that are not numbers would be passed over by the comparisons, but no point has such values, so
  **every range spans exactly the values of its component** (`Solution.isRange_rangesOf`): its ends
  are among them, and none of them is outside.  There are as many ranges as components
  (`Solution.length_rangesOf`).
-/
import InitialValue.Proofs.Number.Order
import InitialValue.Solver.Solution
import Mathlib.Data.List.Induction

namespace InitialValue

/-! ## Finite values in order -/

namespace Scalar

variable {α : Type} [Scalar α] [Ordered α] {x y z : α}

theorem le_iff : le x y = true ↔
    ∃ p q, Ordered.level x = some p ∧ Ordered.level y = some q ∧ p ≤ q :=
  Number.le_iff (a := .real x) (b := .real y)

theorem lt_iff : lt x y = true ↔
    ∃ p q, Ordered.level x = some p ∧ Ordered.level y = some q ∧ p < q :=
  Number.lt_iff (a := .real x) (b := .real y)

theorem le_of_lt (h : lt x y = true) : le x y = true := by
  obtain ⟨p, q, hp, hq, hpq⟩ := lt_iff.mp h
  exact le_iff.mpr ⟨p, q, hp, hq, hpq.le⟩

theorem le_trans (hxy : le x y = true) (hyz : le y z = true) : le x z = true := by
  obtain ⟨p, q, hp, hq, hpq⟩ := le_iff.mp hxy
  obtain ⟨q', r, hq', hr, hqr⟩ := le_iff.mp hyz
  obtain rfl := Option.some.inj (hq.symm.trans hq')
  exact le_iff.mpr ⟨p, r, hp, hr, hpq.trans hqr⟩

/-- Finite values can be compared. -/
theorem le_of_not_lt (hx : isFinite x = true) (hy : isFinite y = true) (h : lt y x = false) :
    le x y = true := by
  obtain ⟨p, hp⟩ := Ordered.level_of_isFinite x hx
  obtain ⟨q, hq⟩ := Ordered.level_of_isFinite y hy
  refine le_iff.mpr ⟨_, _, hp, hq, ?_⟩
  by_contra hlt
  rw [lt_iff.mpr ⟨_, _, hq, hp, not_le.mp hlt⟩] at h
  cases h

theorem le_self (hx : isFinite x = true) : le x x = true := by
  obtain ⟨p, hp⟩ := Ordered.level_of_isFinite x hx
  exact le_iff.mpr ⟨_, _, hp, hp, le_rfl⟩

end Scalar

/-! ## One component -/

/-- The ends of a range are among the values, and no value is outside. -/
structure IsRange {α : Type} [Scalar α] (xs : List α) (r : α × α) : Prop where
  least_mem : r.1 ∈ xs
  greatest_mem : r.2 ∈ xs
  least_le : ∀ x ∈ xs, Scalar.le r.1 x = true
  le_greatest : ∀ x ∈ xs, Scalar.le x r.2 = true

section

variable {α : Type} [Scalar α] [Scalar.Ordered α] {xs : List α} {r : α × α} {y : α}

theorem isRange_singleton (hy : Scalar.isFinite y = true) : IsRange [y] (y, y) where
  least_mem := List.mem_singleton_self y
  greatest_mem := List.mem_singleton_self y
  least_le := List.forall_mem_singleton.mpr (Scalar.le_self hy)
  le_greatest := List.forall_mem_singleton.mpr (Scalar.le_self hy)

/-- **A range widened by one more value.** -/
theorem IsRange.widen (h : IsRange xs r) (hxs : ∀ x ∈ xs, Scalar.isFinite x = true)
    (hy : Scalar.isFinite y = true) :
    IsRange (xs ++ [y]) (Scalar.smaller r.1 y, Scalar.larger r.2 y) := by
  have hleast : Scalar.smaller r.1 y ∈ xs ++ [y] ∧
      ∀ x ∈ xs ++ [y], Scalar.le (Scalar.smaller r.1 y) x = true := by
    rw [List.forall_mem_append, List.forall_mem_singleton]
    unfold Scalar.smaller
    cases hlt : Scalar.lt y r.1 with
    | true =>
      exact ⟨by simp, fun x hx => Scalar.le_trans (Scalar.le_of_lt hlt) (h.least_le x hx),
        Scalar.le_self hy⟩
    | false =>
      exact ⟨List.mem_append_left _ h.least_mem, h.least_le,
        Scalar.le_of_not_lt (hxs _ h.least_mem) hy hlt⟩
  have hgreatest : Scalar.larger r.2 y ∈ xs ++ [y] ∧
      ∀ x ∈ xs ++ [y], Scalar.le x (Scalar.larger r.2 y) = true := by
    rw [List.forall_mem_append, List.forall_mem_singleton]
    unfold Scalar.larger
    cases hlt : Scalar.lt r.2 y with
    | true =>
      exact ⟨by simp, fun x hx => Scalar.le_trans (h.le_greatest x hx) (Scalar.le_of_lt hlt),
        Scalar.le_self hy⟩
    | false =>
      exact ⟨List.mem_append_left _ h.greatest_mem, h.le_greatest,
        Scalar.le_of_not_lt hy (hxs _ h.greatest_mem) hlt⟩
  exact ⟨hleast.1, hgreatest.1, hleast.2, hgreatest.2⟩

end

/-! ## All components -/

namespace Solution

variable {α σ : Type} [Scalar α] [State α σ]

/-- The values of a component over a trajectory. -/
def column (points : List (Point α σ)) (i : ℕ) : List α :=
  points.filterMap fun p => (State.components p.y : List α)[i]?

theorem rangesOf_concat {points : List (Point α σ)} (hne : points ≠ []) (q : Point α σ) :
    rangesOf (points ++ [q]) = widen (rangesOf points) (State.components q.y) := by
  obtain ⟨p, rest, rfl⟩ := List.exists_cons_of_ne_nil hne
  rw [List.cons_append, rangesOf, List.foldl_append]
  rfl

/-- **There are as many ranges as components.** -/
theorem length_rangesOf {points : List (Point α σ)} {n : ℕ} (hne : points ≠ [])
    (h : ∀ p ∈ points, (State.components p.y : List α).length = n) :
    (rangesOf points).length = n := by
  induction points using List.reverseRecOn with
  | nil => exact absurd rfl hne
  | append_singleton points q ih =>
    rw [List.forall_mem_append, List.forall_mem_singleton] at h
    by_cases hpoints : points = []
    · subst hpoints
      exact (List.length_map _).trans h.2
    · rw [rangesOf_concat hpoints, widen, List.length_zipWith, ih hpoints h.1, h.2, Nat.min_self]

variable [Scalar.Ordered α]

/-- **Every range spans the values of its component**, if all states are finite. -/
theorem isRange_rangesOf {points : List (Point α σ)}
    (hfin : ∀ p ∈ points, State.isFinite α p.y = true) {i : ℕ} {r : α × α}
    (hr : (rangesOf points)[i]? = some r) : IsRange (column points i) r := by
  have hcomponent : ∀ {p : Point α σ} {y : α}, State.isFinite α p.y = true →
      (State.components p.y)[i]? = some y → Scalar.isFinite y = true := fun hp hy =>
    List.all_eq_true.mp hp _ (List.mem_of_getElem? hy)
  -- the last point is the one that the ranges are widened by
  induction points using List.reverseRecOn generalizing r with
  | nil => cases hr
  | append_singleton points q ih =>
    rw [List.forall_mem_append, List.forall_mem_singleton] at hfin
    -- a component that the last point has is one more value
    have hcolumn : ∀ {y : α}, (State.components q.y)[i]? = some y →
        column (points ++ [q]) i = column points i ++ [y] := by
      intro y hy
      unfold column
      rw [List.filterMap_append, List.filterMap_cons, hy]
      rfl
    by_cases hpoints : points = []
    · subst hpoints
      have hone : ((State.components q.y).map fun (y : α) => (y, y))[i]? = some r := hr
      rw [List.getElem?_map, Option.map_eq_some_iff] at hone
      obtain ⟨y, hy, rfl⟩ := hone
      rw [hcolumn hy]
      exact isRange_singleton (hcomponent hfin.2 hy)
    · rw [rangesOf_concat hpoints, widen, List.getElem?_zipWith_eq_some] at hr
      obtain ⟨s, y, hs, hy, rfl⟩ := hr
      rw [hcolumn hy]
      refine (ih hfin.1 hs).widen (fun x hx => ?_) (hcomponent hfin.2 hy)
      obtain ⟨p, hp, hx⟩ := List.mem_filterMap.mp hx
      exact hcomponent (hfin.1 p hp) hx

end Solution

end InitialValue
