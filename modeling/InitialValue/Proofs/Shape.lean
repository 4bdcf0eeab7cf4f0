/-
  Rectangular nests.

  `Value.shape` computes the shape of a nest of lists and fails where items that stand side by side
  differ in shape.  `HasShape` says what a shape is, one case for each kind of nest: computing finds
  the shape exactly when there is one (`shape_eq_ok`).  What is told of the length of a list is its
  `rowWidth`, which needs no shape (`rowWidth_of_rowLength?`).
-/
import InitialValue.Proofs.Failing
import InitialValue.Value

namespace InitialValue.Value

variable {α : Type}

/-- `HasShape v s` — the value is a nest of lists of the sizes `s`, from the outside to the inside. -/
inductive HasShape : Value α → List Nat → Prop
  | item {v : Value α} : (∀ items, v ≠ .list items) → HasShape v []
  | empty : HasShape (.list []) [0]
  | nest {v : Value α} {rest : List (Value α)} {s : List Nat} : HasShape v s →
      (∀ w ∈ rest, HasShape w s) → HasShape (.list (v :: rest)) ((rest.length + 1) :: s)

theorem hasShape_item_iff {v : Value α} (hv : ∀ items, v ≠ .list items) {s : List Nat} :
    HasShape v s ↔ s = [] := by
  constructor
  · intro h
    cases h with
    | item => rfl
    | empty => exact absurd rfl (hv _)
    | nest => exact absurd rfl (hv _)
  · rintro rfl
    exact .item hv

theorem shape_item_iff {v : Value α} (hv : ∀ items, v ≠ .list items) {s : List Nat} :
    v.shape = .ok s ↔ HasShape v s := by
  have hshape : v.shape = .ok [] := by
    cases v with
    | list items => exact absurd rfl (hv items)
    | _ => rw [shape]; exact hv
  rw [hshape, hasShape_item_iff hv, ok_eq_ok, eq_comm]

theorem hasShape_empty_iff {s : List Nat} : HasShape (.list [] : Value α) s ↔ s = [0] := by
  constructor
  · intro h
    cases h with
    | item hv => exact absurd rfl (hv _)
    | empty => rfl
  · rintro rfl
    exact .empty

theorem hasShape_nest_iff {v : Value α} {rest : List (Value α)} {s : List Nat} :
    HasShape (.list (v :: rest)) s ↔
      ∃ t, HasShape v t ∧ (∀ w ∈ rest, HasShape w t) ∧ s = (rest.length + 1) :: t := by
  constructor
  · intro h
    cases h with
    | item hv => exact absurd rfl (hv _)
    | nest hv hrest => exact ⟨_, hv, hrest, rfl⟩
  · rintro ⟨t, hv, hrest, rfl⟩
    exact .nest hv hrest

mutual

/-- **The shape is found exactly when there is one.** -/
theorem shape_eq_ok : (v : Value α) → ∀ {s : List Nat}, v.shape = .ok s ↔ HasShape v s
  | .list items, s => by
    rw [shape]
    exact shapeOfItems_eq_ok items
  | .null, s => shape_item_iff fun _ h => by cases h
  | .truth b, s => shape_item_iff fun _ h => by cases h
  | .whole n, s => shape_item_iff fun _ h => by cases h
  | .real x, s => shape_item_iff fun _ h => by cases h
  | .text t, s => shape_item_iff fun _ h => by cases h
  | .key k, s => shape_item_iff fun _ h => by cases h
  | .record fields, s => shape_item_iff fun _ h => by cases h

theorem shapeOfItems_eq_ok : (items : List (Value α)) → ∀ {s : List Nat},
    shapeOfItems items = .ok s ↔ HasShape (.list items) s
  | [], s => by rw [hasShape_empty_iff, shapeOfItems, ok_eq_ok, eq_comm]
  | v :: rest, s => by
    rw [hasShape_nest_iff, shapeOfItems, bind_eq_ok]
    refine exists_congr fun t => ?_
    rw [shape_eq_ok v, bind_eq_ok]
    refine and_congr_right fun _ => ?_
    constructor
    · rintro ⟨u, hrest, hs⟩
      exact ⟨(allOfShape_eq_ok rest).mp hrest, (pure_eq_ok.mp hs).symm⟩
    · rintro ⟨hrest, rfl⟩
      exact ⟨(), (allOfShape_eq_ok rest).mpr hrest, rfl⟩

theorem allOfShape_eq_ok : (items : List (Value α)) → ∀ {s : List Nat},
    allOfShape s items = .ok () ↔ ∀ w ∈ items, HasShape w s
  | [], s => by
    rw [allOfShape]
    exact ⟨fun _ w hw => (List.not_mem_nil hw).elim, fun _ => rfl⟩
  | v :: rest, s => by
    rw [allOfShape, bind_eq_ok, List.forall_mem_cons, ← shape_eq_ok v]
    constructor
    · rintro ⟨t, ht, h⟩
      split at h
      · rename_i heq
        obtain rfl := beq_iff_eq.mp heq
        exact ⟨ht, (allOfShape_eq_ok rest).mp h⟩
      · cases h
    · rintro ⟨hv, hrest⟩
      refine ⟨s, hv, ?_⟩
      rw [if_pos (beq_self_eq_true s)]
      exact (allOfShape_eq_ok rest).mpr hrest

end

/-- Whether the length of a list can be told depends on its shape only. -/
theorem rowLength?_ok_iff (v : Value α) :
    (∃ n?, v.rowLength? = .ok n?) ↔ ∃ s, HasShape v s := by
  unfold rowLength?
  split
  · rename_i items
    constructor
    · rintro ⟨n?, h⟩
      obtain ⟨s, hs, -⟩ := bind_eq_ok.mp h
      exact ⟨s, (shape_eq_ok _).mp hs⟩
    · rintro ⟨s, hs⟩
      rw [(shape_eq_ok _).mpr hs]
      rcases s with _ | ⟨n, _ | ⟨m, s⟩⟩
      · exact ⟨none, rfl⟩
      · exact ⟨some n, rfl⟩
      · exact ⟨none, rfl⟩
  · rename_i hv
    exact ⟨fun _ => ⟨[], .item hv⟩, fun _ => ⟨none, rfl⟩⟩

/-! ## The width of a list -/

/-- Is the value a list? -/
def isList : Value α → Bool
  | .list _ => true
  | _ => false

/-- The length of a list that has no lists in it; anything else has the width zero. -/
def rowWidth : Value α → Nat
  | .list items => if items.any isList then 0 else items.length
  | _ => 0

/-- Lists are what has a shape that is not empty. -/
theorem HasShape.isList {v : Value α} {s : List Nat} (h : HasShape v s) : v.isList = !s.isEmpty := by
  cases h with
  | item hv =>
    cases v with
    | list items => exact absurd rfl (hv items)
    | _ => rfl
  | empty => rfl
  | nest => rfl

theorem rowWidth_list {items : List (Value α)} (h : ∀ v ∈ items, v.isList = false) :
    (list items).rowWidth = items.length := by
  rw [rowWidth, if_neg (by simpa using h)]

/-- **The length that is told of a value** is its width. -/
theorem rowWidth_of_rowLength? {v : Value α} {n? : Option Nat} (h : v.rowLength? = .ok n?) :
    v.rowWidth = n?.getD 0 := by
  cases v with
  | list items =>
    obtain ⟨s, hs, h⟩ := bind_eq_ok.mp h
    cases (shape_eq_ok _).mp hs with
    | item hv => exact absurd rfl (hv items)
    | empty =>
      cases h
      rfl
    | @nest v rest t hv hrest =>
      -- the items are lists or not as their common shape says
      cases t with
      | nil =>
        cases h
        exact rowWidth_list (List.forall_mem_cons.mpr ⟨hv.isList, fun w hw => (hrest w hw).isList⟩)
      | cons k t =>
        cases h
        rw [rowWidth, if_pos (List.any_eq_true.mpr ⟨v, List.mem_cons_self, hv.isList⟩)]
        rfl
  | _ =>
    cases h
    rfl

end InitialValue.Value
