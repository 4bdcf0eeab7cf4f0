/-
  Right-hand sides that are made of functions of one number.

  `ofReal f` is the right-hand side of a single equation `y' = f(t, y)`, and `decoupled fs` that of
  the system whose `i`-th equation is `yᵢ' = fsᵢ(t, yᵢ)`.  As slopes they are what they are made of:
  the slope of the system answers exactly when all the functions do, with the list of their answers
  (`together_decoupled`).
-/
import InitialValue.Proofs.Method.Componentwise
import InitialValue.Proofs.Shape
import InitialValue.RightSide
import Mathlib.Data.List.Forall2

namespace InitialValue

/-! ## Lists of answers -/

/-- A list of computations answers with the list of their answers. -/
theorem mapM_eq_ok {ε β γ : Type} {f : β → Except ε γ} {l : List β} {ks : List γ} :
    l.mapM f = .ok ks ↔ List.Forall₂ (fun a k => f a = .ok k) l ks := by
  induction l generalizing ks with
  | nil =>
    rw [List.mapM_nil, List.forall₂_nil_left_iff, pure_eq_ok, eq_comm]
  | cons a l ih =>
    rw [List.mapM_cons, List.forall₂_cons_left_iff, bind_eq_ok]
    constructor
    · rintro ⟨k, hk, h⟩
      obtain ⟨ks, hks, h⟩ := bind_eq_ok.mp h
      exact ⟨k, ks, hk, ih.mp hks, (pure_eq_ok.mp h).symm⟩
    · rintro ⟨k, ks, hk, hks, rfl⟩
      exact ⟨k, hk, bind_eq_ok.mpr ⟨ks, ih.mpr hks, rfl⟩⟩

/-- Computations that agree on a list have the same answers on it. -/
theorem mapM_congr {ε β γ : Type} {f g : β → Except ε γ} {l : List β} (h : ∀ b ∈ l, f b = g b) :
    l.mapM f = l.mapM g := by
  induction l with
  | nil => rfl
  | cons b l ih =>
    rw [List.forall_mem_cons] at h
    rw [List.mapM_cons, List.mapM_cons, h.1, ih h.2]

/-- What is related to a family entry by entry is a family. -/
theorem forall₂_ofFn_iff {β γ : Type} {n : ℕ} {r : β → γ → Prop} {v : Fin n → β} {l : List γ} :
    List.Forall₂ r (List.ofFn v) l ↔ ∃ w : Fin n → γ, l = List.ofFn w ∧ ∀ i, r (v i) (w i) := by
  constructor
  · intro h
    have hlen : n = l.length := by
      rw [← h.length_eq, List.length_ofFn]
    subst hlen
    refine ⟨l.get, (List.ofFn_get l).symm, fun i => ?_⟩
    have hi := h.get (by simp) i.isLt
    simpa using hi
  · rintro ⟨w, rfl, hw⟩
    rw [List.forall₂_iff_get]
    refine ⟨by simp, fun i hi hi' => ?_⟩
    simpa using hw _

variable {α : Type} [Scalar α]

/-! ## Reading a list of numbers -/

namespace Value

theorem entriesOfItems_real (xs : List α) : entriesOfItems (xs.map .real) = .ok xs := by
  induction xs with
  | nil => rfl
  | cons x xs ih =>
    rw [List.map_cons, entriesOfItems, ih]
    rfl

omit [Scalar α] in
/-- A list of values that are no lists has its length for a shape. -/
theorem hasShape_row {items : List (Value α)} (h : ∀ v ∈ items, ∀ xs, v ≠ .list xs) :
    HasShape (.list items) [items.length] := by
  cases items with
  | nil => exact .empty
  | cons v rest =>
    refine .nest (.item (h v List.mem_cons_self)) fun w hw => .item ?_
    exact h w (List.mem_cons_of_mem v hw)

theorem flatten_real (xs : List α) :
    (Value.list (xs.map .real)).flatten = .ok ([xs.length], xs) := by
  have hshape : (Value.list (xs.map .real)).shape = .ok [xs.length] := by
    rw [shape_eq_ok]
    have hrow : HasShape (.list (xs.map .real)) [(xs.map Value.real).length] :=
        hasShape_row fun v hv ys heq => by
      obtain ⟨x, -, rfl⟩ := List.mem_map.mp hv
      cases heq
    rwa [List.length_map] at hrow
  have hentries : (Value.list (xs.map .real)).entries = .ok xs := by
    rw [entries, entriesOfItems_real]
  unfold flatten
  rw [hshape, hentries]
  rfl

end Value

/-! ## Single equations and systems -/

namespace RightSide

/-- A list of numbers that is handed back is the slope. -/
theorem vectorSlope_of_list {f : RightSide α} {t : α} {y k : List α}
    (h : f t (.list (y.map .real)) = .ok (.list (k.map .real))) : f.vectorSlope t y = .ok k := by
  unfold vectorSlope
  rw [h]
  show (Fault.lift (Value.list (k.map .real)).flatten >>= fun p => .ok p.2) = _
  rw [Value.flatten_real]
  rfl

theorem vectorSlopeOf_eq_ok {f : RightSide α} {n : ℕ} {t : α} {y k : List α} :
    f.vectorSlopeOf n t y = .ok k ↔ f.vectorSlope t y = .ok k ∧ k.length = n := by
  unfold vectorSlopeOf
  rw [bind_eq_ok]
  constructor
  · rintro ⟨k', hk', h⟩
    split at h
    · rename_i hlength
      cases h
      exact ⟨hk', hlength⟩
    · cases h
  · rintro ⟨hk, hlength⟩
    exact ⟨k, hk, by rw [if_pos hlength]; rfl⟩

/-- The right-hand side of `y' = f(t, y)`. -/
def ofReal (f : α → α → Except Fault α) : RightSide α := fun t => each (f t)

/-- The right-hand side of the system `yᵢ' = fsᵢ(t, yᵢ)`; the first failure is the system's. -/
def decoupled {n : ℕ} (fs : Fin n → α → α → Except Fault α) : RightSide α := fun t y =>
  match y with
  | .list items => do
    let xs ← (List.finRange n).mapM fun i : Fin n =>
      match items[(i : ℕ)]? with
      | none => .error (.foreign .noPosition)
      | some v => do fs i t (← Fault.lift do (← v.toNumber).toReal)
    return .list (xs.map .real)
  | _ => .error (.foreign .wrongType)

theorem slope_ofReal (f : α → α → Except Fault α) (t y : α) : (ofReal f).slope t y = f t y := by
  have hreal : (ofReal f) t (.real y) = (f t y).map .real := by
    show (f t y >>= fun x => .ok (Value.real x)) = _
    cases f t y <;> rfl
  unfold slope
  rw [hreal]
  cases f t y <;> rfl

/-- An equation of a total function sees the numbers of a state one by one. -/
theorem vectorSlope_ofReal (φ : α → α → α) (t : α) (ys : List α) :
    (ofReal fun t y => .ok (φ t y)).vectorSlope t ys = .ok (ys.map (φ t)) := by
  have hanswers : (ys.map Value.real).mapM (fun v => do
      (.ok (φ t (← Fault.lift do (← v.toNumber).toReal)) : Except Fault α)) =
        .ok (ys.map (φ t)) := by
    rw [mapM_eq_ok, List.forall₂_map_left_iff, List.forall₂_map_right_iff, List.forall₂_same]
    exact fun y _ => rfl
  exact vectorSlope_of_list (bind_eq_ok.mpr ⟨_, hanswers, rfl⟩)

/-- The system sees its components one by one. -/
theorem decoupled_list {n : ℕ} (fs : Fin n → α → α → Except Fault α) (t : α) (v : Fin n → α) :
    decoupled fs t (.list ((List.ofFn v).map .real)) =
      (List.finRange n).mapM (fun i => fs i t (v i)) >>= fun xs => .ok (.list (xs.map .real)) := by
  have hcomponent : ∀ i : Fin n, ((List.ofFn v).map Value.real)[(i : ℕ)]? = some (.real (v i)) := by
    intro i
    simp
  unfold decoupled
  simp only [hcomponent]
  rfl

/-- **The slope of a decoupled system** is made of the slopes of its equations. -/
theorem together_decoupled {n : ℕ} (fs : Fin n → α → α → Except Fault α) (t : α) (v : Fin n → α) :
    Together ((decoupled fs).vectorSlopeOf n t (List.ofFn v)) fun i =>
      (ofReal (fs i)).slope t (v i) := by
  intro ks
  simp only [slope_ofReal]
  have hanswers : (List.finRange n).mapM (fun i => fs i t (v i)) = .ok ks ↔
      ∃ w : Fin n → α, ks = List.ofFn w ∧ ∀ i, fs i t (v i) = .ok (w i) := by
    rw [mapM_eq_ok, List.finRange, forall₂_ofFn_iff]
  rw [← hanswers]
  unfold vectorSlopeOf vectorSlope
  rw [decoupled_list]
  cases hm : (List.finRange n).mapM (fun i => fs i t (v i)) with
  | error e =>
    exact iff_of_false (fun h => by cases h) (fun h => by cases h)
  | ok xs =>
    have hlen : xs.length = n := by
      rw [← (mapM_eq_ok.mp hm).length_eq, List.length_finRange]
    show ((Fault.lift (Value.list (xs.map .real)).flatten >>= fun p => .ok p.2) >>= fun k =>
      if k.length = n then .ok k else throw (.wrongCount k.length n)) = .ok ks ↔ _
    rw [Value.flatten_real]
    show (if xs.length = n then Except.ok xs else _) = Except.ok ks ↔ _
    rw [if_pos hlen]

end RightSide

end InitialValue
