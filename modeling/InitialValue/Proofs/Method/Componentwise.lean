/-
  Step formulas on systems whose components do not meet.

  When every component of a slope depends on its own component of the state only, a step of the
  system is made of the steps of the components: it answers exactly when all of them do, and with
  the list of their answers.  `Together` says this of a computation on lists and a family of
  computations on numbers; it holds of slopes by assumption, of sums and multiples of states, and
  it is kept by doing one computation after another (`Together.bind`), so it holds of every formula
  (`together_step`).
-/
import InitialValue.Method.Step
import InitialValue.Proofs.Failing
import Mathlib.Data.List.OfFn

namespace InitialValue

variable {α : Type} {n : ℕ}

/-- The computation answers exactly when all of the family do, with the list of their answers. -/
def Together (x : Except Fault (List α)) (xs : Fin n → Except Fault α) : Prop :=
  ∀ ks, x = .ok ks ↔ ∃ v : Fin n → α, ks = List.ofFn v ∧ ∀ i, xs i = .ok (v i)

namespace Together

theorem ok (v : Fin n → α) : Together (.ok (List.ofFn v)) fun i => .ok (v i) := by
  intro ks
  constructor
  · intro h
    exact ⟨v, (ok_eq_ok.mp h).symm, fun _ => rfl⟩
  · rintro ⟨w, rfl, hw⟩
    have hvw : v = w := funext fun i => ok_eq_ok.mp (hw i)
    rw [hvw]

/-- **One after another**: what is done with the answers is done together as well. -/
theorem bind {x : Except Fault (List α)} {xs : Fin n → Except Fault α}
    {f : List α → Except Fault (List α)} {fs : Fin n → α → Except Fault α} (hx : Together x xs)
    (hf : ∀ v : Fin n → α, Together (f (List.ofFn v)) fun i => fs i (v i)) :
    Together (x >>= f) fun i => xs i >>= fs i := by
  intro ks
  rw [bind_eq_ok]
  constructor
  · rintro ⟨vs, hvs, hks⟩
    obtain ⟨v, rfl, hv⟩ := (hx vs).mp hvs
    obtain ⟨w, rfl, hw⟩ := (hf v ks).mp hks
    exact ⟨w, rfl, fun i => bind_eq_ok.mpr ⟨v i, hv i, hw i⟩⟩
  · rintro ⟨w, rfl, hw⟩
    choose v hv using fun i => bind_eq_ok.mp (hw i)
    exact ⟨List.ofFn v, (hx _).mpr ⟨v, rfl, fun i => (hv i).1⟩,
      (hf v _).mpr ⟨w, rfl, fun i => (hv i).2⟩⟩

end Together

/-! ## Sums and multiples of states -/

variable [Scalar α]

section

variable {xs ys zs : List α}

/-- Sums of states that are as long as each other. -/
theorem add_of_length (hx : xs.length = n) (hy : ys.length = n) :
    State.add α xs ys = .ok (List.zipWith (· + ·) xs ys) :=
  if_pos (hx.trans hy.symm)

theorem length_add (hx : xs.length = n) (hy : ys.length = n) (h : State.add α xs ys = .ok zs) :
    zs.length = n := by
  rw [add_of_length hx hy, ok_eq_ok] at h
  rw [← h, List.length_zipWith, hx, hy, Nat.min_self]

theorem length_scale (a : α) (xs : List α) : (State.scale a xs).length = xs.length :=
  List.length_map _

theorem length_advance {a : α} (hx : xs.length = n) (hy : ys.length = n)
    (h : MethodKey.advance xs a ys = .ok zs) : zs.length = n :=
  length_add hx ((length_scale a ys).trans hy) h

end

theorem add_ofFn (v w : Fin n → α) :
    State.add α (List.ofFn v) (List.ofFn w) = .ok (List.ofFn fun i => v i + w i) := by
  rw [add_of_length (List.length_ofFn (f := v)) (List.length_ofFn (f := w))]
  congr 1
  apply List.ext_getElem
  · simp
  · intro i _ _
    simp

theorem together_add (v w : Fin n → α) :
    Together (State.add α (List.ofFn v) (List.ofFn w)) fun i => State.add α (v i) (w i) := by
  rw [add_ofFn]
  exact .ok _

theorem scale_ofFn (a : α) (v : Fin n → α) :
    State.scale a (List.ofFn v) = List.ofFn fun i => State.scale a (v i) :=
  List.map_ofFn

theorem together_advance (v w : Fin n → α) (a : α) :
    Together (MethodKey.advance (List.ofFn v) a (List.ofFn w)) fun i =>
      MethodKey.advance (v i) a (w i) := by
  unfold MethodKey.advance
  rw [scale_ofFn]
  exact together_add v _

/-! ## Formulas -/

namespace MethodKey

section

variable {σ : Type} [State α σ] (f : Slope α σ) (t : α) (y : σ) (h : α)

theorem eulerStep_state : Prod.snd <$> eulerStep f t y h = (do
    let k ← f t y
    advance y h k) := by
  simp [eulerStep]

theorem heunStep_state : Prod.snd <$> heunStep f t y h = (do
    let k1 ← f t y
    let predicted ← advance y h k1
    let k2 ← f (t + h) predicted
    let sum ← State.add α k1 k2
    advance y (h / 2.0) sum) := by
  simp [heunStep]

theorem rk4Step_state : Prod.snd <$> rk4Step f t y h = (do
    let k1 ← f t y
    let y1 ← advance y (0.5 * h) k1
    let k2 ← f (t + 0.5 * h) y1
    let y2 ← advance y (0.5 * h) k2
    let k3 ← f (t + 0.5 * h) y2
    let y3 ← advance y h k3
    let k4 ← f (t + h) y3
    let sum ← State.add α k1 (State.scale (2.0 : α) k2)
    let sum ← State.add α sum (State.scale (2.0 : α) k3)
    let sum ← State.add α sum k4
    advance y (h / 6.0) sum) := by
  simp [rk4Step]

end

/-- **A step of the system is the steps of its components.** -/
theorem together_step {f : Slope α (List α)} {fs : Fin n → Slope α α}
    (hslope : ∀ (t : α) (v : Fin n → α), Together (f t (List.ofFn v)) fun i => fs i t (v i))
    (key : MethodKey) (t : α) (v : Fin n → α) (h : α) :
    Together (Prod.snd <$> (key.step : Formula α (List α)) f t (List.ofFn v) h) fun i =>
      Prod.snd <$> (key.step : Formula α α) (fs i) t (v i) h := by
  have hscaled : ∀ (a : α) (u w : Fin n → α),
      Together (State.add α (List.ofFn u) (State.scale a (List.ofFn w))) fun i =>
        State.add α (u i) (State.scale a (w i)) := by
    intro a u w
    rw [scale_ofFn]
    exact together_add u _
  cases key with
  | euler =>
    simp only [step, eulerStep_state]
    exact (hslope t v).bind fun k => together_advance v k h
  | heun =>
    simp only [step, heunStep_state]
    exact (hslope t v).bind fun k1 => (together_advance v k1 h).bind fun predicted =>
      (hslope (t + h) predicted).bind fun k2 => (together_add k1 k2).bind fun sum =>
        together_advance v sum (h / 2.0)
  | rk4 =>
    simp only [step, rk4Step_state]
    exact (hslope t v).bind fun k1 => (together_advance v k1 _).bind fun y1 =>
      (hslope _ y1).bind fun k2 => (together_advance v k2 _).bind fun y2 =>
      (hslope _ y2).bind fun k3 => (together_advance v k3 h).bind fun y3 =>
      (hslope _ y3).bind fun k4 => (hscaled 2.0 k1 k2).bind fun s2 =>
      (hscaled 2.0 s2 k3).bind fun s3 => (together_add s3 k4).bind fun sum =>
        together_advance v sum (h / 6.0)

end MethodKey

end InitialValue
