/-
  The stages of a step.

  A step formula asks for one slope after another, and where it asks next depends on the answers.
  `Stages` is a step cut at these calls: a tree that says what is asked first, and how the step goes
  on with each answer.  Running the stages of a method is taking its step
  (`MethodKey.run_stages`), so `Stages.calls` are the calls that the step makes, and **a step that
  answers has had an answer to each of them** (`MethodKey.step_answered`).
-/
import InitialValue.Method.Step
import InitialValue.Proofs.Failing

namespace InitialValue

/-- A step, up to its next call of the slope. -/
inductive Stages (α σ : Type) where
  | done (result : Except Fault (α × σ))
  | call (t : α) (y : σ) (next : σ → Stages α σ)

namespace Stages

variable {α σ : Type}

/-- The end of the step, with the slope answering the calls. -/
def run (f : Slope α σ) : Stages α σ → Except Fault (α × σ)
  | done result => result
  | call t y next => f t y >>= fun k => (next k).run f

/-- The times and states at which the slope is asked for, in order.  Nothing comes after a call that
    fails. -/
def calls (f : Slope α σ) : Stages α σ → List (α × σ)
  | done _ => []
  | call t y next => (t, y) :: (f t y).toOption.elim [] fun k => (next k).calls f

/-- Goes on with a state, or ends with the failure. -/
def after (x : Except Fault σ) (next : σ → Stages α σ) : Stages α σ :=
  match x with
  | .error cause => .done (.error cause)
  | .ok y => next y

theorem run_after (f : Slope α σ) (x : Except Fault σ) (next : σ → Stages α σ) :
    (after x next).run f = x >>= fun y => (next y).run f := by
  cases x <;> rfl

/-- **Stages that end well have had an answer to every call.** -/
theorem answered_of_run {f : Slope α σ} {s : Stages α σ} {r : α × σ} (h : s.run f = .ok r) :
    ∀ c ∈ s.calls f, ∃ k, f c.1 c.2 = .ok k := by
  induction s with
  | done => simp [calls]
  | call t y next ih =>
    obtain ⟨k, hk, hnext⟩ := bind_eq_ok.mp h
    -- the first call has an answer, so the calls go on
    have hcalls : (call t y next).calls f = (t, y) :: (next k).calls f := by
      rw [calls, hk]
      rfl
    rw [hcalls, List.forall_mem_cons]
    exact ⟨⟨k, hk⟩, ih k hnext⟩

end Stages

namespace MethodKey

variable {α σ : Type} [Scalar α] [State α σ]

/-- The stages of a step with a method. -/
def stages (key : MethodKey) (t : α) (y : σ) (h : α) : Stages α σ :=
  match key with
  | .euler => .call t y fun k => .done ((t + h, ·) <$> advance y h k)
  | .heun =>
    .call t y fun k1 => .after (advance y h k1) fun predicted =>
      .call (t + h) predicted fun k2 => .done do
        return (t + h, ← advance y (h / 2.0) (← State.add α k1 k2))
  | .rk4 =>
    .call t y fun k1 => .after (advance y (0.5 * h) k1) fun y1 =>
      .call (t + 0.5 * h) y1 fun k2 => .after (advance y (0.5 * h) k2) fun y2 =>
        .call (t + 0.5 * h) y2 fun k3 => .after (advance y h k3) fun y3 =>
          .call (t + h) y3 fun k4 => .done do
            let sum ← State.add α k1 (State.scale (2.0 : α) k2)
            let sum ← State.add α sum (State.scale (2.0 : α) k3)
            let sum ← State.add α sum k4
            return (t + h, ← advance y (h / 6.0) sum)

/-- **A step is the run of its stages.** -/
theorem run_stages (key : MethodKey) (f : Slope α σ) (t : α) (y : σ) (h : α) :
    (key.stages t y h).run f = key.step f t y h := by
  cases key with
  | euler =>
    simp only [stages, Stages.run, step, eulerStep, map_eq_pure_bind]
  | heun => simp only [stages, Stages.run, Stages.run_after, step, heunStep]
  | rk4 => simp only [stages, Stages.run, Stages.run_after, step, rk4Step]

/-- **A step that answers has had an answer to every call.** -/
theorem step_answered {key : MethodKey} {f : Slope α σ} {t h : α} {y : σ} {r : α × σ}
    (hstep : key.step f t y h = .ok r) :
    ∀ c ∈ (key.stages t y h).calls f, ∃ k, f c.1 c.2 = .ok k :=
  Stages.answered_of_run ((run_stages key f t y h).trans hstep)

end MethodKey

end InitialValue
