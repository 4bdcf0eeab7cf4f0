/-
  A decoupled system is solved like its equations.

  The plan of the system is made of the plans of its equations (`Solver.plan_decouples`), so their
  runs are in lockstep.  What is left is to read the end of a run off the outcome of a call, for both
  kinds of solver: a call succeeds exactly when its run arrives, and reports the step at which the
  run fails (`solve_decoupled`).
-/
import InitialValue.Proofs.Solver.Calls
import InitialValue.Proofs.Solver.Lockstep
import InitialValue.Proofs.Solver.SystemOptions
import Mathlib.Data.Fin.VecNotation

namespace InitialValue

/-! ## Methods -/

namespace Method

/-- Both catalogs hold the same methods. -/
theorem find?_coupled (k : MethodKey) :
    ∃ m m', single.find? (·.key == k) = some m ∧ coupled.find? (·.key == k) = some m' ∧
      m.key = k ∧ m'.key = k := by
  cases k <;> exact ⟨_, _, rfl, rfl, rfl, rfl⟩

/-- A value names a method for systems exactly when it names one for single equations, of the same
    key. -/
theorem find?_catalogs {α : Type} (v : Value α) :
    (find? single v = none ∧ find? coupled v = none) ∨
      ∃ m m', find? single v = some m ∧ find? coupled v = some m' ∧ m'.key = m.key := by
  unfold find?
  cases keyOf? v with
  | none => exact Or.inl ⟨rfl, rfl⟩
  | some k =>
    obtain ⟨m, m', hm, hm', hkey, hkey'⟩ := find?_coupled k
    exact Or.inr ⟨m, m', hm, hm', hkey'.trans hkey.symm⟩

end Method

namespace Solver

/-! ## Plans -/

section

variable {n : ℕ} {c : Config Float} (fs : Fin n → Float → Float → Except Fault Float)

/-- **The plan of a decoupled system** is made of the plans of its equations. -/
theorem plan_decouples {settings : Settings Float (List Float)}
    {parts : Fin n → Settings Float Float} (h : settings.Splits parts) {m m' : Method}
    (hkey : m'.key = m.key) :
    Journey.Decouples ((⟨.coupled, c⟩ : Solver Float (List Float)).plan (.decoupled fs) m' settings)
      fun i => (⟨.single, c⟩ : Solver Float Float).plan (.ofReal (fs i)) m (parts i) where
  grid i := by
    show Grid.of (parts i).t0 (parts i).tEnd (parts i).stepSize =
      Grid.of settings.t0 settings.tEnd settings.stepSize
    rw [h.t0, h.tEnd, h.stepSize]
  threshold _ := rfl
  cap := h.maxIterations
  step := by
    refine ⟨m.key, ?_, fun _ => rfl⟩
    show m'.key.step = m.key.step
    rw [hkey]
  slope t v := by
    have hlength : settings.y0.length = n := by rw [h.y0, List.length_ofFn]
    show Together ((RightSide.decoupled fs).vectorSlopeOf settings.y0.length t (List.ofFn v)) _
    rw [hlength]
    exact RightSide.together_decoupled fs t v

end

end Solver

/-! ## Whole calls -/

section

variable {n : ℕ} {c : Config Float} {fields : List (String × Value Float)}
  {v : Fin n → Value Float}

/-- How calls on a decoupled system and on its equations end. -/
inductive CallsInLockstep (system : Solver Float (List Float)) (equation : Solver Float Float)
    (fs : Fin n → Float → Float → Except Fault Float) (options : Value Float)
    (parts : Fin n → Value Float) : Prop
  /-- All succeed, and the points of the equations are the parts of those of the system. -/
  | solved (points : List (Point Float (List Float))) (qs : Fin n → List (Point Float Float))
      (whole : system.Succeeds (.decoupled fs) options points)
      (each : ∀ i, equation.Succeeds (.ofReal (fs i)) (parts i) (qs i) ∧
        List.Forall₂ (IsPart i) points (qs i))
  /-- The system fails at a step; so does some equation, and none fails earlier. -/
  | failed (k : ℕ) (cause : Fault)
      (whole : system.FailsWith (.decoupled fs) options (.halted (.atStep k cause)))
      (some : ∃ i cause, equation.FailsWith (.ofReal (fs i)) (parts i) (.halted (.atStep k cause)))
      (first : ∀ i k' cause, equation.FailsWith (.ofReal (fs i)) (parts i)
        (.halted (.atStep k' cause)) → k ≤ k')
  /-- All fail, for the same reason, which is no failure at a step. -/
  | alike (failure : Failure) (noStep : ∀ k cause, failure ≠ .halted (.atStep k cause))
      (whole : system.FailsWith (.decoupled fs) options failure)
      (each : ∀ i, equation.FailsWith (.ofReal (fs i)) (parts i) failure)

theorem requestedMethod_withState (fields : List (String × Value Float)) (y0 : Value Float) :
    Solution.requestedMethod (.withState fields y0) =
      Solution.requestedMethod (.record fields) := by
  unfold Solution.requestedMethod
  rw [Value.field?_withState fields y0 (by decide)]

/-- Calls whose runs are in lockstep end as their runs do. -/
theorem callsInLockstep_of_runs {system : Solver Float (List Float)}
    {equation : Solver Float Float} {fs : Fin n → Float → Float → Except Fault Float}
    {options : Value Float} {parts : Fin n → Value Float} {settings : Settings Float (List Float)}
    {ss : Fin n → Settings Float Float} {warnings : List String} {ws : Fin n → List String}
    {m m' : Method} {width : ℕ} {widths : Fin n → ℕ}
    (hwidth : system.form.width options = .ok width)
    (hcheck : system.form.check system.config options = .ok ⟨.ok settings, warnings⟩)
    (hfind : Method.find? system.form.methods (Solution.requestedMethod options) = some m')
    (hwidths : ∀ i, equation.form.width (parts i) = .ok (widths i))
    (hchecks : ∀ i, equation.form.check equation.config (parts i) = .ok ⟨.ok (ss i), ws i⟩)
    (hfinds : ∀ i, Method.find? equation.form.methods (Solution.requestedMethod (parts i)) = some m)
    (hy0 : settings.y0 = List.ofFn fun i => (ss i).y0)
    (h : Journey.Lockstep (system.plan (.decoupled fs) m' settings)
      (fun i => equation.plan (.ofReal (fs i)) m (ss i)) fun i => (ss i).y0) :
    CallsInLockstep system equation fs options parts := by
  cases h with
  | arrived j js whole each =>
    rw [← hy0] at whole
    exact .solved j.points (fun i => (js i).points)
      (Solver.succeeds_of_arrived hcheck hfind whole) fun i =>
        ⟨Solver.succeeds_of_arrived (hchecks i) (hfinds i) (each i).1, (each i).2⟩
  | failed k run cause whole some first =>
    rw [← hy0] at whole
    obtain ⟨i, run', cause', hi⟩ := some
    refine .failed k cause (Solver.failsWith_of_halted hwidth hcheck hfind whole)
      ⟨i, cause', Solver.failsWith_of_halted (hwidths i) (hchecks i) (hfinds i) hi⟩
      fun i k' cause hfails => ?_
    -- only a run can fail at a step
    obtain ⟨run, hrun⟩ := (Solver.failsWith_iff.mp hfails).2.start_eq (hchecks i) (hfinds i)
    exact first i k' run cause hrun
  | capped whole each =>
    rw [← hy0] at whole
    exact .alike _ (fun _ _ h => by cases h)
      (Solver.failsWith_of_halted hwidth hcheck hfind whole) fun i =>
        Solver.failsWith_of_halted (hwidths i) (hchecks i) (hfinds i) (each i)

/-- **Calls with accepted options** on a decoupled system and on its equations end in lockstep. -/
theorem calls_inLockstep [NeZero n] (hlenient : c.strictStepSize.holds = false)
    (hfit : EndsFit fields) (haccepts : Form.coupled.Accepts c (.withState fields (.list (List.ofFn v))))
    (fs : Fin n → Float → Float → Except Fault Float) :
    CallsInLockstep ⟨.coupled, c⟩ ⟨.single, c⟩ fs (.withState fields (.list (List.ofFn v)))
      fun i => .withState fields (v i) := by
  obtain ⟨settings, warnings, hcheck⟩ := haccepts
  obtain ⟨parts, ws, hsplits, hchecks⟩ := Settings.coupled_splits hlenient hfit hcheck
  have hverdict : Settings.coupled c (.withState fields (.list (List.ofFn v))) =
      .ok ⟨.ok settings, warnings⟩ := hcheck
  obtain ⟨width, hwidth⟩ := Solver.width_of_accepted hverdict
  have hwidths : ∀ i, (Form.single : Form Float Float).width (.withState fields (v i)) = .ok 1 :=
    fun _ => rfl
  have hrequested := requestedMethod_withState fields
  -- all calls ask for the same method, and all know it or none does
  rcases Method.find?_catalogs (Solution.requestedMethod (.record fields)) with
    ⟨hsingle, hcoupled⟩ | ⟨m, m', hsingle, hcoupled, hkey⟩
  · rw [← hrequested (.list (List.ofFn v))] at hcoupled
    have hsystem := Solver.failsWith_of_unknown (s := ⟨.coupled, c⟩) (f := .decoupled fs) hwidth
      hcheck hcoupled
    rw [hrequested] at hsystem
    refine .alike _ (fun _ _ h => by cases h) hsystem fun i => ?_
    rw [← hrequested (v i)] at hsingle ⊢
    exact Solver.failsWith_of_unknown (s := ⟨.single, c⟩) (hwidths i) (hchecks i) hsingle
  · rw [← hrequested (.list (List.ofFn v))] at hcoupled
    refine callsInLockstep_of_runs hwidth hcheck hcoupled hwidths hchecks (fun i => ?_) hsplits.y0
      ((Solver.plan_decouples (c := c) fs hsplits hkey).start_lockstep _)
    rw [hrequested]
    exact hsingle

/-- Options of a decoupled system are accepted exactly when those of all equations are. -/
theorem accepts_iff [NeZero n] (hlenient : c.strictStepSize.holds = false) (hfit : EndsFit fields) :
    Form.coupled.Accepts c (.withState fields (.list (List.ofFn v))) ↔
      ∀ i, Form.single.Accepts c (.withState fields (v i)) := by
  constructor
  · rintro ⟨settings, warnings, hcheck⟩ i
    obtain ⟨parts, ws, -, hchecks⟩ := Settings.coupled_splits hlenient hfit hcheck
    exact ⟨parts i, ws i, hchecks i⟩
  · intro h
    choose parts ws hchecks using h
    obtain ⟨settings, warnings, -, hcheck⟩ := Settings.coupled_joins hlenient hfit hchecks
    exact ⟨settings, warnings, hcheck⟩

end

-- Ends that are too far apart: the judge of a single equation cannot count the steps.
example :
    let c : Config Float := { Config.standard with
      maxDomainLength := .real (1.0 / 0.0), strictStepSize := .truth false }
    let far : List (String × Value Float) := [("t0", .whole (-17 * 10 ^ 307)),
      ("t_end", .whole (17 * 10 ^ 307)), ("step_size", .real 1e308)]
    (Settings.coupled c (.withState far (.list [.real 1.0]))).toOption.any (·.result.toBool) ∧
      (Settings.single c (.withState far (.real 1.0))).toOption.isNone := by
  decide +kernel

/-- **A decoupled system is solved like its equations.**  When step-size advice does not refuse and
    the domain is no longer than a machine real can tell:

    - the options of the system are accepted exactly when those of all equations are;
    - the system is solved exactly when all equations are, and then its points are theirs: the
      times are the same, and so are the state and the slope of every component;
    - where the options are accepted, the system fails at the first step at which an equation does. -/
theorem solve_decoupled {n : ℕ} [NeZero n] {c : Config Float}
    (hlenient : c.strictStepSize.holds = false) {fields : List (String × Value Float)}
    (hfit : EndsFit fields) (v : Fin n → Value Float)
    (fs : Fin n → Float → Float → Except Fault Float) :
    let system : Solver Float (List Float) := ⟨.coupled, c⟩
    let equation : Solver Float Float := ⟨.single, c⟩
    let options := Value.withState fields (.list (List.ofFn v))
    (Form.coupled.Accepts c options ↔ ∀ i, Form.single.Accepts c (.withState fields (v i))) ∧
    ((∃ points, system.Succeeds (.decoupled fs) options points) ↔
      ∀ i, ∃ points, equation.Succeeds (.ofReal (fs i)) (.withState fields (v i)) points) ∧
    (∀ points i qs, system.Succeeds (.decoupled fs) options points →
      equation.Succeeds (.ofReal (fs i)) (.withState fields (v i)) qs →
      List.Forall₂ (IsPart i) points qs) ∧
    ∀ k, Form.coupled.Accepts c options →
      (∃ i cause, equation.FailsWith (.ofReal (fs i)) (.withState fields (v i))
        (.halted (.atStep k cause))) →
      (∀ i k' cause, equation.FailsWith (.ofReal (fs i)) (.withState fields (v i))
        (.halted (.atStep k' cause)) → k ≤ k') →
      ∃ cause, system.FailsWith (.decoupled fs) options (.halted (.atStep k cause)) := by
  intro system equation options
  have haccepts := accepts_iff (v := v) hlenient hfit
  have hlockstep := fun h => calls_inLockstep (v := v) hlenient hfit h fs
  refine ⟨haccepts, ⟨?_, ?_⟩, ?_, ?_⟩
  · rintro ⟨points, hpoints⟩ i
    cases hlockstep hpoints.accepted with
    | solved _ qs _ each => exact ⟨qs i, (each i).1⟩
    | failed _ _ whole => exact absurd hpoints whole.not_succeeds
    | alike _ _ whole => exact absurd hpoints whole.not_succeeds
  · intro hall
    choose qs hqs using hall
    cases hlockstep (haccepts.mpr fun i => (hqs i).accepted) with
    | solved points _ whole => exact ⟨points, whole⟩
    | failed k _ _ some =>
      obtain ⟨i, _, hi⟩ := some
      exact absurd (hqs i) hi.not_succeeds
    | alike _ _ _ each => exact absurd (hqs 0) (each 0).not_succeeds
  · intro points i qs hpoints hqs
    cases hlockstep hpoints.accepted with
    | solved points' qs' whole each =>
      rw [hpoints.unique whole, hqs.unique (each i).1]
      exact (each i).2
    | failed _ _ whole => exact absurd hpoints whole.not_succeeds
    | alike _ _ whole => exact absurd hpoints whole.not_succeeds
  · rintro k haccept ⟨i, cause, hi⟩ hfirst
    cases hlockstep haccept with
    | solved _ _ _ each => exact absurd (each i).1 hi.not_succeeds
    | failed k' cause' whole some first =>
      obtain ⟨i', cause'', hi'⟩ := some
      -- both are the first step at which an equation fails
      obtain rfl : k = k' := Nat.le_antisymm (hfirst i' k' cause'' hi') (first i k cause hi)
      exact ⟨cause', whole⟩
    | alike _ noStep _ each => exact absurd ((each i).unique hi) (noStep k cause)

/-- The usual limits, with step-size advice that is no more than advice. -/
def lenient : Config Float := { Config.standard with strictStepSize := .truth false }

/-- From zero to one in quarters. -/
def quarters : List (String × Value Float) := [("t0", .real 0.0), ("t_end", .real 1.0),
  ("step_size", .real 0.25), ("method", .key .heun)]

theorem endsFit_quarters : EndsFit quarters := by
  intro a b ha
  cases ha

/-- The system `y₀' = -y₀`, `y₁' = t · y₁`. -/
def decayAndGrowth (i : Fin 2) (t y : Float) : Except Fault Float :=
  if i = 0 then .ok (-y) else .ok (t * y)

/-- Decay from one beside growth from two: the system is solved, its equations are, and its points
    are theirs. -/
theorem solve_decoupled_pair : lenient.strictStepSize.holds = false ∧ EndsFit quarters ∧
    ∃ (points : List (Point Float (List Float))) (qs : Fin 2 → List (Point Float Float)),
      (⟨.coupled, lenient⟩ : Solver Float (List Float)).Succeeds (.decoupled decayAndGrowth)
        (.withState quarters (.list (List.ofFn ![.real 1.0, .real 2.0]))) points ∧
      ∀ i, (⟨.single, lenient⟩ : Solver Float Float).Succeeds (.ofReal (decayAndGrowth i))
        (.withState quarters (![.real 1.0, .real 2.0] i)) (qs i) ∧
        List.Forall₂ (IsPart i) points (qs i) := by
  have hrun : ((⟨.coupled, lenient⟩ : Solver Float (List Float)).solveWith (.decoupled decayAndGrowth)
      (.withState quarters (.list (List.ofFn ![.real 1.0, .real 2.0])))).toOption.any
        (·.solution.success) = true := by decide +kernel
  obtain ⟨o, ho, hs⟩ := exists_ok hrun
  obtain ⟨-, hsolved, hparts, -⟩ := solve_decoupled (c := lenient) rfl endsFit_quarters
    ![.real 1.0, .real 2.0] decayAndGrowth
  choose qs hqs using hsolved.mp ⟨_, o, ho, hs, rfl⟩
  exact ⟨rfl, endsFit_quarters, _, qs, ⟨o, ho, hs, rfl⟩, fun i =>
    ⟨hqs i, hparts _ i _ ⟨o, ho, hs, rfl⟩ (hqs i)⟩⟩

/-- Options are checked before a run begins: a system in which one equation fails at its first
    step does not fail at a step when the initial state of another is not accepted. -/
theorem unaccepted_component_first : ¬ ∀ (n : ℕ) [NeZero n] (c : Config Float)
    (fields : List (String × Value Float)) (v : Fin n → Value Float)
    (fs : Fin n → Float → Float → Except Fault Float) (k : ℕ),
    c.strictStepSize.holds = false → EndsFit fields →
    (∃ i cause, (⟨.single, c⟩ : Solver Float Float).FailsWith (.ofReal (fs i))
      (.withState fields (v i)) (.halted (.atStep k cause))) →
    (∀ i k' cause, (⟨.single, c⟩ : Solver Float Float).FailsWith (.ofReal (fs i))
      (.withState fields (v i)) (.halted (.atStep k' cause)) → k ≤ k') →
    ∃ cause, (⟨.coupled, c⟩ : Solver Float (List Float)).FailsWith (.decoupled fs)
      (.withState fields (.list (List.ofFn v))) (.halted (.atStep k cause)) := by
  intro h
  have hequation : ((⟨.single, lenient⟩ : Solver Float Float).solveWith
      (.ofReal fun _ _ => .error (.raised "user: m")) (.withState quarters (.real 1.0))).toOption.any
        (fun o => !o.solution.success &&
          o.solution.failure == some (.halted (.atStep 0 (.raised "user: m")))) = true := by
    decide +kernel
  have hfails : (⟨.single, lenient⟩ : Solver Float Float).FailsWith
      (.ofReal fun _ _ => .error (.raised "user: m")) (.withState quarters (.real 1.0))
      (.halted (.atStep 0 (.raised "user: m"))) := by
    obtain ⟨o, ho, hs⟩ := exists_ok hequation
    rw [Bool.and_eq_true, Bool.not_eq_true', beq_iff_eq] at hs
    exact ⟨o, ho, hs⟩
  have hsystem : ((⟨.coupled, lenient⟩ : Solver Float (List Float)).solveWith
      (.decoupled fun (_ : Fin 2) _ _ => .error (.raised "user: m"))
      (.withState quarters (.list (List.ofFn ![.real 1.0, .real 1e9])))).toOption.any
        (fun o => o.solution.failure.any fun failure => failure matches .options _) = true := by
    decide +kernel
  obtain ⟨cause, o, ho, -, hstep⟩ := h 2 lenient quarters ![.real 1.0, .real 1e9]
    (fun _ _ _ => .error (.raised "user: m")) 0 rfl endsFit_quarters
    ⟨0, _, hfails⟩ fun _ _ _ _ => Nat.zero_le _
  obtain ⟨o', ho', hoptions⟩ := exists_ok hsystem
  cases ho.symm.trans ho'
  rw [hstep] at hoptions
  cases hoptions

end InitialValue
