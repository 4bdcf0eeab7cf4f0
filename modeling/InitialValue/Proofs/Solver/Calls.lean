/-
  How calls end.

  A call succeeds with points or fails with a failure (`Solver.Succeeds`, `Solver.FailsWith`), and
  which of the two it is can be read off the stages of the pipeline.

  1. **Stages** — `Solver.Fails` lists the four places where a call can fail: reading the options,
     checking them, looking up the method, and the run.  `Solver.Arrives` is the other way out.
  2. **Outcomes** — a call takes one of these ways (`Solver.fails_or_arrives`), so it fails exactly
     by a stage that fails (`Solver.failsWith_iff`), as far as a failed solution can be made at
     all, and it succeeds exactly when its run arrives (`Solver.succeeds_iff`).
-/
import InitialValue.Proofs.Solver.Answers
import InitialValue.Proofs.Solver.Determined

namespace InitialValue

/-- Options are accepted. -/
def Form.Accepts {α σ : Type} (form : Form α σ) (c : Config α) (options : Value α) : Prop :=
  ∃ settings warnings, form.check c options = .ok ⟨.ok settings, warnings⟩

/-- The record that a call has come to when it fails: it is not fresh if the options were accepted,
    and counts the steps if there was a run. -/
def Failure.record : Failure → Run
  | .unknownMethod _ => ⟨.validated, 0, none⟩
  | .halted (.atStep k _) => .integrating (k - 1)
  | .halted (.capReached cap) => .integrating cap
  | _ => .fresh

namespace Solver

variable {α σ : Type} [Scalar α] [State α σ] {s : Solver α σ} {f : RightSide α}
  {options : Value α}

/-- A call that fails, with this failure. -/
def FailsWith (s : Solver α σ) (f : RightSide α) (options : Value α) (failure : Failure) : Prop :=
  ∃ o, s.solveWith f options = .ok o ∧ o.solution.success = false ∧
    o.solution.failure = some failure

/-- A call that succeeds, with these points. -/
def Succeeds (s : Solver α σ) (f : RightSide α) (options : Value α) (points : List (Point α σ)) :
    Prop :=
  ∃ o, s.solveWith f options = .ok o ∧ o.solution.success = true ∧ o.solution.points = points

theorem FailsWith.unique {failure failure' : Failure} (h : s.FailsWith f options failure)
    (h' : s.FailsWith f options failure') : failure = failure' := by
  obtain ⟨o, ho, -, hf⟩ := h
  obtain ⟨o', ho', -, hf'⟩ := h'
  cases ho.symm.trans ho'
  exact Option.some.inj (hf.symm.trans hf')

theorem Succeeds.unique {points points' : List (Point α σ)} (h : s.Succeeds f options points)
    (h' : s.Succeeds f options points') : points = points' := by
  obtain ⟨o, ho, -, hp⟩ := h
  obtain ⟨o', ho', -, hp'⟩ := h'
  cases ho.symm.trans ho'
  exact hp.symm.trans hp'

theorem FailsWith.not_succeeds {failure : Failure} (h : s.FailsWith f options failure)
    {points : List (Point α σ)} : ¬ s.Succeeds f options points := by
  rintro ⟨o', ho', hs', -⟩
  obtain ⟨o, ho, hs, -⟩ := h
  cases ho.symm.trans ho'
  rw [hs] at hs'
  cases hs'

/-! ## Stages -/

/-- The stage at which a call fails, and the failure it reports. -/
inductive Fails (s : Solver α σ) (f : RightSide α) (options : Value α) : Failure → Prop
  | unread {e} : s.form.check s.config options = .error e →
      Fails s f options (.computation (.foreign e))
  | refused {rule warnings} : s.form.check s.config options = .ok ⟨.error rule, warnings⟩ →
      Fails s f options (.options rule)
  | unknown {settings warnings} : s.form.check s.config options = .ok ⟨.ok settings, warnings⟩ →
      Method.find? s.form.methods (Solution.requestedMethod options) = none →
      Fails s f options (.unknownMethod (Solution.requestedMethod options).shown)
  | halted {settings warnings method run halt} :
      s.form.check s.config options = .ok ⟨.ok settings, warnings⟩ →
      Method.find? s.form.methods (Solution.requestedMethod options) = some method →
      Journey.start (s.plan f method settings) settings.y0 (.integrating 0) = (run, .error halt) →
      Fails s f options (.halted halt)

/-- The run of a call arrives, with these points. -/
def Arrives (s : Solver α σ) (f : RightSide α) (options : Value α) (points : List (Point α σ)) :
    Prop :=
  ∃ (settings : Settings α σ) (warnings : List String) (method : Method) (m : ℕ)
    (j : Journey α σ), s.form.check s.config options = .ok ⟨.ok settings, warnings⟩ ∧
    Method.find? s.form.methods (Solution.requestedMethod options) = some method ∧
    Journey.start (s.plan f method settings) settings.y0 (.integrating 0) =
      (.integrating m, .ok j) ∧ points = j.points

/-- A call fails at a stage, or its run arrives. -/
theorem fails_or_arrives (s : Solver α σ) (f : RightSide α) (options : Value α) :
    (∃ failure, s.Fails f options failure) ∨ ∃ points, s.Arrives f options points := by
  rcases hcheck : s.form.check s.config options with e | ⟨rule | settings, warnings⟩
  · exact Or.inl ⟨_, .unread hcheck⟩
  · exact Or.inl ⟨_, .refused hcheck⟩
  cases hfind : Method.find? s.form.methods (Solution.requestedMethod options) with
  | none => exact Or.inl ⟨_, .unknown hcheck hfind⟩
  | some method =>
    have hends := Journey.start_ends (s.plan f method settings) settings.y0
    rcases hstart : Journey.start (s.plan f method settings) settings.y0 (.integrating 0)
      with ⟨run, halt | j⟩
    · exact Or.inl ⟨_, .halted hcheck hfind hstart⟩
    · rw [hstart] at hends
      cases hends
      exact Or.inr ⟨_, settings, warnings, method, _, j, hcheck, hfind, hstart, rfl⟩

/-- **A stage that fails ends the call**, with the record that it had come to. -/
theorem Fails.solveWith_eq {failure : Failure} (h : s.Fails f options failure) :
    ∃ warnings, s.solveWith f options = s.fail options failure.record warnings failure := by
  cases h with
  | unread hcheck =>
    unfold solveWith
    rw [hcheck]
    exact ⟨_, rfl⟩
  | refused hcheck =>
    unfold solveWith
    rw [hcheck]
    exact ⟨_, rfl⟩
  | @unknown settings warnings hcheck hfind =>
    have hvalid : Run.fresh.validated = .ok ⟨.validated, 0, none⟩ := rfl
    unfold solveWith
    rw [hcheck]
    show ∃ w, s.proceed f options settings warnings .fresh = s.fail options _ w _
    simp only [proceed, hvalid, hfind]
    exact ⟨_, rfl⟩
  | @halted settings _ method _ _ hcheck hfind hstart =>
    have hends := Journey.start_ends (s.plan f method settings) settings.y0
    rw [solveWith_accepted hcheck hfind]
    unfold integrate
    rw [hstart] at hends ⊢
    cases hends <;> exact ⟨_, rfl⟩

/-! ## Outcomes -/

/-- A call whose run arrives succeeds with the points of the run. -/
theorem Arrives.succeeds {points : List (Point α σ)} (h : s.Arrives f options points) :
    s.Succeeds f options points := by
  obtain ⟨settings, warnings, method, m, j, hcheck, hfind, hstart, rfl⟩ := h
  unfold Succeeds
  rw [solveWith_accepted hcheck hfind]
  unfold integrate
  rw [hstart]
  exact ⟨_, rfl, rfl, rfl⟩

/-- **A call fails exactly by a stage that fails**, as far as a failed solution can be made. -/
theorem failsWith_iff {failure : Failure} : s.FailsWith f options failure ↔
    (∃ width, s.form.width options = .ok width) ∧ s.Fails f options failure := by
  constructor
  · intro h
    rcases fails_or_arrives s f options with ⟨failure', hstage⟩ | ⟨points, harrives⟩
    · obtain ⟨o, ho, -, hf⟩ := h
      obtain ⟨warnings, heq⟩ := hstage.solveWith_eq
      rw [heq] at ho
      obtain ⟨hwidth, -, hfailure⟩ := fail_eq_ok ho
      cases hf.symm.trans hfailure
      exact ⟨hwidth, hstage⟩
    · exact absurd harrives.succeeds h.not_succeeds
  · rintro ⟨⟨width, hwidth⟩, hstage⟩
    obtain ⟨warnings, heq⟩ := hstage.solveWith_eq
    obtain ⟨o, ho⟩ := fail_answers hwidth failure.record warnings failure
    exact ⟨o, heq.trans ho, (fail_eq_ok ho).2⟩

/-- **A call succeeds exactly when its run arrives.** -/
theorem succeeds_iff {points : List (Point α σ)} :
    s.Succeeds f options points ↔ s.Arrives f options points := by
  constructor
  · intro h
    rcases fails_or_arrives s f options with ⟨failure, hstage⟩ | ⟨points', harrives⟩
    · obtain ⟨o, ho, hs, -⟩ := h
      obtain ⟨warnings, heq⟩ := hstage.solveWith_eq
      rw [heq] at ho
      rw [(fail_eq_ok ho).2.1] at hs
      cases hs
    · rw [h.unique harrives.succeeds]
      exact harrives
  · exact Arrives.succeeds

/-- A call only succeeds with accepted options. -/
theorem Succeeds.accepted {points : List (Point α σ)} (h : s.Succeeds f options points) :
    s.form.Accepts s.config options := by
  obtain ⟨settings, warnings, _, _, _, hcheck, -⟩ := succeeds_iff.mp h
  exact ⟨settings, warnings, hcheck⟩

/-- **A call that succeeds** arrives: the points are those of a trail to a point from which no way is
    left. -/
theorem Succeeds.arrival {points : List (Point α σ)} (h : s.Succeeds f options points) :
    ∃ (settings : Settings α σ) (warnings : List String) (method : Method) (n : ℕ) (p : Point α σ)
      (earlier : List (Point α σ)), s.form.check s.config options = .ok ⟨.ok settings, warnings⟩ ∧
      Method.find? s.form.methods (Solution.requestedMethod options) = some method ∧
      Journey.Trail (s.plan f method settings) settings.y0 n p earlier ∧
      (s.plan f method settings).grid.isOpen p.t = false ∧ points = (p :: earlier).reverse := by
  obtain ⟨settings, warnings, method, _, j, hcheck, hfind, hstart, rfl⟩ := succeeds_iff.mp h
  have hends := Journey.start_ends (s.plan f method settings) settings.y0
  rw [hstart] at hends
  cases hends with
  | arrived htrail hclosed _ _ =>
    exact ⟨settings, warnings, method, _, _, _, hcheck, hfind, htrail, hclosed, rfl⟩

/-- The points of a call that succeeds are those of a trail. -/
theorem Succeeds.trail {points : List (Point α σ)} (h : s.Succeeds f options points) :
    ∃ (settings : Settings α σ) (warnings : List String) (method : Method) (n : ℕ) (p : Point α σ)
      (earlier : List (Point α σ)), s.form.check s.config options = .ok ⟨.ok settings, warnings⟩ ∧
      Method.find? s.form.methods (Solution.requestedMethod options) = some method ∧
      Journey.Trail (s.plan f method settings) settings.y0 n p earlier ∧
      points = (p :: earlier).reverse := by
  obtain ⟨settings, warnings, method, n, p, earlier, hcheck, hfind, htrail, -, hpoints⟩ := h.arrival
  exact ⟨settings, warnings, method, n, p, earlier, hcheck, hfind, htrail, hpoints⟩

/-! ## With accepted options -/

section

variable {settings : Settings α σ} {warnings : List String} {method : Method}

/-- A call whose run arrives succeeds with the points of the run. -/
theorem succeeds_of_arrived
    (hcheck : s.form.check s.config options = .ok ⟨.ok settings, warnings⟩)
    (hfind : Method.find? s.form.methods (Solution.requestedMethod options) = some method)
    {m : ℕ} {j : Journey α σ}
    (hstart : Journey.start (s.plan f method settings) settings.y0 (.integrating 0) =
      (.integrating m, .ok j)) : s.Succeeds f options j.points :=
  succeeds_iff.mpr ⟨settings, warnings, method, m, j, hcheck, hfind, hstart, rfl⟩

/-- A call whose run halts fails with the halt. -/
theorem failsWith_of_halted {width : ℕ} (hwidth : s.form.width options = .ok width)
    (hcheck : s.form.check s.config options = .ok ⟨.ok settings, warnings⟩)
    (hfind : Method.find? s.form.methods (Solution.requestedMethod options) = some method)
    {run : Run} {halt : Halt}
    (hstart : Journey.start (s.plan f method settings) settings.y0 (.integrating 0) =
      (run, .error halt)) : s.FailsWith f options (.halted halt) :=
  failsWith_iff.mpr ⟨⟨width, hwidth⟩, .halted hcheck hfind hstart⟩

/-- A call with an unknown method does not run. -/
theorem failsWith_of_unknown {width : ℕ} (hwidth : s.form.width options = .ok width)
    (hcheck : s.form.check s.config options = .ok ⟨.ok settings, warnings⟩)
    (hfind : Method.find? s.form.methods (Solution.requestedMethod options) = none) :
    s.FailsWith f options (.unknownMethod (Solution.requestedMethod options).shown) :=
  failsWith_iff.mpr ⟨⟨width, hwidth⟩, .unknown hcheck hfind⟩

/-- A call that fails with accepted options and a known method has a run that halts. -/
theorem FailsWith.halts (hcheck : s.form.check s.config options = .ok ⟨.ok settings, warnings⟩)
    (hfind : Method.find? s.form.methods (Solution.requestedMethod options) = some method)
    {failure : Failure} (h : s.FailsWith f options failure) : ∃ run halt,
      failure = .halted halt ∧
        Journey.start (s.plan f method settings) settings.y0 (.integrating 0) =
          (run, .error halt) := by
  have hstage := (failsWith_iff.mp h).2
  cases hstage with
  | unread hcheck' => cases hcheck.symm.trans hcheck'
  | refused hcheck' => cases hcheck.symm.trans hcheck'
  | unknown _ hfind' => cases hfind.symm.trans hfind'
  | halted hcheck' hfind' hstart =>
    cases hcheck.symm.trans hcheck'
    cases hfind.symm.trans hfind'
    exact ⟨_, _, rfl, hstart⟩

/-- A call that fails with a halt has a run that halts so. -/
theorem Fails.start_eq (hcheck : s.form.check s.config options = .ok ⟨.ok settings, warnings⟩)
    (hfind : Method.find? s.form.methods (Solution.requestedMethod options) = some method)
    {halt : Halt} (h : s.Fails f options (.halted halt)) :
    ∃ run, Journey.start (s.plan f method settings) settings.y0 (.integrating 0) =
      (run, .error halt) := by
  cases h with
  | halted hcheck' hfind' hstart =>
    cases hcheck.symm.trans hcheck'
    cases hfind.symm.trans hfind'
    exact ⟨_, hstart⟩

end

/-! ## Evaluated calls -/

/-- A call that was seen to succeed has points. -/
theorem exists_succeeds (s : Solver α σ) (f : RightSide α) (options : Value α)
    (h : (s.solveWith f options).toOption.any (·.solution.success) = true) :
    ∃ points, s.Succeeds f options points := by
  obtain ⟨o, ho, hs⟩ := exists_ok h
  exact ⟨_, o, ho, hs, rfl⟩

omit [Scalar α] [State α σ] in
/-- Options that were seen to be accepted have settings. -/
theorem exists_accepted {r : Except Foreign (Verdict α σ)} {P : Settings α σ → Prop}
    [DecidablePred P]
    (h : r.toOption.any (fun v => v.result.toOption.any fun s => decide (P s)) = true) :
    ∃ settings warnings, r = .ok ⟨.ok settings, warnings⟩ ∧ P settings := by
  obtain ⟨⟨result, warnings⟩, hr, hresult⟩ := exists_ok h
  obtain ⟨settings, rfl, hsettings⟩ := exists_ok hresult
  exact ⟨settings, warnings, hr, of_decide_eq_true hsettings⟩

omit [Scalar α] [State α σ] in
/-- Options that were seen to be accepted are. -/
theorem accepts_of_seen {form : Form α σ} {c : Config α}
    (h : (form.check c options).toOption.any (·.result.toOption.isSome) = true) :
    form.Accepts c options := by
  obtain ⟨⟨result, warnings⟩, hcheck, hresult⟩ := exists_ok h
  cases result with
  | error rule => cases hresult
  | ok settings => exact ⟨settings, warnings, hcheck⟩

end Solver

end InitialValue
