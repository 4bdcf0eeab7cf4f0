/-
  The cap on steps cuts a run off, and does nothing else.

  A run that ends of itself has a last step: the one that arrives, or the one that fails.  It ends
  there under every cap that is not smaller than the number of that step, and is cut off under every
  other.

  1. **Runs** — `Journey.lastStep?` is the last step of a run.  It is within the cap
     (`lastStep?_le_cap`), it decides how the run ends under another cap (`start_recap`), and a run
     without one was cut off (`start_exhausted`).
  2. **Options** — `Settings.single_recap` and `Settings.coupled_recap`: options with another cap are
     accepted as well, with the other cap in the settings.
  3. **Whole calls** — `solve_cut_off`.
-/
import InitialValue.Proofs.Solver.Calls
import InitialValue.Proofs.Solver.ExactOptions
import InitialValue.Proofs.Solver.Soundness

namespace InitialValue

/-! ## Runs -/

namespace Journey

variable {α σ : Type}

/-- The step with which a run ends of itself: the last one it takes, or the one that fails. -/
def lastStep? : Run × Except Halt (Journey α σ) → Option ℕ
  | (_, .ok j) => some j.steps
  | (_, .error (.atStep k _)) => some k
  | (_, .error _) => none

variable [Scalar α] [State α σ] {plan : Plan α σ} {y0 : σ} {k m : ℕ}

/-- Trails do not know about the cap. -/
theorem Trail.recap {n : ℕ} {p : Point α σ} {earlier : List (Point α σ)}
    (h : Trail plan y0 n p earlier) (m : ℕ) : Trail { plan with cap := m } y0 n p earlier := by
  induction h with
  | first hat => exact .first hat
  | step _ hopen hnext ih => exact ih.step hopen hnext

theorem lastStep?_le_cap (h : lastStep? (start plan y0 (.integrating 0)) = some k) :
    k ≤ plan.cap := by
  have hends := start_ends plan y0
  generalize start plan y0 (.integrating 0) = r at h hends
  cases hends with
  | arrived _ _ hcap _ =>
    cases h
    exact hcap
  | noStart =>
    cases h
    exact Nat.zero_le _
  | refused _ _ _ hcap =>
    cases h
    exact hcap
  | exhausted => cases h

/-- **A run ends with its last step** under every cap that allows for it. -/
theorem start_recap (h : lastStep? (start plan y0 (.integrating 0)) = some k) (hk : k ≤ m) :
    start { plan with cap := m } y0 (.integrating 0) = start plan y0 (.integrating 0) := by
  have hends := start_ends plan y0
  generalize start plan y0 (.integrating 0) = r at h hends
  -- how the run ended says how it ends with room for its last step
  apply Ends.eq_start
  cases hends with
  | arrived htrail hclosed _ hrun =>
    cases h
    exact .arrived (htrail.recap m) hclosed hk hrun
  | noStart hat => exact .noStart hat
  | refused htrail hopen hnext _ =>
    cases h
    exact .refused (htrail.recap m) hopen hnext hk
  | exhausted => cases h

/-- **A run without a last step was cut off.** -/
theorem start_exhausted (h : lastStep? (start plan y0 (.integrating 0)) = none) :
    start plan y0 (.integrating 0) = (.integrating plan.cap, .error (.capReached plan.cap)) := by
  have hends := start_ends plan y0
  generalize start plan y0 (.integrating 0) = r at h hends
  cases hends with
  | arrived => cases h
  | noStart => cases h
  | refused => cases h
  | exhausted => rfl

end Journey

/-! ## Options -/

section

variable {α σ : Type} {short long : Value α}

theorem Value.AgreeBut.ofPoints_eq [Scalar α] [State α σ]
    (h : short.AgreeBut "max_iterations" long) (method : Method) (points : List (Point α σ)) :
    Solution.ofPoints method short points = Solution.ofPoints method long points := by
  unfold Solution.ofPoints Solution.domainOf Solution.optionOrZero
  rw [h "step_size" (by decide), h "t0" (by decide), h "t_end" (by decide)]

theorem Value.AgreeBut.ofFailure_eq [Scalar α] (h : short.AgreeBut "max_iterations" long)
    (failure : Failure) (width : ℕ) :
    (Solution.ofFailure failure short width : Solution α σ) =
      Solution.ofFailure failure long width := by
  unfold Solution.ofFailure Solution.domainOf Solution.optionOrZero
  rw [h.requestedMethod_eq (by decide), h "step_size" (by decide), h "t0" (by decide),
    h "t_end" (by decide)]

namespace Settings

variable [Scalar α] {c : Config α} {warnings : List String} {m : ℕ}

theorem Passed.recap {t0 tEnd step : Parameter α}
    {judge : Number α → Number α → Number α → Except Foreign (Advice α)} {s : Settings α σ}
    (h : Passed c long t0 tEnd step judge s warnings) (hcap : iterationCap? short = some m) :
    Passed c short t0 tEnd step judge { s with maxIterations := m } warnings :=
  { h with cap := hcap }

/-- **Options of a single equation with another cap** are accepted as well. -/
theorem single_recap (h : short.AgreeBut "max_iterations" long) (hrecord : short.isRecord = true)
    (hcap : iterationCap? short = some m) {s : Settings α α}
    (hlong : single c long = .ok ⟨.ok s, warnings⟩) :
    single c short = .ok ⟨.ok { s with maxIterations := m }, warnings⟩ := by
  obtain ⟨t0, y0, tEnd, step, -, ht0, hy0, htEnd, hstep, hsmall, hy, hpassed⟩ :=
    single_accepts.mp hlong
  rw [← h.option (by decide)] at ht0 hy0 htEnd hstep
  exact single_accepts.mpr ⟨t0, y0, tEnd, step, hrecord, ht0, hy0, htEnd, hstep, hsmall, hy,
    hpassed.recap hcap⟩

/-- **Options of a coupled system with another cap** are accepted as well. -/
theorem coupled_recap (h : short.AgreeBut "max_iterations" long) (hrecord : short.isRecord = true)
    (hcap : iterationCap? short = some m) {s : Settings α (List α)}
    (hlong : coupled c long = .ok ⟨.ok s, warnings⟩) :
    coupled c short = .ok ⟨.ok { s with maxIterations := m }, warnings⟩ := by
  obtain ⟨t0, tEnd, step, items, y0, -, ht0, htEnd, hstep, hrow, hne, hy0, hsmall, hy, hpassed⟩ :=
    coupled_accepts.mp hlong
  rw [← h.option (by decide)] at ht0 htEnd hstep hrow
  exact coupled_accepts.mpr ⟨t0, tEnd, step, items, y0, hrecord, ht0, htEnd, hstep, hrow, hne, hy0,
    hsmall, hy, hpassed.recap hcap⟩

end Settings

end

/-! ## Whole calls -/

/-- What the cap `m` of one call says about it, compared to a call with the same or a larger cap. -/
structure Solver.CutsOff {α σ : Type} [Scalar α] [State α σ] (s : Solver α σ) (f : RightSide α)
    (short long : Value α) (m : ℕ) : Prop where
  /-- A call that succeeds has the same outcome with the larger cap. -/
  succeeds : ∀ points, s.Succeeds f short points → s.solveWith f long = s.solveWith f short
  /-- A call that fails at a step has the same outcome with the larger cap. -/
  fails : ∀ k cause, s.FailsWith f short (.halted (.atStep k cause)) →
    s.solveWith f long = s.solveWith f short
  /-- If the larger cap lets the call succeed with `n` steps, the smaller one does so exactly when it
      allows for them. -/
  enough : ∀ n points, s.Succeeds f long points → points.length = n + 1 →
    ((∃ points', s.Succeeds f short points') ↔ n ≤ m)
  /-- If the call fails at a step with the larger cap, it fails the same way with the smaller one
      exactly when that allows for the step. -/
  reached : ∀ k cause, s.FailsWith f long (.halted (.atStep k cause)) →
    (s.FailsWith f short (.halted (.atStep k cause)) ↔ k ≤ m)
  /-- In all other cases the cap is reported. -/
  rest : (¬ ∃ points, s.Succeeds f short points) →
    (¬ ∃ k cause, s.FailsWith f short (.halted (.atStep k cause))) →
    ∃ failure, s.FailsWith f short failure ∧
      failure.message = "Maximum iterations (" ++ toString m ++ ") reached without convergence"

namespace Solver

variable {α σ : Type} [Scalar α] [State α σ] {s : Solver α σ} {short long : Value α}

open Journey (start lastStep?)

section

variable {f : RightSide α} {options : Value α} {settings : Settings α σ} {warnings : List String}
  {method : Method} {k : ℕ}
  (hcheck : s.form.check s.config options = .ok ⟨.ok settings, warnings⟩)
  (hfind : Method.find? s.form.methods (Solution.requestedMethod options) = some method)

include hcheck hfind

/-- The last step of a call that succeeds. -/
theorem Succeeds.lastStep {points : List (Point α σ)} (h : s.Succeeds f options points) :
    ∃ n, points.length = n + 1 ∧
      lastStep? (start (s.plan f method settings) settings.y0 (.integrating 0)) = some n := by
  obtain ⟨_, _, _, m, j, hcheck', hfind', hstart, rfl⟩ := succeeds_iff.mp h
  cases hcheck.symm.trans hcheck'
  cases hfind.symm.trans hfind'
  have hends := Journey.start_ends (s.plan f method settings) settings.y0
  rw [hstart] at hends ⊢
  cases hends with
  | arrived htrail _ _ _ =>
    exact ⟨j.steps, htrail.count_points, rfl⟩

/-- The last step of a call that fails at a step. -/
theorem FailsWith.lastStep {cause : Fault} (h : s.FailsWith f options (.halted (.atStep k cause))) :
    lastStep? (start (s.plan f method settings) settings.y0 (.integrating 0)) = some k := by
  obtain ⟨run, halt, hhalt, hstart⟩ := h.halts hcheck hfind
  cases hhalt
  rw [hstart]
  rfl

/-- **A call whose run has a last step** succeeds, or fails at it. -/
theorem ends_of_lastStep {width : ℕ} (hwidth : s.form.width options = .ok width)
    (h : lastStep? (start (s.plan f method settings) settings.y0 (.integrating 0)) = some k) :
    (∃ points, s.Succeeds f options points) ∨
      ∃ cause, s.FailsWith f options (.halted (.atStep k cause)) := by
  have hends := Journey.start_ends (s.plan f method settings) settings.y0
  generalize hstart : start (s.plan f method settings) settings.y0 (.integrating 0) = r at h hends
  cases hends with
  | arrived => exact Or.inl ⟨_, succeeds_of_arrived hcheck hfind hstart⟩
  | noStart =>
    cases h
    exact Or.inr ⟨_, failsWith_of_halted hwidth hcheck hfind hstart⟩
  | refused =>
    cases h
    exact Or.inr ⟨_, failsWith_of_halted hwidth hcheck hfind hstart⟩
  | exhausted => cases h

end

/-- Two calls whose options agree in all but the cap, both accepted, with a known method; the cap of
    the first is not larger. -/
structure Capped (s : Solver α σ) (short long : Value α) (settings : Settings α σ)
    (warnings : List String) (method : Method) (m : ℕ) : Prop where
  agree : short.AgreeBut "max_iterations" long
  width : s.form.width short = s.form.width long
  answers : ∃ n, s.form.width short = .ok n
  accepted : s.form.check s.config long = .ok ⟨.ok settings, warnings⟩
  recapped : s.form.check s.config short = .ok ⟨.ok { settings with maxIterations := m }, warnings⟩
  method : Method.find? s.form.methods (Solution.requestedMethod short) = some method
  le : m ≤ settings.maxIterations

namespace Capped

variable {settings : Settings α σ} {warnings : List String} {method : Method} {m k : ℕ}
  {f : RightSide α} (h : s.Capped short long settings warnings method m)

include h

omit [Scalar α] [State α σ] in
theorem method_long : Method.find? s.form.methods (Solution.requestedMethod long) = some method := by
  rw [← h.agree.requestedMethod_eq (by decide)]
  exact h.method

/-- Calls whose runs end alike have the same outcome. -/
theorem solveWith_eq
    (hstart : start { s.plan f method settings with cap := m } settings.y0 (.integrating 0) =
      start (s.plan f method settings) settings.y0 (.integrating 0)) :
    s.solveWith f long = s.solveWith f short := by
  have hfail : ∀ run failure, s.fail long run warnings failure = s.fail short run warnings failure :=
    fun run failure => by
      unfold fail
      simp only [h.width, h.agree.ofFailure_eq]
  have hplan : s.plan f method { settings with maxIterations := m } =
      { s.plan f method settings with cap := m } := rfl
  rw [solveWith_accepted h.accepted h.method_long, solveWith_accepted h.recapped h.method]
  unfold integrate
  simp only [hplan, hstart, hfail, h.agree.ofPoints_eq]

/-- The smaller cap lets a run end: then the larger one does. -/
theorem start_eq_of_short
    (hk : lastStep? (start { s.plan f method settings with cap := m } settings.y0
      (.integrating 0)) = some k) :
    start { s.plan f method settings with cap := m } settings.y0 (.integrating 0) =
      start (s.plan f method settings) settings.y0 (.integrating 0) :=
  (Journey.start_recap hk ((Journey.lastStep?_le_cap hk).trans h.le)).symm

/-- **What the smaller cap says about a call**, compared to the larger one. -/
theorem cutsOff (f : RightSide α) : s.CutsOff f short long m := by
  obtain ⟨width, hwidth⟩ := h.answers
  constructor
  case succeeds =>
    intro points hshort
    obtain ⟨n, -, hn⟩ := hshort.lastStep h.recapped h.method
    exact h.solveWith_eq (h.start_eq_of_short hn)
  case fails =>
    intro k cause hshort
    exact h.solveWith_eq (h.start_eq_of_short (hshort.lastStep h.recapped h.method))
  case enough =>
    intro n points hlong hlength
    obtain ⟨n', hlength', hlast⟩ := hlong.lastStep h.accepted h.method_long
    obtain rfl : n = n' := by omega
    constructor
    · rintro ⟨points', hshort⟩
      obtain ⟨k, -, hk⟩ := hshort.lastStep h.recapped h.method
      -- the shorter run is the longer one, so their last steps are the same
      have hk' := (congrArg lastStep? (h.start_eq_of_short hk)).symm.trans hk
      obtain rfl : n = k := Option.some.inj (hlast.symm.trans hk')
      exact Journey.lastStep?_le_cap hk
    · intro hn
      have heq := h.solveWith_eq (Journey.start_recap hlast hn)
      obtain ⟨o, ho, hsuccess, hpoints⟩ := hlong
      exact ⟨points, o, heq ▸ ho, hsuccess, hpoints⟩
  case reached =>
    intro k cause hlong
    have hlast := hlong.lastStep h.accepted h.method_long
    constructor
    · intro hshort
      exact Journey.lastStep?_le_cap (hshort.lastStep h.recapped h.method)
    · intro hk
      have heq := h.solveWith_eq (Journey.start_recap hlast hk)
      obtain ⟨o, ho, hfail⟩ := hlong
      exact ⟨o, heq ▸ ho, hfail⟩
  case rest =>
    intro hunsolved hunfailed
    cases hlast : lastStep? (start { s.plan f method settings with cap := m } settings.y0
        (.integrating 0)) with
    | some k =>
      rcases ends_of_lastStep h.recapped h.method hwidth hlast with hsolved | ⟨cause, hfailed⟩
      · exact absurd hsolved hunsolved
      · exact absurd ⟨k, cause, hfailed⟩ hunfailed
    | none =>
      exact ⟨_, failsWith_of_halted hwidth h.recapped h.method (Journey.start_exhausted hlast), rfl⟩

end Capped

end Solver

/-- **The cap on steps is an exact cut-off.**  For single equations and coupled systems, whatever the
    configuration and the right-hand side: take accepted options that agree in all but the cap, and
    a known method.  The call with the smaller cap ends as the one with the larger cap does, if that
    is within the smaller cap, and is cut off otherwise. -/
theorem solve_cut_off (c : Config Float) (f : RightSide Float) {short long : Value Float}
    (hagree : short.AgreeBut "max_iterations" long) {m m' : ℕ}
    (hm : Settings.iterationCap? short = some m) (hm' : Settings.iterationCap? long = some m')
    (hle : m ≤ m') :
    (Form.single.Accepts c short → Form.single.Accepts c long →
      (Method.find? Method.single (Solution.requestedMethod short)).isSome →
      (⟨.single, c⟩ : Solver Float Float).CutsOff f short long m) ∧
    (Form.coupled.Accepts c short → Form.coupled.Accepts c long →
      (Method.find? Method.coupled (Solution.requestedMethod short)).isSome →
      (⟨.coupled, c⟩ : Solver Float (List Float)).CutsOff f short long m) := by
  constructor
  · rintro ⟨a, w, ha⟩ ⟨b, w', hb⟩ hknown
    obtain ⟨method, hmethod⟩ := Option.isSome_iff_exists.mp hknown
    obtain ⟨_, _, _, _, hrecord, -⟩ := Settings.single_accepts.mp ha
    obtain ⟨_, _, _, _, -, -, -, -, -, -, -, hpassed⟩ := Settings.single_accepts.mp hb
    obtain rfl : b.maxIterations = m' := Option.some.inj (hpassed.cap.symm.trans hm')
    exact Solver.Capped.cutsOff ⟨hagree, rfl, ⟨1, rfl⟩, hb,
      Settings.single_recap hagree hrecord hm hb, hmethod, hle⟩ f
  · rintro ⟨a, w, ha⟩ ⟨b, w', hb⟩ hknown
    obtain ⟨method, hmethod⟩ := Option.isSome_iff_exists.mp hknown
    obtain ⟨_, _, _, _, _, hrecord, -⟩ := Settings.coupled_accepts.mp ha
    obtain ⟨_, _, _, _, _, -, -, -, -, -, -, -, -, -, hpassed⟩ := Settings.coupled_accepts.mp hb
    obtain rfl : b.maxIterations = m' := Option.some.inj (hpassed.cap.symm.trans hm')
    have hwidth : (Form.coupled : Form Float (List Float)).width short =
        Form.coupled.width long := by
      show (do return (← (short.option "y0").rowLength?).getD 0 : Except Foreign Nat) = _
      rw [hagree.option (by decide)]
      rfl
    exact Solver.Capped.cutsOff ⟨hagree, hwidth, Solver.width_of_accepted ha, hb,
      Settings.coupled_recap hagree hrecord hm hb, hmethod, hle⟩ f

/-- From zero to one in steps of a tenth, with a cap on steps. -/
def cappedTenths (cap : ℤ) (y0 : Value Float) : Value Float := .record [("t0", .real 0.0),
  ("y0", y0), ("t_end", .real 1.0), ("step_size", .real 0.1), ("method", .key .euler),
  ("max_iterations", .whole cap)]

theorem cappedTenths_agree (m n : ℤ) (y0 : Value Float) :
    (cappedTenths m y0).AgreeBut "max_iterations" (cappedTenths n y0) := by
  intro other hother
  have hcap : ("max_iterations" == other) = false := beq_false_of_ne hother.symm
  unfold cappedTenths Value.field?
  simp only [List.reverse_cons, List.reverse_nil, List.nil_append, List.cons_append,
    List.find?_cons, hcap]

/-- Ten tenths: a cap of ten is enough, and one of nine is reported. -/
theorem solve_cut_off_tenths :
    (∃ points, (⟨.single, .standard⟩ : Solver Float Float).Succeeds growth
      (cappedTenths 12 (.real 1.0)) points ∧ points.length = 10 + 1) ∧
    (∃ points, (⟨.single, .standard⟩ : Solver Float Float).Succeeds growth
      (cappedTenths 10 (.real 1.0)) points) ∧
    (∃ failure, (⟨.single, .standard⟩ : Solver Float Float).FailsWith growth
      (cappedTenths 9 (.real 1.0)) failure ∧
      failure.message = "Maximum iterations (9) reached without convergence") ∧
    (⟨.coupled, .standard⟩ : Solver Float (List Float)).CutsOff growth
      (cappedTenths 9 (.list [.real 1.0, .real 2.0]))
      (cappedTenths 12 (.list [.real 1.0, .real 2.0])) 9 := by
  obtain ⟨o, ho, hlong⟩ := exists_ok (x := (⟨.single, .standard⟩ : Solver Float Float).solveWith
      growth (cappedTenths 12 (.real 1.0)))
    (p := fun o => o.solution.success && o.solution.points.length == 11) (by decide +kernel)
  simp only [Bool.and_eq_true, beq_iff_eq] at hlong
  have hsolved : (⟨.single, .standard⟩ : Solver Float Float).Succeeds growth
      (cappedTenths 12 (.real 1.0)) o.solution.points := ⟨o, ho, hlong.1, rfl⟩
  have haccept : ∀ n ∈ [9, 10, 12], Form.single.Accepts (.standard : Config Float)
      (cappedTenths n (.real 1.0)) := by
    have hall : ([9, 10, 12].all fun n =>
        (Settings.single (.standard : Config Float) (cappedTenths n (.real 1.0))).toOption.any
          (·.result.toOption.isSome)) = true := by decide +kernel
    exact fun n hn => Solver.accepts_of_seen (List.all_eq_true.mp hall n hn)
  have haccept' : ∀ n ∈ [9, 12], Form.coupled.Accepts (.standard : Config Float)
      (cappedTenths n (.list [.real 1.0, .real 2.0])) := by
    have hall : ([9, 12].all fun n => (Settings.coupled (.standard : Config Float)
        (cappedTenths n (.list [.real 1.0, .real 2.0]))).toOption.any
          (·.result.toOption.isSome)) = true := by decide +kernel
    exact fun n hn => Solver.accepts_of_seen (List.all_eq_true.mp hall n hn)
  have hten := (solve_cut_off .standard growth (cappedTenths_agree 10 12 (.real 1.0)) rfl rfl
    (by decide)).1 (haccept 10 (by simp)) (haccept 12 (by simp)) (by decide +kernel)
  have hnine := (solve_cut_off .standard growth (cappedTenths_agree 9 12 (.real 1.0)) rfl rfl
    (by decide)).1 (haccept 9 (by simp)) (haccept 12 (by simp)) (by decide +kernel)
  have hpair := (solve_cut_off .standard growth
    (cappedTenths_agree 9 12 (.list [.real 1.0, .real 2.0])) rfl rfl (by decide)).2
    (haccept' 9 (by simp)) (haccept' 12 (by simp)) (by decide +kernel)
  refine ⟨⟨_, hsolved, hlong.2⟩, (hten.enough 10 _ hsolved hlong.2).mpr le_rfl, ?_, hpair⟩
  refine hnine.rest (fun h => ?_) fun ⟨k, cause, hfailed⟩ => ?_
  · exact absurd ((hnine.enough 10 _ hsolved hlong.2).mp h) (by decide)
  · -- the longer call would fail too
    obtain ⟨o', ho', hfail⟩ := hfailed
    have hsame := hnine.fails k cause ⟨o', ho', hfail⟩
    exact (Solver.FailsWith.not_succeeds ⟨o', hsame.trans ho', hfail⟩) hsolved

end InitialValue
