/-
  A run does not look ahead.

  The end of the domain is read at every step: to tell whether there is a way left, whether the step
  lands, and where it leads.  Yet before the step that lands, the answers are the same for every end
  that is further away, so a longer domain does not change what has been computed for a shorter one.

  1. **Runs in step** — `Journey.InStep`: as long as one run has not landed, another takes the same
     steps.  So trails carry over (`InStep.trail`), and with them every way a run can end before it
     lands (`InStep.start_halt`); what is left is the step that lands (`InStep.start_last`).
  2. **Exact grids** — `Journey.inStep_of_grids`: over the rationals, runs that start alike and go
     the same way are in step until the first one lands.
  3. **Whole calls** — `solve_prolonged`.
-/
import InitialValue.Proofs.Solver.Calls
import InitialValue.Proofs.Solver.ExactGrid
import InitialValue.Proofs.Solver.ExactOptions

namespace InitialValue

/-- A failure that comes before the step with a number is over. -/
def Failure.Before (n : ℕ) : Failure → Prop
  | .halted (.atStep k _) => k < n
  | .halted (.capReached cap) => cap < n
  | _ => True

/-! ## Runs in step -/

section

variable {α σ : Type} [Scalar α] [State α σ]

/-- Where neither of two grids lands, a step does not tell them apart. -/
theorem Point.next_congr {g g' : Grid α} (ht0 : g.t0 = g'.t0) (hh : g.h = g'.h) {p : Point α σ}
    (hlands : g.lands p.t = false) (hlands' : g'.lands p.t = false) (step : Formula α σ)
    (threshold : Number α) (f : Slope α σ) (number : ℕ) :
    p.next g step threshold f number = p.next g' step threshold f number := by
  unfold Point.next Grid.stepFrom Grid.timeAfter
  simp only [hlands, hlands', ht0, hh, Bool.false_eq_true, if_false]

namespace Journey

/-- Until the step with the number `n`, a run of `b` takes the steps that a run of `a` takes. -/
structure InStep (n : ℕ) (a b : Plan α σ) (y0 : σ) : Prop where
  first : Point.at? a.slope a.grid.t0 y0 = Point.at? b.slope b.grid.t0 y0
  /-- Where `a` gets before that step, `b` has a way left to go. -/
  goes : ∀ {k : ℕ} {p : Point α σ} {earlier : List (Point α σ)}, Trail a y0 k p earlier → k < n →
    b.grid.isOpen p.t = true
  next : ∀ {k : ℕ} {p : Point α σ} {earlier : List (Point α σ)}, Trail a y0 k p earlier →
    k + 1 < n → p.next a.grid a.step a.threshold a.slope (k + 1) =
      p.next b.grid b.step b.threshold b.slope (k + 1)

namespace InStep

variable {n : ℕ} {a b : Plan α σ} {y0 : σ}

/-- **Trails carry over.** -/
theorem trail (h : InStep n a b y0) {k : ℕ} {p : Point α σ} {earlier : List (Point α σ)}
    (htrail : Trail a y0 k p earlier) (hk : k < n) : Trail b y0 k p earlier := by
  induction htrail with
  | first hat => exact .first (h.first.symm.trans hat)
  | step htrail _ hnext ih =>
    have hbefore := ih (by omega)
    exact hbefore.step (h.goes htrail (by omega)) ((h.next htrail hk).symm.trans hnext)

/-- **A run that halts before it lands** halts in step. -/
theorem start_halt (h : InStep n a b y0) (hcap : a.cap = b.cap) {run : Run} {halt : Halt}
    (hbefore : (Failure.halted halt).Before n)
    (hstart : start a y0 (.integrating 0) = (run, .error halt)) :
    start b y0 (.integrating 0) = (run, .error halt) := by
  have hends := start_ends a y0
  rw [hstart] at hends
  cases hends with
  | noStart hat => exact Ends.eq_start (.noStart (h.first.symm.trans hat))
  | refused htrail _ hnext hless =>
    have hk := Nat.lt_of_succ_lt hbefore
    exact Ends.eq_start (.refused (h.trail htrail hk) (h.goes htrail hk)
      ((h.next htrail hbefore).symm.trans hnext) (hcap ▸ hless))
  | exhausted htrail _ =>
    have htrail' := h.trail htrail hbefore
    have hopen := h.goes htrail hbefore
    rw [hcap] at htrail' ⊢
    exact Ends.eq_start (.exhausted htrail' hopen)

end InStep

/-- How a run ends whose last step has a number: it arrives with these points and one more, or the
    step fails. -/
inductive LastStep (n : ℕ) (points : List (Point α σ)) : Run × Except Halt (Journey α σ) → Prop
  | accepted {j : Journey α σ} : j.points.length = n + 1 → j.points.dropLast = points →
      LastStep n points (.integrating n, .ok j)
  | refused {run cause} : LastStep n points (run, .error (.atStep n cause))

/-- A run that lands with the step after `m` others, and a longer one. -/
structure Lengthens (m : ℕ) (far near : Plan α σ) (y0 : σ) : Prop where
  inStep : InStep (m + 1) far near y0
  cap : far.cap = near.cap
  lands : ∀ {p : Point α σ} {earlier : List (Point α σ)}, Trail near y0 (m + 1) p earlier →
    near.grid.isOpen p.t = false
  passes : ∀ {k : ℕ} {p : Point α σ} {earlier : List (Point α σ)}, Trail far y0 k p earlier →
    far.grid.isOpen p.t = false → m < k

namespace Lengthens

variable {m : ℕ} {far near : Plan α σ} {y0 : σ} (h : Lengthens m far near y0)

include h

/-- **The step that lands** is all that is left when the longer run has come right before it. -/
theorem start_last {k : ℕ} {p : Point α σ} {earlier : List (Point α σ)}
    (htrail : Trail far y0 k p earlier) (hk : m ≤ k) (hcap : m < far.cap) :
    LastStep (m + 1) ((p :: earlier).reverse.take (m + 1)) (start near y0 (.integrating 0)) := by
  -- the longer run came by the point before the last step, and so does the shorter one
  obtain ⟨q, before, hq, hpoints⟩ := htrail.take hk
  have hreached := h.inStep.trail hq (Nat.lt_succ_self m)
  have hopen := h.inStep.goes hq (Nat.lt_succ_self m)
  rw [h.cap] at hcap
  cases hnext : q.next near.grid near.step near.threshold near.slope (m + 1) with
  | error cause =>
    rw [Ends.eq_start (.refused hreached hopen hnext hcap)]
    exact .refused
  | ok r =>
    have hlast := hreached.step hopen hnext
    let j : Journey α σ := ⟨r, q :: before, m + 1, .integrating (m + 1)⟩
    have hends : Ends near y0 (.integrating (m + 1), .ok j) :=
      .arrived (j := j) hlast (h.lands hlast) hcap rfl
    rw [hends.eq_start]
    refine .accepted ?_ ?_
    · exact hlast.count_points
    · show (r :: q :: before).reverse.dropLast = _
      rw [List.reverse_cons, List.dropLast_concat, hpoints]

/-- When the longer run arrives, the shorter one has its first points. -/
theorem start_arrived {run : Run} {j : Journey α σ}
    (hstart : start far y0 (.integrating 0) = (run, .ok j)) :
    LastStep (m + 1) (j.points.take (m + 1)) (start near y0 (.integrating 0)) := by
  have hends := start_ends far y0
  rw [hstart] at hends
  cases hends with
  | arrived htrail hclosed hless _ =>
    have hk := h.passes htrail hclosed
    exact h.start_last htrail hk.le (by omega)

/-- When the longer run halts later, it is the step that lands that ends the shorter one. -/
theorem start_later {run : Run} {halt : Halt} (hlater : ¬ (Failure.halted halt).Before (m + 1))
    (hstart : start far y0 (.integrating 0) = (run, .error halt)) :
    ∃ points, LastStep (m + 1) points (start near y0 (.integrating 0)) := by
  have hends := start_ends far y0
  rw [hstart] at hends
  cases hends with
  | noStart => exact absurd (Nat.succ_pos m) hlater
  | refused htrail _ _ hless =>
    have hm := not_lt.mp hlater
    exact ⟨_, h.start_last htrail (by omega) (by omega)⟩
  | exhausted htrail _ =>
    have hm := not_lt.mp hlater
    exact ⟨_, h.start_last htrail (by omega) (by omega)⟩

end Lengthens

end Journey

end

/-! ## Exact grids -/

open Grid (Reaches reaching timeOf way)

namespace Grid

variable {t0 e e' s : ℚ} {m m' k : ℕ}

/-- What reaches a distant end reaches a near one. -/
theorem Reaches.nearer (h : Reaches t0 e' s k) (hnear : |e - t0| ≤ |e' - t0|) :
    Reaches t0 e s k := by
  unfold Reaches at h ⊢
  linarith

/-- Grids that go the same way have the same times until one of them ends. -/
theorem timeOf_congr (hway : way t0 e = way t0 e') (hk : k < m) (hk' : k < m') :
    timeOf t0 e s m k = timeOf t0 e' s m' k := by
  rw [timeOf_lt hk, timeOf_lt hk', hway]

theorem lands_before (hs : 0 < s) (hle : s ≤ |e - t0|) (hm : IsLeast (reaching t0 e s) m)
    (hk : k + 1 < m) : (Grid.of t0 e s).lands (timeOf t0 e s m k) = false := by
  rw [timeOf_lt (by omega), Bool.eq_false_iff, ne_eq, lands_time hs]
  exact not_reaches_of_lt hs hle hm hk

end Grid

namespace Journey

/-- **Runs on exact grids are in step** until the first one lands, when they start alike, go the
    same way and do the same otherwise. -/
theorem inStep_of_grids {σ : Type} [State ℚ σ] {a b : Plan ℚ σ} {t0 e e' s : ℚ} {m m' n : ℕ}
    (ha : a.grid = Grid.of t0 e s) (hb : b.grid = Grid.of t0 e' s) (hstep : a.step = b.step)
    (hthreshold : a.threshold = b.threshold) (hslope : a.slope = b.slope) (hs : 0 < s)
    (hle : s ≤ |e - t0|) (hle' : s ≤ |e' - t0|) (hway : way t0 e = way t0 e')
    (hm : IsLeast (reaching t0 e s) m) (hm' : IsLeast (reaching t0 e' s) m') (hn : n ≤ m)
    (hn' : n ≤ m') (y0 : σ) : InStep n a b y0 where
  first := by
    rw [ha, hb, hslope]
    rfl
  goes {k p earlier} htrail hk := by
    obtain ⟨-, htime, -⟩ := htrail.at_timeOf ha hs hle hm
    rw [htime, Grid.timeOf_congr hway (hk.trans_le hn) (hk.trans_le hn'), hb]
    exact (Grid.isOpen_timeOf hs hle' hm' (hk.trans_le hn').le).mpr (hk.trans_le hn')
  next {k p earlier} htrail hk := by
    obtain ⟨-, htime, -⟩ := htrail.at_timeOf ha hs hle hm
    have hlands : a.grid.lands p.t = false := by
      rw [htime, ha]
      exact Grid.lands_before hs hle hm (hk.trans_le hn)
    have hlands' : b.grid.lands p.t = false := by
      have hbefore := Nat.lt_of_succ_lt hk
      rw [htime, Grid.timeOf_congr hway (hbefore.trans_le hn) (hbefore.trans_le hn'), hb]
      exact Grid.lands_before hs hle' hm' (hk.trans_le hn')
    have ht0 : a.grid.t0 = b.grid.t0 := by rw [ha, hb]; rfl
    have hh : a.grid.h = b.grid.h := by rw [ha, hb, Grid.of_rat hs, Grid.of_rat hs, hway]
    rw [hstep, hthreshold, hslope]
    exact Point.next_congr ht0 hh hlands hlands' _ _ _ _

end Journey

/-! ## Whole calls -/

/-- What a call over a domain says about a call over a shorter one, which takes `n` steps. -/
structure Prolongs {σ : Type} [State ℚ σ] (s : Solver ℚ σ) (f : RightSide ℚ)
    (near far : Value ℚ) (n : ℕ) : Prop where
  /-- When the longer one succeeds, the shorter one has its first `n` points and then one more, or
      it fails at the step that lands. -/
  solved : ∀ points, s.Succeeds f far points →
    (∃ points', s.Succeeds f near points' ∧ points'.length = n + 1 ∧
      points'.dropLast = points.take n) ∨
    ∃ cause, s.FailsWith f near (.halted (.atStep n cause))
  /-- A failure of the longer one before that step is a failure of the shorter one. -/
  failed : ∀ failure, failure.Before n → s.FailsWith f far failure → s.FailsWith f near failure
  /-- When the longer one fails later, the shorter one succeeds or fails at the step that lands. -/
  later : ∀ failure, ¬ failure.Before n → s.FailsWith f far failure →
    (∃ points', s.Succeeds f near points' ∧ points'.length = n + 1) ∨
    ∃ cause, s.FailsWith f near (.halted (.atStep n cause))

section

variable {σ : Type} [State ℚ σ] {s : Solver ℚ σ} {f : RightSide ℚ} {near far : Value ℚ}
  {a b : Settings ℚ σ} {w w' : List String}

/-- When both succeed, the points of the shorter one but the last are the first of the longer. -/
theorem Prolongs.dropLast_eq {n : ℕ} (h : Prolongs s f near far n)
    {points points' : List (Point ℚ σ)} (hfar : s.Succeeds f far points)
    (hnear : s.Succeeds f near points') : points'.dropLast = points.take n := by
  rcases h.solved points hfar with ⟨q, hq, -, hdrop⟩ | ⟨cause, hfails⟩
  · rw [hnear.unique hq]
    exact hdrop
  · exact absurd hnear hfails.not_succeeds

/-- Calls with an unknown method do not depend on the domain. -/
theorem prolongs_of_unknown {width n : ℕ} (hwidth : s.form.width near = .ok width)
    (ha : s.form.check s.config near = .ok ⟨.ok a, w⟩)
    (hb : s.form.check s.config far = .ok ⟨.ok b, w'⟩)
    (hrequested : Solution.requestedMethod near = Solution.requestedMethod far)
    (hfind : Method.find? s.form.methods (Solution.requestedMethod near) = none) :
    Prolongs s f near far n := by
  have hnear := Solver.failsWith_of_unknown (f := f) hwidth ha hfind
  have hstage : s.Fails f far (.unknownMethod (Solution.requestedMethod near).shown) := by
    rw [hrequested] at hfind ⊢
    exact .unknown hb hfind
  have hfails : ∀ failure, s.FailsWith f far failure →
      failure = .unknownMethod (Solution.requestedMethod near).shown := fun failure hfar =>
    hfar.unique (Solver.failsWith_iff.mpr ⟨(Solver.failsWith_iff.mp hfar).1, hstage⟩)
  constructor
  case solved =>
    intro points hfar
    obtain ⟨_, _, _, _, _, -, hfind', -⟩ := Solver.succeeds_iff.mp hfar
    rw [← hrequested, hfind] at hfind'
    cases hfind'
  case failed =>
    intro failure _ hfar
    rw [hfails failure hfar]
    exact hnear
  case later =>
    intro failure hlater hfar
    rw [hfails failure hfar] at hlater
    exact absurd trivial hlater

/-- **A longer domain lengthens the run.** -/
theorem plan_lengthens {method : Method} {m : ℕ} (hagree : a.AgreeButEnd b) (hs : 0 < a.stepSize)
    (hle : a.stepSize ≤ |a.tEnd - a.t0|) (hside : a.t0 < a.tEnd ↔ b.t0 < b.tEnd)
    (hfar : |a.tEnd - a.t0| ≤ |b.tEnd - b.t0|)
    (hn : IsLeast (reaching a.t0 a.tEnd a.stepSize) (m + 1)) :
    Journey.Lengthens m (s.plan f method b) (s.plan f method a) a.y0 := by
  rw [← hagree.t0] at hside hfar
  have hle' : a.stepSize ≤ |b.tEnd - a.t0| := hle.trans hfar
  obtain ⟨n', hn'⟩ : ∃ n', IsLeast (reaching a.t0 b.tEnd a.stepSize) n' := Grid.exists_isLeast hs
  -- the longer domain takes at least as many steps
  have hmore : m + 1 ≤ n' := hn.2 ⟨hn'.1.1, hn'.1.2.nearer hfar⟩
  have hgrid : (s.plan f method a).grid = Grid.of a.t0 a.tEnd a.stepSize := rfl
  have hgrid' : (s.plan f method b).grid = Grid.of a.t0 b.tEnd a.stepSize := by
    rw [hagree.t0, hagree.stepSize]
    rfl
  have hslope : (s.plan f method b).slope = (s.plan f method a).slope := by
    show s.form.slope f b.y0 = s.form.slope f a.y0
    rw [hagree.y0]
  have hway : way a.t0 b.tEnd = way a.t0 a.tEnd := by
    unfold way
    simp only [hside]
  constructor
  case inStep =>
    exact Journey.inStep_of_grids hgrid' hgrid rfl rfl hslope hs hle' hle hway hn' hn hmore le_rfl _
  case cap => exact hagree.maxIterations.symm
  case lands =>
    intro p earlier htrail
    obtain ⟨-, hopen, -⟩ := htrail.on_grid hgrid hs hle hn
    exact Bool.eq_false_iff.mpr fun h => Nat.lt_irrefl _ (hopen.mp h)
  case passes =>
    intro k p earlier htrail hclosed
    have hsteps := htrail.steps_eq hgrid' hs hle' hn' hclosed
    omega

/-- A call whose run ends with a step fails at it, or succeeds. -/
theorem Journey.LastStep.call {width n : ℕ} {method : Method} {points : List (Point ℚ σ)}
    (hwidth : s.form.width near = .ok width)
    (ha : s.form.check s.config near = .ok ⟨.ok a, w⟩)
    (hfind : Method.find? s.form.methods (Solution.requestedMethod near) = some method)
    (h : LastStep n points (start (s.plan f method a) a.y0 (.integrating 0))) :
    (∃ points', s.Succeeds f near points' ∧ points'.length = n + 1 ∧
      points'.dropLast = points) ∨
    ∃ cause, s.FailsWith f near (.halted (.atStep n cause)) := by
  generalize hstart : start (s.plan f method a) a.y0 (.integrating 0) = r at h
  cases h with
  | accepted hlength hdrop =>
    exact Or.inl ⟨_, Solver.succeeds_of_arrived ha hfind hstart, hlength, hdrop⟩
  | refused => exact Or.inr ⟨_, Solver.failsWith_of_halted hwidth ha hfind hstart⟩

/-- **Calls with accepted options** over domains that start alike and go the same way: the longer
    one prolongs the shorter one. -/
theorem prolongs_of_accepted {width : ℕ} (hwidth : s.form.width near = .ok width)
    (ha : s.form.check s.config near = .ok ⟨.ok a, w⟩)
    (hb : s.form.check s.config far = .ok ⟨.ok b, w'⟩)
    (hrequested : Solution.requestedMethod near = Solution.requestedMethod far)
    (hagree : a.AgreeButEnd b) (hs : 0 < a.stepSize) (hle : a.stepSize ≤ |a.tEnd - a.t0|)
    (hside : a.t0 < a.tEnd ↔ b.t0 < b.tEnd) (hfar : |a.tEnd - a.t0| ≤ |b.tEnd - b.t0|) :
    ∃ n, IsLeast (reaching a.t0 a.tEnd a.stepSize) n ∧ Prolongs s f near far n := by
  obtain ⟨n, hn⟩ : ∃ n, IsLeast (reaching a.t0 a.tEnd a.stepSize) n := Grid.exists_isLeast hs
  refine ⟨n, hn, ?_⟩
  cases hfind : Method.find? s.form.methods (Solution.requestedMethod near) with
  | none => exact prolongs_of_unknown hwidth ha hb hrequested hfind
  | some method =>
    have hfind' := hfind
    rw [hrequested] at hfind'
    obtain ⟨m, rfl⟩ : ∃ m, n = m + 1 := ⟨n - 1, by have := hn.1.1; omega⟩
    have hlonger : Journey.Lengthens m (s.plan f method b) (s.plan f method a) a.y0 :=
      plan_lengthens hagree hs hle hside hfar hn
    constructor
    case solved =>
      intro points hsolved
      obtain ⟨_, _, _, _, j, hcheck, hmethod, hstart, rfl⟩ := Solver.succeeds_iff.mp hsolved
      cases hb.symm.trans hcheck
      cases hfind'.symm.trans hmethod
      rw [← hagree.y0] at hstart
      exact (hlonger.start_arrived hstart).call hwidth ha hfind
    case failed =>
      intro failure hbefore hfails
      obtain ⟨run, halt, rfl, hstart⟩ := hfails.halts hb hfind'
      rw [← hagree.y0] at hstart
      exact Solver.failsWith_of_halted hwidth ha hfind
        (hlonger.inStep.start_halt hlonger.cap hbefore hstart)
    case later =>
      intro failure hlater hfails
      obtain ⟨run, halt, rfl, hstart⟩ := hfails.halts hb hfind'
      rw [← hagree.y0] at hstart
      obtain ⟨points, hlast⟩ := hlonger.start_later hlater hstart
      rcases hlast.call hwidth ha hfind with ⟨points', hnear, hlength, -⟩ | hfailed
      · exact Or.inl ⟨points', hnear, hlength⟩
      · exact Or.inr hfailed

end

/-- **Extending the horizon does not change the past.**  For single equations and for coupled
    systems: take accepted options that agree in all but the end of the domain, with both ends on the
    same side of the start.  With `n` the number of steps that the nearer end takes, the call with
    the nearer end has the first `n` points of the call with the farther one, and the same failures
    before the step that lands. -/
theorem solve_prolonged (c : Config ℚ) (f : RightSide ℚ) :
    (∀ (near far : Value ℚ) (a b : Settings ℚ ℚ) (w w' : List String),
      near.AgreeBut "t_end" far → Settings.single c near = .ok ⟨.ok a, w⟩ →
      Settings.single c far = .ok ⟨.ok b, w'⟩ → (a.t0 < a.tEnd ↔ b.t0 < b.tEnd) →
      |a.tEnd - a.t0| ≤ |b.tEnd - b.t0| → ∃ n, IsLeast (reaching a.t0 a.tEnd a.stepSize) n ∧
        Prolongs (⟨.single, c⟩ : Solver ℚ ℚ) f near far n) ∧
    (∀ (near far : Value ℚ) (a b : Settings ℚ (List ℚ)) (w w' : List String),
      near.AgreeBut "t_end" far → Settings.coupled c near = .ok ⟨.ok a, w⟩ →
      Settings.coupled c far = .ok ⟨.ok b, w'⟩ → (a.t0 < a.tEnd ↔ b.t0 < b.tEnd) →
      |a.tEnd - a.t0| ≤ |b.tEnd - b.t0| → ∃ n, IsLeast (reaching a.t0 a.tEnd a.stepSize) n ∧
        Prolongs (⟨.coupled, c⟩ : Solver ℚ (List ℚ)) f near far n) := by
  constructor
  · intro near far a b w w' hsame ha hb hside hfar
    have hwidth : (Form.single : Form ℚ ℚ).width near = .ok 1 := rfl
    obtain ⟨hs, hle⟩ := Settings.single_step ha
    exact prolongs_of_accepted (s := ⟨.single, c⟩) hwidth ha hb hsame.requestedMethod
      (Settings.single_agree hsame ha hb) hs hle hside hfar
  · intro near far a b w w' hsame ha hb hside hfar
    obtain ⟨width, hwidth⟩ := Solver.width_of_accepted ha
    obtain ⟨hs, hle⟩ := Settings.coupled_step ha
    exact prolongs_of_accepted (s := ⟨.coupled, c⟩) hwidth ha hb hsame.requestedMethod
      (Settings.coupled_agree hsame ha hb) hs hle hside hfar

/-- The right-hand side of `y' = y`. -/
def unitGrowth : RightSide ℚ := fun _ y => .ok y

/-- Four coarse steps lead from zero to one, and they are the first steps on the way to two. -/
theorem coarse_prolonged {σ : Type} [State ℚ σ] {s : Solver ℚ σ} {f : RightSide ℚ}
    {near far : Value ℚ}
    (hprolonged : ∀ (a b : Settings ℚ σ) (w w' : List String),
      s.form.check s.config near = .ok ⟨.ok a, w⟩ → s.form.check s.config far = .ok ⟨.ok b, w'⟩ →
      (a.t0 < a.tEnd ↔ b.t0 < b.tEnd) → |a.tEnd - a.t0| ≤ |b.tEnd - b.t0| →
      ∃ n, IsLeast (reaching a.t0 a.tEnd a.stepSize) n ∧ Prolongs s f near far n)
    (hnear : (s.form.check s.config near).toOption.any (fun v => v.result.toOption.any fun a =>
      decide (a.t0 = 0 ∧ a.tEnd = 1 ∧ a.stepSize = 3 / 10)) = true)
    (hfar : (s.form.check s.config far).toOption.any (fun v => v.result.toOption.any fun b =>
      decide (b.t0 = 0 ∧ b.tEnd = 2)) = true)
    (hnearRun : (s.solveWith f near).toOption.any (·.solution.success) = true)
    (hfarRun : (s.solveWith f far).toOption.any (·.solution.success) = true) :
    ∃ points points', s.Succeeds f far points ∧ s.Succeeds f near points' ∧
      points'.dropLast = points.take 4 := by
  obtain ⟨a, w, ha, ht0, htEnd, hstep⟩ := Solver.exists_accepted hnear
  obtain ⟨b, w', hb, ht0', htEnd'⟩ := Solver.exists_accepted hfar
  obtain ⟨points, hsolved⟩ := Solver.exists_succeeds s f far hfarRun
  obtain ⟨points', hsolved'⟩ := Solver.exists_succeeds s f near hnearRun
  obtain ⟨n, hn, hprolongs⟩ := hprolonged a b w w' ha hb
    (by rw [ht0, htEnd, ht0', htEnd']; norm_num) (by rw [ht0, htEnd, ht0', htEnd']; norm_num)
  rw [ht0, htEnd, hstep] at hn
  obtain rfl := hn.unique isLeast_rest
  exact ⟨points, points', hsolved, hsolved', hprolongs.dropLast_eq hsolved hsolved'⟩

theorem solve_prolonged_growth :
    (∃ points points' : List (Point ℚ ℚ),
      lenientSolver.Succeeds unitGrowth (.coarse 0 2 (.whole 1) .heun) points ∧
      lenientSolver.Succeeds unitGrowth (.coarse 0 1 (.whole 1) .heun) points' ∧
      points'.dropLast = points.take 4) ∧
    (∃ points points' : List (Point ℚ (List ℚ)),
      lenientCoupled.Succeeds unitGrowth (.coarse 0 2 (.list [.whole 1, .whole 2]) .heun) points ∧
      lenientCoupled.Succeeds unitGrowth (.coarse 0 1 (.list [.whole 1, .whole 2]) .heun) points' ∧
      points'.dropLast = points.take 4) := by
  obtain ⟨hsingle, hcoupled⟩ := solve_prolonged lenientSolver.config unitGrowth
  constructor
  · exact coarse_prolonged (hsingle _ _ · · · · (Value.coarse_agree _ _ _ _ _))
      (by decide +kernel) (by decide +kernel) (by decide +kernel) (by decide +kernel)
  · exact coarse_prolonged (hcoupled _ _ · · · · (Value.coarse_agree _ _ _ _ _))
      (by decide +kernel) (by decide +kernel) (by decide +kernel) (by decide +kernel)

end InitialValue
