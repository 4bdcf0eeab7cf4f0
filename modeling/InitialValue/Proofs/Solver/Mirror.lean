/-
  Runs in a mirror.

  Turning the domain round turns the direction, the signed step and every difference of times round,
  so whatever the loop compares has the same sign as before.  With the mirror image of the slope, a
  run takes the same steps to the same states, at opposite times and with opposite derivatives.

  1. **Grids** — `Grid.Mirrors`: the same answers at opposite times.
  2. **Runs** — `Journey.Mirrors.next_ok`: an accepted step has an accepted mirror image.  Mirrors
     are mutual, so a step that fails has one that fails, and runs end alike
     (`Journey.Mirrors.start`).
  3. **Whole calls** — `solve_mirrored`.
-/
import InitialValue.Proofs.Method.Mirror
import InitialValue.Proofs.RightSide
import InitialValue.Proofs.Solver.Calls
import InitialValue.Proofs.Solver.ExactGrid
import InitialValue.Proofs.Solver.ExactOptions
import InitialValue.Proofs.Solver.MirroredOptions

namespace InitialValue

/-! ## Grids -/

namespace Grid

/-- Grids that are mirror images of each other. -/
structure Mirrors (g g' : Grid ℚ) : Prop where
  t0 : g'.t0 = -g.t0
  tEnd : g'.tEnd = -g.tEnd
  direction : g'.direction = -g.direction
  h : g'.h = -g.h
  tolerance : g'.tolerance = g.tolerance

theorem Mirrors.symm {g g' : Grid ℚ} (hm : Mirrors g g') : Mirrors g' g where
  t0 := by rw [hm.t0, neg_neg]
  tEnd := by rw [hm.tEnd, neg_neg]
  direction := by rw [hm.direction, neg_neg]
  h := by rw [hm.h, neg_neg]
  tolerance := hm.tolerance.symm

/-- The grid of a domain turned round. -/
theorem of_mirrors {t0 tEnd s : ℚ} (hs : 0 < s) (hne : t0 ≠ tEnd) :
    Mirrors (Grid.of t0 tEnd s) (Grid.of (-t0) (-tEnd) s) := by
  have hway : way (-t0) (-tEnd) = -way t0 tEnd := by
    unfold way
    rcases lt_or_gt_of_ne hne with h | h
    · rw [if_pos h, if_neg (neg_lt_neg h).le.not_gt]
    · rw [if_neg h.le.not_gt, if_pos (neg_lt_neg h), neg_neg]
  rw [of_rat hs, of_rat hs]
  constructor
  case h =>
    show way (-t0) (-tEnd) * s = -(way t0 tEnd * s)
    rw [hway, neg_mul]
  case direction => exact hway
  all_goals rfl

section

variable {g g' : Grid ℚ} (hm : Mirrors g g') (t : ℚ)

include hm

theorem Mirrors.isOpen : g'.isOpen (-t) = g.isOpen t := by
  have hleft : g'.direction * (g'.tEnd - -t) = g.direction * (g.tEnd - t) := by
    rw [hm.direction, hm.tEnd]
    ring
  unfold Grid.isOpen
  rw [hleft, hm.tolerance]

theorem Mirrors.lands : g'.lands (-t) = g.lands t := by
  have hleft : g'.direction * (g'.tEnd - -t - g'.h) = g.direction * (g.tEnd - t - g.h) := by
    rw [hm.direction, hm.tEnd, hm.h]
    ring
  unfold Grid.lands
  rw [hleft, hm.tolerance]

theorem Mirrors.stepFrom : g'.stepFrom (-t) = -g.stepFrom t := by
  unfold Grid.stepFrom
  rw [hm.lands t, hm.tEnd, hm.h]
  split
  · ring
  · rfl

theorem Mirrors.timeAfter {t' : ℚ} {k : ℕ} (h : g.timeAfter t k = .ok t') :
    g'.timeAfter (-t) k = .ok (-t') := by
  rw [timeAfter_eq_ok] at h ⊢
  rw [hm.lands t, hm.tEnd, hm.t0, hm.h]
  rcases h with ⟨hlands, rfl⟩ | ⟨hlands, r, hr, rfl⟩
  · exact Or.inl ⟨hlands, rfl⟩
  · refine Or.inr ⟨hlands, r, hr, ?_⟩
    ring

end

end Grid

/-! ## Runs -/

/-- A point at the opposite time, with the derivative turned round. -/
def Point.mirrored {σ : Type} (turn : σ → σ) (p : Point ℚ σ) : Point ℚ σ :=
  ⟨-p.t, p.y, turn p.slope⟩

section

variable {σ : Type} [State ℚ σ] {turn : σ → σ}

theorem Point.mirrored_mirrored (hturn : Turns turn) (p : Point ℚ σ) :
    (p.mirrored turn).mirrored turn = p := by
  unfold Point.mirrored
  rw [neg_neg, hturn.turn_turn]

/-- Every state of rationals is finite. -/
theorem State.isFinite_rat (y : σ) : State.isFinite ℚ y = true :=
  List.all_eq_true.mpr fun _ _ => rfl

theorem Point.at?_mirrored (hturn : Turns turn) {f g : Slope ℚ σ} (hf : Slope.Mirrors turn f g)
    {t : ℚ} {y : σ} {p : Point ℚ σ} (h : Point.at? f t y = .ok p) :
    Point.at? g (-t) y = .ok (p.mirrored turn) := by
  rw [at?_eq_ok] at h ⊢
  obtain ⟨ht, hy, hslope, -⟩ := h
  refine ⟨?_, hy, hf.ok hturn hslope, State.isFinite_rat _⟩
  show -p.t = -t
  rw [ht]

namespace Journey

/-- Plans that are mirror images of each other. -/
structure Mirrors (turn : σ → σ) (a b : Plan ℚ σ) : Prop where
  turns : Turns turn
  grid : a.grid.Mirrors b.grid
  step : ∃ key : MethodKey, a.step = key.step ∧ b.step = key.step
  threshold : b.threshold = a.threshold
  slope : Slope.Mirrors turn a.slope b.slope
  cap : b.cap = a.cap

namespace Mirrors

variable {a b : Plan ℚ σ}

theorem symm (h : Mirrors turn a b) : Mirrors turn b a where
  turns := h.turns
  grid := h.grid.symm
  step := by
    obtain ⟨key, ha, hb⟩ := h.step
    exact ⟨key, hb, ha⟩
  threshold := h.threshold.symm
  slope := h.slope.symm h.turns
  cap := h.cap.symm

/-- **A first point in a mirror.** -/
theorem first_ok (h : Mirrors turn a b) {y0 : σ} {p : Point ℚ σ}
    (hp : Point.at? a.slope a.grid.t0 y0 = .ok p) :
    Point.at? b.slope b.grid.t0 y0 = .ok (p.mirrored turn) := by
  rw [h.grid.t0]
  exact Point.at?_mirrored h.turns h.slope hp

/-- **An accepted step in a mirror** is accepted. -/
theorem next_ok (h : Mirrors turn a b) {p q : Point ℚ σ} {k : ℕ}
    (hq : p.next a.grid a.step a.threshold a.slope k = .ok q) :
    (p.mirrored turn).next b.grid b.step b.threshold b.slope k = .ok (q.mirrored turn) := by
  obtain ⟨key, ha, hb⟩ := h.step
  rw [Point.next_eq_ok] at hq ⊢
  obtain ⟨hstep, htime, hcheck, hat⟩ := hq
  refine ⟨?_, h.grid.timeAfter _ htime, ?_, Point.at?_mirrored h.turns h.slope hat⟩
  · rw [ha, ← map_snd_eq_ok] at hstep
    rw [hb, ← map_snd_eq_ok]
    show Prod.snd <$> key.step b.slope (-p.t) p.y (b.grid.stepFrom (-p.t)) = .ok q.y
    rw [h.grid.stepFrom]
    exact MethodKey.step_mirrored h.slope h.turns hstep
  · rw [Point.checkState_eq_ok] at hcheck ⊢
    rw [h.threshold]
    exact ⟨rfl, hcheck.2⟩

/-- A first point that fails has a mirror image that fails. -/
theorem first_error (h : Mirrors turn a b) {y0 : σ} {cause : Fault}
    (hp : Point.at? a.slope a.grid.t0 y0 = .error cause) :
    ∃ cause', Point.at? b.slope b.grid.t0 y0 = .error cause' := by
  cases hat : Point.at? b.slope b.grid.t0 y0 with
  | error cause' => exact ⟨cause', rfl⟩
  | ok q =>
    -- a point that is accepted in the mirror would come back
    have hback := h.symm.first_ok hat
    rw [hp] at hback
    cases hback

/-- A step that fails has a mirror image that fails. -/
theorem next_error (h : Mirrors turn a b) {p : Point ℚ σ} {k : ℕ} {cause : Fault}
    (hp : p.next a.grid a.step a.threshold a.slope k = .error cause) :
    ∃ cause', (p.mirrored turn).next b.grid b.step b.threshold b.slope k = .error cause' := by
  cases hnext : (p.mirrored turn).next b.grid b.step b.threshold b.slope k with
  | error cause' => exact ⟨cause', rfl⟩
  | ok q =>
    have hback := h.symm.next_ok hnext
    rw [Point.mirrored_mirrored h.turns, hp] at hback
    cases hback

theorem isOpen (h : Mirrors turn a b) (p : Point ℚ σ) :
    b.grid.isOpen (p.mirrored turn).t = a.grid.isOpen p.t := h.grid.isOpen p.t

/-- **Trails in a mirror.** -/
theorem trail (h : Mirrors turn a b) {y0 : σ} {n : ℕ} {p : Point ℚ σ} {earlier : List (Point ℚ σ)}
    (htrail : Trail a y0 n p earlier) :
    Trail b y0 n (p.mirrored turn) (earlier.map (.mirrored turn)) := by
  induction htrail with
  | first hat => exact .first (h.first_ok hat)
  | step _ hopen hnext ih => exact ih.step ((h.isOpen _).trans hopen) (h.next_ok hnext)

end Mirrors

/-- Ends of runs that are mirror images of each other. -/
inductive MirroredEnds (turn : σ → σ) :
    Run × Except Halt (Journey ℚ σ) → Run × Except Halt (Journey ℚ σ) → Prop
  | arrived {m : ℕ} {j j' : Journey ℚ σ} : j'.points = j.points.map (.mirrored turn) →
      MirroredEnds turn (.integrating m, .ok j) (.integrating m, .ok j')
  | failed {run k cause cause'} :
      MirroredEnds turn (run, .error (.atStep k cause)) (run, .error (.atStep k cause'))
  | capped {run cap} :
      MirroredEnds turn (run, .error (.capReached cap)) (run, .error (.capReached cap))

/-- **Runs in a mirror end alike.** -/
theorem Mirrors.start {a b : Plan ℚ σ} (h : Mirrors turn a b) (y0 : σ) :
    MirroredEnds turn (start a y0 (.integrating 0)) (start b y0 (.integrating 0)) := by
  have hends := start_ends a y0
  generalize Journey.start a y0 (.integrating 0) = r at hends ⊢
  cases hends with
  | @arrived j htrail hclosed hcap hrun =>
    let j' : Journey ℚ σ :=
      ⟨j.last.mirrored turn, j.earlier.map (.mirrored turn), j.steps, .integrating j.steps⟩
    have hends' : Ends b y0 (.integrating j.steps, .ok j') :=
      .arrived (j := j') (h.trail htrail) ((h.isOpen _).trans hclosed) (h.cap.symm ▸ hcap) rfl
    rw [hends'.eq_start]
    refine .arrived ?_
    show (j.last.mirrored turn :: j.earlier.map (.mirrored turn)).reverse =
      (j.last :: j.earlier).reverse.map (.mirrored turn)
    rw [← List.map_cons, List.map_reverse]
  | noStart hat =>
    obtain ⟨cause', hat'⟩ := h.first_error hat
    rw [Ends.eq_start (.noStart hat')]
    exact .failed
  | refused htrail hopen hnext hless =>
    obtain ⟨cause', hnext'⟩ := h.next_error hnext
    rw [Ends.eq_start (.refused (h.trail htrail) ((h.isOpen _).trans hopen) hnext'
      (h.cap.symm ▸ hless))]
    exact .failed
  | exhausted htrail hopen =>
    have htrail' := h.trail htrail
    rw [← h.cap] at htrail' ⊢
    rw [Ends.eq_start (.exhausted htrail' ((h.isOpen _).trans hopen))]
    exact .capped

end Journey

/-! ## Whole calls -/

/-- Failures that are the same, up to the cause of a step that failed. -/
inductive Failure.Alike : Failure → Failure → Prop
  | same (failure : Failure) : Alike failure failure
  | atStep {k cause cause'} : Alike (.halted (.atStep k cause)) (.halted (.atStep k cause'))

/-- Calls whose options and right-hand sides are mirror images of each other. -/
structure MirroredCalls (turn : σ → σ) (s : Solver ℚ σ) (f g : RightSide ℚ)
    (options options' : Value ℚ) : Prop where
  turns : Turns turn
  width : s.form.width options' = s.form.width options
  requested : Solution.requestedMethod options' = Solution.requestedMethod options
  check : s.form.check s.config options' = Verdict.mirrored <$> s.form.check s.config options
  slope : ∀ y0, Slope.Mirrors turn (s.form.slope f y0) (s.form.slope g y0)
  fits : ∀ settings warnings, s.form.check s.config options = .ok ⟨.ok settings, warnings⟩ →
    0 < settings.stepSize ∧ settings.stepSize ≤ |settings.tEnd - settings.t0|

namespace MirroredCalls

variable {s : Solver ℚ σ} {f g : RightSide ℚ} {options options' : Value ℚ}

theorem symm (h : MirroredCalls turn s f g options options') :
    MirroredCalls turn s g f options' options := by
  have hback : s.form.check s.config options =
      Verdict.mirrored <$> s.form.check s.config options' := by
    rw [h.check]
    rcases s.form.check s.config options with e | v
    · rfl
    · show _ = Except.ok v.mirrored.mirrored
      rw [Verdict.mirrored_mirrored]
  refine ⟨h.turns, h.width.symm, h.requested.symm, hback,
    fun y0 => (h.slope y0).symm h.turns, fun settings warnings hcheck => ?_⟩
  rw [hcheck] at hback
  obtain ⟨hs, hle⟩ := h.fits settings.mirrored warnings hback
  refine ⟨hs, ?_⟩
  have hlength : settings.mirrored.tEnd - settings.mirrored.t0 =
      -(settings.tEnd - settings.t0) := by
    show -settings.tEnd - -settings.t0 = _
    ring
  rw [hlength, abs_neg] at hle
  exact hle

theorem check_ok (h : MirroredCalls turn s f g options options') {settings : Settings ℚ σ}
    {warnings : List String}
    (hcheck : s.form.check s.config options = .ok ⟨.ok settings, warnings⟩) :
    s.form.check s.config options' = .ok ⟨.ok settings.mirrored, warnings⟩ := by
  rw [h.check, hcheck]
  rfl

/-- The plans of both calls are mirror images of each other. -/
theorem plan (h : MirroredCalls turn s f g options options') {settings : Settings ℚ σ}
    {warnings : List String} (hcheck : s.form.check s.config options = .ok ⟨.ok settings, warnings⟩)
    (method : Method) : Journey.Mirrors turn (s.plan f method settings)
      (s.plan g method settings.mirrored) where
  turns := h.turns
  grid := by
    obtain ⟨hs, hle⟩ := h.fits _ _ hcheck
    refine Grid.of_mirrors hs fun hempty => ?_
    rw [hempty, sub_self, abs_zero] at hle
    exact absurd hs (not_lt.mpr hle)
  step := ⟨method.key, rfl, rfl⟩
  threshold := rfl
  slope := h.slope settings.y0
  cap := rfl

/-- **A call that arrives** has a mirror image that arrives, with the points in a mirror. -/
theorem arrives (h : MirroredCalls turn s f g options options') {points : List (Point ℚ σ)}
    (hf : s.Arrives f options points) : s.Arrives g options' (points.map (.mirrored turn)) := by
  obtain ⟨settings, warnings, method, m, j, hcheck, hfind, hstart, rfl⟩ := hf
  have hends := (h.plan hcheck method).start settings.y0
  rw [hstart] at hends
  generalize hstart' : Journey.start (s.plan g method settings.mirrored) settings.y0
    (.integrating 0) = r at hends
  cases hends with
  | arrived hpoints =>
    rw [← h.requested] at hfind
    exact ⟨settings.mirrored, warnings, method, m, _, h.check_ok hcheck, hfind, hstart',
      hpoints.symm⟩

/-- **A call that fails** has a mirror image that fails, for the same reason or at the same step. -/
theorem fails (h : MirroredCalls turn s f g options options') {failure : Failure}
    (hf : s.Fails f options failure) :
    ∃ failure', failure.Alike failure' ∧ s.Fails g options' failure' := by
  cases hf with
  | unread hcheck =>
    refine ⟨_, .same _, .unread ?_⟩
    rw [h.check, hcheck]
    rfl
  | @refused rule warnings hcheck =>
    have hcheck' : s.form.check s.config options' = .ok ⟨.error rule, warnings⟩ := by
      rw [h.check, hcheck]
      rfl
    exact ⟨_, .same _, .refused hcheck'⟩
  | unknown hcheck hfind =>
    rw [← h.requested] at hfind ⊢
    exact ⟨_, .same _, .unknown (h.check_ok hcheck) hfind⟩
  | @halted settings warnings method run halt hcheck hfind hstart =>
    rw [← h.requested] at hfind
    have hends := (h.plan hcheck method).start settings.y0
    rw [hstart] at hends
    generalize hstart' : Journey.start (s.plan g method settings.mirrored) settings.y0
      (.integrating 0) = r at hends
    cases hends with
    | failed => exact ⟨_, .atStep, .halted (h.check_ok hcheck) hfind hstart'⟩
    | capped => exact ⟨_, .same _, .halted (h.check_ok hcheck) hfind hstart'⟩

theorem succeeds (h : MirroredCalls turn s f g options options') {points : List (Point ℚ σ)}
    (hf : s.Succeeds f options points) : s.Succeeds g options' (points.map (.mirrored turn)) :=
  Solver.succeeds_iff.mpr (h.arrives (Solver.succeeds_iff.mp hf))

theorem failsWith (h : MirroredCalls turn s f g options options') {failure : Failure}
    (hf : s.FailsWith f options failure) :
    ∃ failure', failure.Alike failure' ∧ s.FailsWith g options' failure' := by
  obtain ⟨hwidth, hstage⟩ := Solver.failsWith_iff.mp hf
  obtain ⟨failure', halike, hstage'⟩ := h.fails hstage
  rw [← h.width] at hwidth
  exact ⟨failure', halike, Solver.failsWith_iff.mpr ⟨hwidth, hstage'⟩⟩

theorem fails_atStep (h : MirroredCalls turn s f g options options') {k : ℕ} {cause : Fault}
    (hf : s.FailsWith f options (.halted (.atStep k cause))) :
    ∃ cause', s.FailsWith g options' (.halted (.atStep k cause')) := by
  obtain ⟨failure', halike, hg⟩ := h.failsWith hf
  cases halike with
  | same => exact ⟨cause, hg⟩
  | atStep => exact ⟨_, hg⟩

theorem fails_otherwise (h : MirroredCalls turn s f g options options') {failure : Failure}
    (hother : ∀ k cause, failure ≠ .halted (.atStep k cause))
    (hf : s.FailsWith f options failure) : s.FailsWith g options' failure := by
  obtain ⟨failure', halike, hg⟩ := h.failsWith hf
  cases halike with
  | same => exact hg
  | atStep => exact absurd rfl (hother _ _)

end MirroredCalls

/-- Calls that end alike, with what they compute in a mirror. -/
structure SolvedAlike (turn : σ → σ) (s : Solver ℚ σ) (f g : RightSide ℚ)
    (options options' : Value ℚ) : Prop where
  /-- One call succeeds when the other does. -/
  succeeds : (∃ points, s.Succeeds f options points) ↔ ∃ points, s.Succeeds g options' points
  /-- The points are the same, at opposite times and with opposite derivatives. -/
  points : ∀ points points', s.Succeeds f options points → s.Succeeds g options' points' →
    points' = points.map (.mirrored turn)
  /-- When one call fails at a step, the other one fails at the same step. -/
  atStep : ∀ k, (∃ cause, s.FailsWith f options (.halted (.atStep k cause))) ↔
    ∃ cause, s.FailsWith g options' (.halted (.atStep k cause))
  /-- All other failures are the same. -/
  otherwise : ∀ failure, (∀ k cause, failure ≠ .halted (.atStep k cause)) →
    (s.FailsWith f options failure ↔ s.FailsWith g options' failure)

/-- **Calls in a mirror** end alike. -/
theorem MirroredCalls.solvedAlike {s : Solver ℚ σ} {f g : RightSide ℚ}
    {options options' : Value ℚ} (h : MirroredCalls turn s f g options options') :
    SolvedAlike turn s f g options options' where
  succeeds := ⟨fun ⟨_, hf⟩ => ⟨_, h.succeeds hf⟩, fun ⟨_, hg⟩ => ⟨_, h.symm.succeeds hg⟩⟩
  points _ _ hf hg := hg.unique (h.succeeds hf)
  atStep _ := ⟨fun ⟨_, hf⟩ => h.fails_atStep hf, fun ⟨_, hg⟩ => h.symm.fails_atStep hg⟩
  otherwise _ hother := ⟨h.fails_otherwise hother, h.symm.fails_otherwise hother⟩

/-- The points of the mirror image of a call that succeeds. -/
theorem SolvedAlike.succeeds_map {s : Solver ℚ σ} {f g : RightSide ℚ} {options options' : Value ℚ}
    (h : SolvedAlike turn s f g options options') {points : List (Point ℚ σ)}
    (hf : s.Succeeds f options points) : s.Succeeds g options' (points.map (.mirrored turn)) := by
  obtain ⟨points', hg⟩ := h.succeeds.mp ⟨points, hf⟩
  rwa [h.points points points' hf hg] at hg

end

/-- The slope of a list is mirrored with its count. -/
theorem RightSide.vectorSlopeOf_mirrors {f g : RightSide ℚ} (n : ℕ)
    (h : Slope.Mirrors (List.map fun x => -x) f.vectorSlope g.vectorSlope) :
    Slope.Mirrors (List.map fun x => -x) (f.vectorSlopeOf n) (g.vectorSlopeOf n) := by
  intro t y k
  rw [vectorSlopeOf_eq_ok, vectorSlopeOf_eq_ok, h, List.length_map]

/-- The mirror image of `y' = φ(t, y)` is `y' = -φ(-t, y)`. -/
theorem RightSide.mirrors_ofReal (φ : ℚ → ℚ → ℚ) :
    Slope.Mirrors (fun y => -y) (ofReal fun t y => .ok (φ t y)).slope
      (ofReal fun t y => .ok (-φ (-t) y)).slope ∧
    Slope.Mirrors (List.map fun x => -x) (ofReal fun t y => .ok (φ t y)).vectorSlope
      (ofReal fun t y => .ok (-φ (-t) y)).vectorSlope := by
  constructor
  · intro t y k
    rw [slope_ofReal, slope_ofReal, ok_eq_ok, ok_eq_ok, neg_eq_iff_eq_neg]
  · intro t ys k
    have hneg : (ys.map fun y => -φ (-t) y) = (ys.map (φ (-t))).map fun x => -x :=
      List.map_map.symm
    rw [vectorSlope_ofReal, vectorSlope_ofReal, ok_eq_ok, ok_eq_ok, hneg]
    constructor
    · rintro rfl
      rw [turns_list.turn_turn]
    · intro h
      rw [h, turns_list.turn_turn]

/-- **Integrating backwards mirrors integrating forwards.**  Options with the domain turned round
    are judged like the options themselves, with the same broken rule or the same warnings; and when
    `g` is `-f(-t, y)`, failing where `f` fails, a call with `g` and these options ends like the call
    with `f`.  For single equations and for coupled systems. -/
theorem solve_mirrored (c : Config ℚ) (options : Value ℚ) (f g : RightSide ℚ) :
    (Settings.single c options.mirrored = Verdict.mirrored <$> Settings.single c options ∧
      ((∀ t y k, g.slope t y = .ok k ↔ f.slope (-t) y = .ok (-k)) →
        SolvedAlike (fun y => -y) (⟨.single, c⟩ : Solver ℚ ℚ) f g options options.mirrored)) ∧
    (Settings.coupled c options.mirrored = Verdict.mirrored <$> Settings.coupled c options ∧
      ((∀ t y k, g.vectorSlope t y = .ok k ↔ f.vectorSlope (-t) y = .ok (k.map fun x => -x)) →
        SolvedAlike (List.map fun x => -x) (⟨.coupled, c⟩ : Solver ℚ (List ℚ)) f g options
          options.mirrored)) := by
  refine ⟨⟨Settings.single_mirrored c options, fun hg => ?single⟩,
    ⟨Settings.coupled_mirrored c options, fun hg => ?coupled⟩⟩
  case single =>
    have hcalls : MirroredCalls (fun y => -y) (⟨.single, c⟩ : Solver ℚ ℚ) f g options
        options.mirrored :=
      ⟨turns_number, rfl, options.requestedMethod_mirrored, Settings.single_mirrored c options,
        fun _ => hg, fun _ _ => Settings.single_step⟩
    exact hcalls.solvedAlike
  case coupled =>
    have hstate : options.mirrored.option "y0" = options.option "y0" :=
      options.option_mirrored_of_ne (by decide) (by decide)
    have hwidth : (Form.coupled : Form ℚ (List ℚ)).width options.mirrored =
        (Form.coupled : Form ℚ (List ℚ)).width options := by
      unfold Form.coupled
      simp only [hstate]
    have hcalls : MirroredCalls (List.map fun x => -x) (⟨.coupled, c⟩ : Solver ℚ (List ℚ)) f g
        options options.mirrored :=
      ⟨turns_list, hwidth, options.requestedMethod_mirrored, Settings.coupled_mirrored c options,
        fun y0 => RightSide.vectorSlopeOf_mirrors y0.length hg, fun _ _ => Settings.coupled_step⟩
    exact hcalls.solvedAlike

/-- `y' = t + y` and its mirror image `y' = t - y`. -/
theorem solve_mirrored_drift :
    (∃ points : List (Point ℚ ℚ),
      lenientSolver.Succeeds (.ofReal fun t y => .ok (t + y)) (.coarse 0 1 (.whole 1) .rk4) points ∧
      lenientSolver.Succeeds (.ofReal fun t y => .ok (-(-t + y)))
        (.mirrored (.coarse 0 1 (.whole 1) .rk4)) (points.map (.mirrored fun y => -y))) ∧
    (∃ points : List (Point ℚ (List ℚ)),
      lenientCoupled.Succeeds (.ofReal fun t y => .ok (t + y))
        (.coarse 0 1 (.list [.whole 1, .whole 2]) .rk4) points ∧
      lenientCoupled.Succeeds (.ofReal fun t y => .ok (-(-t + y)))
        (.mirrored (.coarse 0 1 (.list [.whole 1, .whole 2]) .rk4))
        (points.map (.mirrored (List.map fun x => -x)))) := by
  obtain ⟨hsingle, hcoupled⟩ := RightSide.mirrors_ofReal fun t y => t + y
  constructor
  · obtain ⟨points, hf⟩ := Solver.exists_succeeds lenientSolver
      (.ofReal fun t y => .ok (t + y)) (.coarse 0 1 (.whole 1) .rk4) (by decide +kernel)
    exact ⟨points, hf, ((solve_mirrored _ _ _ _).1.2 hsingle).succeeds_map hf⟩
  · obtain ⟨points, hf⟩ := Solver.exists_succeeds lenientCoupled
      (.ofReal fun t y => .ok (t + y)) (.coarse 0 1 (.list [.whole 1, .whole 2]) .rk4)
      (by decide +kernel)
    exact ⟨points, hf, ((solve_mirrored _ _ _ _).2.2 hcoupled).succeeds_map hf⟩

end InitialValue
