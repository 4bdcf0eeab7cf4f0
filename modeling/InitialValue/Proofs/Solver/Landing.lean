/-
  Where a run on machine reals ends.

  The loop compares rounded times: a step lands when what is left after it is within the tolerance,
  and the loop is over when what is left is.  The first is computed from the time before the step and
  the second from the time after it, so near the tolerance the two can disagree, and a run may stop
  beside the end (`end_missed`).  Both are off by a few roundings only.  So when no number of whole
  steps leaves something that is within roundings of the tolerance, they agree, and a run ends on the
  end exactly.

  1. **One step** — `Grid.Reads.ahead_of_not_lands`: a step that does not land leaves more than the
     tolerance, up to roundings.  `Grid.Reads.grazes_of_closed`: a loop that is over has left no more
     than it.
  2. **Along a run** — `Journey.Trail.follows`: until it lands, a run follows the grid.
  3. **Acceptance** — `step_le_of_bounds`: an accepted step is no longer than the domain, so a run
     starts with more left than the tolerance.
  4. **Whole calls** — `solve_lands`.
-/
import InitialValue.Proofs.Solver.RoundedGrid
import InitialValue.Proofs.Solver.SystemOptions

namespace InitialValue

open Binary (value? Near)

/-! ## One step -/

namespace Extent

/-- After `k` whole steps there is more left than the tolerance, up to roundings. -/
def Ahead (v : Extent) (k : ℕ) : Prop := v.tolerance - 24 * v.rounding < v.left k

theorem two_roundings (v : Extent) {x : ℚ} (hx : x ≤ v.size) :
    2 ^ (-51 : ℤ) * x ≤ 2 * v.rounding := by
  unfold rounding
  calc 2 ^ (-51 : ℤ) * x ≤ 2 ^ (-51 : ℤ) * v.size := mul_le_mul_of_nonneg_left hx (by positivity)
    _ = 2 * (2 ^ (-52 : ℤ) * v.size) := by
      rw [← mul_assoc]
      norm_num

end Extent

namespace Grid.Reads

variable {t0 tEnd stepSize : Float} {v : Extent} (h : Reads t0 tEnd stepSize v) {k : ℕ} {t : Float}

include h

/-- As long as there is something left, one more step hardly leaves the domain. -/
theorem steps_le (hahead : v.Ahead k) : (k + 1 : ℕ) * v.step ≤ 2 * v.size := by
  have hlength : |v.tEnd - v.t0| ≤ |v.t0| + |v.tEnd| := by
    rw [add_comm]
    exact abs_sub v.tEnd v.t0
  have hpos := h.tolerance_pos
  have hsmall := h.rounding_le
  have hrounding := h.rounding_pos
  unfold Extent.Ahead Extent.left at hahead
  unfold Extent.size at hsmall ⊢
  push_cast
  linarith

theorem steps_so_far_le (hahead : v.Ahead k) : k * v.step ≤ 2 * v.size := by
  have hsteps := h.steps_le hahead
  push_cast at hsteps
  linarith [h.step_pos]

/-- **A step that does not land** leaves more than the tolerance, up to roundings. -/
theorem ahead_of_not_lands (ht : v.Follows k t) (hahead : v.Ahead k)
    (hlands : (Grid.of t0 tEnd stepSize).lands t = false) : v.Ahead (k + 1) := by
  obtain ⟨q, hq, hqnear⟩ := h.landing_value ht (h.steps_so_far_le hahead)
  obtain ⟨τ, hτ, hτnear⟩ := h.tolerance_value
  have hlt : τ < q := not_le.mp fun hle => by
    have htrue : (Grid.of t0 tEnd stepSize).lands t = true := (Binary.le_iff_value hq hτ).mpr hle
    rw [hlands] at htrue
    cases htrue
  rw [abs_le] at hqnear hτnear
  unfold Extent.Ahead
  linarith

/-- **A loop that is over** has no more left than the tolerance, up to roundings. -/
theorem grazes_of_closed (ht : v.Follows k t) (hahead : v.Ahead k)
    (hclosed : (Grid.of t0 tEnd stepSize).isOpen t = false) : v.Grazes k := by
  have hrounding := h.rounding_pos
  obtain ⟨r, hr, -, hrnear⟩ := h.remaining_value ht (h.steps_so_far_le hahead)
  obtain ⟨τ, hτ, hτnear⟩ := h.tolerance_value
  have hway := h.value_direction_mul hr
  have hle : v.way * r ≤ τ := not_lt.mp fun hlt => by
    have htrue : (Grid.of t0 tEnd stepSize).isOpen t = true :=
      (Binary.lt_iff_value hτ hway).mpr hlt
    rw [hclosed] at htrue
    cases htrue
  rw [abs_le] at hrnear hτnear
  unfold Extent.Ahead at hahead
  unfold Extent.Grazes
  rw [abs_le]
  constructor <;> linarith

/-- The end of the domain is finite. -/
theorem isFinite_end : Scalar.isFinite tEnd = true :=
  (Binary.isFinite_iff tEnd).mpr ⟨v.tEnd, Binary.level_of_value h.tEnd⟩

end Grid.Reads

/-! ## Along a run -/

namespace Journey.Trail

variable {σ : Type} [State Float σ] {plan : Plan Float σ} {y0 : σ} {t0 tEnd stepSize : Float}
  {v : Extent} {n : ℕ} {p : Point Float σ} {earlier : List (Point Float σ)}

/-- **Until it lands, a run follows the grid**, and its last step did not land. -/
theorem follows (hgrid : plan.grid = Grid.of t0 tEnd stepSize)
    (hreads : Grid.Reads t0 tEnd stepSize v) (hstart : v.Ahead 0) (h : Trail plan y0 n p earlier) :
    p.t = tEnd ∨ v.Follows n p.t ∧ v.Ahead n := by
  induction h with
  | @first p hat =>
    refine Or.inr ⟨⟨v.t0, ?_, ?_⟩, hstart⟩
    · rw [(Point.at?_eq_ok.mp hat).1, hgrid]
      exact hreads.t0
    · have htime : v.time 0 = v.t0 := by
        unfold Extent.time
        rw [Nat.cast_zero, zero_mul, add_zero]
      rw [htime, sub_self, abs_zero]
      exact mul_nonneg (by norm_num) hreads.rounding_pos.le
  | @step n p q earlier _ hopen hnext ih =>
    rcases ih with hend | ⟨hp, hahead⟩
    · -- there is no step from the end
      rw [hend, hgrid, Grid.isOpen_tEnd hreads.isFinite_end] at hopen
      cases hopen
    · obtain ⟨-, htime, -, -⟩ := Point.next_eq_ok.mp hnext
      rw [hgrid] at htime
      rcases Grid.timeAfter_eq_ok.mp htime with ⟨-, hend⟩ | ⟨hlands, r, hr, hq⟩
      · exact Or.inl hend
      · refine Or.inr ⟨?_, hreads.ahead_of_not_lands hp hahead hlands⟩
        rw [hq]
        exact hreads.time_follows (hreads.steps_le hahead) hr

/-- **A run that is over** has landed, or what its steps leave grazes the tolerance. -/
theorem lands_or_grazes (hgrid : plan.grid = Grid.of t0 tEnd stepSize)
    (hreads : Grid.Reads t0 tEnd stepSize v) (hstart : v.Ahead 0) (h : Trail plan y0 n p earlier)
    (hclosed : plan.grid.isOpen p.t = false) : p.t = tEnd ∨ v.Grazes n := by
  rcases h.follows hgrid hreads hstart with hend | ⟨hp, hahead⟩
  · exact Or.inl hend
  · rw [hgrid] at hclosed
    exact Or.inr (hreads.grazes_of_closed hp hahead hclosed)

end Journey.Trail

/-! ## Acceptance -/

namespace Number

/-- A number is its real value up to rounding. -/
theorem level_near {a : Number Float} {x : Float} {q : ℚ} (ha : a.toReal = .ok x)
    (hx : value? x = some q) :
    ∃ g, a.level = some (Level.exact g) ∧ |g - q| ≤ 2 ^ (-51 : ℤ) * |q| := by
  cases a with
  | real y =>
    obtain rfl := ok_eq_ok.mp ha
    refine ⟨q, Binary.level_of_value hx, ?_⟩
    rw [sub_self, abs_zero]
    positivity
  | whole n =>
    obtain ⟨c, hc, hnear, -⟩ := Binary.value_whole (ofInt?_of_toReal ha)
    obtain rfl : c = q := Option.some.inj (hc.symm.trans hx)
    refine ⟨n, rfl, ?_⟩
    unfold Near at hnear
    have hle : |(n : ℚ)| ≤ 2 * |c| := by
      have htriangle := abs_sub_abs_le_abs_sub (n : ℚ) c
      rw [abs_sub_comm] at htriangle
      have hsmall : 2 ^ (-52 : ℤ) * |(n : ℚ)| ≤ 1 / 2 * |(n : ℚ)| :=
        mul_le_mul_of_nonneg_right (by norm_num) (abs_nonneg _)
      linarith only [htriangle.trans (hnear.trans hsmall)]
    rw [abs_sub_comm]
    calc |c - n| ≤ 2 ^ (-52 : ℤ) * |(n : ℚ)| := hnear
      _ ≤ 2 ^ (-52 : ℤ) * (2 * |c|) := mul_le_mul_of_nonneg_left hle (by positivity)
      _ = 2 ^ (-51 : ℤ) * |c| := by
        rw [← mul_assoc]
        norm_num

theorem level_magnitude {a : Number Float} {g : ℚ} (h : a.level = some (Level.exact g)) :
    a.magnitude.level = some (Level.exact |g|) := by
  cases a with
  | real x => exact Scalar.Ordered.level_magnitude x g h
  | whole n =>
    have hg : (n : ℚ) = g := by simpa [level, Level.exact] using h
    rw [← hg]
    show some (Level.exact ((n.natAbs : ℤ) : ℚ)) = some (Level.exact |(n : ℚ)|)
    rw [Int.natCast_natAbs, Int.cast_abs]

end Number

namespace Grid.Reads

variable {t0 tEnd stepSize : Float} {v : Extent} (h : Reads t0 tEnd stepSize v)

include h

/-- The length of a domain as it was given is the one in machine reals up to roundings. -/
theorem length_near {a b length : Number Float} (ha : a.toReal = .ok t0) (hb : b.toReal = .ok tEnd)
    (hlength : b.sub a = .ok length) :
    ∃ g, length.level = some (Level.exact g) ∧ |g - (v.tEnd - v.t0)| ≤ 2 * v.rounding := by
  have hsize := h.size_pos
  have hrounding := h.rounding_pos
  obtain ⟨h0, hEnd⟩ := h.abs_ends
  have hends : |v.t0| + |v.tEnd| ≤ v.size := by
    unfold Extent.size
    linarith [h.step_pos]
  have hreal : length = .real (tEnd - t0) →
      ∃ g, length.level = some (Level.exact g) ∧ |g - (v.tEnd - v.t0)| ≤ 2 * v.rounding := by
    rintro rfl
    have hdifference : |v.tEnd - v.t0| ≤ 1 * v.size := by
      have htriangle := abs_sub v.tEnd v.t0
      linarith
    obtain ⟨g, hg, herror⟩ := h.sub_value h.tEnd h.t0 (by norm_num) hdifference
    exact ⟨g, Binary.level_of_value hg, by linarith⟩
  have hmixed : (do return .real ((← b.toReal) - (← a.toReal)) : Except Foreign (Number Float)) =
      .ok length → length = .real (tEnd - t0) := by
    intro heq
    rw [hb, ha] at heq
    exact (pure_eq_ok.mp heq).symm
  cases a with
  | real x => cases b <;> exact hreal (hmixed hlength)
  | whole m =>
    cases b with
    | real y => exact hreal (hmixed hlength)
    | whole n =>
      obtain rfl := ok_eq_ok.mp hlength
      obtain ⟨g, hg, hgnear⟩ := Number.level_near ha h.t0
      obtain ⟨g', hg', hgnear'⟩ := Number.level_near hb h.tEnd
      have hm : (m : ℚ) = g := by simpa [Number.level, Level.exact] using hg
      have hn : (n : ℚ) = g' := by simpa [Number.level, Level.exact] using hg'
      -- whole ends are subtracted exactly, so only reading them as machine reals rounds
      refine ⟨((n - m : ℤ) : ℚ), rfl, ?_⟩
      have heq : ((n - m : ℤ) : ℚ) - (v.tEnd - v.t0) = (g' - v.tEnd) - (g - v.t0) := by
        rw [Int.cast_sub, hm, hn]
        ring
      rw [heq]
      calc |g' - v.tEnd - (g - v.t0)| ≤ |g' - v.tEnd| + |g - v.t0| := abs_sub _ _
        _ ≤ 2 ^ (-51 : ℤ) * (|v.t0| + |v.tEnd|) := by rw [mul_add]; linarith
        _ ≤ 2 * v.rounding := v.two_roundings hends

/-- **An accepted step is no longer than the domain**, up to roundings. -/
theorem step_le_of_bounds {c : Config Float} {a b s : Number Float} (ha : a.toReal = .ok t0)
    (hb : b.toReal = .ok tEnd) (hs : s.toReal = .ok stepSize)
    (hbounds : Settings.checkBounds c a b s = .ok none) : v.step ≤ v.left 0 + 4 * v.rounding := by
  have hpos := h.step_pos
  obtain ⟨length, hlength, -, hlt, -⟩ := Settings.checkBounds_passes hbounds
  obtain ⟨g, hg, hgnear⟩ := h.length_near ha hb hlength
  obtain ⟨u, hu, hunear⟩ := Number.level_near hs h.step
  -- the rule compares what was given, which is near what is computed with
  have hle : u ≤ |g| := not_lt.mp fun hgu => by
    have htrue : length.magnitude.lt s = true :=
      Number.lt_iff.mpr ⟨_, _, Number.level_magnitude hg, hu, Level.exact_lt_exact.mpr hgu⟩
    rw [hlt] at htrue
    cases htrue
  have hstep : v.step - 2 * v.rounding ≤ u := by
    rw [abs_of_pos hpos] at hunear
    have hsmall := v.two_roundings v.step_le_size
    rw [abs_le] at hunear
    linarith
  have htriangle := abs_sub_abs_le_abs_sub g (v.tEnd - v.t0)
  unfold Extent.left
  rw [Nat.cast_zero, zero_mul, sub_zero]
  linarith

/-- A step that is no longer than the domain starts ahead of the end. -/
theorem ahead_of_step_le (hstep : v.step ≤ v.left 0 + 4 * v.rounding) : v.Ahead 0 := by
  have htolerance : v.tolerance ≤ v.step := mul_le_of_le_one_left h.step_pos.le (by norm_num)
  unfold Extent.Ahead
  linarith [h.rounding_pos]

section

variable {σ : Type} {c : Config Float} {options : Value Float} {a b s : Parameter Float}
  {judge : Number Float → Number Float → Number Float → Except Foreign (Advice Float)}
  {settings : Settings Float σ} {warnings : List String}
  (hpassed : Settings.Passed c options a b s judge settings warnings)
  (ha : (options.option "t0").parameter? = .ok (some a))
  (hb : (options.option "t_end").parameter? = .ok (some b))
  (hs : (options.option "step_size").parameter? = .ok (some s))
  (ht0 : (options.option "t0").toReal = .ok t0) (htEnd : (options.option "t_end").toReal = .ok tEnd)
  (hstep : (options.option "step_size").toReal = .ok stepSize)

include h hpassed ha hb hs ht0 htEnd hstep

/-- Settings that keep the shared rules have a step that is no longer than the domain. -/
theorem step_le_of_passed :
    Grid.of settings.t0 settings.tEnd settings.stepSize = Grid.of t0 tEnd stepSize ∧
      v.step ≤ v.left 0 + 4 * v.rounding := by
  have hreal : ∀ {w : Value Float} {p : Parameter Float} {x : Float},
      w.parameter? = .ok (some p) → w.toReal = .ok x → p.real = x := by
    intro w p x hp hx
    exact ok_eq_ok.mp ((Value.toReal_of_parameter? hp).1.symm.trans hx)
  have hgiven : ∀ {w : Value Float} {p : Parameter Float}, w.parameter? = .ok (some p) →
      p.given.toReal = .ok p.real := fun hp => (Value.parameter?_eq_some.mp hp).2.1
  rw [hpassed.t0, hpassed.tEnd, hpassed.stepSize, hreal ha ht0, hreal hb htEnd, hreal hs hstep]
  refine ⟨rfl, h.step_le_of_bounds (a := a.given) (b := b.given) (s := s.given) ?_ ?_ ?_
    hpassed.bounds⟩
  · rw [hgiven ha, hreal ha ht0]
  · rw [hgiven hb, hreal hb htEnd]
  · rw [hgiven hs, hreal hs hstep]

/-- Settings that keep the shared rules start ahead of the end. -/
theorem starts :
    Grid.of settings.t0 settings.tEnd settings.stepSize = Grid.of t0 tEnd stepSize ∧ v.Ahead 0 :=
  (h.step_le_of_passed hpassed ha hb hs ht0 htEnd hstep).imp_right h.ahead_of_step_le

end

end Grid.Reads

/-! ## Whole calls -/

/-- The last point of a successful call is at the end, or what its steps leave grazes the tolerance,
    if accepted options always start ahead of the end. -/
theorem Solver.lands_or_grazes {σ : Type} [State Float σ] {s : Solver Float σ} {f : RightSide Float}
    {options : Value Float} {o : Outcome Float σ} {t0 tEnd stepSize : Float} {v : Extent}
    (hreads : Grid.Reads t0 tEnd stepSize v) (hstart : ∀ settings warnings,
      s.form.check s.config options = .ok ⟨.ok settings, warnings⟩ →
        Grid.of settings.t0 settings.tEnd settings.stepSize = Grid.of t0 tEnd stepSize ∧ v.Ahead 0)
    (h : s.solveWith f options = .ok o) (hs : o.solution.success = true) :
    ∃ p, o.solution.points.getLast? = some p ∧
      (p.t = tEnd ∨ v.Grazes (o.solution.points.length - 1)) := by
  obtain ⟨settings, warnings, method, j, hcheck, -, htrail, hclosed, -, rfl⟩ :=
    solveWith_success h hs
  obtain ⟨hgrid, hahead⟩ := hstart _ _ hcheck
  have hpoints : j.points.length - 1 = j.steps := by
    show (j.last :: j.earlier).reverse.length - 1 = j.steps
    rw [htrail.count_points, Nat.add_sub_cancel]
  refine ⟨j.last, ?_, ?_⟩
  · show (j.last :: j.earlier).reverse.getLast? = some j.last
    rw [List.reverse_cons, List.getLast?_concat]
  · show _ ∨ v.Grazes (j.points.length - 1)
    rw [hpoints]
    exact htrail.lands_or_grazes hgrid hreads hahead hclosed

/-- **A successful call ends on the end exactly**, for single equations and for coupled systems,
    whatever the configuration, the method and the right-hand side: the last time is the end of the
    domain to the last bit.  The domain is neither huge nor tiny, and no number of whole steps leaves
    something that is within roundings of the tolerance. -/
theorem solve_lands (c : Config Float) (f : RightSide Float) (options : Value Float)
    {t0 tEnd stepSize : Float} {v : Extent} (ht0 : (options.option "t0").toReal = .ok t0)
    (htEnd : (options.option "t_end").toReal = .ok tEnd)
    (hstep : (options.option "step_size").toReal = .ok stepSize)
    (hreads : Grid.Reads t0 tEnd stepSize v) (hclear : ∀ k, ¬ v.Grazes k) :
    (∀ o : Outcome Float Float, (⟨.single, c⟩ : Solver Float Float).solveWith f options = .ok o →
      o.solution.success = true → ∃ p, o.solution.points.getLast? = some p ∧ p.t = tEnd) ∧
    (∀ o : Outcome Float (List Float),
      (⟨.coupled, c⟩ : Solver Float (List Float)).solveWith f options = .ok o →
      o.solution.success = true → ∃ p, o.solution.points.getLast? = some p ∧ p.t = tEnd) := by
  constructor
  · intro o h hs
    obtain ⟨p, hp, hend⟩ := Solver.lands_or_grazes hreads (fun settings warnings hcheck => by
      obtain ⟨a, _, b, s, -, ha, -, hb, hs', -, -, hpassed⟩ := Settings.single_accepts.mp hcheck
      exact hreads.starts hpassed ha hb hs' ht0 htEnd hstep) h hs
    exact ⟨p, hp, hend.resolve_right (hclear _)⟩
  · intro o h hs
    obtain ⟨p, hp, hend⟩ := Solver.lands_or_grazes hreads (fun settings warnings hcheck => by
      obtain ⟨a, b, s, _, _, -, ha, hb, hs', -, -, -, -, -, hpassed⟩ :=
        Settings.coupled_accepts.mp hcheck
      exact hreads.starts hpassed ha hb hs' ht0 htEnd hstep) h hs
    exact ⟨p, hp, hend.resolve_right (hclear _)⟩

/-- The exact values of `tenths`. -/
def tenthsExtent : Extent := ⟨0, 1, 3602879701896397 * 2 ^ (-55 : ℤ)⟩

theorem reads_tenths : Grid.Reads 0.0 1.0 0.1 tenthsExtent := by
  refine ⟨by decide +kernel, by decide +kernel, by decide +kernel, ?_, ?_⟩
  · calc tenthsExtent.size ≤ 2 ^ (1 : ℤ) := by
          unfold Extent.size tenthsExtent
          norm_num
      _ ≤ 2 ^ (1000 : ℤ) := zpow_le_zpow_right₀ (by norm_num) (by norm_num)
  · calc (2 : ℚ) ^ (-1000 : ℤ) ≤ 2 ^ (-4 : ℤ) := zpow_le_zpow_right₀ (by norm_num) (by norm_num)
      _ ≤ tenthsExtent.step := by
          unfold tenthsExtent
          norm_num

/-- Ten steps of a tenth leave hardly anything, nine leave a whole step and eleven go beyond. -/
theorem not_grazes_tenths (k : ℕ) : ¬ tenthsExtent.Grazes k := by
  have hrounding : 24 * tenthsExtent.rounding < 1e-11 := by
    unfold Extent.rounding Extent.size tenthsExtent
    norm_num
  have htolerance : 1e-11 < tenthsExtent.tolerance ∧ tenthsExtent.tolerance < 1e-9 := by
    unfold Extent.tolerance tenthsExtent
    constructor <;> norm_num
  have hleft : tenthsExtent.left k = 1 - k * (3602879701896397 * 2 ^ (-55 : ℤ)) := by
    unfold Extent.left tenthsExtent
    rw [sub_zero, abs_one]
  have hstep : (0 : ℚ) < 3602879701896397 * 2 ^ (-55 : ℤ) := by positivity
  unfold Extent.Grazes
  rw [hleft, abs_le]
  rintro ⟨hlow, hhigh⟩
  rcases lt_trichotomy k 10 with hk | rfl | hk
  · have hle : (k : ℚ) ≤ 9 := by exact_mod_cast Nat.lt_succ_iff.mp hk
    have hsteps := mul_le_mul_of_nonneg_right hle hstep.le
    norm_num at *
    linarith
  · norm_num at *
    linarith
  · have hle : (11 : ℚ) ≤ k := by exact_mod_cast hk
    have hsteps := mul_le_mul_of_nonneg_right hle hstep.le
    norm_num at *
    linarith

/-- From zero to one in tenths: both calls succeed and end at one. -/
theorem solve_lands_tenths :
    (∃ o, (⟨.single, .standard⟩ : Solver Float Float).solveWith growth (tenths (.real 1.0)) = .ok o ∧
      o.solution.success = true ∧ ∃ p, o.solution.points.getLast? = some p ∧ p.t = 1.0) ∧
    (∃ o, (⟨.coupled, .standard⟩ : Solver Float (List Float)).solveWith growth
        (tenths (.list [.real 1.0, .real 2.0])) = .ok o ∧
      o.solution.success = true ∧ ∃ p, o.solution.points.getLast? = some p ∧ p.t = 1.0) := by
  constructor
  · have hrun : (((⟨.single, .standard⟩ : Solver Float Float).solveWith growth
        (tenths (.real 1.0))).toOption.any (·.solution.success)) = true := by decide +kernel
    obtain ⟨o, ho, hs⟩ := exists_ok hrun
    exact ⟨o, ho, hs, (solve_lands .standard growth (tenths (.real 1.0)) rfl rfl rfl
      reads_tenths not_grazes_tenths).1 o ho hs⟩
  · have hrun : (((⟨.coupled, .standard⟩ : Solver Float (List Float)).solveWith growth
        (tenths (.list [.real 1.0, .real 2.0]))).toOption.any (·.solution.success)) = true := by
      decide +kernel
    obtain ⟨o, ho, hs⟩ := exists_ok hrun
    exact ⟨o, ho, hs, (solve_lands .standard growth (tenths (.list [.real 1.0, .real 2.0]))
      rfl rfl rfl reads_tenths not_grazes_tenths).2 o ho hs⟩

/-- A domain that is fourteen tenths and a billionth of a step long. -/
def longTenths : Value Float := .record [("t0", .real 1.0), ("y0", .real 1.0),
  ("t_end", .real 2.4000000001), ("step_size", .real 0.1), ("method", .key .euler)]

/-- **An end that is missed**: after fourteen steps less than the tolerance is left, but before the
    last of them it looked like more.  The call succeeds, and its last time is 2.4000000000000004. -/
theorem end_missed : ¬ ∀ (fields : List (String × Value Float)) (c : Config Float)
    (f : RightSide Float) (options : Value Float) (t0 tEnd step : Float) (o : Outcome Float Float),
      Config.ofFields fields = .ok c → options.option "t0" = .real t0 →
      options.option "t_end" = .real tEnd → options.option "step_size" = .real step →
      (⟨.single, c⟩ : Solver Float Float).solveWith f options = .ok o → o.solution.success = true →
      ∃ p, o.solution.points.getLast? = some p ∧ p.t.toBits = tEnd.toBits := by
  intro h
  have hrun : (((⟨.single, .standard⟩ : Solver Float Float).solveWith (.constant (.real 0.0))
      longTenths).toOption.any fun o => o.solution.success &&
        o.solution.points.getLast?.all fun p => p.t.toBits != (2.4000000001 : Float).toBits) =
        true := by decide +kernel
  obtain ⟨o, ho, hmissed⟩ := exists_ok hrun
  rw [Bool.and_eq_true] at hmissed
  obtain ⟨p, hp, hbits⟩ := h [] .standard (.constant (.real 0.0)) longTenths 1.0 2.4000000001 0.1 o
    rfl rfl rfl rfl ho hmissed.1
  rw [hp, Option.all_some, hbits, bne_self_eq_false] at hmissed
  exact Bool.false_ne_true hmissed.2

end InitialValue
