/-
  Time as a component of the state.

  Over the exact rationals the times of a run are those that the lengths of its steps add up to, the
  last step included.  So a clock among the components, with the derivative one, shows the time of
  every point, and a system that takes its time from the clock has the same run beside it.

  1. **Right-hand sides** — `RightSide.autonomous` takes the time of a right-hand side from the
     first component of the state.
  2. **Runs** — `Journey.Clocks.trail_eq`: after equally many steps both runs are at the same point,
     up to the clock.  A grid is open by the time alone, so the runs are equally long
     (`Journey.Clocks.points_eq`).
  3. **Whole calls** — `solve_autonomous`.
-/
import InitialValue.Proofs.Method.Autonomous
import InitialValue.Proofs.RightSide
import InitialValue.Proofs.Solver.Calls
import InitialValue.Proofs.Solver.ExactGrid
import InitialValue.Proofs.Solver.ExactOptions

namespace InitialValue

/-! ## Right-hand sides -/

namespace RightSide

/-- The right-hand side without a time of its own: the first component of the state is the time, and
    its derivative is one. -/
def autonomous (F : RightSide ℚ) : RightSide ℚ := fun _ y =>
  match y with
  | .list (.real x :: ys) => do
    let v ← F x (.list ys)
    return .list ((1 :: (← Fault.lift v.flatten).2).map .real)
  | _ => .error (.foreign .wrongType)

theorem vectorSlope_autonomous {F : RightSide ℚ} {x : ℚ} {y k : List ℚ}
    (h : F.vectorSlope x y = .ok k) (s : ℚ) : (autonomous F).vectorSlope s (x :: y) = .ok (1 :: k) := by
  obtain ⟨v, hv, h⟩ := bind_eq_ok.mp h
  obtain ⟨⟨shape, entries⟩, hflat, h⟩ := bind_eq_ok.mp h
  obtain rfl : entries = k := ok_eq_ok.mp h
  have hpack : (Fault.lift v.flatten >>= fun p => .ok (.list ((1 :: p.2).map .real))) =
      (.ok (.list ((1 :: entries).map .real)) : Except Fault (Value ℚ)) :=
    bind_eq_ok.mpr ⟨(shape, entries), hflat, rfl⟩
  exact vectorSlope_of_list (bind_eq_ok.mpr ⟨v, hv, hpack⟩)

/-- Slopes of the right number of components, with a clock among them. -/
theorem clocked_vectorSlopeOf {F G : RightSide ℚ}
    (hG : ∀ s x y k, F.vectorSlope x y = .ok k → G.vectorSlope s (x :: y) = .ok (1 :: k)) (n : ℕ) :
    Clocked n (F.vectorSlopeOf n) (G.vectorSlopeOf (n + 1)) := by
  intro s x y k _ hk
  obtain ⟨hk, hlength⟩ := vectorSlopeOf_eq_ok.mp hk
  refine ⟨hlength, vectorSlopeOf_eq_ok.mpr ⟨hG s x y k hk, ?_⟩⟩
  rw [List.length_cons, hlength]

end RightSide

/-! ## Runs -/

/-- The point of a system with a clock. -/
def Point.clocked (p : Point ℚ (List ℚ)) : Point ℚ (List ℚ) := ⟨p.t, p.t :: p.y, 1 :: p.slope⟩

theorem Point.eq_clocked {p p' : Point ℚ (List ℚ)} (ht : p'.t = p.t) (hy : p'.y = p.t :: p.y)
    (hslope : p'.slope = 1 :: p.slope) : p' = p.clocked := by
  obtain ⟨t', y', slope'⟩ := p'
  subst ht hy hslope
  rfl

namespace Journey

/-- Plans on one grid, the second of a system with a clock. -/
structure Clocks (n : ℕ) (t0 tEnd s : ℚ) (a b : Plan ℚ (List ℚ)) : Prop where
  grid : a.grid = Grid.of t0 tEnd s
  grid' : b.grid = a.grid
  positive : 0 < s
  fits : s ≤ |tEnd - t0|
  step : ∃ key : MethodKey, a.step = key.step ∧ b.step = key.step
  slope : Clocked n a.slope b.slope

namespace Clocks

variable {n m m' : ℕ} {t0 tEnd s : ℚ} {a b : Plan ℚ (List ℚ)} {y0 : List ℚ}
  {p p' : Point ℚ (List ℚ)} {earlier earlier' : List (Point ℚ (List ℚ))}

theorem first_eq (h : Clocks n t0 tEnd s a b) (hy0 : y0.length = n)
    (hp : Point.at? a.slope a.grid.t0 y0 = .ok p)
    (hp' : Point.at? b.slope b.grid.t0 (a.grid.t0 :: y0) = .ok p') :
    p.y.length = n ∧ p' = p.clocked := by
  obtain ⟨ht, hy, hslope, -⟩ := Point.at?_eq_ok.mp hp
  obtain ⟨ht', hy', hslope', -⟩ := Point.at?_eq_ok.mp hp'
  obtain ⟨-, hclock⟩ := h.slope b.grid.t0 _ _ _ hy0 hslope
  refine ⟨hy ▸ hy0, Point.eq_clocked ?_ ?_ (ok_eq_ok.mp (hslope'.symm.trans hclock))⟩
  · rw [ht', ht, h.grid']
  · rw [hy', ht, hy]

/-- **One step with a clock**: the new time is the old one and the length of the step. -/
theorem next_eq (h : Clocks n t0 tEnd s a b) (hy : p.y.length = n) {q q' : Point ℚ (List ℚ)} {k : ℕ}
    (hlength : a.grid.stepFrom p.t = q.t - p.t)
    (hq : p.next a.grid a.step a.threshold a.slope k = .ok q)
    (hq' : p.clocked.next b.grid b.step b.threshold b.slope k = .ok q') :
    q.y.length = n ∧ q' = q.clocked := by
  obtain ⟨key, ha, hb⟩ := h.step
  obtain ⟨hstep, htime, -, hat⟩ := Point.next_eq_ok.mp hq
  obtain ⟨hstep', htime', -, hat'⟩ := Point.next_eq_ok.mp hq'
  obtain ⟨-, -, hslope, -⟩ := Point.at?_eq_ok.mp hat
  obtain ⟨-, -, hslope', -⟩ := Point.at?_eq_ok.mp hat'
  rw [h.grid'] at hstep' htime'
  have ht : q'.t = q.t := ok_eq_ok.mp (htime'.symm.trans htime)
  -- the step of the system with a clock is determined by the one without
  rw [ha, ← map_snd_eq_ok, hlength] at hstep
  rw [hb, ← map_snd_eq_ok] at hstep'
  obtain ⟨hq, hclock⟩ := MethodKey.step_clocked h.slope hy hstep p.t
  have hy' : q'.y = q.t :: q.y := by
    rw [show p.clocked.t = p.t from rfl, hlength] at hstep'
    rw [add_sub_cancel] at hclock
    exact ok_eq_ok.mp (hstep'.symm.trans hclock)
  obtain ⟨-, hslopes⟩ := h.slope q.t q.t q.y _ hq hslope
  rw [ht, hy'] at hslope'
  exact ⟨hq, Point.eq_clocked ht hy' (ok_eq_ok.mp (hslope'.symm.trans hslopes))⟩

/-- **Runs with and without a clock** are at the same point after equally many steps. -/
theorem trail_eq (h : Clocks n t0 tEnd s a b) (hy0 : y0.length = n) (ha : Trail a y0 m p earlier)
    (hb : Trail b (a.grid.t0 :: y0) m p' earlier') :
    p.y.length = n ∧ p' = p.clocked ∧ earlier' = earlier.map .clocked := by
  induction ha generalizing p' earlier' with
  | first hat =>
    cases hb with
    | first hat' =>
      obtain ⟨hlength, heq⟩ := h.first_eq hy0 hat hat'
      exact ⟨hlength, heq, rfl⟩
  | step htrail hopen hnext ih =>
    cases hb with
    | step htrail' hopen' hnext' =>
      obtain ⟨hlength, rfl, rfl⟩ := ih htrail'
      obtain ⟨hlength', heq⟩ :=
        h.next_eq hlength (htrail.stepFrom_eq h.grid h.positive h.fits hopen hnext) hnext hnext'
      exact ⟨hlength', heq, rfl⟩

/-- **Runs that arrive** have the same points, up to the clock. -/
theorem points_eq (h : Clocks n t0 tEnd s a b) (hy0 : y0.length = n) (ha : Trail a y0 m p earlier)
    (hclosed : a.grid.isOpen p.t = false) (hb : Trail b (a.grid.t0 :: y0) m' p' earlier')
    (hclosed' : b.grid.isOpen p'.t = false) :
    (p' :: earlier').reverse = (p :: earlier).reverse.map .clocked := by
  have hsteps : m = m' := by
    rcases Nat.lt_trichotomy m m' with hlt | heq | hgt
    · -- the run with a clock would go on from a time that is closed
      obtain ⟨q, before, hq, hpoints⟩ := hb.take hlt.le
      obtain ⟨-, rfl, -⟩ := h.trail_eq hy0 ha hq
      have hlast := hq.last_point
      rw [hpoints, List.getElem?_take_of_lt (Nat.lt_succ_self m)] at hlast
      have hcount := hb.last_of_closed hlast (by rw [h.grid']; exact hclosed)
      rw [hb.count_points] at hcount
      omega
    · exact heq
    · obtain ⟨q, before, hq, hpoints⟩ := ha.take hgt.le
      obtain ⟨-, rfl, -⟩ := h.trail_eq hy0 hq hb
      have hlast := hq.last_point
      rw [hpoints, List.getElem?_take_of_lt (Nat.lt_succ_self m')] at hlast
      rw [h.grid'] at hclosed'
      have hcount := ha.last_of_closed hlast hclosed'
      rw [ha.count_points] at hcount
      omega
  subst hsteps
  obtain ⟨-, rfl, rfl⟩ := h.trail_eq hy0 ha hb
  rw [← List.map_cons, List.map_reverse]

end Clocks

end Journey

/-! ## Whole calls -/

/-- Accepted options with the start of the domain in front of the initial state, other options being
    of the same domain and step. -/
theorem Settings.coupled_clocked {c c' : Config ℚ} {options options' : Value ℚ}
    {items : List (Value ℚ)} {w w' : List String} {a b : Settings ℚ (List ℚ)}
    (hsame : ∀ name ∈ ["t0", "t_end", "step_size"], options'.option name = options.option name)
    (hitems : options.option "y0" = .list items)
    (hitems' : options'.option "y0" = .list (options.option "t0" :: items))
    (ha : coupled c options = .ok ⟨.ok a, w⟩) (hb : coupled c' options' = .ok ⟨.ok b, w'⟩) :
    b.t0 = a.t0 ∧ b.tEnd = a.tEnd ∧ b.stepSize = a.stepSize ∧ b.y0 = a.t0 :: a.y0 := by
  obtain ⟨t0, tEnd, step, items1, y0, -, ht0, htEnd, hstep, hrow, -, hy0, -, hy, hpassed⟩ :=
    coupled_accepts.mp ha
  obtain ⟨t0', tEnd', step', items2, y0', -, ht0', htEnd', hstep', hrow', -, hy0', -, hy', hpassed'⟩ :=
    coupled_accepts.mp hb
  rw [hsame _ (by simp), ht0] at ht0'
  rw [hsame _ (by simp), htEnd] at htEnd'
  rw [hsame _ (by simp), hstep] at hstep'
  cases ht0'
  cases htEnd'
  cases hstep'
  obtain rfl : items = items1 := Value.list.inj (hitems.symm.trans (row?_eq_some.mp hrow).1)
  obtain rfl : options.option "t0" :: items = items2 :=
    Value.list.inj (hitems'.symm.trans (row?_eq_some.mp hrow').1)
  rw [Value.parameters?_eq_some] at hy0 hy0'
  cases hy0' with
  | @cons _ p _ ps hp hps =>
    cases ht0.symm.trans hp
    obtain rfl : y0 = ps := by
      rw [← Value.parameters?_eq_some] at hy0 hps
      exact Option.some.inj (ok_eq_ok.mp (hy0.symm.trans hps))
    refine ⟨?_, ?_, ?_, ?_⟩
    · rw [hpassed'.t0, hpassed.t0]
    · rw [hpassed'.tEnd, hpassed.tEnd]
    · rw [hpassed'.stepSize, hpassed.stepSize]
    · rw [hy', hy, hpassed.t0, List.map_cons]

/-- **Time can be made a component of the state.**  Let the slope of `G` be one and then that of `F`
    at the time that the first component shows.  When a call of `F` succeeds, and one of `G` that
    has the start of the domain in front of the initial state and is otherwise of the same domain,
    step size and method, then the points of `G` are those of `F` with the time in front of the
    state and one in front of the derivative: for any method, configurations and options. -/
theorem solve_autonomous {c c' : Config ℚ} {F G : RightSide ℚ}
    (hG : ∀ s x y k, F.vectorSlope x y = .ok k → G.vectorSlope s (x :: y) = .ok (1 :: k))
    {options options' : Value ℚ} {items : List (Value ℚ)}
    (hsame : ∀ name ∈ ["t0", "t_end", "step_size", "method"],
      options'.field? name = options.field? name)
    (hitems : options.option "y0" = .list items)
    (hitems' : options'.option "y0" = .list (options.option "t0" :: items))
    {points points' : List (Point ℚ (List ℚ))}
    (h : (⟨.coupled, c⟩ : Solver ℚ (List ℚ)).Succeeds F options points)
    (h' : (⟨.coupled, c'⟩ : Solver ℚ (List ℚ)).Succeeds G options' points') :
    points' = points.map fun p => ⟨p.t, p.t :: p.y, 1 :: p.slope⟩ := by
  obtain ⟨settings, _, method, _, p, earlier, hcheck, hfind, htrail, hclosed, rfl⟩ := h.arrival
  obtain ⟨settings', _, method', _, p', earlier', hcheck', hfind', htrail', hclosed', rfl⟩ :=
    h'.arrival
  have hmethod : Solution.requestedMethod options' = Solution.requestedMethod options := by
    unfold Solution.requestedMethod
    rw [hsame "method" (by simp)]
  rw [hmethod] at hfind'
  obtain rfl : method = method' := Option.some.inj (hfind.symm.trans hfind')
  have hfields : ∀ name ∈ ["t0", "t_end", "step_size"],
      options'.option name = options.option name := by
    intro name hname
    unfold Value.option
    rw [hsame name (List.mem_append_left ["method"] hname)]
  obtain ⟨ht0, htEnd, hstep, hy0⟩ :=
    Settings.coupled_clocked hfields hitems hitems' hcheck hcheck'
  obtain ⟨hs, hle⟩ := Settings.coupled_step hcheck
  -- the grids agree, and the slope with a clock is the one without
  have hclocks : Journey.Clocks settings.y0.length settings.t0 settings.tEnd settings.stepSize
      ((⟨.coupled, c⟩ : Solver ℚ (List ℚ)).plan F method settings)
      ((⟨.coupled, c'⟩ : Solver ℚ (List ℚ)).plan G method settings') := by
    refine ⟨rfl, ?_, hs, hle, ⟨method.key, rfl, rfl⟩, ?_⟩
    · show Grid.of settings'.t0 settings'.tEnd settings'.stepSize =
        Grid.of settings.t0 settings.tEnd settings.stepSize
      rw [ht0, htEnd, hstep]
    · show Clocked _ (F.vectorSlopeOf settings.y0.length) (G.vectorSlopeOf settings'.y0.length)
      rw [hy0, List.length_cons]
      exact RightSide.clocked_vectorSlopeOf hG _
  rw [hy0] at htrail'
  exact hclocks.points_eq rfl htrail hclosed htrail' hclosed'

/-- The right-hand side of `x' = t · y`, `y' = x - t`. -/
def swing : RightSide ℚ := fun t y =>
  match y with
  | .list [.real a, .real b] => .ok (.list [.real (t * b), .real (a - t)])
  | _ => .error (.foreign .wrongType)

theorem solve_autonomous_swing : ∃ points points' : List (Point ℚ (List ℚ)),
    lenientCoupled.Succeeds swing (.coarse 1 0 (.list [.whole 3, .whole 5]) .rk4) points ∧
      lenientCoupled.Succeeds swing.autonomous
        (.coarse 1 0 (.list [.whole 1, .whole 3, .whole 5]) .rk4) points' ∧
      points' = points.map fun p => ⟨p.t, p.t :: p.y, 1 :: p.slope⟩ := by
  obtain ⟨points, h⟩ := Solver.exists_succeeds lenientCoupled swing
    (.coarse 1 0 (.list [.whole 3, .whole 5]) .rk4) (by decide +kernel)
  obtain ⟨points', h'⟩ := Solver.exists_succeeds lenientCoupled swing.autonomous
    (.coarse 1 0 (.list [.whole 1, .whole 3, .whole 5]) .rk4) (by decide +kernel)
  have hsame : ∀ name ∈ ["t0", "t_end", "step_size", "method"],
      (Value.coarse 1 0 (.list [.whole 1, .whole 3, .whole 5]) .rk4).field? name =
        (Value.coarse 1 0 (.list [.whole 3, .whole 5]) .rk4).field? name := by
    intro name hname
    fin_cases hname <;> rfl
  exact ⟨points, points', h, h', solve_autonomous
    (fun s _ _ _ hk => RightSide.vectorSlope_autonomous hk s) hsame rfl rfl h h'⟩

end InitialValue
