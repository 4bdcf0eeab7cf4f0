/-
  Trails: the runs of the integration loop as a relation.

  `Journey.drive` is a loop with fuel.  What it does is said once, by the relation `Trail`: an
  initial point, and from there accepted steps, each taken while there is a way left to go.

  1. **One step** — `Point.next_eq_ok`, with `Grid.timeAfter_eq_ok`, `checkState_eq_ok` and
     `slopeAt_eq_ok`: everything an accepted step has to be.
  2. **Whole runs** — `Journey.start_ends`: wherever the loop ends, with success or with a halt,
     a trail leads up to it, and the halt says what was wrong there.
  3. **Induction** — `Trail.forall_kept`: what holds of the first point and is kept by every step
     holds of all points.
-/
import InitialValue.Proofs.Failing
import InitialValue.Solver.Trajectory

namespace InitialValue

variable {α σ : Type} [Scalar α] [State α σ]

/-! ## One step -/

/-- The time after a step is the end, where the step lands there, and the grid time otherwise. -/
theorem Grid.timeAfter_eq_ok {g : Grid α} {t t' : α} {k : Nat} :
    g.timeAfter t k = .ok t' ↔ g.lands t = true ∧ t' = g.tEnd ∨
      g.lands t = false ∧ ∃ r, (Number.whole k : Number α).toReal = .ok r ∧
        t' = g.t0 + r * g.h := by
  unfold timeAfter
  cases g.lands t with
  | true =>
    rw [if_pos rfl, ok_eq_ok]
    simp [eq_comm]
  | false =>
    rw [if_neg Bool.false_ne_true, bind_eq_ok]
    constructor
    · rintro ⟨r, hr, ht⟩
      exact Or.inr ⟨rfl, r, hr, (pure_eq_ok.mp ht).symm⟩
    · rintro (⟨hlands, -⟩ | ⟨-, r, hr, rfl⟩)
      · cases hlands
      · exact ⟨r, hr, rfl⟩

namespace Point

theorem checkState_eq_ok {threshold : Number α} {t : α} {y : σ} :
    checkState threshold t y = .ok () ↔
      Scalar.isFinite t = true ∧ State.isFinite α y = true ∧
        threshold.lt (.real (State.largest y)) = false := by
  unfold checkState
  cases ht : Scalar.isFinite t <;> cases hy : State.isFinite α y <;>
    cases hl : threshold.lt (.real (State.largest y)) <;>
    cases threshold.limitText <;>
    simp [bind, Except.bind, throw, throwThe, MonadExceptOf.throw, pure, Except.pure]

theorem slopeAt_eq_ok {f : Slope α σ} {t : α} {y k : σ} :
    slopeAt f t y = .ok k ↔ f t y = .ok k ∧ State.isFinite α k = true := by
  unfold slopeAt
  rw [bind_eq_ok]
  constructor
  · rintro ⟨k', hk', h⟩
    split at h
    · rename_i hfin
      cases h
      exact ⟨hk', hfin⟩
    · cases h
  · rintro ⟨hk, hfin⟩
    exact ⟨k, hk, by rw [if_pos hfin]; rfl⟩

theorem at?_eq_ok {f : Slope α σ} {t : α} {y : σ} {p : Point α σ} :
    at? f t y = .ok p ↔
      p.t = t ∧ p.y = y ∧ f t y = .ok p.slope ∧ State.isFinite α p.slope = true := by
  obtain ⟨t', y', k⟩ := p
  unfold at?
  rw [bind_eq_ok, ← slopeAt_eq_ok]
  constructor
  · rintro ⟨k', hk', h⟩
    cases h
    exact ⟨rfl, rfl, hk'⟩
  · rintro ⟨rfl, rfl, hk⟩
    exact ⟨k, hk, rfl⟩

/-- **An accepted step**: the formula answers with the new state, the grid with the new time, the
    state is finite and within bounds, and the derivative there is finite. -/
theorem next_eq_ok {g : Grid α} {step : Formula α σ} {threshold : Number α} {f : Slope α σ}
    {number : Nat} {p q : Point α σ} :
    p.next g step threshold f number = .ok q ↔
      (∃ t, step f p.t p.y (g.stepFrom p.t) = .ok (t, q.y)) ∧ g.timeAfter p.t number = .ok q.t ∧
        checkState threshold q.t q.y = .ok () ∧ at? f q.t q.y = .ok q := by
  unfold next
  rw [bind_eq_ok]
  constructor
  · rintro ⟨⟨t, y⟩, hstep, h⟩
    cases htime : g.timeAfter p.t number with
    | error e =>
      rw [htime] at h
      cases h
    | ok t' =>
      simp only [htime, bind_eq_ok] at h
      obtain ⟨_, hcheck, hat⟩ := h
      obtain ⟨rfl, rfl, -, -⟩ := at?_eq_ok.mp hat
      exact ⟨⟨t, hstep⟩, rfl, hcheck, hat⟩
  · rintro ⟨⟨t, hstep⟩, htime, hcheck, hat⟩
    refine ⟨(t, q.y), hstep, ?_⟩
    simp only [htime]
    exact bind_eq_ok.mpr ⟨(), hcheck, hat⟩

end Point

/-! ## Whole runs -/

/-- The record of a call that has accepted `n` steps. -/
def Run.integrating (n : Nat) : Run := ⟨.integrating, n, none⟩

theorem Run.recordStep_integrating (n : Nat) :
    (Run.integrating n).recordStep = .ok (Run.integrating (n + 1)) := rfl

namespace Journey

/-- `Trail plan y0 n p earlier` — from the initial state `y0`, `n` accepted steps lead to `p`
    through the points `earlier`, nearest first. -/
inductive Trail (plan : Plan α σ) (y0 : σ) : Nat → Point α σ → List (Point α σ) → Prop
  | first {p} : Point.at? plan.slope plan.grid.t0 y0 = .ok p → Trail plan y0 0 p []
  | step {n p q earlier} : Trail plan y0 n p earlier → plan.grid.isOpen p.t = true →
      p.next plan.grid plan.step plan.threshold plan.slope (n + 1) = .ok q →
      Trail plan y0 (n + 1) q (p :: earlier)

/-- How a run can end, with the record of the call at the end. -/
inductive Ends (plan : Plan α σ) (y0 : σ) : Run × Except Halt (Journey α σ) → Prop
  | arrived {j : Journey α σ} : Trail plan y0 j.steps j.last j.earlier →
      plan.grid.isOpen j.last.t = false → j.steps ≤ plan.cap → j.run = .integrating j.steps →
      Ends plan y0 (.integrating j.steps, .ok j)
  | noStart {cause} : Point.at? plan.slope plan.grid.t0 y0 = .error cause →
      Ends plan y0 (.integrating 0, .error (.atStep 0 cause))
  | refused {n p earlier cause} : Trail plan y0 n p earlier → plan.grid.isOpen p.t = true →
      p.next plan.grid plan.step plan.threshold plan.slope (n + 1) = .error cause →
      n < plan.cap → Ends plan y0 (.integrating n, .error (.atStep (n + 1) cause))
  | exhausted {p earlier} : Trail plan y0 plan.cap p earlier → plan.grid.isOpen p.t = true →
      Ends plan y0 (.integrating plan.cap, .error (.capReached plan.cap))

variable {plan : Plan α σ} {y0 : σ}

theorem next_refused {j : Journey α σ} {cause : Fault}
    (h : j.last.next plan.grid plan.step plan.threshold plan.slope (j.steps + 1) = .error cause) :
    j.next plan = .error (.atStep (j.steps + 1) cause) := by
  unfold next
  rw [h]

theorem next_accepted {j : Journey α σ} {q : Point α σ} (hrun : j.run = .integrating j.steps)
    (h : j.last.next plan.grid plan.step plan.threshold plan.slope (j.steps + 1) = .ok q) :
    j.next plan = .ok ⟨q, j.last :: j.earlier, j.steps + 1, .integrating (j.steps + 1)⟩ := by
  unfold next
  rw [h, hrun, Run.recordStep_integrating]

theorem drive_closed {n : Nat} {j : Journey α σ} (h : plan.grid.isOpen j.last.t = false) :
    drive plan n j = (j.run, .ok j) := by
  unfold drive
  rw [h, if_neg (by decide)]

theorem drive_zero {j : Journey α σ} (h : plan.grid.isOpen j.last.t = true) :
    drive plan 0 j = (j.run, .error (.capReached plan.cap)) := by
  unfold drive
  rw [if_pos h]

theorem drive_refused {n : Nat} {j : Journey α σ} {cause : Fault}
    (hopen : plan.grid.isOpen j.last.t = true)
    (hnext : j.last.next plan.grid plan.step plan.threshold plan.slope (j.steps + 1) =
      .error cause) :
    drive plan (n + 1) j = (j.run, .error (.atStep (j.steps + 1) cause)) := by
  rw [drive, if_pos hopen]
  simp only [next_refused hnext]

theorem drive_accepted {n : Nat} {j : Journey α σ} {q : Point α σ}
    (hopen : plan.grid.isOpen j.last.t = true) (hrun : j.run = .integrating j.steps)
    (hnext : j.last.next plan.grid plan.step plan.threshold plan.slope (j.steps + 1) = .ok q) :
    drive plan (n + 1) j =
      drive plan n ⟨q, j.last :: j.earlier, j.steps + 1, .integrating (j.steps + 1)⟩ := by
  rw [drive, if_pos hopen]
  simp only [next_accepted hrun hnext]

/-- Driving on from the end of a trail.  Fuel and steps taken always add up to the cap. -/
theorem drive_ends (n : Nat) (j : Journey α σ) (hcap : j.steps + n = plan.cap)
    (hrun : j.run = .integrating j.steps) (htrail : Trail plan y0 j.steps j.last j.earlier) :
    Ends plan y0 (drive plan n j) := by
  induction n generalizing j with
  | zero =>
    cases hopen : plan.grid.isOpen j.last.t with
    | false =>
      rw [drive_closed hopen, hrun]
      exact .arrived htrail hopen (by omega) hrun
    | true =>
      have hsteps : j.steps = plan.cap := by omega
      rw [drive_zero hopen, hrun, hsteps]
      exact .exhausted (hsteps ▸ htrail) hopen
  | succ n ih =>
    cases hopen : plan.grid.isOpen j.last.t with
    | false =>
      rw [drive_closed hopen, hrun]
      exact .arrived htrail hopen (by omega) hrun
    | true =>
      cases hnext : j.last.next plan.grid plan.step plan.threshold plan.slope (j.steps + 1) with
      | error cause =>
        rw [drive_refused hopen hnext, hrun]
        exact .refused htrail hopen hnext (by omega)
      | ok q =>
        rw [drive_accepted hopen hrun hnext]
        exact ih _ (by show j.steps + 1 + n = _; omega) rfl (htrail.step hopen hnext)

/-- **Every run ends in one of four ways**, and a trail leads up to the end. -/
theorem start_ends (plan : Plan α σ) (y0 : σ) :
    Ends plan y0 (start plan y0 (.integrating 0)) := by
  unfold start
  cases hat : Point.at? plan.slope plan.grid.t0 y0 with
  | error cause => exact .noStart hat
  | ok p => exact drive_ends _ _ (Nat.zero_add _) rfl (.first hat)

/-! ## Along a trail -/

namespace Trail

variable {n : Nat} {p : Point α σ} {earlier : List (Point α σ)}

theorem length (h : Trail plan y0 n p earlier) : earlier.length = n := by
  induction h with
  | first => rfl
  | step _ _ _ ih => rw [List.length_cons, ih]

/-- There is one point more than there are steps. -/
theorem count_points (h : Trail plan y0 n p earlier) : (p :: earlier).reverse.length = n + 1 := by
  rw [List.length_reverse, List.length_cons, h.length]

theorem last_point (h : Trail plan y0 n p earlier) : (p :: earlier).reverse[n]? = some p := by
  have hlen : earlier.reverse.length = n := by rw [List.length_reverse, h.length]
  rw [List.reverse_cons, List.getElem?_append_right (Nat.le_of_eq hlen), hlen, Nat.sub_self]
  rfl

/-- The first point is the initial one. -/
theorem first_point (h : Trail plan y0 n p earlier) :
    ∃ q, (p :: earlier).reverse[0]? = some q ∧
      Point.at? plan.slope plan.grid.t0 y0 = .ok q := by
  induction h with
  | first hat => exact ⟨_, rfl, hat⟩
  | step htrail _ _ ih =>
    obtain ⟨q, hq, hat⟩ := ih
    refine ⟨q, ?_, hat⟩
    rw [List.reverse_cons, List.getElem?_append_left (by simp)]
    exact hq

/-- **Neighbours along a trail are one accepted step apart**, and the step has the number of the
    later one. -/
theorem next_point (h : Trail plan y0 n p earlier) {k : Nat} {a b : Point α σ}
    (ha : (p :: earlier).reverse[k]? = some a) (hb : (p :: earlier).reverse[k + 1]? = some b) :
    plan.grid.isOpen a.t = true ∧
      a.next plan.grid plan.step plan.threshold plan.slope (k + 1) = .ok b := by
  induction h with
  | first => cases hb
  | @step n p q earlier htrail hopen hnext ih =>
    have hlen := htrail.count_points
    rw [List.reverse_cons] at ha hb
    have hk : k + 1 < n + 2 := by
      have := (List.getElem?_eq_some_iff.mp hb).1
      rwa [List.length_append, hlen] at this
    rw [List.getElem?_append_left (by omega)] at ha
    rcases Nat.lt_or_ge k n with hlt | hge
    · rw [List.getElem?_append_left (by omega)] at hb
      exact ih ha hb
    · obtain rfl : k = n := by omega
      rw [List.getElem?_append_right (by omega), hlen, Nat.sub_self] at hb
      rw [htrail.last_point] at ha
      cases ha
      cases hb
      exact ⟨hopen, hnext⟩

/-- No point comes behind one with no way left to go. -/
theorem last_of_closed (h : Trail plan y0 n p earlier) {k : Nat} {q : Point α σ}
    (hq : (p :: earlier).reverse[k]? = some q) (hclosed : plan.grid.isOpen q.t = false) :
    k + 1 = (p :: earlier).reverse.length := by
  have hk := (List.getElem?_eq_some_iff.mp hq).1
  rcases Nat.lt_or_eq_of_le (Nat.succ_le_of_lt hk) with hlt | heq
  · rw [(h.next_point hq (List.getElem?_eq_getElem hlt)).1] at hclosed
    cases hclosed
  · exact heq

/-- **Induction along a trail**: what holds of the initial point and is kept by every step holds of
    all points. -/
theorem forall_kept {P : Point α σ → Prop} (h : Trail plan y0 n p earlier)
    (hfirst : ∀ q : Point α σ, Point.at? plan.slope plan.grid.t0 y0 = .ok q → P q)
    (hnext : ∀ {m : Nat} {a b : Point α σ} {before : List (Point α σ)},
      Trail plan y0 m a before → plan.grid.isOpen a.t = true →
      a.next plan.grid plan.step plan.threshold plan.slope (m + 1) = .ok b → P a → P b) :
    ∀ q ∈ (p :: earlier).reverse, P q := by
  induction h with
  | first hat =>
    intro q hq
    rw [List.reverse_singleton, List.mem_singleton] at hq
    rw [hq]
    exact hfirst _ hat
  | step htrail hopen hstep ih =>
    intro q hq
    rw [List.reverse_cons, List.mem_append, List.mem_singleton] at hq
    rcases hq with hq | rfl
    · exact ih q hq
    · exact hnext htrail hopen hstep (ih _ (by simp))

/-- What holds of the initial point and of every point a step leads to holds of all points. -/
theorem forall_points {P : Point α σ → Prop} (h : Trail plan y0 n p earlier)
    (hfirst : ∀ q : Point α σ, Point.at? plan.slope plan.grid.t0 y0 = .ok q → P q)
    (hnext : ∀ (k : Nat) (a b : Point α σ),
      a.next plan.grid plan.step plan.threshold plan.slope k = .ok b → P b) :
    ∀ q ∈ (p :: earlier).reverse, P q :=
  h.forall_kept hfirst fun _ _ hstep _ => hnext _ _ _ hstep

/-- **A trail passes through shorter trails**: its first points are the points of one. -/
theorem take {m : Nat} (h : Trail plan y0 n p earlier) (hm : m ≤ n) :
    ∃ q before, Trail plan y0 m q before ∧
      (q :: before).reverse = (p :: earlier).reverse.take (m + 1) := by
  induction h with
  | first hat =>
    obtain rfl := Nat.le_zero.mp hm
    exact ⟨_, _, .first hat, rfl⟩
  | @step n p q earlier htrail hopen hnext ih =>
    have hlen := htrail.count_points
    rcases Nat.lt_or_eq_of_le hm with hlt | rfl
    · obtain ⟨a, before, ha, hpoints⟩ := ih (by omega)
      refine ⟨a, before, ha, ?_⟩
      rw [hpoints, List.reverse_cons (a := q), List.take_append_of_le_length (by omega)]
    · refine ⟨q, p :: earlier, htrail.step hopen hnext, ?_⟩
      have hall := (htrail.step hopen hnext).count_points
      rw [List.take_of_length_le (Nat.le_of_eq hall)]

end Trail

end Journey

end InitialValue
