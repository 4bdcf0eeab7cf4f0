/-
  A plan has one run.

  `Journey.start_ends` says how the loop can end.  Here is the other direction: an end that a trail
  leads to is the end of the loop (`Ends.eq_start`), because the loop passes through every trail
  within the cap (`Trail.start_eq`).
-/
import InitialValue.Proofs.Solver.Trail

namespace InitialValue.Journey

variable {α σ : Type} [Scalar α] [State α σ] {plan : Plan α σ} {y0 : σ}

/-- **The loop passes through every trail** within the cap. -/
theorem Trail.start_eq {m : Nat} {p : Point α σ} {earlier : List (Point α σ)}
    (h : Trail plan y0 m p earlier) (hcap : m ≤ plan.cap) :
    start plan y0 (.integrating 0) = drive plan (plan.cap - m) ⟨p, earlier, m, .integrating m⟩ := by
  induction h with
  | first hat =>
    unfold start
    rw [hat]
    rfl
  | @step m p q earlier _ hopen hnext ih =>
    obtain ⟨n, hn⟩ : ∃ n, plan.cap - m = n + 1 := ⟨plan.cap - m - 1, by omega⟩
    have hleft : plan.cap - (m + 1) = n := by omega
    rw [ih (by omega), hn, drive_accepted hopen rfl hnext, hleft]

/-- **An end that a trail leads to is the end of the loop.** -/
theorem Ends.eq_start {r : Run × Except Halt (Journey α σ)} (h : Ends plan y0 r) :
    start plan y0 (.integrating 0) = r := by
  cases h with
  | @arrived j htrail hclosed hcap hrun =>
    obtain ⟨p, earlier, m, run⟩ := j
    obtain rfl : run = .integrating m := hrun
    rw [htrail.start_eq hcap, drive_closed hclosed]
  | noStart hat =>
    unfold start
    rw [hat]
  | @refused n p earlier cause htrail hopen hnext hcap =>
    obtain ⟨m, hm⟩ : ∃ m, plan.cap - n = m + 1 := ⟨plan.cap - n - 1, by omega⟩
    rw [htrail.start_eq (by omega), hm, drive_refused hopen hnext]
  | exhausted htrail hopen =>
    rw [htrail.start_eq (Nat.le_refl _), Nat.sub_self, drive_zero hopen]

/-- Driving on, a run only fails at steps that it has not taken yet. -/
theorem drive_atStep {n k : Nat} {j : Journey α σ} {run : Run} {cause : Fault}
    (hrun : j.run = .integrating j.steps)
    (h : drive plan n j = (run, .error (.atStep k cause))) : j.steps < k := by
  induction n generalizing j with
  | zero =>
    cases hopen : plan.grid.isOpen j.last.t with
    | false =>
      rw [drive_closed hopen] at h
      cases h
    | true =>
      rw [drive_zero hopen] at h
      cases h
  | succ n ih =>
    cases hopen : plan.grid.isOpen j.last.t with
    | false =>
      rw [drive_closed hopen] at h
      cases h
    | true =>
      cases hnext : j.last.next plan.grid plan.step plan.threshold plan.slope (j.steps + 1) with
      | error fault =>
        rw [drive_refused hopen hnext] at h
        cases h
        exact Nat.lt_succ_self _
      | ok q =>
        -- the rest fails behind the step that is taken here
        rw [drive_accepted hopen hrun hnext] at h
        have hlater : j.steps + 1 < k := ih rfl h
        omega

/-- A run that fails at a step has not come further. -/
theorem Trail.lt_of_atStep {m k : Nat} {p : Point α σ} {earlier : List (Point α σ)} {run : Run}
    {cause : Fault} (h : Trail plan y0 m p earlier) (hcap : m ≤ plan.cap)
    (hstart : start plan y0 (.integrating 0) = (run, .error (.atStep k cause))) : m < k := by
  rw [h.start_eq hcap] at hstart
  exact drive_atStep rfl hstart

end InitialValue.Journey
