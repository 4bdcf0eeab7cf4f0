/-
  The grid over the exact rationals.

  The loop compares three times: is there a way left, does the step land, and where does the next
  one start.  Over the rationals, with `L` the length of the domain and `s` the step size, all three
  ask of a number `k` of steps whether `L - k · s` is at most a billionth of `s` (`Grid.Reaches`), so
  they cannot disagree.

  1. **The three comparisons** — `Grid.isOpen_time`, `Grid.lands_time`.
  2. **Along a run** — `Journey.Trail.on_grid`: after `n` steps a run is at the `n`-th time of the
     grid, and the step that first reaches the end is the last one.
  3. **Whole calls** — `solve_on_grid`: a run in which no step is refused needs exactly as
     many steps as it takes to reach the end, and stops at the cap when that is smaller.
-/
import InitialValue.Proofs.Number.Rational
import InitialValue.Proofs.Solver.Soundness
import Mathlib.Algebra.Order.Archimedean.Basic
import Mathlib.Algebra.BigOperators.Group.Finset.Basic
import Mathlib.Order.Bounds.Basic
import Mathlib.Tactic.FieldSimp
import Mathlib.Tactic.Ring

namespace InitialValue

/-! ## The three comparisons -/

namespace Grid

/-- The direction of a domain. -/
def way (t0 tEnd : Rat) : Rat := if t0 < tEnd then 1 else -1

/-- `k` steps of size `s` reach the end of a domain, or come within a billionth of a step of it. -/
def Reaches (t0 tEnd s : Rat) (k : ℕ) : Prop := |tEnd - t0| - k * s ≤ 1e-9 * s

/-- The numbers of steps, one at least, that reach the end. -/
def reaching (t0 tEnd s : Rat) : Set ℕ := { k | 1 ≤ k ∧ Reaches t0 tEnd s k }

section

variable {t0 tEnd s : Rat}

theorem way_mul_way (t0 tEnd : Rat) : way t0 tEnd * way t0 tEnd = 1 := by
  unfold way
  split <;> norm_num

theorem way_mul_sub (t0 tEnd : Rat) : way t0 tEnd * (tEnd - t0) = |tEnd - t0| := by
  unfold way
  split
  · rename_i h
    rw [abs_of_pos (sub_pos.mpr h), one_mul]
  · rename_i h
    rw [abs_of_nonpos (sub_nonpos.mpr (not_lt.mp h)), neg_one_mul]

/-- The grid of a rational problem, its numbers read as rationals. -/
theorem of_rat (hs : 0 < s) :
    Grid.of t0 tEnd s = ⟨t0, tEnd, way t0 tEnd, way t0 tEnd * s, 1e-9 * s⟩ := by
  have hdirection : (if Scalar.lt t0 tEnd then (1.0 : Rat) else -1.0) = way t0 tEnd := by
    unfold way
    have hone : (1.0 : Rat) = 1 := by norm_num
    by_cases h : t0 < tEnd
    · rw [if_pos (Scalar.lt_rat_iff.mpr h), if_pos h]
      exact hone
    · rw [if_neg (mt Scalar.lt_rat_iff.mp h), if_neg h]
      exact congrArg Neg.neg hone
  have hmagnitude : Scalar.magnitude (way t0 tEnd * s) = s := by
    rw [Scalar.magnitude_rat, abs_mul, abs_of_pos hs]
    unfold way
    split <;> simp
  have hstep : Scalar.magnitude s = s := by rw [Scalar.magnitude_rat, abs_of_pos hs]
  unfold Grid.of
  rw [hdirection, hstep]
  show (⟨t0, tEnd, way t0 tEnd, way t0 tEnd * s,
    endTolerance * Scalar.magnitude (way t0 tEnd * s)⟩ : Grid Rat) = _
  rw [hmagnitude]
  rfl

/-- What is left of the domain after `k` steps. -/
theorem way_mul_remaining (k : ℕ) :
    way t0 tEnd * (tEnd - (t0 + k * (way t0 tEnd * s))) = |tEnd - t0| - k * s := by
  have h : way t0 tEnd * (tEnd - (t0 + k * (way t0 tEnd * s))) =
      way t0 tEnd * (tEnd - t0) - way t0 tEnd * way t0 tEnd * (k * s) := by ring
  rw [h, way_mul_sub, way_mul_way, one_mul]

/-- **Is there a way left?**  Not after as many steps as reach the end. -/
theorem isOpen_time (hs : 0 < s) (k : ℕ) :
    (Grid.of t0 tEnd s).isOpen (t0 + k * (way t0 tEnd * s)) = true ↔ ¬ Reaches t0 tEnd s k := by
  rw [of_rat hs]
  unfold isOpen Reaches
  rw [Scalar.lt_rat_iff, not_le]
  show 1e-9 * s < way t0 tEnd * (tEnd - (t0 + k * (way t0 tEnd * s))) ↔ _
  rw [way_mul_remaining]

/-- **Does the next step land?**  If one step more reaches the end. -/
theorem lands_time (hs : 0 < s) (k : ℕ) :
    (Grid.of t0 tEnd s).lands (t0 + k * (way t0 tEnd * s)) = true ↔ Reaches t0 tEnd s (k + 1) := by
  rw [of_rat hs]
  unfold lands Reaches
  rw [Scalar.le_rat_iff]
  show way t0 tEnd * (tEnd - (t0 + k * (way t0 tEnd * s)) - way t0 tEnd * s) ≤ 1e-9 * s ↔ _
  have h : way t0 tEnd * (tEnd - (t0 + k * (way t0 tEnd * s)) - way t0 tEnd * s) =
      way t0 tEnd * (tEnd - (t0 + k * (way t0 tEnd * s))) - way t0 tEnd * way t0 tEnd * s := by ring
  rw [h, way_mul_remaining, way_mul_way]
  push_cast
  rw [add_mul, sub_sub, one_mul]

theorem isOpen_end (hs : 0 < s) : (Grid.of t0 tEnd s).isOpen tEnd = false := by
  rw [of_rat hs, Bool.eq_false_iff]
  unfold isOpen
  rw [ne_eq, Scalar.lt_rat_iff, not_lt]
  show way t0 tEnd * (tEnd - tEnd) ≤ 1e-9 * s
  rw [sub_self, mul_zero]
  positivity

/-- Some number of steps reaches the end, so there is a least one. -/
theorem exists_isLeast (hs : 0 < s) : ∃ n, IsLeast (reaching t0 tEnd s) n := by
  classical
  have hsome : ∃ k, k ∈ reaching t0 tEnd s := by
    obtain ⟨k, hk⟩ := exists_nat_ge (|tEnd - t0| / s)
    refine ⟨k + 1, Nat.le_add_left 1 k, ?_⟩
    have hlength : |tEnd - t0| ≤ k * s := (div_le_iff₀ hs).mp hk
    have hsmall : (0 : Rat) ≤ 1e-9 * s := by positivity
    unfold Reaches
    push_cast
    linarith
  exact ⟨Nat.find hsome, Nat.find_spec hsome, fun k hk => Nat.find_min' hsome hk⟩

/-- There is a way to go at the start of a domain that is no shorter than a step. -/
theorem not_reaches_zero (hs : 0 < s) (hle : s ≤ |tEnd - t0|) : ¬ Reaches t0 tEnd s 0 := by
  unfold Reaches
  rw [Nat.cast_zero, zero_mul, sub_zero, not_le]
  linarith

/-- Before the first number of steps that reaches the end, none does. -/
theorem not_reaches_of_lt {n k : ℕ} (hs : 0 < s) (hle : s ≤ |tEnd - t0|)
    (hn : IsLeast (reaching t0 tEnd s) n) (hk : k < n) : ¬ Reaches t0 tEnd s k := by
  intro h
  rcases Nat.eq_zero_or_pos k with rfl | hpos
  · exact not_reaches_zero hs hle h
  · exact absurd (hn.2 ⟨hpos, h⟩) (not_le.mpr hk)

end

/-- The time after `k` of `n` steps, the last of which lands. -/
def timeOf (t0 tEnd s : Rat) (n k : ℕ) : Rat :=
  if k = n then tEnd else t0 + k * (way t0 tEnd * s)

section

variable {t0 tEnd s : Rat} {n : ℕ}

theorem timeOf_last : timeOf t0 tEnd s n n = tEnd := if_pos rfl

theorem timeOf_lt {k : ℕ} (hk : k < n) :
    timeOf t0 tEnd s n k = t0 + k * (way t0 tEnd * s) := if_neg hk.ne

/-- From a time of the grid to the end it is as far as the steps left are long. -/
theorem way_mul_end {k : ℕ} (hk : k < n) :
    way t0 tEnd * (tEnd - timeOf t0 tEnd s n k) = |tEnd - t0| - k * s := by
  rw [timeOf_lt hk, way_mul_remaining]

/-- Before the last step, neighbouring times are a step apart. -/
theorem timeOf_succ_sub {k : ℕ} (hk : k + 1 < n) :
    timeOf t0 tEnd s n (k + 1) - timeOf t0 tEnd s n k = way t0 tEnd * s := by
  rw [timeOf_lt hk, timeOf_lt (by omega)]
  push_cast
  ring

/-- **Later times are further on.** -/
theorem timeOf_strictMono (hs : 0 < s) (hle : s ≤ |tEnd - t0|)
    (hn : IsLeast (reaching t0 tEnd s) n) {i j : ℕ} (hij : i < j) (hj : j ≤ n) :
    0 < way t0 tEnd * (timeOf t0 tEnd s n j - timeOf t0 tEnd s n i) := by
  rcases lt_or_eq_of_le hj with hlt | rfl
  · rw [timeOf_lt hlt, timeOf_lt (hij.trans hlt)]
    have hsteps : way t0 tEnd * (t0 + j * (way t0 tEnd * s) - (t0 + i * (way t0 tEnd * s))) =
        way t0 tEnd * way t0 tEnd * ((j - i) * s) := by ring
    have hcast : (i : Rat) < j := Nat.cast_lt.mpr hij
    rw [hsteps, way_mul_way, one_mul]
    exact mul_pos (sub_pos.mpr hcast) hs
  · rw [timeOf_last, way_mul_end hij]
    have hleft := not_reaches_of_lt hs hle hn hij
    unfold Reaches at hleft
    have hsmall : (0 : Rat) < 1e-9 * s := by positivity
    linarith

/-- **The last step** is longer than a billionth of a step, and longer than a step by at most that. -/
theorem last_gap (hs : 0 < s) (hle : s ≤ |tEnd - t0|) (hn : IsLeast (reaching t0 tEnd s) n) :
    1e-9 * s < way t0 tEnd * (tEnd - timeOf t0 tEnd s n (n - 1)) ∧
      way t0 tEnd * (tEnd - timeOf t0 tEnd s n (n - 1)) ≤ s * (1 + 1e-9) := by
  obtain ⟨k, rfl⟩ : ∃ k, n = k + 1 := ⟨n - 1, by have := hn.1.1; omega⟩
  rw [Nat.add_sub_cancel, way_mul_end (Nat.lt_succ_self k)]
  have hleft := not_reaches_of_lt hs hle hn (Nat.lt_succ_self k)
  have hreach := hn.1.2
  unfold Reaches at hleft hreach
  push_cast at hreach
  constructor
  · linarith
  · linarith

/-- A step leads from one time of the grid to the next. -/
theorem stepFrom_timeOf (hs : 0 < s) (hle : s ≤ |tEnd - t0|)
    (hn : IsLeast (reaching t0 tEnd s) n) {k : ℕ} (hk : k < n) :
    (Grid.of t0 tEnd s).stepFrom (timeOf t0 tEnd s n k) =
      timeOf t0 tEnd s n (k + 1) - timeOf t0 tEnd s n k := by
  have hlands : (Grid.of t0 tEnd s).lands (t0 + k * (way t0 tEnd * s)) = true ↔
      Reaches t0 tEnd s (k + 1) := lands_time hs k
  rw [← timeOf_lt hk] at hlands
  unfold stepFrom
  by_cases hlast : k + 1 = n
  · rw [if_pos (hlands.mpr (hlast ▸ hn.1.2)), hlast, timeOf_last, of_rat hs]
  · have hlt : k + 1 < n := by omega
    rw [if_neg (mt hlands.mp (not_reaches_of_lt hs hle hn hlt)), timeOf_succ_sub hlt, of_rat hs]

/-- From a time of the grid there is a way left until the last step. -/
theorem isOpen_timeOf (hs : 0 < s) (hle : s ≤ |tEnd - t0|) (hn : IsLeast (reaching t0 tEnd s) n)
    {k : ℕ} (hk : k ≤ n) : (Grid.of t0 tEnd s).isOpen (timeOf t0 tEnd s n k) = true ↔ k < n := by
  rcases hk.eq_or_lt with rfl | hlt
  · rw [timeOf_last, isOpen_end hs]
    simp
  · rw [timeOf_lt hlt, isOpen_time hs]
    exact ⟨fun _ => hlt, fun _ => not_reaches_of_lt hs hle hn hlt⟩

/-- The time after a time of the grid is the next one. -/
theorem timeAfter_timeOf (hs : 0 < s) (hle : s ≤ |tEnd - t0|)
    (hn : IsLeast (reaching t0 tEnd s) n) {k : ℕ} (hk : k < n) {t : Rat}
    (h : (Grid.of t0 tEnd s).timeAfter (timeOf t0 tEnd s n k) (k + 1) = .ok t) :
    t = timeOf t0 tEnd s n (k + 1) := by
  rw [timeOf_lt hk] at h
  by_cases hlast : k + 1 = n
  · have hreaches := hlast ▸ hn.1.2
    rcases timeAfter_eq_ok.mp h with ⟨-, hend⟩ | ⟨hlands, -⟩
    · rw [hend, hlast, timeOf_last]
      rfl
    · rw [(lands_time hs k).mpr hreaches] at hlands
      cases hlands
  · have hlt : k + 1 < n := by omega
    rcases timeAfter_eq_ok.mp h with ⟨hlands, -⟩ | ⟨-, r, hr, ht⟩
    · exact absurd ((lands_time hs k).mp hlands) (not_reaches_of_lt hs hle hn hlt)
    · rw [ht, timeOf_lt hlt, of_rat hs, ← ok_eq_ok.mp hr]
      rfl

end

end Grid

/-! ## Along a run -/

namespace Journey.Trail

open Grid (Reaches reaching timeOf way)

variable {σ : Type} [State Rat σ] {plan : Plan Rat σ} {y0 : σ} {t0 tEnd s : Rat} {n m : ℕ}
  {p : Point Rat σ} {earlier : List (Point Rat σ)}

/-- After each step a run is at the next time of the grid. -/
theorem at_timeOf (hgrid : plan.grid = Grid.of t0 tEnd s) (hs : 0 < s) (hle : s ≤ |tEnd - t0|)
    (hn : IsLeast (reaching t0 tEnd s) n) (h : Trail plan y0 m p earlier) :
    m ≤ n ∧ p.t = timeOf t0 tEnd s n m ∧
      (p :: earlier).reverse.map (·.t) = (List.range (m + 1)).map (timeOf t0 tEnd s n) := by
  induction h with
  | @first p hat =>
    have hpos : 0 < n := hn.1.1
    have hzero : p.t = timeOf t0 tEnd s n 0 := by
      rw [Grid.timeOf_lt hpos, Nat.cast_zero, zero_mul, add_zero, (Point.at?_eq_ok.mp hat).1, hgrid]
      rfl
    exact ⟨Nat.zero_le n, hzero, by simp [hzero]⟩
  | @step m p q earlier _ hway hnext ih =>
    obtain ⟨hm, hp, htimes⟩ := ih
    -- there was a way left, so this is one of the steps that reach the end
    rw [hgrid, hp] at hway
    have hlt : m < n := (Grid.isOpen_timeOf hs hle hn hm).mp hway
    have hq : q.t = timeOf t0 tEnd s n (m + 1) := by
      obtain ⟨-, htime, -, -⟩ := Point.next_eq_ok.mp hnext
      rw [hp, hgrid] at htime
      exact Grid.timeAfter_timeOf hs hle hn hlt htime
    refine ⟨hlt, hq, ?_⟩
    rw [List.reverse_cons, List.map_append, htimes, List.range_succ (n := m + 1), List.map_append]
    simp [hq]

/-- **A run follows the grid.**  It takes no more steps than reach the end, it is over when it has
    taken them and not before, and its times are those of the grid. -/
theorem on_grid (hgrid : plan.grid = Grid.of t0 tEnd s) (hs : 0 < s) (hle : s ≤ |tEnd - t0|)
    (hn : IsLeast (reaching t0 tEnd s) n) (h : Trail plan y0 m p earlier) :
    m ≤ n ∧ (plan.grid.isOpen p.t = true ↔ m < n) ∧
      (p :: earlier).reverse.map (·.t) = (List.range (m + 1)).map (timeOf t0 tEnd s n) := by
  obtain ⟨hm, hp, htimes⟩ := h.at_timeOf hgrid hs hle hn
  refine ⟨hm, ?_, htimes⟩
  rw [hgrid, hp]
  exact Grid.isOpen_timeOf hs hle hn hm

/-- A run that is over has taken as many steps as reach the end. -/
theorem steps_eq (hgrid : plan.grid = Grid.of t0 tEnd s) (hs : 0 < s) (hle : s ≤ |tEnd - t0|)
    (hn : IsLeast (reaching t0 tEnd s) n) (h : Trail plan y0 m p earlier)
    (hclosed : plan.grid.isOpen p.t = false) : m = n := by
  obtain ⟨hm, hopen, -⟩ := h.on_grid hgrid hs hle hn
  refine le_antisymm hm (not_lt.mp fun hlt => ?_)
  rw [hopen.mpr hlt] at hclosed
  cases hclosed

/-- The length that is given to the step formula is the difference of the times before and after. -/
theorem stepFrom_eq (hgrid : plan.grid = Grid.of t0 tEnd s) (hs : 0 < s) (hle : s ≤ |tEnd - t0|)
    (h : Trail plan y0 m p earlier) (hopen : plan.grid.isOpen p.t = true) {q : Point Rat σ}
    (hnext : p.next plan.grid plan.step plan.threshold plan.slope (m + 1) = .ok q) :
    plan.grid.stepFrom p.t = q.t - p.t := by
  obtain ⟨n, hn⟩ : ∃ n, IsLeast (reaching t0 tEnd s) n := Grid.exists_isLeast hs
  obtain ⟨-, hp, -⟩ := h.at_timeOf hgrid hs hle hn
  obtain ⟨hm, hq, -⟩ := (h.step hopen hnext).at_timeOf hgrid hs hle hn
  rw [hq, hp, hgrid]
  exact Grid.stepFrom_timeOf hs hle hn hm

end Journey.Trail

/-! ## Whole calls -/

open Grid (reaching timeOf way)

/-- The points of a run with `n` steps on the exact grid. -/
structure OnGrid {σ : Type} [State Rat σ] (plan : Journey.Plan Rat σ) (t0 tEnd s : Rat) (n : ℕ)
    (points : List (Point Rat σ)) : Prop where
  /-- There is one point more than there are steps. -/
  count : points.length = n + 1
  /-- The times are those of the grid, and then the end. -/
  times : points.map (·.t) = (List.range n).map (fun k : ℕ => t0 + k * (way t0 tEnd * s)) ++ [tEnd]
  /-- The times are strictly monotone. -/
  monotone : (points.map (·.t)).Pairwise fun a b => 0 < way t0 tEnd * (b - a)
  /-- All steps but the last are of the step size. -/
  gap : ∀ (k : ℕ) (a b : Point Rat σ), k + 1 < n → points[k]? = some a → points[k + 1]? = some b →
    b.t - a.t = way t0 tEnd * s
  /-- The last step is no sliver, and hardly longer than a step. -/
  lastGap : ∀ a : Point Rat σ, points[n - 1]? = some a →
    1e-9 * s < way t0 tEnd * (tEnd - a.t) ∧ way t0 tEnd * (tEnd - a.t) ≤ s * (1 + 1e-9)
  /-- The lengths given to the step formula sum to the domain. -/
  lengths : ∃ lengths : ℕ → Rat, ∑ k ∈ Finset.range n, lengths k = tEnd - t0 ∧
    ∀ (k : ℕ) (a b : Point Rat σ), points[k]? = some a → points[k + 1]? = some b →
      ∃ t, plan.step plan.slope a.t a.y (lengths k) = .ok (t, b.y)

namespace Journey

variable {σ : Type} [State Rat σ] {plan : Plan Rat σ} {y0 : σ} {t0 tEnd s : Rat} {n : ℕ}

theorem Trail.onGrid (hgrid : plan.grid = Grid.of t0 tEnd s) (hs : 0 < s)
    (hle : s ≤ |tEnd - t0|) (hn : IsLeast (reaching t0 tEnd s) n) {p : Point Rat σ}
    {earlier : List (Point Rat σ)} (h : Trail plan y0 n p earlier) :
    OnGrid plan t0 tEnd s n (p :: earlier).reverse := by
  obtain ⟨-, -, htimes⟩ := h.on_grid hgrid hs hle hn
  have hlen := h.count_points
  -- all that follows is read off the times of the points
  have htime : ∀ {k : ℕ} {a : Point Rat σ}, (p :: earlier).reverse[k]? = some a →
      a.t = timeOf t0 tEnd s n k := by
    intro k a ha
    have hk : k < n + 1 := hlen ▸ (List.getElem?_eq_some_iff.mp ha).1
    have hmap : ((p :: earlier).reverse.map (·.t))[k]? = some a.t := by
      rw [List.getElem?_map, ha]
      rfl
    rw [htimes, List.getElem?_map, List.getElem?_range hk] at hmap
    exact (Option.some.inj hmap).symm
  constructor
  case count => exact hlen
  case times =>
    rw [htimes, List.range_succ, List.map_append]
    congr 1
    · refine List.map_congr_left fun k hk => ?_
      exact Grid.timeOf_lt (List.mem_range.mp hk)
    · simp [Grid.timeOf_last]
  case monotone =>
    rw [htimes, List.pairwise_map]
    refine List.pairwise_lt_range.imp_of_mem fun {i j} _ hj hij => ?_
    exact Grid.timeOf_strictMono hs hle hn hij (Nat.lt_succ_iff.mp (List.mem_range.mp hj))
  case gap =>
    intro k a b hk ha hb
    rw [htime ha, htime hb]
    exact Grid.timeOf_succ_sub hk
  case lastGap =>
    intro a ha
    rw [htime ha]
    exact Grid.last_gap hs hle hn
  case lengths =>
    -- the lengths of the steps are the gaps between the times, so they add up to the domain
    refine ⟨fun k => plan.grid.stepFrom (timeOf t0 tEnd s n k), ?_, ?_⟩
    · have hsteps : ∀ k ∈ Finset.range n, plan.grid.stepFrom (timeOf t0 tEnd s n k) =
          timeOf t0 tEnd s n (k + 1) - timeOf t0 tEnd s n k := by
        intro k hk
        rw [hgrid]
        exact Grid.stepFrom_timeOf hs hle hn (Finset.mem_range.mp hk)
      have hpos : 0 < n := hn.1.1
      rw [Finset.sum_congr rfl hsteps, Finset.sum_range_sub, Grid.timeOf_last, Grid.timeOf_lt hpos]
      simp
    · intro k a b ha hb
      obtain ⟨-, hnext⟩ := h.next_point ha hb
      obtain ⟨hstep, -, -, -⟩ := Point.next_eq_ok.mp hnext
      rw [htime ha] at hstep ⊢
      exact hstep

/-- No step of a run is refused: there is a first point, and a next one wherever a run gets. -/
structure Proceeds (plan : Plan Rat σ) (y0 : σ) : Prop where
  first : ∃ p, Point.at? plan.slope plan.grid.t0 y0 = .ok p
  next : ∀ {m : ℕ} {p : Point Rat σ} {earlier : List (Point Rat σ)}, Trail plan y0 m p earlier →
    plan.grid.isOpen p.t = true →
    ∃ q, p.next plan.grid plan.step plan.threshold plan.slope (m + 1) = .ok q

/-- **How a run ends** in which no step is refused: it arrives when the cap allows the steps that
    reach the end, and it stops at the cap otherwise. -/
theorem start_on_grid (hgrid : plan.grid = Grid.of t0 tEnd s) (hs : 0 < s)
    (hle : s ≤ |tEnd - t0|) (hn : IsLeast (reaching t0 tEnd s) n) (hproceeds : Proceeds plan y0) :
    (n ≤ plan.cap → ∃ j : Journey Rat σ,
      start plan y0 (.integrating 0) = (.integrating n, .ok j) ∧ OnGrid plan t0 tEnd s n j.points) ∧
    (plan.cap < n →
      start plan y0 (.integrating 0) = (.integrating plan.cap, .error (.capReached plan.cap))) := by
  have hends := start_ends plan y0
  generalize start plan y0 (.integrating 0) = r at hends ⊢
  cases hends with
  | @arrived j htrail hclosed hcap hrun =>
    have hall := htrail.steps_eq hgrid hs hle hn hclosed
    refine ⟨fun _ => ⟨j, by rw [hall], ?_⟩, fun hlt => by omega⟩
    rw [hall] at htrail
    exact htrail.onGrid hgrid hs hle hn
  | noStart hat =>
    obtain ⟨p, hp⟩ := hproceeds.first
    rw [hat] at hp
    cases hp
  | refused htrail hopen hnext =>
    obtain ⟨q, hq⟩ := hproceeds.next htrail hopen
    rw [hnext] at hq
    cases hq
  | exhausted htrail hopen =>
    obtain ⟨-, hopen', -⟩ := htrail.on_grid hgrid hs hle hn
    have hlt := hopen'.mp hopen
    exact ⟨fun hcap => by omega, fun _ => rfl⟩

end Journey

/-- **The exact time grid.**  Over the rationals, take a call with accepted options and a known
    method in which no step is refused, on a domain that is not empty with a step that is no longer
    than it.  Let `n` be the least positive number of steps that reaches the end.  If the cap allows
    `n` steps, the call succeeds with `n + 1` points on the grid; if not, it fails at the cap. -/
theorem solve_on_grid {σ : Type} [State Rat σ] {solver : Solver Rat σ} {f : RightSide Rat}
    {options : Value Rat} {settings : Settings Rat σ} {warnings : List String} {method : Method}
    {width : ℕ} (hcheck : solver.form.check solver.config options = .ok ⟨.ok settings, warnings⟩)
    (hfind : Method.find? solver.form.methods (Solution.requestedMethod options) = some method)
    (hwidth : solver.form.width options = .ok width)
    (hpos : 0 < settings.stepSize) (hle : settings.stepSize ≤ |settings.tEnd - settings.t0|)
    (hproceeds : Journey.Proceeds (solver.plan f method settings) settings.y0) :
    ∃ n, IsLeast (reaching settings.t0 settings.tEnd settings.stepSize) n ∧
      (n ≤ settings.maxIterations → ∃ o, solver.solveWith f options = .ok o ∧
        o.solution.success = true ∧ OnGrid (solver.plan f method settings) settings.t0 settings.tEnd
          settings.stepSize n o.solution.points) ∧
      (settings.maxIterations < n → ∃ o, solver.solveWith f options = .ok o ∧
        o.solution.success = false ∧
        o.solution.failure = some (.halted (.capReached settings.maxIterations))) := by
  obtain ⟨n, hn⟩ : ∃ n, IsLeast (reaching settings.t0 settings.tEnd settings.stepSize) n :=
    Grid.exists_isLeast hpos
  refine ⟨n, hn, ?_⟩
  have hgrid : (solver.plan f method settings).grid =
      Grid.of settings.t0 settings.tEnd settings.stepSize := rfl
  have hrun := Journey.start_on_grid hgrid hpos hle hn hproceeds
  rw [Solver.solveWith_accepted hcheck hfind]
  unfold Solver.integrate
  constructor
  · intro hcap
    obtain ⟨j, hstart, hgrid⟩ := hrun.1 hcap
    rw [hstart]
    exact ⟨_, rfl, rfl, hgrid⟩
  · intro hcap
    rw [hrun.2 hcap]
    obtain ⟨o, ho⟩ := Solver.fail_answers hwidth (.integrating settings.maxIterations) warnings
      (.halted (.capReached settings.maxIterations))
    exact ⟨o, ho, (Solver.fail_eq_ok ho).2⟩

/-- The right-hand side of `y' = 0`. -/
def rest : RightSide Rat := RightSide.constant (.whole 0)

/-- From zero to one in steps of three tenths, at rest. -/
def restOptions : Value Rat := .record [("t0", .whole 0), ("y0", .whole 1), ("t_end", .whole 1),
  ("step_size", .real (3 / 10)), ("method", .key .euler)]

/-- A solver that takes step-size advice as advice. -/
def lenientSolver : Solver Rat Rat :=
  ⟨.single, { Config.standard with strictStepSize := .truth false }⟩

/-- The same for coupled systems. -/
def lenientCoupled : Solver Rat (List Rat) := ⟨.coupled, lenientSolver.config⟩

/-- A step at rest is accepted and keeps the state. -/
theorem rest_next {g : Grid Rat} {threshold : Number Rat} {p : Point Rat Rat} {n : ℕ}
    (hy : p.y = 1) (hthreshold : threshold.lt (.real 1) = false) :
    ∃ q, p.next g MethodKey.eulerStep threshold rest.slope n = .ok q ∧ q.y = 1 := by
  obtain ⟨t, ht⟩ : ∃ t, g.timeAfter p.t n = .ok t := by
    unfold Grid.timeAfter
    split
    · exact ⟨_, rfl⟩
    · exact ⟨_, rfl⟩
  have hstep : MethodKey.eulerStep rest.slope p.t p.y (g.stepFrom p.t) =
      .ok (p.t + g.stepFrom p.t, 1) := by
    have hstate : p.y + g.stepFrom p.t * 0 = 1 := by rw [hy, mul_zero, add_zero]
    show Except.ok (p.t + g.stepFrom p.t, p.y + g.stepFrom p.t * 0) = _
    rw [hstate]
  have hlargest : State.largest (1 : Rat) = (1 : Rat) := by decide +kernel
  refine ⟨⟨t, 1, 0⟩, Point.next_eq_ok.mpr ⟨⟨_, hstep⟩, ht, ?_, rfl⟩, rfl⟩
  refine Point.checkState_eq_ok.mpr ⟨rfl, rfl, ?_⟩
  show threshold.lt (.real (State.largest (1 : Rat))) = false
  rw [hlargest]
  exact hthreshold

/-- Four steps of three tenths reach from zero to one, and no fewer do. -/
theorem isLeast_rest : IsLeast (reaching 0 1 (3 / 10)) 4 := by
  constructor
  · refine ⟨by norm_num, ?_⟩
    unfold Grid.Reaches
    norm_num
  · rintro k ⟨-, hk⟩
    unfold Grid.Reaches at hk
    norm_num at hk
    by_contra hlt
    have hle : (k : Rat) ≤ 3 := by exact_mod_cast (by omega : k ≤ 3)
    linarith

/-- At rest the call succeeds with five points. -/
theorem solve_on_grid_rest : ∃ (o : Outcome Rat Rat) (settings : Settings Rat Rat),
    lenientSolver.solveWith rest restOptions = .ok o ∧ o.solution.success = true ∧
      OnGrid (lenientSolver.plan rest ⟨.euler, "Euler's Method",
        "First-order method, simple but less accurate", 1⟩ settings) 0 1 (3 / 10) 4
        o.solution.points := by
  obtain ⟨settings, warnings, hcheck, ht0, htEnd, hstep, hy0, hcap⟩ := Solver.exists_accepted
    (r := lenientSolver.form.check lenientSolver.config restOptions)
    (P := fun s => s.t0 = 0 ∧ s.tEnd = 1 ∧ s.stepSize = 3 / 10 ∧ s.y0 = 1 ∧ 4 ≤ s.maxIterations)
    (by decide +kernel)
  have hthreshold : lenientSolver.config.divergenceThreshold.lt (.real 1) = false := by
    decide +kernel
  -- at rest the state stays one, so no step is refused
  have hproceeds : Journey.Proceeds (lenientSolver.plan rest ⟨.euler, "Euler's Method",
      "First-order method, simple but less accurate", 1⟩ settings) settings.y0 := by
    refine ⟨⟨⟨settings.t0, settings.y0, 0⟩, rfl⟩, fun {m p earlier} htrail _ => ?_⟩
    have hy : p.y = 1 := by
      induction htrail with
      | first hat => rw [(Point.at?_eq_ok.mp hat).2.1, hy0]
      | step _ hopen hnext ih =>
        obtain ⟨q, hq, hqy⟩ := rest_next (ih hopen) hthreshold
        cases hnext.symm.trans hq
        exact hqy
    obtain ⟨q, hq, -⟩ := rest_next hy hthreshold
    exact ⟨q, hq⟩
  have hfind : Method.find? lenientSolver.form.methods (Solution.requestedMethod restOptions) =
      some ⟨.euler, "Euler's Method", "First-order method, simple but less accurate", 1⟩ := by
    decide +kernel
  have hwidth : lenientSolver.form.width restOptions = .ok 1 := rfl
  have hpos : 0 < settings.stepSize := by rw [hstep]; norm_num
  have hle : settings.stepSize ≤ |settings.tEnd - settings.t0| := by
    rw [hstep, ht0, htEnd]
    norm_num
  obtain ⟨n, hn, harrives, -⟩ := solve_on_grid hcheck hfind hwidth hpos hle hproceeds
  rw [ht0, htEnd, hstep] at hn harrives
  obtain rfl := hn.unique isLeast_rest
  obtain ⟨o, ho, hs, hgrid⟩ := harrives hcap
  exact ⟨o, settings, ho, hs, hgrid⟩

end InitialValue
