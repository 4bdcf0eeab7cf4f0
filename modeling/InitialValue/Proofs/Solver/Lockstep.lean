/-
  Systems whose components do not meet run in lockstep with their components.

  `Decouples plan plans` says that a plan for a system has the grid, the limits and the formula of a
  plan for each component, and a slope in which every component depends on itself only.

  1. **Points** — `at?_joins`, `next_joins`: a point of the system is accepted exactly when the
     points of all components are, and it is made of them (`Joins`).
  2. **Runs** — `Trail.split`: a trail of the system is a trail of every component.
  3. **Ends** — `start_lockstep`: the system arrives when all components do; it fails at the first
     step at which some component fails; and it stops at the cap together with all of them.
-/
import InitialValue.Proofs.Method.Componentwise
import InitialValue.Proofs.Number.Order
import InitialValue.Proofs.Solver.Determined
import Mathlib.Data.List.Forall2

namespace InitialValue

variable {α : Type} [Scalar α] {n : ℕ}

/-! ## Limits -/

namespace State

variable [Scalar.Ordered α] {σ : Type} [State α σ]

open Scalar.Ordered (level)

theorem lt_larger_iff {b : Number α} {x y : α} {p q : Level} (hx : level x = some p)
    (hy : level y = some q) :
    b.lt (.real (Scalar.larger x y)) = true ↔ b.lt (.real x) = true ∨ b.lt (.real y) = true := by
  have hlarger : (Number.real (Scalar.larger x y)).level = some (max p q) := level_larger hx hy
  have hx' : (Number.real x).level = some p := hx
  have hy' : (Number.real y).level = some q := hy
  rw [Number.lt_iff, Number.lt_iff, Number.lt_iff, hlarger, hx', hy']
  constructor
  · rintro ⟨r, w, hb, hw, hlt⟩
    obtain rfl := Option.some.inj hw
    exact (lt_max_iff.mp hlt).imp (fun h => ⟨r, p, hb, rfl, h⟩) fun h => ⟨r, q, hb, rfl, h⟩
  · rintro (⟨r, w, hb, hw, hlt⟩ | ⟨r, w, hb, hw, hlt⟩)
    · obtain rfl := Option.some.inj hw
      exact ⟨r, _, hb, rfl, lt_max_of_lt_left hlt⟩
    · obtain rfl := Option.some.inj hw
      exact ⟨r, _, hb, rfl, lt_max_of_lt_right hlt⟩

/-- A bound is below the largest of some magnitudes when it is below one of them. -/
theorem lt_foldl_larger_iff {b : Number α} (xs : List α) (hfin : xs.all Scalar.isFinite = true)
    (m : α) (p : Level) (hm : level m = some p) :
    b.lt (.real (xs.foldl (fun m x => Scalar.larger m (Scalar.magnitude x)) m)) = true ↔
      b.lt (.real m) = true ∨ ∃ x ∈ xs, b.lt (.real (Scalar.magnitude x)) = true := by
  induction xs generalizing m p with
  | nil => simp
  | cons x xs ih =>
    rw [List.all_cons, Bool.and_eq_true] at hfin
    obtain ⟨q, hq⟩ := Scalar.Ordered.level_of_isFinite x hfin.1
    have hmagnitude := Scalar.Ordered.level_magnitude x q hq
    rw [List.foldl_cons, ih hfin.2 _ _ (level_larger hm hmagnitude), lt_larger_iff hm hmagnitude,
      or_assoc, List.exists_mem_cons_iff]

/-- **A state passes a bound** when zero does or one of its components. -/
theorem lt_largest_iff {b : Number α} {y : σ} (hfin : isFinite α y = true) :
    b.lt (.real (largest y)) = true ↔
      b.lt (.real 0.0) = true ∨ ∃ x ∈ components y, b.lt (.real (Scalar.magnitude (x : α))) = true :=
  lt_foldl_larger_iff (components y) hfin 0.0 _ Scalar.Ordered.level_zero

end State

theorem isFinite_ofFn (v : Fin n → α) :
    State.isFinite α (List.ofFn v) = true ↔ ∀ i, State.isFinite α (v i) = true := by
  show (List.ofFn v).all Scalar.isFinite = true ↔ ∀ i, [v i].all Scalar.isFinite = true
  simp [List.all_eq_true]

/-! ## Points -/

/-- The point of a system is made of points of its components at the same time. -/
structure Joins (p : Point α (List α)) (ps : Fin n → Point α α) : Prop where
  t : ∀ i, (ps i).t = p.t
  y : p.y = List.ofFn fun i => (ps i).y
  slope : p.slope = List.ofFn fun i => (ps i).slope

/-- The point of a component is the part of the point of the system with its number. -/
structure IsPart (i : Fin n) (p : Point α (List α)) (q : Point α α) : Prop where
  t : q.t = p.t
  y : p.y[(i : ℕ)]? = some q.y
  slope : p.slope[(i : ℕ)]? = some q.slope

omit [Scalar α] in
theorem Joins.isPart {p : Point α (List α)} {ps : Fin n → Point α α} (h : Joins p ps) (i : Fin n) :
    IsPart i p (ps i) :=
  ⟨h.t i, by rw [h.y]; simp, by rw [h.slope]; simp⟩

namespace Point

variable [NeZero n]

/-- **A derivative of the system** is found exactly when those of all components are. -/
theorem at?_joins {f : Slope α (List α)} {fs : Fin n → Slope α α}
    (hslope : ∀ (t : α) (v : Fin n → α), Together (f t (List.ofFn v)) fun i => fs i t (v i))
    {t : α} {v : Fin n → α} {p : Point α (List α)} :
    at? f t (List.ofFn v) = .ok p ↔
      ∃ ps : Fin n → Point α α, Joins p ps ∧ ∀ i, at? (fs i) t (v i) = .ok (ps i) := by
  rw [at?_eq_ok]
  constructor
  · rintro ⟨ht, hy, hk, hfin⟩
    obtain ⟨k, hks, hk⟩ := (hslope t v _).mp hk
    rw [hks, isFinite_ofFn] at hfin
    refine ⟨fun i => ⟨t, v i, k i⟩, ⟨fun _ => ht.symm, hy, hks⟩, fun i => ?_⟩
    exact at?_eq_ok.mpr ⟨rfl, rfl, hk i, hfin i⟩
  · rintro ⟨ps, hjoins, hps⟩
    have hparts := fun i => at?_eq_ok.mp (hps i)
    have hv : (fun i => (ps i).y) = v := funext fun i => (hparts i).2.1
    refine ⟨(hjoins.t 0).symm.trans (hparts 0).1, ?_, ?_, ?_⟩
    · rw [hjoins.y, hv]
    · rw [hjoins.slope]
      exact (hslope t v _).mpr ⟨_, rfl, fun i => (hparts i).2.2.1⟩
    · rw [hjoins.slope, isFinite_ofFn]
      exact fun i => (hparts i).2.2.2

variable [Scalar.Ordered α]

/-- **A state of the system is accepted** exactly when all components are. -/
theorem checkState_ofFn {threshold : Number α} {t : α} {v : Fin n → α} :
    checkState threshold t (List.ofFn v) = .ok () ↔ ∀ i, checkState threshold t (v i) = .ok () := by
  have hlarge : ∀ hfin : ∀ i, State.isFinite α (v i) = true,
      (threshold.lt (.real (State.largest (List.ofFn v))) = false ↔
        ∀ i, threshold.lt (.real (State.largest (v i))) = false) := by
    intro hfin
    have hsystem := State.lt_largest_iff (b := threshold) ((isFinite_ofFn v).mpr hfin)
    have hpart := fun i => State.lt_largest_iff (b := threshold) (hfin i)
    simp only [← Bool.not_eq_true, hsystem, hpart, ← not_exists]
    refine not_congr ?_
    constructor
    · rintro (hzero | ⟨x, hx, hlt⟩)
      · exact ⟨0, Or.inl hzero⟩
      · obtain ⟨i, rfl⟩ := (List.mem_ofFn' _ _).mp hx
        exact ⟨i, Or.inr ⟨v i, List.mem_singleton.mpr rfl, hlt⟩⟩
    · rintro ⟨i, hzero | ⟨x, hx, hlt⟩⟩
      · exact Or.inl hzero
      · obtain rfl := List.mem_singleton.mp hx
        exact Or.inr ⟨v i, (List.mem_ofFn' _ _).mpr ⟨i, rfl⟩, hlt⟩
  simp only [checkState_eq_ok, isFinite_ofFn]
  constructor
  · rintro ⟨ht, hfin, hsmall⟩ i
    exact ⟨ht, hfin i, (hlarge hfin).mp hsmall i⟩
  · intro h
    have hfin := fun i => (h i).2.1
    exact ⟨(h 0).1, hfin, (hlarge hfin).mpr fun i => (h i).2.2⟩

end Point

/-! ## Plans -/

namespace Journey

/-- A plan for a system is made of plans for its components. -/
structure Decouples (plan : Plan α (List α)) (plans : Fin n → Plan α α) : Prop where
  grid : ∀ i, (plans i).grid = plan.grid
  threshold : ∀ i, (plans i).threshold = plan.threshold
  cap : ∀ i, (plans i).cap = plan.cap
  step : ∃ key : MethodKey, plan.step = key.step ∧ ∀ i, (plans i).step = key.step
  slope : ∀ (t : α) (v : Fin n → α),
    Together (plan.slope t (List.ofFn v)) fun i => (plans i).slope t (v i)

/-- What some component has no answer for is a failure of that component. -/
theorem exists_error {n : ℕ} {ε β : Type} {xs : Fin n → Except ε β}
    (h : ¬ ∃ v : Fin n → β, ∀ i, xs i = .ok (v i)) : ∃ i e, xs i = .error e := by
  by_contra hall
  refine h ?_
  choose v hv using fun i => show ∃ b, xs i = .ok b by
    cases hx : xs i with
    | ok b => exact ⟨b, rfl⟩
    | error e => exact absurd ⟨i, e, hx⟩ hall
  exact ⟨v, hv⟩

variable {plan : Plan α (List α)} {plans : Fin n → Plan α α} [NeZero n] [Scalar.Ordered α]

/-- **A step of the system is accepted** exactly when the steps of all components are. -/
theorem Decouples.next_joins (hd : Decouples plan plans) {p : Point α (List α)}
    {ps : Fin n → Point α α} (hp : Joins p ps) {number : ℕ} {q : Point α (List α)} :
    p.next plan.grid plan.step plan.threshold plan.slope number = .ok q ↔
      ∃ qs : Fin n → Point α α, Joins q qs ∧ ∀ i, (ps i).next (plans i).grid (plans i).step
        (plans i).threshold (plans i).slope number = .ok (qs i) := by
  obtain ⟨key, hkey, hkeys⟩ := hd.step
  have htogether := MethodKey.together_step hd.slope key p.t (fun i => (ps i).y)
    (plan.grid.stepFrom p.t)
  rw [← hp.y] at htogether
  simp only [Point.next_eq_ok, hd.grid, hd.threshold, hkey, hkeys, hp.t, ← map_snd_eq_ok]
  constructor
  · rintro ⟨hstep, htime, hcheck, hat⟩
    -- one time and one check for all, one slope for each
    obtain ⟨v, hv, hsteps⟩ := (htogether q.y).mp hstep
    rw [hv] at hcheck hat
    obtain ⟨qs, hq, hats⟩ := (Point.at?_joins hd.slope).mp hat
    refine ⟨qs, hq, fun i => ?_⟩
    obtain ⟨ht, hy, -, -⟩ := Point.at?_eq_ok.mp (hats i)
    refine ⟨?_, ?_, ?_, ?_⟩
    · rw [hy]
      exact hsteps i
    · rw [ht]
      exact htime
    · rw [ht, hy]
      exact Point.checkState_ofFn.mp hcheck i
    · rw [ht, hy]
      exact hats i
  · rintro ⟨qs, hq, h⟩
    have htime : ∀ i, (qs i).t = q.t := hq.t
    -- the common time is that of any component
    refine ⟨?_, ?_, ?_, ?_⟩
    · exact (htogether _).mpr ⟨_, hq.y, fun i => (h i).1⟩
    · rw [← htime 0]
      exact (h 0).2.1
    · rw [hq.y, Point.checkState_ofFn]
      intro i
      have hcheck := (h i).2.2.1
      rwa [htime i] at hcheck
    · rw [hq.y]
      refine (Point.at?_joins hd.slope).mpr ⟨qs, hq, fun i => ?_⟩
      have hat := (h i).2.2.2
      rwa [htime i] at hat

omit [Scalar.Ordered α] in
/-- Where the system does not start, some component does not. -/
theorem Decouples.start_error (hd : Decouples plan plans) {y0 : Fin n → α} {cause : Fault}
    (h : Point.at? plan.slope plan.grid.t0 (List.ofFn y0) = .error cause) :
    ∃ i cause', Point.at? (plans i).slope (plans i).grid.t0 (y0 i) = .error cause' := by
  refine exists_error ?_
  rintro ⟨ps, hps⟩
  simp only [hd.grid] at hps
  have hjoins : Joins ⟨plan.grid.t0, List.ofFn fun i => (ps i).y,
      List.ofFn fun i => (ps i).slope⟩ ps :=
    ⟨fun i => (Point.at?_eq_ok.mp (hps i)).1, rfl, rfl⟩
  have hok := (Point.at?_joins hd.slope).mpr ⟨ps, hjoins, hps⟩
  rw [h] at hok
  cases hok

/-- Where the system takes no step, some component takes none. -/
theorem Decouples.next_error (hd : Decouples plan plans) {p : Point α (List α)}
    {ps : Fin n → Point α α} (hp : Joins p ps) {number : ℕ} {cause : Fault}
    (h : p.next plan.grid plan.step plan.threshold plan.slope number = .error cause) :
    ∃ i cause', (ps i).next (plans i).grid (plans i).step (plans i).threshold (plans i).slope
      number = .error cause' := by
  refine exists_error ?_
  rintro ⟨qs, hqs⟩
  -- the components step to the same time, so their points are parts of one point
  have htime : ∀ i, (qs i).t = (qs 0).t := by
    intro i
    have hi := (Point.next_eq_ok.mp (hqs i)).2.1
    have h0 := (Point.next_eq_ok.mp (hqs 0)).2.1
    rw [hd.grid, hp.t] at hi h0
    exact ok_eq_ok.mp (hi.symm.trans h0)
  have hjoins : Joins ⟨(qs 0).t, List.ofFn fun i => (qs i).y,
      List.ofFn fun i => (qs i).slope⟩ qs := ⟨htime, rfl, rfl⟩
  have hok := (hd.next_joins hp).mpr ⟨qs, hjoins, hqs⟩
  rw [h] at hok
  cases hok

/-! ## Runs -/

/-- **A trail of the system** is a trail of every component. -/
theorem Decouples.split (hd : Decouples plan plans) {y0 : Fin n → α} {m : ℕ}
    {p : Point α (List α)} {earlier : List (Point α (List α))}
    (h : Trail plan (List.ofFn y0) m p earlier) :
    ∃ (ps : Fin n → Point α α) (es : Fin n → List (Point α α)), Joins p ps ∧
      ∀ i, Trail (plans i) (y0 i) m (ps i) (es i) ∧ List.Forall₂ (IsPart i) earlier (es i) := by
  induction h with
  | first hat =>
    obtain ⟨ps, hp, hats⟩ := (Point.at?_joins hd.slope).mp hat
    refine ⟨ps, fun _ => [], hp, fun i => ⟨.first ?_, .nil⟩⟩
    rw [hd.grid]
    exact hats i
  | step _ hopen hnext ih =>
    obtain ⟨ps, es, hp, htrails⟩ := ih
    obtain ⟨qs, hq, hnexts⟩ := (hd.next_joins hp).mp hnext
    refine ⟨qs, fun i => ps i :: es i, hq, fun i => ⟨(htrails i).1.step ?_ (hnexts i), ?_⟩⟩
    · rw [hd.grid, hp.t]
      exact hopen
    · exact .cons (hp.isPart i) (htrails i).2

/-! ## Ends -/

/-- How a system and its components end. -/
inductive Lockstep (plan : Plan α (List α)) (plans : Fin n → Plan α α) (y0 : Fin n → α) : Prop
  /-- All arrive, at points that are parts of those of the system. -/
  | arrived (j : Journey α (List α)) (js : Fin n → Journey α α)
      (system : start plan (List.ofFn y0) (.integrating 0) = (.integrating j.steps, .ok j))
      (parts : ∀ i, start (plans i) (y0 i) (.integrating 0) = (.integrating j.steps, .ok (js i)) ∧
        List.Forall₂ (IsPart i) j.points (js i).points)
  /-- The system fails at a step; so does some component, and none fails earlier. -/
  | failed (k : ℕ) (run : Run) (cause : Fault)
      (system : start plan (List.ofFn y0) (.integrating 0) = (run, .error (.atStep k cause)))
      (some : ∃ i run cause, start (plans i) (y0 i) (.integrating 0) = (run, .error (.atStep k cause)))
      (first : ∀ i k' run cause,
        start (plans i) (y0 i) (.integrating 0) = (run, .error (.atStep k' cause)) → k ≤ k')
  /-- All stop at the cap. -/
  | capped (system : start plan (List.ofFn y0) (.integrating 0) =
        (.integrating plan.cap, .error (.capReached plan.cap)))
      (parts : ∀ i, start (plans i) (y0 i) (.integrating 0) =
        (.integrating plan.cap, .error (.capReached plan.cap)))

/-- **A system whose components do not meet ends in lockstep with them.** -/
theorem Decouples.start_lockstep (hd : Decouples plan plans) (y0 : Fin n → α) :
    Lockstep plan plans y0 := by
  have hends := start_ends plan (List.ofFn y0)
  generalize hstart : start plan (List.ofFn y0) (.integrating 0) = r at hends
  cases hends with
  | @arrived j htrail hclosed hcap hrun =>
    obtain ⟨ps, es, hp, htrails⟩ := hd.split htrail
    refine .arrived j (fun i => ⟨ps i, es i, j.steps, .integrating j.steps⟩) hstart fun i => ⟨?_, ?_⟩
    · refine Ends.eq_start (.arrived (j := ⟨ps i, es i, j.steps, .integrating j.steps⟩)
        (htrails i).1 ?_ ?_ rfl)
      · rw [hd.grid, hp.t]
        exact hclosed
      · rw [hd.cap]
        exact hcap
    · exact List.rel_reverse (.cons (hp.isPart i) (htrails i).2)
  | @noStart cause hat =>
    obtain ⟨i, cause', hi⟩ := hd.start_error hat
    exact .failed 0 _ cause hstart ⟨i, _, cause', Ends.eq_start (.noStart hi)⟩
      fun _ _ _ _ _ => Nat.zero_le _
  | @refused m p earlier cause htrail hopen hnext hcap =>
    obtain ⟨ps, es, hp, htrails⟩ := hd.split htrail
    obtain ⟨i, cause', hi⟩ := hd.next_error hp hnext
    have hopen' : (plans i).grid.isOpen (ps i).t = true := by
      rw [hd.grid, hp.t]
      exact hopen
    have hcap' : m < (plans i).cap := by
      rw [hd.cap]
      exact hcap
    have hfails := Ends.eq_start (.refused (htrails i).1 hopen' hi hcap')
    -- no component fails earlier, since each has a trail up to this step
    refine .failed (m + 1) _ cause hstart ⟨i, _, cause', hfails⟩ fun j k run c hj => ?_
    refine (htrails j).1.lt_of_atStep ?_ hj
    rw [hd.cap]
    exact hcap.le
  | exhausted htrail hopen =>
    obtain ⟨ps, es, hp, htrails⟩ := hd.split htrail
    refine .capped hstart fun i => ?_
    have htrail' : Trail (plans i) (y0 i) (plans i).cap (ps i) (es i) := by
      rw [hd.cap]
      exact (htrails i).1
    have hend := Ends.eq_start (.exhausted htrail' (by rw [hd.grid, hp.t]; exact hopen))
    rwa [hd.cap] at hend

end Journey

end InitialValue
