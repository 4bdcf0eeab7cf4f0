/-
  What callers may rely on in a solution.

  A call that is answered hands back a solution, whatever happened on the way, and the solution is
  all that tells a success from a failure.  `Solution.WellFormed` says that it always does: there
  are points, or there is a failure with words, and around them stands what the options gave.

  1. **Success** — `Solution.wellFormed_ofPoints`: all recorded states are finite
     (`Journey.Trail.isFinite_points`), so the ranges span them.
  2. **Failure** — `Solution.wellFormed_ofFailure`: every failure has words (`Solver.Fails.worded`),
     and there are as many ranges as the initial state is wide (`Value.rowWidth`).
  3. **Calls** — `Solver.wellFormed`, for every kind of problem that is `Form.Regular`: single
     equations and coupled systems are (`Form.single_regular`, `Form.coupled_regular`).  Formulas
     are rejected with words (`Solver.wellFormed_read`).
-/
import InitialValue.Proofs.Solver.Dimensions
import InitialValue.Proofs.Solver.Wording

namespace InitialValue

variable {α σ : Type} [Scalar α] [State α σ]

/-! ## Well-formed solutions -/

/-- What a successful solution says. -/
structure Solution.Solved (options : Value α) (width : ℕ) (s : Solution α σ) : Prop where
  totalPoints : s.totalPoints = s.points.length
  stepSize : options.field? "step_size" = some s.stepSize
  start : options.field? "t0" = some s.domain.1
  finish : options.field? "t_end" = some s.domain.2
  /-- Every state has as many components as there are ranges. -/
  components : ∀ p ∈ s.points, (State.components p.y : List α).length = width
  width : s.ranges.length = width
  /-- Every range spans the values of its component. -/
  ranges : ∀ i r, s.ranges[i]? = some r → IsRange (column s.points i) r

omit [State α σ] in
/-- What a failed solution says. -/
structure Solution.Failed (options : Value α) (width : ℕ) (s : Solution α σ) : Prop where
  points : s.points = []
  failure : ∃ failure, s.failure = some failure ∧ failure.message ≠ ""
  totalPoints : s.totalPoints = 0
  ranges : s.ranges = List.replicate width (0.0, 0.0)
  method : s.method = (options.field? "method").getD (.text "rk4")

/-- **A well-formed solution** has points or has failed, and says all there is to say of that. -/
structure Solution.WellFormed (options : Value α) (width : ℕ) (s : Solution α σ) : Prop where
  points_iff : s.success = true ↔ s.points ≠ []
  failure_iff : s.success = true ↔ s.failure = none
  solved : s.success = true → s.Solved options width
  failed : s.success = false → s.Failed options width

namespace Solution

variable {options : Value α} {width : ℕ}

/-- **Points that are finite** make a well-formed solution of options that are given. -/
theorem wellFormed_ofPoints [Scalar.Ordered α] {points : List (Point α σ)} (hne : points ≠ [])
    (hgiven : ∀ name ∈ ["t0", "t_end", "step_size"],
      options.field? name = some (optionOrZero options name))
    (hfin : ∀ p ∈ points, State.isFinite α p.y = true)
    (hwidth : ∀ p ∈ points, (State.components p.y : List α).length = width) (method : Method) :
    (ofPoints method options points).WellFormed options width where
  points_iff := iff_of_true rfl hne
  failure_iff := iff_of_true rfl rfl
  solved _ := {
    totalPoints := rfl
    stepSize := hgiven _ (by simp)
    start := hgiven _ (by simp)
    finish := hgiven _ (by simp)
    components := hwidth
    width := length_rangesOf hne hwidth
    ranges := fun _ _ hr => isRange_rangesOf hfin hr }
  failed h := by cases h

/-- **A failure with words** makes a well-formed solution. -/
theorem wellFormed_ofFailure {failure : Failure} (h : failure.message ≠ "") (options : Value α)
    (width : ℕ) : (ofFailure failure options width : Solution α σ).WellFormed options width where
  points_iff := iff_of_false Bool.false_ne_true fun h => h rfl
  failure_iff := iff_of_false Bool.false_ne_true fun h => by cases h
  solved h := by cases h
  failed _ := ⟨rfl, ⟨failure, rfl, h⟩, rfl, rfl, rfl⟩

end Solution

/-! ## Options -/

namespace Value

omit [State α σ]

/-- A field that is read as a parameter was given. -/
theorem field?_of_parameter? {options : Value α} {name : String} {p : Parameter α}
    (h : (options.option name).parameter? = .ok (some p)) :
    options.field? name = some (Solution.optionOrZero options name) := by
  obtain ⟨hnumber, -, -⟩ := parameter?_eq_some.mp h
  unfold Solution.optionOrZero
  rw [field?_of_number? hnumber]
  rfl

/-- A number is no list. -/
theorem isList_of_parameter? {v : Value α} {p : Parameter α}
    (h : v.parameter? = .ok (some p)) : v.isList = false := by
  cases v with
  | list items => cases (parameter?_eq_some.mp h).1
  | _ => rfl

/-- Fields that are read as parameters were given. -/
theorem domain_given {options : Value α} {t0 tEnd step : Parameter α}
    (ht0 : (options.option "t0").parameter? = .ok (some t0))
    (htEnd : (options.option "t_end").parameter? = .ok (some tEnd))
    (hstep : (options.option "step_size").parameter? = .ok (some step)) :
    ∀ name ∈ ["t0", "t_end", "step_size"],
      options.field? name = some (Solution.optionOrZero options name) := by
  simp only [List.forall_mem_cons, List.not_mem_nil, false_implies, implies_true, and_true]
  exact ⟨field?_of_parameter? ht0, field?_of_parameter? htEnd, field?_of_parameter? hstep⟩

end Value

/-! ## Both kinds of problems -/

/-- What the two kinds of problems have in common: options are refused with words, accepted ones
    have been given and start from a finite state, and the number of components is that of the
    options. -/
structure Form.Regular (form : Form α σ) (c : Config α) (options : Value α) (width : ℕ) :
    Prop where
  told : ∀ n, form.width options = .ok n → n = width
  refused : ∀ rule warnings, form.check c options = .ok ⟨.error rule, warnings⟩ →
    rule.message ≠ ""
  given : ∀ settings warnings, form.check c options = .ok ⟨.ok settings, warnings⟩ →
    ∀ name ∈ ["t0", "t_end", "step_size"],
      options.field? name = some (Solution.optionOrZero options name)
  finite : ∀ settings warnings, form.check c options = .ok ⟨.ok settings, warnings⟩ →
    State.isFinite α settings.y0 = true
  components : ∀ settings warnings, form.check c options = .ok ⟨.ok settings, warnings⟩ →
    ∀ (f : RightSide α) (method : Method) {m : ℕ} {p : Point α σ} {earlier : List (Point α σ)},
      Journey.Trail ((⟨form, c⟩ : Solver α σ).plan f method settings) settings.y0 m p earlier →
      ∀ q ∈ (p :: earlier).reverse, (State.components q.y : List α).length = width

section

variable {c : Config α} {options : Value α}

/-- Single equations have one component. -/
theorem Form.single_regular : Form.single.Regular c options 1 where
  told _ h := (ok_eq_ok.mp h).symm
  refused _ _ := Settings.single_worded
  given _ _ h := by
    obtain ⟨_, _, _, _, -, ht0, -, htEnd, hstep, -⟩ := Settings.single_accepts.mp h
    exact Value.domain_given ht0 htEnd hstep
  finite _ _ h := by
    obtain ⟨_, y0, _, _, -, -, hy0, -, -, -, hy, -⟩ := Settings.single_accepts.mp h
    rw [hy]
    show ([y0.real].all Scalar.isFinite) = true
    rw [List.all_cons, (Value.parameter?_eq_some.mp hy0).2.2]
    rfl
  components _ _ _ _ _ _ _ _ _ _ _ := rfl

/-- The state of accepted options is as long as their initial state is wide. -/
theorem Settings.length_rowWidth {settings : Settings α (List α)} {warnings : List String}
    (h : Settings.coupled c options = .ok ⟨.ok settings, warnings⟩) :
    settings.y0.length = (options.option "y0").rowWidth := by
  obtain ⟨_, _, _, items, y0, -, -, -, -, hrow, -, hy0, -, hy, -⟩ := Settings.coupled_accepts.mp h
  have hitems := Value.parameters?_eq_some.mp hy0
  rw [hy, List.length_map, (Settings.row?_eq_some.mp hrow).1, ← hitems.length_eq]
  refine (Value.rowWidth_list fun v hv => ?_).symm
  obtain ⟨p, hp⟩ := Formula.exists_forall₂_iff.mp ⟨y0, hitems⟩ v hv
  exact Value.isList_of_parameter? hp

/-- Coupled systems have as many components as the list that they start from has items. -/
theorem Form.coupled_regular : Form.coupled.Regular c options (options.option "y0").rowWidth where
  told n h := by
    obtain ⟨n?, hn, h⟩ := bind_eq_ok.mp h
    cases h
    exact (Value.rowWidth_of_rowLength? hn).symm
  refused _ _ := Settings.coupled_worded
  given _ _ h := by
    obtain ⟨_, _, _, _, _, -, ht0, htEnd, hstep, -⟩ := Settings.coupled_accepts.mp h
    exact Value.domain_given ht0 htEnd hstep
  finite _ _ h := by
    obtain ⟨_, _, _, _, y0, -, -, -, -, -, -, hy0, -, hy, -⟩ := Settings.coupled_accepts.mp h
    rw [hy]
    show ((y0.map (·.real)).all Scalar.isFinite) = true
    rw [List.all_map, List.all_eq_true]
    intro p hp
    have hitems := Value.parameters?_eq_some.mp hy0
    obtain ⟨v, hv⟩ := Formula.exists_forall₂_iff.mp ⟨_, hitems.flip⟩ p hp
    exact (Value.parameter?_eq_some.mp hv).2.2
  components settings _ h f method _ _ _ htrail q hq := by
    rw [← Settings.length_rowWidth h]
    exact (htrail.length_points f method.key rfl rfl rfl q hq).1

end

/-! ## Calls -/

/-- All states of a trail from a finite state are finite. -/
theorem Journey.Trail.isFinite_points {plan : Plan α σ} {y0 : σ} {m : ℕ} {p : Point α σ}
    {earlier : List (Point α σ)} (h : Trail plan y0 m p earlier)
    (hy0 : State.isFinite α y0 = true) :
    ∀ q ∈ (p :: earlier).reverse, State.isFinite α q.y = true := by
  refine h.forall_points (fun q hat => ?_) fun _ _ _ hnext => ?_
  · rw [(Point.at?_eq_ok.mp hat).2.1]
    exact hy0
  · exact (Point.checkState_eq_ok.mp (Point.next_eq_ok.mp hnext).2.2.1).2.1

namespace Solver

variable {s : Solver α σ} {options : Value α} {width : ℕ} {o : Outcome α σ}

/-- A call that is made to fail with words has a well-formed solution. -/
theorem wellFormed_of_fail (h : s.form.Regular s.config options width) {run : Run}
    {warnings : List String} (failure : Failure) (hworded : failure.message ≠ "")
    (ho : s.fail options run warnings failure = .ok o) :
    o.solution.WellFormed options width := by
  obtain ⟨n, hn, ho⟩ := bind_eq_ok.mp ho
  cases ho
  rw [h.told _ hn]
  exact Solution.wellFormed_ofFailure hworded options width

variable [Scalar.Ordered α]

/-- **A call with a right-hand side** has a well-formed solution. -/
theorem wellFormed (h : s.form.Regular s.config options width) {f : RightSide α}
    (ho : s.solveWith f options = .ok o) :
    o.solution.WellFormed options width := by
  rcases fails_or_arrives s f options with ⟨failure, hstage⟩ | ⟨points, harrives⟩
  · obtain ⟨warnings, heq⟩ := hstage.solveWith_eq
    exact wellFormed_of_fail h failure (hstage.worded h.refused) (heq.symm.trans ho)
  · obtain ⟨o', ho', hs, -⟩ := harrives.succeeds
    cases ho.symm.trans ho'
    -- all that is needed is known of the points of a trail
    obtain ⟨settings, warnings, method, j, hcheck, -, htrail, -, -, rfl⟩ := solveWith_success ho hs
    exact Solution.wellFormed_ofPoints (by simp) (h.given _ _ hcheck)
      (htrail.isFinite_points (h.finite _ _ hcheck)) (h.components _ _ hcheck f method htrail) method

/-- **A call with a reading** has a well-formed solution, if readings are rejected with words. -/
theorem wellFormed_read (h : s.form.Regular s.config options width)
    {read : Except Fault (Except String (RightSide α))}
    (hrejected : ∀ reason, read = .ok (.error reason) → reason ≠ "")
    (ho : s.solveRead read options = .ok o) :
    o.solution.WellFormed options width := by
  rcases read with cause | reason | f
  · exact wellFormed_of_fail h (.solver cause) (append_ne_empty (by decide)) ho
  · exact wellFormed_of_fail h (.formula reason) (hrejected _ rfl) ho
  · exact wellFormed h ho

end Solver

/-! ## Formulas -/

theorem Formula.Single.rejected_worded {reading : Single} {reason : String}
    (h : reading.rightSide = .error reason) : reason ≠ "" := by
  unfold rightSide at h
  cases hread : reading.outcome with
  | error r =>
    rw [hread] at h
    cases h
    exact r.message_ne_empty
  | ok e =>
    rw [hread] at h
    cases h

theorem Formula.Coupled.rejected_worded {system : Coupled} {reason : String}
    (h : system.rightSide = .error reason) : reason ≠ "" := by
  unfold rightSide at h
  cases hread : system.outcome with
  | error r =>
    rw [hread] at h
    cases h
    exact r.message_ne_empty
  | ok es =>
    rw [hread] at h
    cases h

/-! ## Whole calls -/

/-- **Solutions are well-formed**, whatever the configuration, the options, and the right-hand side
    or formula: that of a single equation has one range, that of a coupled system as many as its
    initial state is wide. -/
theorem solve_well_formed (c : Config Float) (options : Value Float) :
    (∀ o, (∃ f, (⟨.single, c⟩ : Solver Float Float).solveWith f options = .ok o) ∨
        (∃ formula, (⟨.single, c⟩ : Solver Float Float).solveFormula formula options = .ok o) →
      o.solution.WellFormed options 1) ∧
    (∀ o, (∃ f, (⟨.coupled, c⟩ : Solver Float (List Float)).solveWith f options = .ok o) ∨
        (∃ formulas,
          (⟨.coupled, c⟩ : Solver Float (List Float)).solveFormulas formulas options = .ok o) →
      o.solution.WellFormed options (options.option "y0").rowWidth) := by
  constructor
  · rintro o (⟨f, ho⟩ | ⟨formula, ho⟩)
    · exact Solver.wellFormed Form.single_regular ho
    · refine Solver.wellFormed_read Form.single_regular (fun reason h => ?_) ho
      exact Formula.Single.rejected_worded (Except.ok.inj h)
  · rintro o (⟨f, ho⟩ | ⟨formulas, ho⟩)
    · exact Solver.wellFormed Form.coupled_regular ho
    · refine Solver.wellFormed_read Form.coupled_regular (fun reason h => ?_) ho
      cases hread : Formula.Coupled.read formulas with
      | error e =>
        rw [hread] at h
        cases h
      | ok system =>
        rw [hread] at h
        exact Formula.Coupled.rejected_worded (Except.ok.inj h)

/-- Growth from one succeeds and growth from two texts fails; both solutions are well-formed. -/
theorem solve_well_formed_growth :
    (∃ o, (⟨.single, .standard⟩ : Solver Float Float).solveWith growth (tenths (.real 1.0)) = .ok o ∧
      o.solution.success = true ∧ o.solution.WellFormed (tenths (.real 1.0)) 1) ∧
    (∃ o, (⟨.coupled, .standard⟩ : Solver Float (List Float)).solveFormulas
        (.list [.text "y1", .text "y2"]) (tenths (.list [.text "a", .text "b"])) = .ok o ∧
      o.solution.success = false ∧
      o.solution.WellFormed (tenths (.list [.text "a", .text "b"])) 2) := by
  constructor
  · obtain ⟨o, ho, hs⟩ := exists_ok (x := (⟨.single, .standard⟩ : Solver Float Float).solveWith
      growth (tenths (.real 1.0))) (p := (·.solution.success)) (by decide +kernel)
    exact ⟨o, ho, hs, (solve_well_formed .standard _).1 o (Or.inl ⟨growth, ho⟩)⟩
  · obtain ⟨o, ho, hs⟩ := exists_ok (x := (⟨.coupled, .standard⟩ :
      Solver Float (List Float)).solveFormulas (.list [.text "y1", .text "y2"])
      (tenths (.list [.text "a", .text "b"]))) (p := (!·.solution.success)) (by decide +kernel)
    exact ⟨o, ho, by simpa using hs, (solve_well_formed .standard _).2 o (Or.inr ⟨_, ho⟩)⟩

end InitialValue
