/-
  Suggested step sizes are accepted without a word.

  Three parts of the program have numbers of their own: an estimate is held in a band, advice counts
  steps or compares shares of the domain, and the rules refuse what is not positive or too long.  The
  bands lie inside of what advice lets pass in silence, on the fallback path as well, so **a step that
  is suggested is accepted, and nothing is said about it** (`solve_suggested`).

  1. **Rules** — `Settings.SingleButStep` and `Settings.CoupledButStep` are all rules but those on the
     step.  Options that keep them are accepted in silence with any step in the quiet range
     (`Settings.single_quiet`, `Settings.coupled_quiet`).
  2. **Suggestions** — `Solver.suggestSingle_within` and `Solver.suggestCoupled_within`.

  Numbers are exact and may be infinite or undefined (`Extended`), so that derivatives can be anything;
  the root can be any function.
-/
import InitialValue.Proofs.Number.Extended
import InitialValue.Proofs.Solver.ExactOptions
import InitialValue.Proofs.StepSize.Estimate
import InitialValue.Proofs.StepSize.Judgement
import InitialValue.Solver.Solve

namespace InitialValue

open Scalar.Faithful (ofRat)

variable {α σ : Type} [Scalar α] [Scalar.Ordered α] [Scalar.Faithful α] {a b : ℚ}

/-! ## Rules -/

/-- Options give the domain from `a` to `b`: both ends are finite numbers. -/
structure Value.Spans (options : Value α) (a b : ℚ) : Prop where
  t0 : ∃ p, (options.option "t0").parameter? = .ok (some p) ∧ p.given.Worth a
  tEnd : ∃ p, (options.option "t_end").parameter? = .ok (some p) ∧ p.given.Worth b

namespace Settings

/-- The rules for a single equation on the domain from `a` to `b`, but those on the step. -/
structure SingleButStep (c : Config α) (options : Value α) (a b : ℚ) : Prop where
  spans : options.Spans a b
  y0 : ∃ p, (options.option "y0").parameter? = .ok (some p) ∧
    c.maxInitialMagnitude.lt p.given.magnitude = false
  cap : ∃ m, iterationCap? options = some m

/-- The rules for a coupled system on the domain from `a` to `b`, but those on the step. -/
structure CoupledButStep (c : Config α) (options : Value α) (a b : ℚ) : Prop where
  spans : options.Spans a b
  y0 : ∃ items ps, row? (options.option "y0") = .ok (some items) ∧ items ≠ [] ∧
    Value.parameters? items = .ok (some ps) ∧
    (ps.any fun p => c.maxInitialMagnitude.lt p.given.magnitude) = false
  cap : ∃ m, iterationCap? options = some m

variable {c : Config α} {fields : List (String × Value α)} {limit h : ℚ}

omit [Scalar α] [Scalar.Ordered α] [Scalar.Faithful α] in
/-- A step does not change the cap. -/
theorem iterationCap?_withStep (v : Value α) :
    iterationCap? (.withField fields "step_size" v) = iterationCap? (.record fields) := by
  unfold iterationCap?
  rw [Value.field?_withField_of_ne fields "step_size" v (by decide)]

/-- A rational is read as the parameter that it is. -/
theorem parameter?_ofRat (h : ℚ) : (Value.real (ofRat h) : Value α).parameter? =
    .ok (some ⟨.real (ofRat h), ofRat h⟩) :=
  Value.parameter?_eq_some.mpr ⟨rfl, rfl, Scalar.Faithful.isFinite_ofRat h⟩

/-- **A step of which nothing is said** passes all rules, and silently. -/
theorem passed_quiet {t0 tEnd : Parameter α}
    {judge : Number α → Number α → Number α → Except Foreign (Advice α)} {fit quiet : Prop} {m : ℕ}
    (ht0 : t0.given.Worth a) (htEnd : tEnd.given.Worth b) (hlimit : c.maxDomainLength.Worth limit)
    (hbounds : 0 < h ∧ h ≤ |b - a| ∧ a ≠ b ∧ |b - a| ≤ limit)
    (hjudge : ∃ adv, judge (.real (ofRat h)) t0.given tEnd.given = .ok adv ∧ adv.Judges fit quiet)
    (hfit : fit) (hquiet : quiet) (hcap : iterationCap? (.record fields) = some m) (y0 : σ) :
    Passed c (.withField fields "step_size" (.real (ofRat h))) t0 tEnd ⟨.real (ofRat h), ofRat h⟩ judge
      ⟨t0.real, tEnd.real, ofRat h, y0, m⟩ [] := by
  obtain ⟨adv, hadv, hjudges⟩ := hjudge
  exact {
    bounds := (checkBounds_worth ht0 htEnd (Number.worth_ofRat h) hlimit).mpr hbounds
    cap := (iterationCap?_withStep _).trans hcap
    advice := ⟨adv, hadv,
      takeAdvice_quiet (hjudges.valid_iff.mpr hfit) (hjudges.warning_iff.mpr hquiet)⟩
    t0 := rfl
    tEnd := rfl
    stepSize := rfl }

/-- **Ten steps to fifty thousand** are accepted in silence for a single equation. -/
theorem single_quiet (hlimit : c.maxDomainLength.Worth limit)
    (hrules : SingleButStep c (.record fields) a b) (hne : a ≠ b) (hlong : |b - a| ≤ limit)
    (hlow : |b - a| / 50000 ≤ h) (hhigh : h ≤ |b - a| / 10) :
    ∃ s, single c (.withField fields "step_size" (.real (ofRat h))) = .ok ⟨.ok s, []⟩ := by
  obtain ⟨⟨⟨t0, ht0, ha⟩, ⟨tEnd, htEnd, hb⟩⟩, ⟨y0, hy0, hsmall⟩, ⟨m, hm⟩⟩ := hrules
  have hR : 0 < |b - a| := abs_pos.mpr (sub_ne_zero.mpr hne.symm)
  have hpos : 0 < h := by linarith
  have hquiet : 10 * h ≤ |b - a| ∧ |b - a| ≤ 50000 * h := by constructor <;> linarith
  have hfit : 10 * h ≤ |b - a| ∧ |b - a| ≤ 100000 * h := by constructor <;> linarith
  have hpassed := passed_quiet ha hb hlimit ⟨hpos, by linarith, hne, hlong⟩
    (Advice.single_spec (Number.worth_ofRat h) ha hb hpos) hfit hquiet
    hm y0.real
  refine ⟨_, single_accepts.mpr ⟨t0, y0, tEnd, _, rfl, ?_, ?_, ?_, ?_, hsmall, rfl, hpassed⟩⟩
  · rwa [Value.option_withField_of_ne _ _ _ (by decide)]
  · rwa [Value.option_withField_of_ne _ _ _ (by decide)]
  · rwa [Value.option_withField_of_ne _ _ _ (by decide)]
  · rw [Value.option_withField]
    exact parameter?_ofRat h

/-- **From a hundred thousandth to a tenth of the domain** a step is accepted in silence for a coupled
    system. -/
theorem coupled_quiet (hlimit : c.maxDomainLength.Worth limit)
    (hrules : CoupledButStep c (.record fields) a b) (hne : a ≠ b) (hlong : |b - a| ≤ limit)
    (hlow : |b - a| / 100000 ≤ h) (hhigh : h ≤ |b - a| / 10) :
    ∃ s, coupled c (.withField fields "step_size" (.real (ofRat h))) = .ok ⟨.ok s, []⟩ := by
  obtain ⟨⟨⟨t0, ht0, ha⟩, ⟨tEnd, htEnd, hb⟩⟩, ⟨items, ps, hrow, hitems, hps, hsmall⟩, ⟨m, hm⟩⟩ :=
    hrules
  have hR : 0 < |b - a| := abs_pos.mpr (sub_ne_zero.mpr hne.symm)
  have hpos : 0 < h := by linarith
  have hle : h ≤ |b - a| := by linarith
  have hpassed := passed_quiet ha hb hlimit ⟨hpos, hle, hne, hlong⟩
    (Advice.coupled_spec (Number.worth_ofRat h) ha hb hpos) hle ⟨hlow, hhigh⟩
    hm (ps.map (·.real))
  refine ⟨_, coupled_accepts.mpr ⟨t0, tEnd, _, items, ps, rfl, ?_, ?_, ?_, ?_, hitems, hps, hsmall,
    rfl, hpassed⟩⟩
  · rwa [Value.option_withField_of_ne _ _ _ (by decide)]
  · rwa [Value.option_withField_of_ne _ _ _ (by decide)]
  · rw [Value.option_withField]
    exact parameter?_ofRat h
  · rwa [Value.option_withField_of_ne _ _ _ (by decide)]

end Settings

/-! ## Suggestions -/

namespace Solver

omit [Scalar α] [Scalar.Ordered α] [Scalar.Faithful α] in
theorem required_eq_ok {options v : Value α} {name : String} (h : options.field? name = some v) :
    required options name = .ok v := by
  unfold required
  cases options with
  | record fields =>
    rw [h]
    rfl
  | _ => cases h

/-- Both ends of a domain are read as they are. -/
theorem read_ends {options : Value α} (hspans : options.Spans a b) :
    ∃ v tEnd, required options "t0" = .ok v ∧ v.toReal = .ok (ofRat a) ∧
      (Solution.optionOrZero options "t_end").toNumber = .ok tEnd ∧ tEnd.Worth b := by
  obtain ⟨⟨p, hp, ha⟩, ⟨q, hq, hb⟩⟩ := hspans
  obtain ⟨hp, -, -⟩ := Value.parameter?_eq_some.mp hp
  obtain ⟨hq, -, -⟩ := Value.parameter?_eq_some.mp hq
  refine ⟨options.option "t0", q.given, required_eq_ok (Value.field?_of_number? hp),
    (Value.toReal_of_number? hp).trans (Number.toReal_worth ha), ?_, hb⟩
  unfold Solution.optionOrZero
  rw [Value.field?_of_number? hq]
  exact Value.toNumber_of_number? hq

section

variable {options : Value α} (hspans : options.Spans a b) (hlong : |b - a| ≤ 1000)
  (root : α → α) (f : RightSide α)

include hspans hlong

/-- **A suggestion for a single equation** makes twenty steps to ten thousand. -/
theorem suggestSingle_within {y : α} (hy : (options.option "y0").toReal = .ok y) :
    ∃ h, suggestSingle root f options = .ok (ofRat h) ∧
      |b - a| / 10000 ≤ h ∧ h ≤ |b - a| / 20 := by
  obtain ⟨v, tEnd, hv, hreal, htEnd, hb⟩ := read_ends hspans
  have hy0 : required options "y0" = .ok (options.option "y0") :=
    required_eq_ok <| Value.field?_of_ne_null fun hnull => by
      rw [hnull] at hy
      cases hy
  have hsuggest : suggestSingle root f options =
      Estimate.single root f (.real (ofRat a)) (.real y) tEnd := by
    unfold suggestSingle
    simp only [bind, Except.bind, hv, hreal, hy0, hy, htEnd]
  rw [hsuggest]
  exact Estimate.single_within (Number.worth_ofRat a) hb hlong root f (.real y)

/-- **A suggestion for a coupled system** makes fifty steps to a hundred thousand. -/
theorem suggestCoupled_within {y : Value α} (hy : options.field? "y0" = some y) :
    ∃ h, suggestCoupled root f options = .ok (ofRat h) ∧
      |b - a| / 100000 ≤ h ∧ h ≤ |b - a| / 50 := by
  obtain ⟨v, tEnd, hv, hreal, htEnd, hb⟩ := read_ends hspans
  have hsuggest : suggestCoupled root f options =
      Estimate.coupled root f (.real (ofRat a)) y tEnd := by
    unfold suggestCoupled
    simp only [bind, Except.bind, hv, hreal, required_eq_ok hy, htEnd]
  rw [hsuggest]
  exact Estimate.coupled_within (Number.worth_ofRat a) hb hlong root f y

end

end Solver

/-! ## Both together -/

/-- **What is suggested is accepted in silence.**  On a domain that is not empty and at most a
    thousand long, for every right-hand side, every initial state and whatever the root is: the
    suggestion is within its band, and with it any options for the domain that keep the other rules
    are accepted, without a warning. -/
theorem solve_suggested (root : Extended → Extended) (f : RightSide Extended)
    {options : Value Extended} (hspans : options.Spans a b) (hne : a ≠ b) (hlong : |b - a| ≤ 1000) :
    ((∃ y, (options.option "y0").toReal = .ok y) →
      ∃ h, Solver.suggestSingle root f options = .ok (.finite h) ∧
        |b - a| / 10000 ≤ h ∧ h ≤ |b - a| / 20 ∧
        ∀ fields : List (String × Value Extended), Settings.SingleButStep .standard (.record fields) a b →
          ∃ s, Settings.single .standard (.withField fields "step_size" (.real (.finite h))) =
            .ok ⟨.ok s, []⟩) ∧
    ((∃ y, options.field? "y0" = some y) →
      ∃ h, Solver.suggestCoupled root f options = .ok (.finite h) ∧
        |b - a| / 100000 ≤ h ∧ h ≤ |b - a| / 50 ∧
        ∀ fields : List (String × Value Extended), Settings.CoupledButStep .standard (.record fields) a b →
          ∃ s, Settings.coupled .standard (.withField fields "step_size" (.real (.finite h))) =
            .ok ⟨.ok s, []⟩) := by
  have hlimit : (Config.standard : Config Extended).maxDomainLength.Worth 1000.0 :=
    Number.worth_literal _ _ _
  have hroom : |b - a| ≤ 1000.0 := hlong.trans_eq (by norm_num)
  have hR := abs_nonneg (b - a)
  constructor
  · rintro ⟨y, hy⟩
    obtain ⟨h, hsuggest, hlow, hhigh⟩ := Solver.suggestSingle_within hspans hlong root f hy
    refine ⟨h, hsuggest, hlow, hhigh, fun fields hrules => ?_⟩
    exact Settings.single_quiet hlimit hrules hne hroom (by linarith) (by linarith)
  · rintro ⟨y, hy⟩
    obtain ⟨h, hsuggest, hlow, hhigh⟩ := Solver.suggestCoupled_within hspans hlong root f hy
    refine ⟨h, hsuggest, hlow, hhigh, fun fields hrules => ?_⟩
    exact Settings.coupled_quiet hlimit hrules hne hroom hlow (by linarith)

/-- Options on the domain from zero to one without a step. -/
def stepless (y0 : Value Extended) : List (String × Value Extended) :=
  [("t0", .whole 0), ("y0", y0), ("t_end", .whole 1)]

theorem spans_stepless (y0 : Value Extended) : (Value.record (stepless y0)).Spans 0 1 :=
  ⟨⟨⟨.whole 0, .finite 0⟩, rfl, rfl⟩, ⟨.whole 1, .finite 1⟩, rfl, rfl⟩

/-- A derivative that is undefined and one that fails: the suggestion is accepted all the same. -/
theorem solve_suggested_stepless :
    (∃ h s, Solver.suggestSingle id (RightSide.constant (.real .undefined))
        (.record (stepless (.whole 1))) = .ok (.finite h) ∧
      Settings.single .standard (.withField (stepless (.whole 1)) "step_size" (.real (.finite h))) =
        .ok ⟨.ok s, []⟩) ∧
    (∃ h s, Solver.suggestCoupled id (fun _ _ => .error (.raised "no derivative"))
        (.record (stepless (.list [.whole 1]))) = .ok (.finite h) ∧
      Settings.coupled .standard
        (.withField (stepless (.list [.whole 1])) "step_size" (.real (.finite h))) =
          .ok ⟨.ok s, []⟩) := by
  have hlong : |(1 : ℚ) - 0| ≤ 1000 := by norm_num
  constructor
  · obtain ⟨h, hsuggest, -, -, haccept⟩ := (solve_suggested id
      (RightSide.constant (.real .undefined)) (spans_stepless (.whole 1)) zero_ne_one hlong).1
      ⟨.finite 1, rfl⟩
    obtain ⟨s, hs⟩ := haccept (stepless (.whole 1))
      ⟨spans_stepless _, ⟨⟨.whole 1, .finite 1⟩, rfl, by decide +kernel⟩, _, rfl⟩
    exact ⟨h, s, hsuggest, hs⟩
  · obtain ⟨h, hsuggest, -, -, haccept⟩ := (solve_suggested id
      (fun _ _ => .error (.raised "no derivative")) (spans_stepless (.list [.whole 1]))
      zero_ne_one hlong).2 ⟨_, rfl⟩
    obtain ⟨s, hs⟩ := haccept (stepless (.list [.whole 1]))
      ⟨spans_stepless _, ⟨[.whole 1], [⟨.whole 1, .finite 1⟩], rfl, by simp, rfl,
        by decide +kernel⟩, _, rfl⟩
    exact ⟨h, s, hsuggest, hs⟩

end InitialValue
