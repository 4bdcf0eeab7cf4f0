/-
  Options in a mirror.

  The rules on a domain ask how long it is and whether it is empty, and so does the advice on a
  step: nothing depends on the direction.  So options with both ends turned round are judged like
  the options themselves, with the same broken rule or the same settings turned round, and with the
  same warnings (`Settings.single_mirrored`, `Settings.coupled_mirrored`).
-/
import InitialValue.Proofs.Number.Exact
import InitialValue.Proofs.Solver.Acceptance
import InitialValue.Solver.Solution

namespace InitialValue

/-! ## Turning round -/

namespace Value

/-- The opposite of a number; anything else as it is. -/
def opposite : Value ℚ → Value ℚ
  | .whole n => .whole (-n)
  | .real x => .real (-x)
  | v => v

/-- A field of options turned round: the opposite of an end of the domain. -/
def turned (name : String) (v : Value ℚ) : Value ℚ :=
  if name = "t0" ∨ name = "t_end" then v.opposite else v

/-- Options with both ends of the domain turned round. -/
def mirrored : Value ℚ → Value ℚ
  | .record fields => .record (fields.map fun field => (field.1, turned field.1 field.2))
  | v => v

theorem opposite_opposite (v : Value ℚ) : v.opposite.opposite = v := by
  cases v <;> simp [opposite]

theorem turned_turned (name : String) (v : Value ℚ) : turned name (turned name v) = v := by
  unfold turned
  split
  · exact opposite_opposite v
  · rfl

theorem mirrored_mirrored (v : Value ℚ) : v.mirrored.mirrored = v := by
  cases v with
  | record fields =>
    unfold mirrored
    simp [Function.comp_def, turned_turned]
  | _ => rfl

theorem isRecord_mirrored (v : Value ℚ) : v.mirrored.isRecord = v.isRecord := by
  cases v <;> rfl

theorem field?_mirrored (v : Value ℚ) (name : String) :
    v.mirrored.field? name = (v.field? name).map (turned name) := by
  cases v with
  | record fields =>
    simp only [mirrored, field?, ← List.map_reverse, List.find?_map, Option.map_map,
      Function.comp_def]
    cases hfound : fields.reverse.find? fun field => field.1 == name with
    | none => rfl
    | some field =>
      have hname : field.1 = name := by simpa using List.find?_some hfound
      simp [hname]
  | _ => rfl

theorem option_mirrored (v : Value ℚ) (name : String) :
    v.mirrored.option name = turned name (v.option name) := by
  unfold option
  rw [field?_mirrored]
  cases v.field? name with
  | none =>
    unfold turned
    split <;> rfl
  | some w => rfl

/-- Fields other than the ends of the domain are what they were. -/
theorem field?_mirrored_of_ne (v : Value ℚ) {name : String} (h0 : name ≠ "t0")
    (hEnd : name ≠ "t_end") : v.mirrored.field? name = v.field? name := by
  have hturned : turned name = id := by
    funext w
    unfold turned
    rw [if_neg (not_or.mpr ⟨h0, hEnd⟩)]
    rfl
  rw [field?_mirrored, hturned, Option.map_id]
  rfl

theorem option_mirrored_of_ne (v : Value ℚ) {name : String} (h0 : name ≠ "t0")
    (hEnd : name ≠ "t_end") : v.mirrored.option name = v.option name := by
  unfold option
  rw [v.field?_mirrored_of_ne h0 hEnd]

theorem requestedMethod_mirrored (options : Value ℚ) :
    Solution.requestedMethod options.mirrored = Solution.requestedMethod options := by
  unfold Solution.requestedMethod
  rw [options.field?_mirrored_of_ne (by decide) (by decide)]

end Value

/-- A parameter of the opposite sign. -/
def Parameter.opposite (p : Parameter ℚ) : Parameter ℚ := ⟨p.given.opposite, -p.real⟩

/-- A parameter of a name turned round, like a field of options. -/
def Parameter.turned (name : String) (p : Parameter ℚ) : Parameter ℚ :=
  if name = "t0" ∨ name = "t_end" then p.opposite else p

/-- Settings with the domain turned round. -/
def Settings.mirrored {σ : Type} (s : Settings ℚ σ) : Settings ℚ σ :=
  { s with t0 := -s.t0, tEnd := -s.tEnd }

/-- A verdict with the domain turned round. -/
def Verdict.mirrored {σ : Type} (v : Verdict ℚ σ) : Verdict ℚ σ :=
  ⟨v.result.map Settings.mirrored, v.warnings⟩

theorem Settings.mirrored_mirrored {σ : Type} (s : Settings ℚ σ) : s.mirrored.mirrored = s := by
  simp [Settings.mirrored]

theorem Verdict.mirrored_mirrored {σ : Type} (v : Verdict ℚ σ) : v.mirrored.mirrored = v := by
  obtain ⟨result, warnings⟩ := v
  cases result with
  | error rule => rfl
  | ok s =>
    show (⟨.ok s.mirrored.mirrored, warnings⟩ : Verdict ℚ σ) = _
    rw [Settings.mirrored_mirrored]

/-! ## Parameters -/

namespace Value

theorem parameter?_opposite (v : Value ℚ) :
    v.opposite.parameter? = Option.map Parameter.opposite <$> v.parameter? := by
  cases v with
  | whole n =>
    show Except.ok (some _) = Except.ok (some _)
    simp [Parameter.opposite, Number.opposite]
  | _ => rfl

theorem parameter?_turned (name : String) (v : Value ℚ) :
    (turned name v).parameter? = Option.map (Parameter.turned name) <$> v.parameter? := by
  unfold turned Parameter.turned
  by_cases hname : name = "t0" ∨ name = "t_end"
  · simp only [if_pos hname]
    exact parameter?_opposite v
  · simp only [if_neg hname]
    show v.parameter? = Option.map id <$> v.parameter?
    rw [Option.map_id, id_map]

/-- Fields in a mirror are parameters turned round. -/
theorem parameters?_mirrored (names : List String) (options : Value ℚ) :
    parameters? (names.map options.mirrored.option) =
      Option.map (List.zipWith Parameter.turned names) <$>
        parameters? (names.map options.option) := by
  induction names with
  | nil => rfl
  | cons name names ih =>
    rw [List.map_cons, List.map_cons, parameters?, parameters?, option_mirrored,
      parameter?_turned, ih]
    rcases (options.option name).parameter? with e | _ | p
    · rfl
    · rfl
    · rcases parameters? (names.map options.option) with e | _ | ps <;> rfl

end Value

/-! ## Rules and advice -/

theorem Advice.single_opposite (step t0 tEnd : Number ℚ) :
    single step t0.opposite tEnd.opposite = single step t0 tEnd := by
  unfold single
  rw [Number.sub_opposite, bind_map_left]
  simp only [Number.magnitude_opposite]

theorem Advice.coupled_opposite (step t0 tEnd : Number ℚ) :
    coupled step t0.opposite tEnd.opposite = coupled step t0 tEnd := by
  unfold coupled
  rw [Number.sub_opposite, bind_map_left]
  simp only [Number.magnitude_opposite]

namespace Settings

theorem checkBounds_opposite (c : Config ℚ) (t0 tEnd step : Number ℚ) :
    checkBounds c t0.opposite tEnd.opposite step = checkBounds c t0 tEnd step := by
  unfold checkBounds
  rw [Number.sub_opposite, Number.same_opposite, bind_map_left]
  simp only [Number.magnitude_opposite]

theorem iterationCap?_mirrored (options : Value ℚ) :
    iterationCap? options.mirrored = iterationCap? options := by
  unfold iterationCap?
  rw [options.field?_mirrored_of_ne (by decide) (by decide)]

/-- The shared rules in a mirror. -/
theorem settle_mirrored {σ : Type} (c : Config ℚ) (options : Value ℚ) (t0 tEnd step : Parameter ℚ)
    (y0 : σ) (tooLarge? : Except Foreign (Option Violation))
    {judge : Number ℚ → Number ℚ → Number ℚ → Except Foreign (Advice ℚ)}
    (hjudge : ∀ s a b, judge s a.opposite b.opposite = judge s a b) :
    settle c options.mirrored t0.opposite tEnd.opposite step y0 tooLarge? judge =
      Verdict.mirrored <$> settle c options t0 tEnd step y0 tooLarge? judge := by
  unfold settle
  show (checkBounds c t0.given.opposite tEnd.given.opposite step.given >>= _) = _
  rw [checkBounds_opposite, iterationCap?_mirrored]
  rcases checkBounds c t0.given tEnd.given step.given with e | _ | v
  · rfl
  · rcases tooLarge? with e | _ | v
    · rfl
    · cases iterationCap? options with
      | none => rfl
      | some cap =>
        show (judge step.given t0.given.opposite tEnd.given.opposite >>= _) =
          Verdict.mirrored <$> (judge step.given t0.given tEnd.given >>= _)
        rw [hjudge]
        cases judge step.given t0.given tEnd.given with
        | error e => rfl
        | ok a =>
          rcases hadvice : takeAdvice c a with v | warnings
          all_goals
            simp only [bind, Except.bind, hadvice]
            rfl
    · rfl
  · rfl

/-! ## Single equations and coupled systems -/

/-- **Options of a single equation in a mirror** have the mirrored verdict. -/
theorem single_mirrored (c : Config ℚ) (options : Value ℚ) :
    single c options.mirrored = Verdict.mirrored <$> single c options := by
  unfold single
  rw [Value.isRecord_mirrored]
  cases options.isRecord with
  | false => rfl
  | true =>
    simp only [Bool.not_true, Bool.false_eq_true, if_false]
    have hmirrored :=
      Value.parameters?_mirrored ["t0", "y0", "t_end", "step_size"] options
    rcases hps : Value.parameters? (["t0", "y0", "t_end", "step_size"].map options.option)
      with e | _ | ps
    · rw [hmirrored, hps]
      rfl
    · rw [hmirrored, hps]
      rfl
    · have hlength := (Value.parameters?_eq_some.mp hps).length_eq
      match ps, hlength with
      | [t0, y0, tEnd, step], _ =>
        have hturned : List.zipWith Parameter.turned ["t0", "y0", "t_end", "step_size"]
            [t0, y0, tEnd, step] = [t0.opposite, y0, tEnd.opposite, step] := by
          simp [Parameter.turned]
        rw [hmirrored, hps]
        show (Except.ok (some (List.zipWith Parameter.turned _ _)) >>= _) = _
        rw [hturned]
        exact settle_mirrored c options t0 tEnd step y0.real _ Advice.single_opposite

/-- **Options of a coupled system in a mirror** have the mirrored verdict. -/
theorem coupled_mirrored (c : Config ℚ) (options : Value ℚ) :
    coupled c options.mirrored = Verdict.mirrored <$> coupled c options := by
  unfold coupled
  rw [Value.isRecord_mirrored]
  cases options.isRecord with
  | false => rfl
  | true =>
    simp only [Bool.not_true, Bool.false_eq_true, if_false]
    have hmirrored := Value.parameters?_mirrored ["t0", "t_end", "step_size"] options
    rcases hps : Value.parameters? (["t0", "t_end", "step_size"].map options.option)
      with e | _ | ps
    · rw [hmirrored, hps]
      rfl
    · rw [hmirrored, hps]
      rfl
    · have hlength := (Value.parameters?_eq_some.mp hps).length_eq
      match ps, hlength with
      | [t0, tEnd, step], _ =>
        have hturned : List.zipWith Parameter.turned ["t0", "t_end", "step_size"]
            [t0, tEnd, step] = [t0.opposite, tEnd.opposite, step] := by
          simp [Parameter.turned]
        rw [hmirrored, hps, options.option_mirrored_of_ne (by decide) (by decide)]
        show (Except.ok (some (List.zipWith Parameter.turned _ _)) >>= _) = _
        rw [hturned]
        show (row? (options.option "y0") >>= _) =
          Verdict.mirrored <$> (row? (options.option "y0") >>= _)
        rcases row? (options.option "y0") with e | _ | _ | ⟨v, items⟩
        · rfl
        · rfl
        · rfl
        · show (Value.parameters? (v :: items) >>= _) =
            Verdict.mirrored <$> (Value.parameters? (v :: items) >>= _)
          rcases Value.parameters? (v :: items) with e | _ | y0
          · rfl
          · rfl
          · exact settle_mirrored c options t0 tEnd step (y0.map (·.real)) _
              Advice.coupled_opposite

end Settings

end InitialValue
