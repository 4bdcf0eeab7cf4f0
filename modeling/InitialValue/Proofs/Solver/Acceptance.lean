/-
  What it means that a configuration or options were accepted.

  Checking tries rules in order and stops at the first broken one.  The lemmas here say the other
  half: options are accepted exactly when no rule is broken, and then the settings are the real
  values of the fields of the options.

  1. **Parameters** — `Value.parameter?_eq_some`, `Value.parameters?_eq_some`.
  2. **The shared rules** — `Settings.settle_accepts`, with `Settings.Passed` as the list of them;
     `Settings.takeAdvice_answers_iff` says which advice lets options pass.
  3. **Single equations and coupled systems** — `Settings.single_accepts`,
     `Settings.coupled_accepts`.
  4. **Refusals** — `Settings.single_refused`, `Settings.coupled_refused`: whatever is refused, is
     refused at one stage, before any warning.
  5. **Configurations** — `Config.limits_positive`: every limit of an accepted configuration is a
     positive number.
-/
import InitialValue.Proofs.Failing
import InitialValue.Proofs.Number.Order
import InitialValue.Solver.Settings

namespace InitialValue

/-! ## Fields -/

namespace Value

variable {α : Type} (fields : List (String × Value α)) (name : String) (v : Value α)

/-- Options in which a field is replaced. -/
def withField : Value α := .record (fields ++ [(name, v)])

theorem field?_withField : (withField fields name v).field? name = some v := by
  show ((fields ++ [(name, v)]).reverse.find? (·.1 == name)).map (·.2) = _
  rw [List.reverse_append]
  show (((name, v) :: fields.reverse).find? (·.1 == name)).map (·.2) = _
  rw [List.find?_cons_of_pos (by simp)]
  rfl

theorem field?_withField_of_ne {other : String} (h : other ≠ name) :
    (withField fields name v).field? other = (Value.record fields).field? other := by
  show ((fields ++ [(name, v)]).reverse.find? (·.1 == other)).map (·.2) =
    (fields.reverse.find? (·.1 == other)).map (·.2)
  rw [List.reverse_append]
  show (((name, v) :: fields.reverse).find? (·.1 == other)).map (·.2) = _
  rw [List.find?_cons_of_neg]
  simpa using h.symm

theorem option_withField : (withField fields name v).option name = v := by
  unfold option
  rw [field?_withField]
  rfl

theorem option_withField_of_ne {other : String} (h : other ≠ name) :
    (withField fields name v).option other = (Value.record fields).option other := by
  unfold option
  rw [field?_withField_of_ne fields name v h]

variable {name} {options : Value α}

/-- A field that is more than null was given. -/
theorem field?_of_ne_null (h : options.option name ≠ .null) :
    options.field? name = some (options.option name) := by
  unfold option at h ⊢
  cases hfield : options.field? name with
  | none =>
    rw [hfield] at h
    exact absurd rfl h
  | some v => rfl

/-- A field that is a number was given. -/
theorem field?_of_number? {n : Number α} (h : (options.option name).number? = some n) :
    options.field? name = some (options.option name) :=
  field?_of_ne_null fun hnull => by
    rw [hnull] at h
    cases h

end Value

variable {α σ : Type} [Scalar α]

/-! ## Parameters -/

namespace Value

/-- A number is converted as the number it is. -/
theorem toReal_of_number? {v : Value α} {n : Number α} (h : v.number? = some n) :
    v.toReal = n.toReal := by
  cases v <;> cases h <;> rfl

omit [Scalar α] in
theorem toNumber_of_number? {v : Value α} {n : Number α} (h : v.number? = some n) :
    v.toNumber = .ok n := by
  cases v <;> cases h <;> rfl

theorem parameter?_eq_some {v : Value α} {p : Parameter α} :
    v.parameter? = .ok (some p) ↔
      v.number? = some p.given ∧ p.given.toReal = .ok p.real ∧ Scalar.isFinite p.real = true := by
  obtain ⟨given, real⟩ := p
  unfold parameter?
  cases v.number? with
  | none => simp [pure_eq_ok]
  | some n =>
    simp only [bind_eq_ok, pure_eq_ok, Option.some.injEq]
    constructor
    · rintro ⟨x, hx, h⟩
      split at h
      · rename_i hfin
        cases h
        exact ⟨rfl, hx, hfin⟩
      · cases h
    · rintro ⟨rfl, hx, hfin⟩
      exact ⟨real, hx, by rw [if_pos hfin]⟩

/-- Parameters are read one by one. -/
theorem parameters?_cons {v : Value α} {vs : List (Value α)} {ps : List (Parameter α)} :
    parameters? (v :: vs) = .ok (some ps) ↔
      ∃ p qs, v.parameter? = .ok (some p) ∧ parameters? vs = .ok (some qs) ∧ ps = p :: qs := by
  rw [parameters?, bind_eq_ok]
  constructor
  · rintro ⟨_ | p, hp, h⟩
    · cases h
    · obtain ⟨_ | qs, hqs, h⟩ := bind_eq_ok.mp h
      · cases h
      · cases h
        exact ⟨p, qs, hp, hqs, rfl⟩
  · rintro ⟨p, qs, hp, hqs, rfl⟩
    exact ⟨some p, hp, bind_eq_ok.mpr ⟨some qs, hqs, rfl⟩⟩

theorem parameters?_eq_some {vs : List (Value α)} {ps : List (Parameter α)} :
    parameters? vs = .ok (some ps) ↔
      List.Forall₂ (fun v p => v.parameter? = .ok (some p)) vs ps := by
  induction vs generalizing ps with
  | nil =>
    rw [List.forall₂_nil_left_iff, parameters?, ok_eq_ok, Option.some.injEq, eq_comm]
  | cons v vs ih =>
    rw [parameters?_cons, List.forall₂_cons_left_iff]
    constructor
    · rintro ⟨p, qs, hp, hqs, rfl⟩
      exact ⟨p, qs, hp, ih.mp hqs, rfl⟩
    · rintro ⟨p, qs, hp, hqs, rfl⟩
      exact ⟨p, qs, hp, ih.mpr hqs, rfl⟩

end Value

/-! ## The shared rules -/

namespace Settings

/-- The rules from the bounds on, all of them kept: what `settle` has to find. -/
structure Passed (c : Config α) (options : Value α) (t0 tEnd step : Parameter α)
    (judge : Number α → Number α → Number α → Except Foreign (Advice α))
    (s : Settings α σ) (warnings : List String) : Prop where
  bounds : checkBounds c t0.given tEnd.given step.given = .ok none
  cap : iterationCap? options = some s.maxIterations
  advice : ∃ a, judge step.given t0.given tEnd.given = .ok a ∧ takeAdvice c a = .ok warnings
  t0 : s.t0 = t0.real
  tEnd : s.tEnd = tEnd.real
  stepSize : s.stepSize = step.real

/-- **Advice lets options pass** unless it is unfavourable and taken strictly. -/
theorem takeAdvice_answers_iff {c : Config α} {a : Advice α} :
    (∃ warnings, takeAdvice c a = .ok warnings) ↔
      (c.strictStepSize.holds = true → a.valid = true) := by
  unfold takeAdvice
  cases a.valid with
  | true =>
    rw [Bool.not_true, Bool.false_and, if_neg Bool.false_ne_true]
    refine iff_of_true ?_ fun _ => rfl
    cases a.warning <;> exact ⟨_, rfl⟩
  | false =>
    cases c.strictStepSize.holds with
    | true => exact iff_of_false (by rintro ⟨_, ⟨⟩⟩) fun h => Bool.false_ne_true (h rfl)
    | false =>
      rw [Bool.and_false, if_neg Bool.false_ne_true]
      refine iff_of_true ?_ fun h => absurd h Bool.false_ne_true
      cases a.warning <;> exact ⟨_, rfl⟩

/-- Favourable advice without words lets options pass in silence. -/
theorem takeAdvice_quiet {c : Config α} {a : Advice α} (hvalid : a.valid = true)
    (hwarning : a.warning = none) : takeAdvice c a = .ok [] := by
  unfold takeAdvice
  rw [hvalid, hwarning]
  rfl

theorem settle_accepts {c : Config α} {options : Value α} {t0 tEnd step : Parameter α} {y0 : σ}
    {tooLarge? : Except Foreign (Option Violation)}
    {judge : Number α → Number α → Number α → Except Foreign (Advice α)}
    {s : Settings α σ} {warnings : List String} :
    settle c options t0 tEnd step y0 tooLarge? judge = .ok ⟨.ok s, warnings⟩ ↔
      tooLarge? = .ok none ∧ s.y0 = y0 ∧ Passed c options t0 tEnd step judge s warnings := by
  obtain ⟨a0, aEnd, aStep, ay, cap⟩ := s
  unfold settle
  rw [bind_eq_ok]
  constructor
  · rintro ⟨_ | v, hbounds, h⟩
    · obtain ⟨_ | v, hsmall, h⟩ := bind_eq_ok.mp h
      · dsimp only at h
        cases hcap : iterationCap? options with
        | none =>
          rw [hcap] at h
          cases h
        | some n =>
          rw [hcap] at h
          obtain ⟨a, ha, h⟩ := bind_eq_ok.mp h
          cases htake : takeAdvice c a with
          | error v =>
            rw [htake] at h
            cases h
          | ok w =>
            rw [htake] at h
            cases h
            exact ⟨hsmall, rfl, hbounds, hcap, ⟨a, ha, htake⟩, rfl, rfl, rfl⟩
      · cases h
    · cases h
  · rintro ⟨hsmall, rfl, hbounds, hcap, ⟨a, ha, htake⟩, rfl, rfl, rfl⟩
    refine ⟨none, hbounds, bind_eq_ok.mpr ⟨none, hsmall, ?_⟩⟩
    dsimp only
    rw [hcap]
    refine bind_eq_ok.mpr ⟨a, ha, ?_⟩
    rw [htake]
    rfl

/-- A limit whose violation would be reported is kept. -/
theorem limit_kept {limit : Number α} {rule : String → Violation} {exceeded : Bool} :
    (if exceeded = true then do return some (rule (← limit.limitText)) else return none) =
        (.ok none : Except Foreign (Option Violation)) ↔ exceeded = false := by
  cases exceeded with
  | false => exact ⟨fun _ => rfl, fun _ => rfl⟩
  | true =>
    rw [if_pos rfl, bind_eq_ok]
    constructor
    · rintro ⟨text, -, h⟩
      cases h
    · intro h
      cases h

/-- **Bounds are kept** exactly when the length of the domain is a number within its limit, the step
    is positive and no longer than that, and the domain is not empty. -/
theorem checkBounds_eq_none {c : Config α} {t0 tEnd step : Number α} :
    checkBounds c t0 tEnd step = .ok none ↔
      ∃ length, tEnd.sub t0 = .ok length ∧ step.le (.whole 0) = false ∧
        length.magnitude.lt step = false ∧ t0.same tEnd = false ∧
        c.maxDomainLength.lt length.magnitude = false := by
  unfold checkBounds
  rw [bind_eq_ok]
  refine exists_congr fun length => and_congr_right fun _ => ?_
  dsimp only
  cases step.le (.whole 0) with
  | true => exact iff_of_false (fun h => by cases h) (fun h => by cases h.1)
  | false =>
    cases length.magnitude.lt step with
    | true => exact iff_of_false (fun h => by cases h) (fun h => by cases h.2.1)
    | false =>
      cases t0.same tEnd with
      | true => exact iff_of_false (fun h => by cases h) (fun h => by cases h.2.2.1)
      | false => simpa using limit_kept

/-- Bounds that are kept: the length of the domain is a number, the step is positive and no longer
    than that, and the domain is not empty. -/
theorem checkBounds_passes {c : Config α} {t0 tEnd step : Number α}
    (h : checkBounds c t0 tEnd step = .ok none) :
    ∃ length, tEnd.sub t0 = .ok length ∧ step.le (.whole 0) = false ∧
      length.magnitude.lt step = false ∧ t0.same tEnd = false := by
  obtain ⟨length, hlength, hpositive, hfits, hproper, -⟩ := checkBounds_eq_none.mp h
  exact ⟨length, hlength, hpositive, hfits, hproper⟩

/-! ## Single equations -/

/-- **Options of a single equation are accepted** exactly when the four numbers are finite, the
    initial value is within its limit and the shared rules are kept. -/
theorem single_accepts {c : Config α} {options : Value α} {s : Settings α α}
    {warnings : List String} :
    single c options = .ok ⟨.ok s, warnings⟩ ↔
      ∃ t0 y0 tEnd step : Parameter α,
        options.isRecord = true ∧
        (options.option "t0").parameter? = .ok (some t0) ∧
        (options.option "y0").parameter? = .ok (some y0) ∧
        (options.option "t_end").parameter? = .ok (some tEnd) ∧
        (options.option "step_size").parameter? = .ok (some step) ∧
        c.maxInitialMagnitude.lt y0.given.magnitude = false ∧
        s.y0 = y0.real ∧ Passed c options t0 tEnd step Advice.single s warnings := by
  unfold single
  cases hrec : options.isRecord with
  | false =>
    constructor
    · intro h
      cases h
    · rintro ⟨_, _, _, _, h, -⟩
      cases h
  | true =>
    rw [if_neg (by decide)]
    constructor
    · intro h
      obtain ⟨ps?, hps, h⟩ := bind_eq_ok.mp h
      split at h
      · rename_i t0 y0 tEnd step
        obtain ⟨hsmall, hy, hpassed⟩ := settle_accepts.mp h
        obtain ⟨ht0, hy0, htEnd, hstep⟩ := by
          simpa [Value.parameters?_eq_some] using hps
        refine ⟨t0, y0, tEnd, step, rfl, ht0, hy0, htEnd, hstep, limit_kept.mp hsmall, hy, hpassed⟩
      · cases h
    · rintro ⟨t0, y0, tEnd, step, -, ht0, hy0, htEnd, hstep, hsmall, hy, hpassed⟩
      refine bind_eq_ok.mpr ⟨some [t0, y0, tEnd, step], ?_, ?_⟩
      · rw [Value.parameters?_eq_some]
        exact .cons ht0 (.cons hy0 (.cons htEnd (.cons hstep .nil)))
      · exact settle_accepts.mpr ⟨limit_kept.mpr hsmall, hy, hpassed⟩

/-! ## Coupled systems -/

omit [Scalar α] in
theorem row?_eq_some {v : Value α} {items : List (Value α)} :
    row? v = .ok (some items) ↔ v = .list items ∧ ∃ n, v.rowLength? = .ok (some n) := by
  unfold row?
  split
  · rename_i xs
    rw [bind_eq_ok]
    constructor
    · rintro ⟨_ | n, hn, h⟩
      · cases h
      · cases h
        exact ⟨rfl, n, hn⟩
    · rintro ⟨h, n, hn⟩
      cases h
      exact ⟨some n, hn, rfl⟩
  · rename_i hlist
    constructor
    · intro h
      cases h
    · rintro ⟨h, -⟩
      exact absurd h (hlist items)

/-- **Options of a coupled system are accepted** exactly when the domain and the step are finite
    numbers, the initial state is a plain list of finite numbers, not empty and within its limit,
    and the shared rules are kept. -/
theorem coupled_accepts {c : Config α} {options : Value α} {s : Settings α (List α)}
    {warnings : List String} :
    coupled c options = .ok ⟨.ok s, warnings⟩ ↔
      ∃ (t0 tEnd step : Parameter α) (items : List (Value α)) (y0 : List (Parameter α)),
        options.isRecord = true ∧
        (options.option "t0").parameter? = .ok (some t0) ∧
        (options.option "t_end").parameter? = .ok (some tEnd) ∧
        (options.option "step_size").parameter? = .ok (some step) ∧
        row? (options.option "y0") = .ok (some items) ∧ items ≠ [] ∧
        Value.parameters? items = .ok (some y0) ∧
        (y0.any fun p => c.maxInitialMagnitude.lt p.given.magnitude) = false ∧
        s.y0 = y0.map (·.real) ∧ Passed c options t0 tEnd step Advice.coupled s warnings := by
  unfold coupled
  cases hrec : options.isRecord with
  | false =>
    constructor
    · intro h
      cases h
    · rintro ⟨_, _, _, _, _, h, -⟩
      cases h
  | true =>
    rw [if_neg (by decide)]
    constructor
    · intro h
      obtain ⟨ps?, hps, h⟩ := bind_eq_ok.mp h
      split at h
      · rename_i t0 tEnd step
        obtain ⟨ht0, htEnd, hstep⟩ := by
          simpa [Value.parameters?_eq_some] using hps
        obtain ⟨row, hrow, h⟩ := bind_eq_ok.mp h
        -- a state that is no row and an empty row are refused, so there are items
        split at h
        · cases h
        · cases h
        · rename_i items hne
          obtain ⟨_ | y0, hy0, h⟩ := bind_eq_ok.mp h
          · cases h
          · obtain ⟨hsmall, hy, hpassed⟩ := settle_accepts.mp h
            refine ⟨t0, tEnd, step, items, y0, rfl, ht0, htEnd, hstep, hrow, ?_, hy0,
              limit_kept.mp hsmall, hy, hpassed⟩
            rintro rfl
            exact hne rfl
      · cases h
    · rintro ⟨t0, tEnd, step, items, y0, -, ht0, htEnd, hstep, hrow, hne, hy0, hsmall, hy, hpassed⟩
      refine bind_eq_ok.mpr ⟨some [t0, tEnd, step], ?_, bind_eq_ok.mpr ⟨some items, hrow, ?_⟩⟩
      · rw [Value.parameters?_eq_some]
        exact .cons ht0 (.cons htEnd (.cons hstep .nil))
      · obtain ⟨v, vs, rfl⟩ := List.exists_cons_of_ne_nil hne
        exact bind_eq_ok.mpr ⟨some y0, hy0,
          settle_accepts.mpr ⟨limit_kept.mpr hsmall, hy, hpassed⟩⟩

/-! ## Refusals -/

/-- What the shared rules refuse options for, if the initial state is judged by `tooLarge?` and the
    step size by `judge`. -/
inductive Refuses (c : Config α) (options : Value α) (t0 tEnd step : Parameter α)
    (tooLarge? : Except Foreign (Option Violation))
    (judge : Number α → Number α → Number α → Except Foreign (Advice α)) : Violation → Prop
  | bounds {v} : checkBounds c t0.given tEnd.given step.given = .ok (some v) →
      Refuses c options t0 tEnd step tooLarge? judge v
  | state {v} : tooLarge? = .ok (some v) → Refuses c options t0 tEnd step tooLarge? judge v
  | cap : iterationCap? options = none →
      Refuses c options t0 tEnd step tooLarge? judge .badIterationCap
  | advice {a v} : judge step.given t0.given tEnd.given = .ok a → takeAdvice c a = .error v →
      Refuses c options t0 tEnd step tooLarge? judge v

variable {c : Config α} {options : Value α} {v : Violation} {warnings : List String}

/-- **The shared rules refuse** before any warning. -/
theorem settle_refused {t0 tEnd step : Parameter α} {y0 : σ}
    {tooLarge? : Except Foreign (Option Violation)}
    {judge : Number α → Number α → Number α → Except Foreign (Advice α)}
    (h : settle c options t0 tEnd step y0 tooLarge? judge = .ok ⟨.error v, warnings⟩) :
    Refuses c options t0 tEnd step tooLarge? judge v ∧ warnings = [] := by
  obtain ⟨_ | w, hbounds, h⟩ := bind_eq_ok.mp h
  · obtain ⟨_ | w, hstate, h⟩ := bind_eq_ok.mp h
    · dsimp only at h
      cases hcap : iterationCap? options with
      | none =>
        rw [hcap] at h
        cases h
        exact ⟨.cap hcap, rfl⟩
      | some n =>
        rw [hcap] at h
        obtain ⟨a, ha, h⟩ := bind_eq_ok.mp h
        cases htake : takeAdvice c a with
        | error w =>
          rw [htake] at h
          cases h
          exact ⟨.advice ha htake, rfl⟩
        | ok w =>
          rw [htake] at h
          cases h
    · cases h
      exact ⟨.state hstate, rfl⟩
  · cases h
    exact ⟨.bounds hbounds, rfl⟩

/-- What a limit on the initial state answers, whose violation is reported. -/
def overLimit (limit : Number α) (rule : String → Violation) (exceeded : Bool) :
    Except Foreign (Option Violation) :=
  if exceeded = true then do return some (rule (← limit.limitText)) else return none

/-- **Options of a single equation are refused** before any warning: unread, or by the shared
    rules. -/
theorem single_refused (h : single c options = .ok ⟨.error v, warnings⟩) :
    (v = .parametersNotFinite ∨ ∃ t0 tEnd step exceeded, Refuses c options t0 tEnd step
      (overLimit c.maxInitialMagnitude .initialValueTooLarge exceeded) Advice.single v) ∧
    warnings = [] := by
  unfold single at h
  split at h
  · cases h
    exact ⟨Or.inl rfl, rfl⟩
  · obtain ⟨ps?, -, h⟩ := bind_eq_ok.mp h
    split at h
    · obtain ⟨hrefuses, hsilent⟩ := settle_refused h
      exact ⟨Or.inr ⟨_, _, _, _, hrefuses⟩, hsilent⟩
    · cases h
      exact ⟨Or.inl rfl, rfl⟩

/-- **Options of a coupled system are refused** before any warning: unread, or by the shared
    rules. -/
theorem coupled_refused (h : coupled c options = .ok ⟨.error v, warnings⟩) :
    (v ∈ [.domainNotFinite, .noInitialState, .initialStateNotFinite] ∨
      ∃ t0 tEnd step exceeded, Refuses c options t0 tEnd step
        (overLimit c.maxInitialMagnitude .initialStateTooLarge exceeded) Advice.coupled v) ∧
    warnings = [] := by
  unfold coupled at h
  split at h
  · cases h
    exact ⟨Or.inl (by simp), rfl⟩
  · obtain ⟨ps?, -, h⟩ := bind_eq_ok.mp h
    split at h
    · obtain ⟨row, -, h⟩ := bind_eq_ok.mp h
      split at h
      · cases h
        exact ⟨Or.inl (by simp), rfl⟩
      · cases h
        exact ⟨Or.inl (by simp), rfl⟩
      · obtain ⟨_ | y0, -, h⟩ := bind_eq_ok.mp h
        · cases h
          exact ⟨Or.inl (by simp), rfl⟩
        · obtain ⟨hrefuses, hsilent⟩ := settle_refused h
          exact ⟨Or.inr ⟨_, _, _, _, hrefuses⟩, hsilent⟩
    · cases h
      exact ⟨Or.inl (by simp), rfl⟩

end Settings

/-! ## Configurations -/

namespace Config

/-- Every limit is a positive number. -/
structure LimitsPositive (c : Config α) : Prop where
  maxDomainLength : (Number.whole 0).lt c.maxDomainLength = true
  maxInitialMagnitude : (Number.whole 0).lt c.maxInitialMagnitude = true
  divergenceThreshold : (Number.whole 0).lt c.divergenceThreshold = true

theorem limit_positive {fields : Value α} {name : String} {default n : Number α}
    (hdefault : (Number.whole 0).lt default = true) (h : limit fields name default = .ok n) :
    (Number.whole 0).lt n = true := by
  unfold limit at h
  split at h
  · cases h
    exact hdefault
  · split at h
    · split at h
      · rename_i hpos
        cases h
        exact hpos
      · cases h
    · cases h

theorem ofFields_limitsPositive {fields : List (String × Value α)} {c : Config α}
    (hstandard : (standard : Config α).LimitsPositive) (h : ofFields fields = .ok c) :
    c.LimitsPositive := by
  unfold ofFields at h
  dsimp only at h
  split at h
  · cases h
  obtain ⟨length, hlength, h⟩ := bind_eq_ok.mp h
  obtain ⟨magnitude, hmagnitude, h⟩ := bind_eq_ok.mp h
  obtain ⟨threshold, hthreshold, h⟩ := bind_eq_ok.mp h
  cases h
  exact ⟨limit_positive hstandard.maxDomainLength hlength,
    limit_positive hstandard.maxInitialMagnitude hmagnitude,
    limit_positive hstandard.divergenceThreshold hthreshold⟩

theorem standard_limitsPositive : (standard : Config Float).LimitsPositive :=
  ⟨by decide +kernel, by decide +kernel, by decide +kernel⟩

/-- **Every configuration that is read has positive limits.** -/
theorem limits_positive {fields : List (String × Value Float)} {c : Config Float}
    (h : ofFields fields = .ok c) : c.LimitsPositive :=
  ofFields_limitsPositive standard_limitsPositive h

end Config

end InitialValue
