/-
  Which options get a verdict.

  Checking options reads whole numbers as machine reals on the way, which fails for those that are
  out of range.  A value is readable unless it is such a number, and since checking stops at the
  first field that is no finite number, what counts are the fields up to that one
  (`Value.ReadInTurn`).  The state of a system must have a shape besides, for its length is asked
  first.

  All else in the rules answers, provided that the length of the domain can be told from its limit
  (`Config.Tells`): it does where the limit is a finite number, as it is by default.  Infinite limits
  and those that are out of range themselves let lengths pass that are out of range, or cannot be
  written into a message.

  1. **Numbers** — `Number.isFinite_answers_iff`, `Number.fits_of_lt`.
  2. **Values** — `Value.isFiniteNumber_answers_iff`, `Value.parameters?_answers_iff`.
  3. **Rules** — `Settings.checkBounds_answers`, `Settings.settle_answers`.
  4. **Verdicts** — `Settings.verdict_iff`.
-/
import InitialValue.Proofs.Binary.Arithmetic
import InitialValue.Proofs.Number.Faithful
import InitialValue.Proofs.Shape
import InitialValue.Proofs.Solver.SystemOptions
import InitialValue.Proofs.Solver.Wording

namespace InitialValue

open Level (exact)

/-! ## Numbers -/

namespace Binary

open Float.Model.UnpackedFloat

/-- **A machine real is in the range** of machine reals. -/
theorem abs_lt_range {x : Float} {q : ℚ} (h : value? x = some q) : |q| < range := by
  have hvalue := valueOf_unpack h
  have hcanonical := canonical_unpack x
  generalize x.toModel.unpack = u at hvalue hcanonical
  cases u with
  | infinity s => cases hvalue
  | notANumber => cases hvalue
  | zero s =>
    cases hvalue
    rw [abs_zero]
    unfold range
    positivity
  | finite s m e hm =>
    cases hvalue
    obtain ⟨hlt, -, hmax, -⟩ := hcanonical
    have hpow : (2 : ℚ) ^ e ≤ 2 ^ (971 : ℤ) := zpow_le_zpow_right₀ one_le_two hmax
    have hmant : (m : ℚ) < 2 ^ 53 - 1 / 2 := by
      have : (m : ℚ) + 1 ≤ 2 ^ 53 := by exact_mod_cast hlt
      linarith
    have hpos : (0 : ℚ) < 2 ^ e := zpow_pos two_pos e
    calc |((s.apply m : ℤ) : ℚ) * 2 ^ e| = m * 2 ^ e := by
          rw [abs_mul, abs_of_pos hpos]
          cases s <;> simp [Sign.apply]
      _ ≤ m * 2 ^ (971 : ℤ) := mul_le_mul_of_nonneg_left hpow (Nat.cast_nonneg m)
      _ < range := mul_lt_mul_of_pos_right hmant (by positivity)

/-- A finite machine real has an exact value. -/
theorem value_of_isFinite {x : Float} (h : x.isFinite = true) : ∃ q, value? x = some q := by
  cases hx : value? x with
  | some q => exact ⟨q, rfl⟩
  | none =>
    obtain ⟨q, hq⟩ := (isFinite_iff x).mp h
    rcases level_of_no_value hx with ⟨hlevel, -⟩ | ⟨hlevel | hlevel, -⟩ <;> rw [hlevel] at hq
    · cases hq
    · exact absurd (Option.some.inj hq) (Level.top_ne_exact q)
    · exact absurd (Option.some.inj hq) (Level.bot_ne_exact q)

end Binary

namespace Number

variable {a b : Number Float}

/-- Whether a number is finite can be told of numbers that have a machine real. -/
theorem isFinite_answers_iff (a : Number Float) : (∃ b, a.isFinite = .ok b) ↔ a.Fits := by
  cases a with
  | real x => exact iff_of_true ⟨_, rfl⟩ (fits_real x)
  | whole n =>
    constructor
    · rintro ⟨b, hb⟩
      obtain ⟨x, hx, -⟩ := bind_eq_ok.mp hb
      exact ⟨x, hx⟩
    · rintro ⟨x, hx⟩
      exact ⟨true, bind_eq_ok.mpr ⟨x, hx, rfl⟩⟩

/-- A finite number is one whose machine real is finite. -/
theorem isFinite_iff : a.isFinite = .ok true ↔ ∃ x, a.toReal = .ok x ∧ Scalar.isFinite x = true := by
  cases a with
  | real x =>
    constructor
    · intro h
      exact ⟨x, rfl, Except.ok.inj h⟩
    · rintro ⟨y, hy, h⟩
      cases hy
      exact congrArg Except.ok h
  | whole n =>
    constructor
    · intro h
      obtain ⟨x, hx, -⟩ := bind_eq_ok.mp h
      refine ⟨x, hx, ?_⟩
      -- only finite machine reals are given for whole numbers
      change (Binary.ofInt? n).elim (Except.error Foreign.outOfRange) Except.ok = _ at hx
      unfold Binary.ofInt? at hx
      dsimp only at hx
      split at hx
      · rename_i hfinite
        cases hx
        exact hfinite
      · cases hx
    · rintro ⟨x, hx, -⟩
      exact bind_eq_ok.mpr ⟨x, hx, rfl⟩

theorem fits_of_isFinite (h : a.isFinite = .ok true) : a.Fits :=
  (isFinite_answers_iff a).mp ⟨true, h⟩

/-- A finite number is a rational in range. -/
theorem worth_of_isFinite (h : a.isFinite = .ok true) : ∃ q, a.Worth q ∧ |q| < Binary.range := by
  cases a with
  | whole n =>
    refine ⟨n, Worth.whole n, ?_⟩
    have hfits := (fits_whole_iff n).mp (fits_of_isFinite h)
    rwa [← Int.cast_abs, ← Int.natCast_natAbs, Int.cast_natCast]
  | real x =>
    obtain ⟨q, hq⟩ := Binary.value_of_isFinite (Except.ok.inj h)
    exact ⟨q, Binary.level_of_value hq, Binary.abs_lt_range hq⟩

/-- **What is below a finite number** and positive is in range. -/
theorem fits_of_lt (hpos : (Number.whole 0).lt a = true) (hb : b.isFinite = .ok true)
    (h : a.lt b = true) : a.Fits := by
  cases a with
  | real x => exact fits_real x
  | whole n =>
    obtain ⟨q, hq, hrange⟩ := worth_of_isFinite hb
    have hn : (0 : ℚ) < n := by
      have := ((Worth.whole 0).lt_iff (Worth.whole n)).mp hpos
      exact_mod_cast this
    have hnq : (n : ℚ) < q := ((Worth.whole n).lt_iff hq).mp h
    rw [fits_whole_iff, Nat.cast_natAbs, Int.cast_abs, abs_of_pos hn]
    exact hnq.trans (lt_of_abs_lt hrange)

/-- What is not above a finite number and not negative is in range. -/
theorem fits_of_not_lt {a b : Number Float} (ha : a.isFinite = .ok true)
    (h : a.lt b.magnitude = false) : b.Fits := by
  cases b with
  | real x => exact fits_real x
  | whole n =>
    obtain ⟨q, hq, hrange⟩ := worth_of_isFinite ha
    have hworth := magnitude_worth (α := Float) (Worth.whole n)
    rw [fits_whole_iff, Nat.cast_natAbs, Int.cast_abs]
    refine lt_of_le_of_lt (not_lt.mp fun hlt => ?_) (lt_of_abs_lt hrange)
    rw [(hq.lt_iff hworth).mpr hlt] at h
    cases h

theorem isFinite_magnitude (h : a.isFinite = .ok true) : a.magnitude.isFinite = .ok true := by
  cases a with
  | whole n =>
    obtain ⟨x, hx⟩ := fits_magnitude (fits_of_isFinite h)
    exact bind_eq_ok.mpr ⟨x, hx, rfl⟩
  | real x =>
    obtain ⟨q, hq⟩ := (Binary.isFinite_iff x).mp (Except.ok.inj h)
    exact congrArg Except.ok ((Binary.isFinite_iff x.abs).mpr ⟨_, Binary.level_abs hq⟩)

/-- The difference of numbers in range can be told. -/
theorem sub_answers (ha : a.Fits) (hb : b.Fits) : ∃ d, a.sub b = .ok d := by
  obtain ⟨x, hx⟩ := ha
  obtain ⟨y, hy⟩ := hb
  have hreal : (do return .real ((← a.toReal) - (← b.toReal)) : Except Foreign (Number Float)) =
      .ok (.real (x - y)) := by
    rw [hx, hy]
    rfl
  cases a with
  | real _ => exact ⟨_, hreal⟩
  | whole m =>
    cases b with
    | real _ => exact ⟨_, hreal⟩
    | whole n => exact ⟨_, rfl⟩

theorem limitText_answers (h : a.Fits) : ∃ text, a.limitText = .ok text := by
  obtain ⟨x, hx⟩ := h
  exact ⟨_, bind_eq_ok.mpr ⟨x, hx, rfl⟩⟩

end Number

/-! ## Values -/

namespace Value

/-- A whole number that no machine real stands for cannot be read; all else can. -/
def Readable (v : Value Float) : Prop := ∀ n, v = .whole n → (n.natAbs : ℚ) < Binary.range

/-- Every value up to the first that is no finite number can be read. -/
def ReadInTurn (vs : List (Value Float)) : Prop :=
  ∀ before v after, vs = before ++ v :: after → (∀ w ∈ before, w.isFiniteNumber = .ok true) →
    v.Readable

variable {v : Value Float} {vs : List (Value Float)}

theorem readable_iff : v.Readable ↔ ∀ a, v.number? = some a → a.Fits := by
  constructor
  · intro h a ha
    cases v <;> cases ha
    · exact (Number.fits_whole_iff _).mpr (h _ rfl)
    · exact Number.fits_real _
  · rintro h n rfl
    exact (Number.fits_whole_iff n).mp (h _ rfl)

theorem readInTurn_nil : ReadInTurn [] := by
  intro before v after h
  exact absurd h.symm (by simp)

theorem readInTurn_cons :
    ReadInTurn (v :: vs) ↔ v.Readable ∧ (v.isFiniteNumber = .ok true → ReadInTurn vs) := by
  constructor
  · intro h
    refine ⟨h [] v vs rfl (by simp), fun hv before w after hvs hbefore => ?_⟩
    exact h (v :: before) w after (by rw [hvs, List.cons_append])
      (List.forall_mem_cons.mpr ⟨hv, hbefore⟩)
  · rintro ⟨hv, hvs⟩ before w after h hbefore
    cases before with
    | nil =>
      cases h
      exact hv
    | cons u before =>
      cases h
      obtain ⟨hu, hbefore⟩ := List.forall_mem_cons.mp hbefore
      exact hvs hu before w after rfl hbefore

theorem readInTurn_of_forall (h : ∀ v ∈ vs, v.Readable) : ReadInTurn vs := by
  rintro before v after rfl -
  exact h v (by simp)

/-- **Whether a value is a finite number** can be told of readable values. -/
theorem isFiniteNumber_answers_iff (v : Value Float) :
    (∃ b, v.isFiniteNumber = .ok b) ↔ v.Readable := by
  rw [readable_iff]
  unfold isFiniteNumber
  cases v.number? with
  | none => exact iff_of_true ⟨false, rfl⟩ (fun _ h => by cases h)
  | some a => simpa using Number.isFinite_answers_iff a

theorem parameter?_answers_iff (v : Value Float) :
    (∃ p?, v.parameter? = .ok p?) ↔ v.Readable := by
  rw [readable_iff]
  unfold parameter?
  cases v.number? with
  | none => exact iff_of_true ⟨none, rfl⟩ (fun _ h => by cases h)
  | some a =>
    constructor
    · rintro ⟨p?, hp⟩ b hb
      cases hb
      obtain ⟨x, hx, -⟩ := bind_eq_ok.mp hp
      exact ⟨x, hx⟩
    · intro h
      obtain ⟨x, hx⟩ := h a rfl
      exact ⟨_, bind_eq_ok.mpr ⟨x, hx, rfl⟩⟩

/-- Finite numbers are what makes a parameter. -/
theorem isFiniteNumber_iff (v : Value Float) :
    v.isFiniteNumber = .ok true ↔ ∃ p, v.parameter? = .ok (some p) := by
  unfold isFiniteNumber
  constructor
  · intro h
    cases ha : v.number? with
    | none =>
      rw [ha] at h
      cases h
    | some a =>
      rw [ha] at h
      obtain ⟨x, hx, hfinite⟩ := Number.isFinite_iff.mp h
      exact ⟨⟨a, x⟩, parameter?_eq_some.mpr ⟨ha, hx, hfinite⟩⟩
  · rintro ⟨p, hp⟩
    obtain ⟨ha, hx, hfinite⟩ := parameter?_eq_some.mp hp
    rw [ha]
    exact Number.isFinite_iff.mpr ⟨p.real, hx, hfinite⟩

/-- **Parameters** can be read if the values up to the first that is none can. -/
theorem parameters?_answers_iff (vs : List (Value Float)) :
    (∃ ps?, parameters? vs = .ok ps?) ↔ ReadInTurn vs := by
  induction vs with
  | nil => exact iff_of_true ⟨_, rfl⟩ readInTurn_nil
  | cons v vs ih =>
    rw [readInTurn_cons, ← parameter?_answers_iff, isFiniteNumber_iff, ← ih]
    constructor
    · rintro ⟨ps?, h⟩
      obtain ⟨p?, hp, h⟩ := bind_eq_ok.mp h
      refine ⟨⟨p?, hp⟩, ?_⟩
      rintro ⟨p, hp'⟩
      obtain rfl : p? = some p := Except.ok.inj (hp.symm.trans hp')
      obtain ⟨qs?, hqs, -⟩ := bind_eq_ok.mp h
      exact ⟨qs?, hqs⟩
    · rintro ⟨⟨_ | p, hp⟩, hvs⟩
      · exact ⟨none, bind_eq_ok.mpr ⟨none, hp, rfl⟩⟩
      · obtain ⟨_ | qs, hqs⟩ := hvs ⟨p, hp⟩
        · exact ⟨none, bind_eq_ok.mpr ⟨some p, hp, bind_eq_ok.mpr ⟨none, hqs, rfl⟩⟩⟩
        · exact ⟨_, bind_eq_ok.mpr ⟨some p, hp, bind_eq_ok.mpr ⟨some qs, hqs, rfl⟩⟩⟩

/-- All of the values are parameters if they are finite numbers. -/
theorem parameters?_some_iff (vs : List (Value Float)) :
    (∃ ps, parameters? vs = .ok (some ps)) ↔ ∀ v ∈ vs, v.isFiniteNumber = .ok true := by
  induction vs with
  | nil => exact iff_of_true ⟨[], rfl⟩ (by simp)
  | cons v vs ih =>
    rw [List.forall_mem_cons, isFiniteNumber_iff, ← ih]
    constructor
    · rintro ⟨ps, h⟩
      obtain ⟨p, qs, hp, hqs, -⟩ := parameters?_cons.mp h
      exact ⟨⟨p, hp⟩, qs, hqs⟩
    · rintro ⟨⟨p, hp⟩, qs, hqs⟩
      exact ⟨p :: qs, parameters?_cons.mpr ⟨p, qs, hp, hqs, rfl⟩⟩

theorem parameters?_mem {ps : List (Parameter Float)} (h : parameters? vs = .ok (some ps))
    {p : Parameter Float} (hp : p ∈ ps) : ∃ v ∈ vs, v.parameter? = .ok (some p) := by
  induction vs generalizing ps with
  | nil =>
    cases h
    cases hp
  | cons v vs ih =>
    obtain ⟨q, qs, hq, hqs, rfl⟩ := parameters?_cons.mp h
    rcases List.mem_cons.mp hp with rfl | hp
    · exact ⟨v, List.mem_cons_self, hq⟩
    · obtain ⟨w, hw, hwp⟩ := ih hqs hp
      exact ⟨w, List.mem_cons_of_mem v hw, hwp⟩

end Value

/-! ## Rules -/

/-- The length of the domain can be told: its limit is a finite number, or else the length is. -/
def Config.Tells (c : Config Float) (options : Value Float) : Prop :=
  c.maxDomainLength.isFinite = .ok true ∨
    ∀ a b length, (options.option "t0").number? = some a → (options.option "t_end").number? = some b →
      b.sub a = .ok length → length.isFinite = .ok true

namespace Settings

variable {c : Config Float} {options : Value Float} {t0 tEnd step : Parameter Float}

/-- A limit that would have to be written into a message, and can be, is judged. -/
theorem limit_answers {limit : Number Float} {rule : String → Violation} {exceeded : Bool}
    (h : exceeded = true → limit.Fits) :
    ∃ v?, (if exceeded = true then do return some (rule (← limit.limitText)) else return none) =
      (.ok v? : Except Foreign (Option Violation)) := by
  cases exceeded with
  | false => exact ⟨none, rfl⟩
  | true =>
    obtain ⟨text, htext⟩ := Number.limitText_answers (h rfl)
    exact ⟨_, bind_eq_ok.mpr ⟨text, htext, rfl⟩⟩

section

variable {t0 tEnd step length : Number Float} (hlength : tEnd.sub t0 = .ok length)
  (htells : c.maxDomainLength.isFinite = .ok true ∨ length.isFinite = .ok true)

include hlength htells

/-- **The bounds are judged** where the length of the domain can be told. -/
theorem checkBounds_answers (hpos : (Number.whole 0).lt c.maxDomainLength = true) :
    ∃ v?, checkBounds c t0 tEnd step = .ok v? := by
  have hfits : c.maxDomainLength.lt length.magnitude = true → c.maxDomainLength.Fits := by
    intro hlt
    rcases htells with hlimit | hfinite
    · exact Number.fits_of_isFinite hlimit
    · exact Number.fits_of_lt hpos (Number.isFinite_magnitude hfinite) hlt
  unfold checkBounds
  rw [hlength]
  dsimp only [bind, Except.bind]
  split_ifs with hstep hlong hempty hlt
  · exact ⟨_, rfl⟩
  · exact ⟨_, rfl⟩
  · exact ⟨_, rfl⟩
  · obtain ⟨text, htext⟩ := Number.limitText_answers (hfits hlt)
    exact ⟨_, bind_eq_ok.mpr ⟨text, htext, rfl⟩⟩
  · exact ⟨_, rfl⟩

/-- A domain that is not too long has a length in range. -/
theorem length_fits_of_bounds (hbounds : checkBounds c t0 tEnd step = .ok none) : length.Fits := by
  obtain ⟨d, hd, -, -, -, hlt⟩ := checkBounds_eq_none.mp hbounds
  obtain rfl : d = length := Except.ok.inj (hd.symm.trans hlength)
  rcases htells with hlimit | hfinite
  · exact Number.fits_of_not_lt hlimit hlt
  · exact Number.fits_of_isFinite hfinite

end

/-- **The rules from the bounds on** are judged if the bounds are, the initial state is, and, where
    the bounds are kept, the step size. -/
theorem settle_answers {σ : Type} {y0 : σ} {tooLarge? : Except Foreign (Option Violation)}
    {judge : Number Float → Number Float → Number Float → Except Foreign (Advice Float)}
    (hbounds : ∃ v?, checkBounds c t0.given tEnd.given step.given = .ok v?)
    (hlarge : ∃ v?, tooLarge? = .ok v?)
    (hjudge : checkBounds c t0.given tEnd.given step.given = .ok none →
      ∃ a, judge step.given t0.given tEnd.given = .ok a) :
    ∃ verdict, settle c options t0 tEnd step y0 tooLarge? judge = .ok verdict := by
  unfold settle
  obtain ⟨_ | v, hbounds⟩ := hbounds
  · obtain ⟨_ | v, hlarge⟩ := hlarge
    · obtain ⟨a, ha⟩ := hjudge hbounds
      rw [hbounds, hlarge]
      dsimp only [bind, Except.bind]
      cases iterationCap? options with
      | none => exact ⟨_, rfl⟩
      | some cap =>
        dsimp only
        rw [ha]
        dsimp only
        cases takeAdvice c a with
        | error v => exact ⟨_, rfl⟩
        | ok warnings => exact ⟨_, rfl⟩
    · exact ⟨_, bind_eq_ok.mpr ⟨_, hbounds, bind_eq_ok.mpr ⟨_, hlarge, rfl⟩⟩⟩
  · exact ⟨_, bind_eq_ok.mpr ⟨_, hbounds, rfl⟩⟩

/-- **The shared rules are judged** for parameters whose domain has a length that can be told. -/
theorem settle_judged (hc : c.LimitsPositive) (htells : c.Tells options)
    (ht0 : (options.option "t0").parameter? = .ok (some t0))
    (htEnd : (options.option "t_end").parameter? = .ok (some tEnd))
    (hstep : (options.option "step_size").parameter? = .ok (some step))
    {σ : Type} {y0 : σ} {tooLarge? : Except Foreign (Option Violation)}
    (hlarge : ∃ v?, tooLarge? = .ok v?) :
    (∃ verdict, settle c options t0 tEnd step y0 tooLarge? Advice.single = .ok verdict) ∧
      ∃ verdict, settle c options t0 tEnd step y0 tooLarge? Advice.coupled = .ok verdict := by
  obtain ⟨hnumber0, hreal0, -⟩ := Value.parameter?_eq_some.mp ht0
  obtain ⟨hnumberEnd, hrealEnd, -⟩ := Value.parameter?_eq_some.mp htEnd
  obtain ⟨-, hrealStep, -⟩ := Value.parameter?_eq_some.mp hstep
  obtain ⟨length, hlength⟩ := Number.sub_answers ⟨_, hrealEnd⟩ ⟨_, hreal0⟩
  have htold : c.maxDomainLength.isFinite = .ok true ∨ length.isFinite = .ok true :=
    htells.imp_right fun h => h _ _ _ hnumber0 hnumberEnd hlength
  have hbounds : ∃ v?, checkBounds c t0.given tEnd.given step.given = .ok v? :=
    checkBounds_answers hlength htold hc.maxDomainLength
  constructor
  · refine settle_answers hbounds hlarge fun h => ?_
    obtain ⟨-, -, hle, -⟩ := checkBounds_passes h
    exact Advice.single_answers hlength (length_fits_of_bounds hlength htold h) ⟨_, hrealStep⟩
      (step_positive hstep hle)
  · refine settle_answers hbounds hlarge fun h => ?_
    exact Advice.coupled_answers hlength (length_fits_of_bounds hlength htold h)

/-! ## Verdicts -/

/-- A magnitude above the limit is that of a parameter, so the limit is in range. -/
theorem magnitude_limit_fits (hc : c.LimitsPositive) {v : Value Float} {p : Parameter Float}
    (hp : v.parameter? = .ok (some p)) (h : c.maxInitialMagnitude.lt p.given.magnitude = true) :
    c.maxInitialMagnitude.Fits := by
  obtain ⟨-, hreal, hfinite⟩ := Value.parameter?_eq_some.mp hp
  exact Number.fits_of_lt hc.maxInitialMagnitude
    (Number.isFinite_magnitude (Number.isFinite_iff.mpr ⟨_, hreal, hfinite⟩)) h

/-- **Options of a single equation** get a verdict exactly if their fields can be read in turn. -/
theorem single_answers_iff (hc : c.LimitsPositive) (htells : c.Tells options) :
    (∃ verdict, single c options = .ok verdict) ↔ (options.isRecord = true →
      Value.ReadInTurn (["t0", "y0", "t_end", "step_size"].map options.option)) := by
  unfold single
  cases hrecord : options.isRecord with
  | false => exact iff_of_true ⟨_, rfl⟩ (fun h => by cases h)
  | true =>
    rw [if_neg (by decide), ← Value.parameters?_answers_iff]
    constructor
    · rintro ⟨verdict, h⟩ -
      obtain ⟨ps?, hps, -⟩ := bind_eq_ok.mp h
      exact ⟨ps?, hps⟩
    · intro h
      obtain ⟨ps?, hps⟩ := h rfl
      rw [hps]
      dsimp only [bind, Except.bind]
      split
      · obtain ⟨ht0, hy0, htEnd, hstep⟩ := by
          simpa [Value.parameters?_eq_some] using hps
        exact (settle_judged hc htells ht0 htEnd hstep
          (limit_answers (magnitude_limit_fits hc hy0))).1
      · exact ⟨_, rfl⟩

theorem parameters_of_domain {ps : List (Parameter Float)}
    (h : Value.parameters? (["t0", "t_end", "step_size"].map options.option) = .ok (some ps)) :
    ∃ t0 tEnd step, ps = [t0, tEnd, step] ∧
      (options.option "t0").parameter? = .ok (some t0) ∧
      (options.option "t_end").parameter? = .ok (some tEnd) ∧
      (options.option "step_size").parameter? = .ok (some step) := by
  obtain ⟨t0, later, ht0, hlater, rfl⟩ := Value.parameters?_cons.mp h
  obtain ⟨tEnd, last, htEnd, hlast, rfl⟩ := Value.parameters?_cons.mp hlater
  obtain ⟨step, none, hstep, hnone, rfl⟩ := Value.parameters?_cons.mp hlast
  cases hnone
  exact ⟨t0, tEnd, step, rfl, ht0, htEnd, hstep⟩

/-- Whether a value is a row can be told if it has a shape. -/
theorem row?_answers_iff (v : Value Float) : (∃ row, row? v = .ok row) ↔ ∃ s, v.HasShape s := by
  rw [← Value.rowLength?_ok_iff]
  cases v with
  | list items =>
    constructor
    · rintro ⟨row, h⟩
      obtain ⟨n?, hn, -⟩ := bind_eq_ok.mp h
      exact ⟨n?, hn⟩
    · rintro ⟨n?, hn⟩
      exact ⟨_, bind_eq_ok.mpr ⟨n?, hn, rfl⟩⟩
  | _ => exact iff_of_true ⟨_, rfl⟩ ⟨_, rfl⟩

theorem row?_eq_some_iff {v : Value Float} {items : List (Value Float)} :
    row? v = .ok (some items) ↔ v = .list items ∧ ∃ n, v.HasShape [n] := by
  rw [row?_eq_some]
  refine and_congr_right ?_
  rintro rfl
  refine exists_congr fun n => ?_
  rw [Value.rowLength?, bind_eq_ok, ← Value.shape_eq_ok]
  constructor
  · rintro ⟨s, hs, h⟩
    split at h
    · cases h
      exact hs
    · cases h
  · intro h
    exact ⟨[n], h, rfl⟩

/-- **Options of a coupled system** get a verdict exactly if the fields of the domain can be read in
    turn and, if these are finite numbers, the initial state has a shape and the items of a row can
    be read in turn. -/
theorem coupled_answers_iff (hc : c.LimitsPositive) (htells : c.Tells options) :
    (∃ verdict, coupled c options = .ok verdict) ↔ (options.isRecord = true →
      Value.ReadInTurn (["t0", "t_end", "step_size"].map options.option) ∧
      ((∀ v ∈ ["t0", "t_end", "step_size"].map options.option, v.isFiniteNumber = .ok true) →
        (∃ s, (options.option "y0").HasShape s) ∧
        ∀ items n, options.option "y0" = .list items → (options.option "y0").HasShape [n] →
          Value.ReadInTurn items)) := by
  unfold coupled
  cases hrecord : options.isRecord with
  | false => exact iff_of_true ⟨_, rfl⟩ (fun h => by cases h)
  | true =>
    rw [if_neg (by decide), ← Value.parameters?_answers_iff, ← Value.parameters?_some_iff,
      ← row?_answers_iff]
    constructor
    · rintro ⟨verdict, h⟩ -
      obtain ⟨ps?, hps, h⟩ := bind_eq_ok.mp h
      refine ⟨⟨ps?, hps⟩, ?_⟩
      rintro ⟨ps, hps'⟩
      obtain rfl : ps? = some ps := Except.ok.inj (hps.symm.trans hps')
      obtain ⟨t0, tEnd, step, rfl, -⟩ := parameters_of_domain hps
      obtain ⟨row, hrow, h⟩ := bind_eq_ok.mp h
      -- the items are looked at only if they are a row
      refine ⟨⟨row, hrow⟩, fun items n hlist hshape => ?_⟩
      have hitems := row?_eq_some_iff.mpr ⟨hlist, n, hshape⟩
      obtain rfl : row = some items := Except.ok.inj (hrow.symm.trans hitems)
      cases items with
      | nil => exact Value.readInTurn_nil
      | cons v vs =>
        obtain ⟨y0?, hy0, -⟩ := bind_eq_ok.mp h
        exact (Value.parameters?_answers_iff _).mp ⟨y0?, hy0⟩
    · intro h
      obtain ⟨⟨ps?, hps⟩, hstate⟩ := h rfl
      rw [hps]
      cases ps? with
      | none => exact ⟨_, rfl⟩
      | some ps =>
        obtain ⟨t0, tEnd, step, rfl, ht0, htEnd, hstep⟩ := parameters_of_domain hps
        obtain ⟨⟨row, hrow⟩, hitems⟩ := hstate ⟨_, hps⟩
        dsimp only [bind, Except.bind]
        rw [hrow]
        dsimp only
        split
        · exact ⟨_, rfl⟩
        · exact ⟨_, rfl⟩
        · rename_i items _
          obtain ⟨hlist, n, hshape⟩ := row?_eq_some_iff.mp hrow
          obtain ⟨_ | y0, hy0⟩ :=
            (Value.parameters?_answers_iff items).mpr (hitems items n hlist hshape)
          · rw [hy0]
            exact ⟨_, rfl⟩
          · -- all numbers are read, and so is the limit that one of them exceeds
            rw [hy0]
            refine (settle_judged hc htells ht0 htEnd hstep (limit_answers fun h => ?_)).2
            obtain ⟨p, hp, hlarge⟩ := List.any_eq_true.mp h
            obtain ⟨v, -, hv⟩ := Value.parameters?_mem hy0 hp
            exact magnitude_limit_fits hc hv hlarge

/-- **Which options get a verdict.**  With a configuration that was read, and a domain whose length can
    be told, the options of a single equation get a verdict exactly if their four numbers can be read
    in turn, and those of a coupled system exactly if those of the domain can and, if these are finite
    numbers, the initial state has a shape and the items of a row can be read in turn.  Whether a
    value is a finite number can be told exactly of what is readable.  A refusal has words. -/
theorem verdict_iff {fields : List (String × Value Float)} {c : Config Float}
    (h : Config.ofFields fields = .ok c) (options : Value Float) (htells : c.Tells options) :
    ((∃ verdict, single c options = .ok verdict) ↔ (options.isRecord = true →
      Value.ReadInTurn (["t0", "y0", "t_end", "step_size"].map options.option))) ∧
    ((∃ verdict, coupled c options = .ok verdict) ↔ (options.isRecord = true →
      Value.ReadInTurn (["t0", "t_end", "step_size"].map options.option) ∧
      ((∀ v ∈ ["t0", "t_end", "step_size"].map options.option, v.isFiniteNumber = .ok true) →
        (∃ s, (options.option "y0").HasShape s) ∧
        ∀ items n, options.option "y0" = .list items → (options.option "y0").HasShape [n] →
          Value.ReadInTurn items))) ∧
    (∀ v : Value Float, (∃ b, v.isFiniteNumber = .ok b) ↔ v.Readable) ∧
    ∀ violation warnings, single c options = .ok ⟨.error violation, warnings⟩ ∨
      coupled c options = .ok ⟨.error violation, warnings⟩ → violation.message ≠ "" :=
  ⟨single_answers_iff (Config.limits_positive h) htells,
    coupled_answers_iff (Config.limits_positive h) htells, Value.isFiniteNumber_answers_iff,
    fun _ _ hrefused => hrefused.elim single_worded coupled_worded⟩

/-- A domain whose ends are in the range of machine reals and whose length is not. -/
def farApart : Value Float := .record [("t0", .whole (-10 ^ 308)), ("y0", .list [.real 1.0, .null]),
  ("t_end", .whole (10 ^ 308)), ("step_size", .real 0.5)]

theorem verdict_iff_farApart : Config.ofFields [] = .ok (Config.standard : Config Float) ∧
    (Config.standard : Config Float).Tells farApart ∧
    (∃ verdict, single Config.standard farApart = .ok verdict) ∧
    ∃ verdict, coupled Config.standard farApart = .ok verdict := by
  have htells : (Config.standard : Config Float).Tells farApart := Or.inl (by decide +kernel)
  have ht0 : (farApart.option "t0").Readable :=
    (Value.isFiniteNumber_answers_iff _).mp ⟨true, by decide +kernel⟩
  have hy0 : (farApart.option "y0").Readable :=
    (Value.isFiniteNumber_answers_iff _).mp ⟨false, by decide +kernel⟩
  have htEnd : (farApart.option "t_end").Readable :=
    (Value.isFiniteNumber_answers_iff _).mp ⟨true, by decide +kernel⟩
  have hstep : (farApart.option "step_size").Readable :=
    (Value.isFiniteNumber_answers_iff _).mp ⟨true, by decide +kernel⟩
  obtain ⟨hsingle, hcoupled, -⟩ := @verdict_iff [] _ rfl farApart htells
  refine ⟨rfl, htells, hsingle.mpr fun _ => ?_, hcoupled.mpr fun _ => ⟨?_, fun _ => ⟨?_, ?_⟩⟩⟩
  · exact Value.readInTurn_of_forall (by simp [ht0, hy0, htEnd, hstep])
  · exact Value.readInTurn_of_forall (by simp [ht0, htEnd, hstep])
  · exact ⟨[2], (Value.shape_eq_ok _).mp rfl⟩
  · intro items n hitems _
    cases hitems
    refine Value.readInTurn_of_forall fun v hv n h => ?_
    subst h
    simp at hv

/-- **Not all options get a verdict**, and not of all whole numbers it can be told whether they are
    finite. -/
theorem verdict_missing : (¬ ∀ v : Value Float, ∃ b, v.isFiniteNumber = .ok b) ∧
    (¬ ∀ options : Value Float, ∃ verdict, single Config.standard options = .ok verdict) ∧
    ¬ ∀ options : Value Float, ∃ verdict, coupled Config.standard options = .ok verdict := by
  have hhuge : (.whole (10 ^ 400) : Value Float).isFiniteNumber = .error .outOfRange := by
    decide +kernel
  have hnumber : ¬ ∃ b, (.whole (10 ^ 400) : Value Float).isFiniteNumber = .ok b := by
    rintro ⟨b, hb⟩
    rw [hhuge] at hb
    cases hb
  -- the first field is such a number, so no field can be read in turn
  let huge : Value Float := .record [("t0", .whole (10 ^ 400))]
  have htells : (Config.standard : Config Float).Tells huge := Or.inl (by decide +kernel)
  have hunread : ∀ names, ¬ Value.ReadInTurn (("t0" :: names).map huge.option) := fun names h =>
    hnumber ((Value.isFiniteNumber_answers_iff _).mpr (Value.readInTurn_cons.mp h).1)
  refine ⟨fun h => hnumber (h _), fun h => ?_, fun h => ?_⟩
  · exact hunread _ ((single_answers_iff Config.standard_limitsPositive htells).mp (h huge) rfl)
  · exact hunread _ ((coupled_answers_iff Config.standard_limitsPositive htells).mp (h huge) rfl).1

end Settings

end InitialValue
