/-
  Which steps advice accepts.

  A step is usable if it is positive and no longer than the domain.  Advice accepts a step when none
  of its comparisons speaks against it, and no comparison speaks against what is undefined.  So
  nearly every step that is accepted is usable, and the ones that are not can be listed
  (`usable_unless_overlooked`): for a single equation they are those with an undefined quotient.

  1. **What is accepted** — `single_valid_iff` and `coupled_valid_iff` on machine reals.
  2. **What is overlooked** — `SingleOverlooks`, `CoupledOverlooks`, and the proof that these lists
     are complete.
-/
import InitialValue.Proofs.Binary.Quotient
import InitialValue.Proofs.StepSize.Advice

namespace InitialValue.Advice

open Binary (level value?)
open Level (exact order?)

/-- A step is usable: positive, and no longer than the domain. -/
def Usable (step length : Number Float) : Prop :=
  (Number.whole 0).lt step = true ∧ step.le length = true

/-! ## What is accepted -/

/-- The length of a domain of machine reals. -/
def lengthOf (t0 tEnd : Float) : Float := (tEnd - t0).abs

/-- A step for a single equation is accepted: it is zero and the domain not longer than that, or the
    number of steps is neither below nor above the bounds. -/
def SingleAccepts (h length : Float) : Prop :=
  if (Number.real h).same (.whole 0) then (Number.whole 0).lt (.real length) = false
  else Scalar.compareInt? (length / h) fewestSteps ≠ some .lt ∧
    Scalar.compareInt? (length / h) mostSteps ≠ some .gt

/-- A step for a coupled system is accepted: it is neither zero or below, nor longer than the
    domain. -/
def CoupledAccepts (h length : Float) : Prop :=
  (Number.real h).le (.whole 0) = false ∧ (Number.real length).lt (.real h) = false

section

variable (h length t0 tEnd : Float)

theorem tooLarge_refuses : ∃ a, tooLarge (.real length) = .ok a ∧ a.valid = false := by
  obtain ⟨x, hx⟩ := div_whole (Number.fits_real length) (k := 20) (by decide) ⟨20.0, by decide⟩
  exact ⟨_, bind_eq_ok.mpr ⟨x, hx, rfl⟩, rfl⟩

theorem tooSmall_refuses : ∃ a, tooSmall (.real length) = .ok a ∧ a.valid = false := by
  obtain ⟨x, hx⟩ := div_whole (Number.fits_real length) (k := 10000) (by decide)
    ⟨10000.0, by decide⟩
  exact ⟨_, bind_eq_ok.mpr ⟨x, hx, rfl⟩, rfl⟩

/-- The judge of a single equation on machine reals. -/
theorem single_valid_iff : ∃ a, single (.real h) (.real t0) (.real tEnd) = .ok a ∧
    (a.valid = true ↔ SingleAccepts h (lengthOf t0 tEnd)) := by
  have hsub : (Number.real tEnd).sub (.real t0) = .ok (.real (tEnd - t0)) := rfl
  have hmagnitude : (Number.real (tEnd - t0)).magnitude = .real (lengthOf t0 tEnd) := rfl
  have hlarge := tooLarge_refuses (lengthOf t0 tEnd)
  have hsmall := tooSmall_refuses (lengthOf t0 tEnd)
  unfold single SingleAccepts
  rw [hsub]
  simp only [bind, Except.bind, hmagnitude]
  generalize lengthOf t0 tEnd = length at hlarge hsmall
  cases hsame : (Number.real h).same (.whole 0) with
  | true =>
    simp only [if_true]
    cases (Number.whole 0).lt (.real length) with
    | true =>
      obtain ⟨a, ha, hvalid⟩ := hsmall
      exact ⟨a, ha, by simp [hvalid]⟩
    | false => exact ⟨silent, rfl, by simp [silent]⟩
  | false =>
    have hdiv : (Number.real length).div (.real h) = .ok (length / h) := by
      show (if (Number.real h).same (.whole 0) then _ else _) = _
      rw [hsame]
      rfl
    simp only [hdiv, Bool.false_eq_true, if_false, beq_iff_eq]
    by_cases hfew : Scalar.compareInt? (length / h) fewestSteps = some .lt
    · obtain ⟨a, ha, hvalid⟩ := hlarge
      exact ⟨a, by rw [if_pos hfew]; exact ha, by simp [hvalid, hfew]⟩
    · rw [if_neg hfew]
      by_cases hmost : Scalar.compareInt? (length / h) mostSteps = some .gt
      · obtain ⟨a, ha, hvalid⟩ := hsmall
        exact ⟨a, by rw [if_pos hmost]; exact ha, by simp [hvalid, hmost]⟩
      · rw [if_neg hmost]
        split
        · exact ⟨_, rfl, by simp [hfew, hmost]⟩
        · exact ⟨silent, rfl, by simp [silent, hfew, hmost]⟩

/-- The judge of a coupled system on machine reals. -/
theorem coupled_valid_iff : ∃ a, coupled (.real h) (.real t0) (.real tEnd) = .ok a ∧
    (a.valid = true ↔ CoupledAccepts h (lengthOf t0 tEnd)) := by
  have hsub : (Number.real tEnd).sub (.real t0) = .ok (.real (tEnd - t0)) := rfl
  have hmagnitude : (Number.real (tEnd - t0)).magnitude = .real (lengthOf t0 tEnd) := rfl
  have hdiv := fun k hk hfits => div_whole (Number.fits_real (lengthOf t0 tEnd)) (k := k) hk hfits
  obtain ⟨s10, h10⟩ := hdiv 10 (by decide) ⟨10.0, by decide⟩
  obtain ⟨s50, h50⟩ := hdiv 50 (by decide) ⟨50.0, by decide⟩
  obtain ⟨s100, h100⟩ := hdiv 100 (by decide) ⟨100.0, by decide⟩
  obtain ⟨s1000, h1000⟩ := hdiv 1000 (by decide) ⟨1000.0, by decide⟩
  obtain ⟨s100000, h100000⟩ := hdiv 100000 (by decide) ⟨100000.0, by decide⟩
  unfold coupled CoupledAccepts
  rw [hsub]
  simp only [bind, Except.bind, hmagnitude, h10, h50, h100, h1000, h100000]
  cases (Number.real h).le (.whole 0) with
  | true => exact ⟨_, rfl, by simp⟩
  | false =>
    cases (Number.real (lengthOf t0 tEnd)).lt (.real h) with
    | true => exact ⟨_, rfl, by simp⟩
    | false =>
      simp only [Bool.false_eq_true, if_false]
      split
      · exact ⟨_, rfl, by simp⟩
      · split
        · exact ⟨_, rfl, by simp⟩
        · exact ⟨_, rfl, by simp [silent]⟩

end

/-! ## What is overlooked -/

/-- The steps for a single equation that are accepted although they are not usable: the step or the
    length is undefined, both are zero, or both are infinite with opposite signs. -/
inductive SingleOverlooks (h length : Float) : Prop
  | undefinedStep : level h = none → SingleOverlooks h length
  | undefinedLength : level length = none → SingleOverlooks h length
  | zeros : level h = some (exact 0) → level length = some (exact 0) → SingleOverlooks h length
  | infinities : level h = some ⊥ → level length = some ⊤ → SingleOverlooks h length

/-- The steps for a coupled system that are accepted although they are not usable: the step is
    undefined, or it is positive and the length undefined. -/
inductive CoupledOverlooks (h length : Float) : Prop
  | undefinedStep : level h = none → CoupledOverlooks h length
  | undefinedLength : (Number.whole 0).lt (.real h) = true → level length = none →
      CoupledOverlooks h length

section

variable {h length : Float}

theorem same_zero_iff : (Number.real h).same (.whole 0) = true ↔ level h = some (exact 0) := by
  unfold Number.same
  rw [Number.compare?_eq, beq_iff_eq]
  show order? (level h) (some (exact ((0 : ℤ) : ℚ))) = some .eq ↔ _
  rw [Int.cast_zero]
  cases level h with
  | none => simp [order?]
  | some p => simp [order?]

theorem positive_iff :
    (Number.whole 0).lt (.real h) = true ↔ ∃ p, level h = some p ∧ exact 0 < p := by
  rw [Number.lt_iff]
  show (∃ p q, some (exact ((0 : ℤ) : ℚ)) = some p ∧ level h = some q ∧ p < q) ↔ _
  rw [Int.cast_zero]
  constructor
  · rintro ⟨_, q, ⟨⟩, hq, hlt⟩
    exact ⟨q, hq, hlt⟩
  · rintro ⟨q, hq, hlt⟩
    exact ⟨_, q, rfl, hq, hlt⟩

/-- A step is usable by where it stands and where the length does. -/
theorem usable_iff : Usable (.real h) (.real length) ↔
    ∃ p q, level h = some p ∧ level length = some q ∧ exact 0 < p ∧ p ≤ q := by
  unfold Usable
  rw [positive_iff, Number.le_iff]
  constructor
  · rintro ⟨⟨p, hp, hpos⟩, p', q, hp', hq, hle⟩
    obtain rfl : p' = p := Option.some.inj (hp'.symm.trans hp)
    exact ⟨p', q, hp, hq, hpos, hle⟩
  · rintro ⟨p, q, hp, hq, hpos, hle⟩
    exact ⟨⟨p, hp, hpos⟩, p, q, hp, hq, hle⟩

/-! ### A single equation -/

theorem same_zero_of_ne (hne : level h ≠ some (exact 0)) :
    (Number.real h).same (.whole 0) = false :=
  Bool.eq_false_iff.mpr fun htrue => hne (same_zero_iff.mp htrue)

/-- A zero step is accepted over an empty domain only. -/
theorem zero_accepted_iff (hh : level h = some (exact 0)) :
    SingleAccepts h length ↔ (Number.whole 0).lt (.real length) = false := by
  unfold SingleAccepts
  rw [if_pos (same_zero_iff.mpr hh)]

/-- A number of steps of one at most, or below zero, is too few. -/
theorem not_singleAccepts {p : Level} (hne : level h ≠ some (exact 0))
    (hcount : level (length / h) = some p) (hp : p ≤ exact 1) : ¬ SingleAccepts h length := by
  have hlt : p < exact ((fewestSteps : ℤ) : ℚ) :=
    hp.trans_lt (Level.exact_lt_exact.mpr (by norm_num [fewestSteps]))
  have hfew : Scalar.compareInt? (length / h) fewestSteps = some .lt := by
    show Binary.compareInt? (length / h) fewestSteps = some .lt
    rw [Binary.compareInt?_eq, hcount]
    exact Level.order?_lt_iff.mpr ⟨_, _, rfl, rfl, hlt⟩
  unfold SingleAccepts
  rw [same_zero_of_ne hne, if_neg Bool.false_ne_true]
  exact fun haccepts => haccepts.1 hfew

/-- An undefined number of steps is not compared with anything. -/
theorem singleAccepts_of_undefined (hne : level h ≠ some (exact 0))
    (hcount : level (length / h) = none) : SingleAccepts h length := by
  have hcompare : ∀ n : ℤ, Scalar.compareInt? (length / h) n = none := by
    intro n
    show Binary.compareInt? (length / h) n = none
    rw [Binary.compareInt?_eq, hcount]
    rfl
  unfold SingleAccepts
  rw [same_zero_of_ne hne, if_neg Bool.false_ne_true, hcompare, hcompare]
  exact ⟨by decide, by decide⟩

/-- What is overlooked is accepted. -/
theorem singleAccepts_of_overlooked (hoverlooks : SingleOverlooks h length) :
    SingleAccepts h length := by
  cases hoverlooks with
  | undefinedStep hh =>
    exact singleAccepts_of_undefined (by rw [hh]; simp)
      (Binary.level_div_undefined (Or.inr (Or.inl hh)))
  | undefinedLength hl =>
    by_cases hzero : level h = some (exact 0)
    · refine (zero_accepted_iff hzero).mpr (Bool.eq_false_iff.mpr fun htrue => ?_)
      obtain ⟨q, hq, -⟩ := positive_iff.mp htrue
      cases hl.symm.trans hq
    · exact singleAccepts_of_undefined hzero (Binary.level_div_undefined (Or.inl hl))
  | zeros hh hl =>
    refine (zero_accepted_iff hh).mpr (Bool.eq_false_iff.mpr fun htrue => ?_)
    obtain ⟨q, hq, hlt⟩ := positive_iff.mp htrue
    cases hl.symm.trans hq
    exact lt_irrefl _ hlt
  | infinities hh hl =>
    have hne : level h ≠ some (exact 0) := by
      rw [hh]
      exact fun heq => Level.bot_ne_exact 0 (Option.some.inj heq)
    exact singleAccepts_of_undefined hne (Binary.level_div_undefined (Or.inr (Or.inr ⟨hl, hh⟩)))

/-- What is overlooked is not usable. -/
theorem not_usable_of_singleOverlooks (hoverlooks : SingleOverlooks h length) :
    ¬ Usable (.real h) (.real length) := by
  rw [usable_iff]
  rintro ⟨p, q, hp, hq, hpos, hle⟩
  cases hoverlooks with
  | undefinedStep hh => cases hh.symm.trans hp
  | undefinedLength hl => cases hl.symm.trans hq
  | zeros hh _ =>
    cases hh.symm.trans hp
    exact lt_irrefl _ hpos
  | infinities hh _ =>
    cases hh.symm.trans hp
    exact not_lt_bot hpos

section

variable {p q : Level} (hh : level h = some p) (hl : level length = some q)

include hh hl

/-- Below zero, the number of steps is too, unless there is none. -/
theorem negative_refused (hsign : Binary.signIn length.toModel.unpack = .positive)
    (hneg : p < exact 0) (hinfinite : q = ⊤ → p ≠ ⊥) : ¬ SingleAccepts h length := by
  have hne : level h ≠ some (exact 0) := by
    rw [hh]
    exact fun heq => hneg.ne (Option.some.inj heq)
  obtain ⟨r, hr, hle⟩ := Binary.level_div_negative hsign hl hh hneg hinfinite
  exact not_singleAccepts hne hr (hle.trans (Level.exact_lt_exact.mpr zero_lt_one).le)

/-- A step that is longer than the domain fits into it once at most. -/
theorem long_refused (hnonneg : exact 0 ≤ q) (hlt : q < p) : ¬ SingleAccepts h length := by
  have hne : level h ≠ some (exact 0) := by
    rw [hh]
    exact fun heq => (hnonneg.trans_lt hlt).ne' (Option.some.inj heq)
  obtain ⟨a, ha, rfl⟩ : ∃ a, value? length = some a ∧ q = exact a := by
    cases hvalue : value? length with
    | some a => exact ⟨a, rfl, Option.some.inj (hl.symm.trans (Binary.level_of_value hvalue))⟩
    | none =>
      rcases Binary.level_of_no_value hvalue with ⟨hnone, -⟩ | ⟨htop | hbot, -⟩
      · cases hl.symm.trans hnone
      · cases hl.symm.trans htop
        exact absurd hlt not_top_lt
      · cases hl.symm.trans hbot
        exact absurd (hnonneg.antisymm bot_le) (Level.bot_ne_exact 0).symm
  have ha0 : 0 ≤ a := not_lt.mp fun hneg => hnonneg.not_gt (Level.exact_lt_exact.mpr hneg)
  obtain ⟨r, hr, hle⟩ := Binary.level_div_small ha ha0 hh hlt
  exact not_singleAccepts hne hr hle

end

/-- What is accepted and not overlooked is usable. -/
theorem usable_of_singleAccepts (hsign : Binary.signIn length.toModel.unpack = .positive)
    (hclear : ¬ SingleOverlooks h length) (haccepts : SingleAccepts h length) :
    Usable (.real h) (.real length) := by
  rcases hh : level h with _ | p
  · exact absurd (.undefinedStep hh) hclear
  rcases hl : level length with _ | q
  · exact absurd (.undefinedLength hl) hclear
  have hnonneg : exact 0 ≤ q := Binary.levelOf_positive hsign hl
  rcases lt_trichotomy p (exact 0) with hneg | rfl | hpos
  · refine absurd haccepts (negative_refused hh hl hsign hneg ?_)
    rintro rfl rfl
    exact hclear (.infinities hh hl)
  · rcases hnonneg.eq_or_lt with rfl | hlt
    · exact absurd (.zeros hh hl) hclear
    · have hempty := (zero_accepted_iff hh).mp haccepts
      rw [positive_iff.mpr ⟨q, hl, hlt⟩] at hempty
      cases hempty
  · exact usable_iff.mpr ⟨p, q, hh, hl, hpos,
      not_lt.mp fun hlt => long_refused hh hl hnonneg hlt haccepts⟩

/-! ### A coupled system -/

/-- What is undefined is neither below nor above anything. -/
theorem coupledAccepts_of_overlooked (hoverlooks : CoupledOverlooks h length) :
    CoupledAccepts h length := by
  constructor
  · refine Bool.eq_false_iff.mpr fun htrue => ?_
    obtain ⟨p, q, hp, hq, hle⟩ := Number.le_iff.mp htrue
    cases hoverlooks with
    | undefinedStep hh => cases hh.symm.trans hp
    | undefinedLength hpos _ =>
      obtain ⟨p', hp', hlt⟩ := positive_iff.mp hpos
      cases hp.symm.trans hp'
      have hzero : q = exact 0 := by
        have hq' : some (exact ((0 : ℤ) : ℚ)) = some q := hq
        rw [Int.cast_zero] at hq'
        exact (Option.some.inj hq').symm
      rw [hzero] at hle
      exact hle.not_gt hlt
  · refine Bool.eq_false_iff.mpr fun htrue => ?_
    obtain ⟨q, p, hq, hp, -⟩ := Number.lt_iff.mp htrue
    cases hoverlooks with
    | undefinedStep hh => cases hh.symm.trans hp
    | undefinedLength _ hl => cases hl.symm.trans hq

theorem not_usable_of_coupledOverlooks (hoverlooks : CoupledOverlooks h length) :
    ¬ Usable (.real h) (.real length) := by
  rw [usable_iff]
  rintro ⟨p, q, hp, hq, -, -⟩
  cases hoverlooks with
  | undefinedStep hh => cases hh.symm.trans hp
  | undefinedLength _ hl => cases hl.symm.trans hq

/-- What is accepted and not overlooked is usable. -/
theorem usable_of_coupledAccepts (hclear : ¬ CoupledOverlooks h length)
    (haccepts : CoupledAccepts h length) : Usable (.real h) (.real length) := by
  obtain ⟨hpositive, hfits⟩ := haccepts
  rcases hh : level h with _ | p
  · exact absurd (.undefinedStep hh) hclear
  have hpos : exact 0 < p := not_le.mp fun hle => by
    have htrue : (Number.real h).le (.whole 0) = true :=
      Number.le_iff.mpr ⟨p, exact ((0 : ℤ) : ℚ), hh, rfl, by rwa [Int.cast_zero]⟩
    rw [hpositive] at htrue
    cases htrue
  rcases hl : level length with _ | q
  · exact absurd (.undefinedLength (positive_iff.mpr ⟨p, hh, hpos⟩) hl) hclear
  refine usable_iff.mpr ⟨p, q, hh, hl, hpos, not_lt.mp fun hlt => ?_⟩
  have htrue : (Number.real length).lt (.real h) = true := Number.lt_iff.mpr ⟨q, p, hl, hh, hlt⟩
  rw [hfits] at htrue
  cases htrue

end

/-! ## Both judges -/

/-- **Advice accepts usable steps only, except those it overlooks**, for all machine reals, the
    undefined ones and the infinities included; and it always answers. -/
theorem usable_unless_overlooked (h t0 tEnd : Float) :
    (∃ a, single (.real h) (.real t0) (.real tEnd) = .ok a ∧
      ((a.valid = true → Usable (.real h) (.real (lengthOf t0 tEnd))) ↔
        ¬ SingleOverlooks h (lengthOf t0 tEnd))) ∧
    (∃ a, coupled (.real h) (.real t0) (.real tEnd) = .ok a ∧
      ((a.valid = true → Usable (.real h) (.real (lengthOf t0 tEnd))) ↔
        ¬ CoupledOverlooks h (lengthOf t0 tEnd))) := by
  obtain ⟨a, ha, hvalid⟩ := single_valid_iff h t0 tEnd
  obtain ⟨b, hb, hvalid'⟩ := coupled_valid_iff h t0 tEnd
  refine ⟨⟨a, ha, ?_⟩, ⟨b, hb, ?_⟩⟩
  · rw [hvalid]
    exact ⟨fun husable hoverlooks => not_usable_of_singleOverlooks hoverlooks
      (husable (singleAccepts_of_overlooked hoverlooks)),
      usable_of_singleAccepts (Binary.signIn_abs _)⟩
  · rw [hvalid']
    exact ⟨fun husable hoverlooks => not_usable_of_coupledOverlooks hoverlooks
      (husable (coupledAccepts_of_overlooked hoverlooks)), usable_of_coupledAccepts⟩

/-- **Not every step that is accepted is usable**: a zero step over an empty domain is accepted for
    a single equation, and an undefined step for a coupled system. -/
theorem unusable_accepted :
    (∃ a, single (.real 0.0) (.real 1.0) (.real 1.0) = .ok a ∧ a.valid = true ∧
      ¬ Usable (.real 0.0) (.real (lengthOf 1.0 1.0))) ∧
    (∃ a, coupled (.real (0.0 / 0.0)) (.real 0.0) (.real 1.0) = .ok a ∧ a.valid = true ∧
      ¬ Usable (.real (0.0 / 0.0)) (.real (lengthOf 0.0 1.0))) := by
  have hpositive : (Number.whole 0).lt (.real (0.0 : Float)) = false := by decide +kernel
  have hundefined : (Number.whole 0).lt (.real (0.0 / 0.0 : Float)) = false := by decide +kernel
  refine ⟨?_, ?_⟩
  · obtain ⟨a, ha, hvalid⟩ := exists_ok (x := single (.real 0.0) (.real 1.0) (.real (1.0 : Float)))
      (p := fun a => a.valid) (by decide +kernel)
    exact ⟨a, ha, hvalid, fun husable => Bool.false_ne_true (hpositive.symm.trans husable.1)⟩
  · obtain ⟨a, ha, hvalid⟩ := exists_ok
      (x := coupled (.real (0.0 / 0.0)) (.real 0.0) (.real (1.0 : Float)))
      (p := fun a => a.valid) (by decide +kernel)
    exact ⟨a, ha, hvalid, fun husable => Bool.false_ne_true (hundefined.symm.trans husable.1)⟩

end InitialValue.Advice
