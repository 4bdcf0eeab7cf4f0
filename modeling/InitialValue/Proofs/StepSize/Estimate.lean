/-
  How large and how small an estimate can be, without rounding.

  An estimate is the square root of a derivative's reciprocal, but neither the derivative nor the
  root decides about its bounds: whatever sampling found, if anything, and whatever the root of it
  is, the estimate is held between two shares of the domain, or it is a fixed share of it with an
  upper bound of its own.  `Estimate.Rule.Counts` collects what the numbers in a rule have to satisfy
  for that, and `Estimate.estimate_within` is the bound for every rule, `single_within` and
  `coupled_within` are those for the two that are in use.
-/
import InitialValue.Proofs.Number.Faithful
import InitialValue.StepSize.Estimate
import Mathlib.Tactic.NormNum

namespace InitialValue

namespace Estimate

open Number (Worth)
open Scalar.Faithful (ofRat)

/-- The numbers of steps that a rule aims at are between its coarsest one and `most`. -/
structure Rule.Counts {α : Type} (rule : Rule α) (most : ℤ) : Prop where
  coarsest_pos : 0 < rule.coarsest
  coarsest_le_finest : rule.coarsest ≤ rule.finest
  finest_le : rule.finest ≤ most
  coarsest_le_share : rule.coarsest ≤ rule.share
  share_le : rule.share ≤ most

/-- A share of a length is smaller the more of them there are. -/
theorem share_antitone {R : ℚ} (hR : 0 ≤ R) {m n : ℤ} (hm : 0 < m) (h : m ≤ n) :
    R / n ≤ R / m :=
  div_le_div_of_nonneg_left hR (Int.cast_pos.mpr hm) (Int.cast_le.mpr h)

variable {α : Type} [Scalar α] [Scalar.Ordered α] [Scalar.Faithful α] {rule : Rule α} {most : ℤ}
  {R : ℚ} {length : Number α}

/-- What a rule proposes is between the finest and the coarsest share of the domain, whatever the
    largest derivative and its root are. -/
theorem propose_within (hrule : rule.Counts most) (hlength : length.Worth R) (hR : 0 ≤ R)
    {root : α → α} {m x : α} (h : propose rule root length m = .ok (some x)) :
    ∃ q, x = ofRat q ∧ R / rule.finest ≤ q ∧ q ≤ R / rule.coarsest := by
  have hcoarsest := hrule.coarsest_pos
  have hfinest : 0 < rule.finest := hcoarsest.trans_le hrule.coarsest_le_finest
  unfold propose at h
  split at h
  · cases h
  · rw [Number.div_whole_worth hlength hfinest.ne', Number.div_whole_worth hlength hcoarsest.ne']
      at h
    cases h
    exact Scalar.Faithful.clamp_ofRat (share_antitone hR hcoarsest hrule.coarsest_le_finest) _

omit [Scalar.Ordered α] [Scalar.Faithful α] in
/-- An estimate is a proposal for some derivative, or it is the fallback. -/
theorem estimate_cases {t0 tEnd d : Number α} {otherwise : α} (hd : tEnd.sub t0 = .ok d)
    (hotherwise : fallback rule d.magnitude = .ok otherwise) (root : α → α)
    (largest : List α → Option α) :
    estimate rule root t0 tEnd largest = .ok otherwise ∨
      ∃ m x, propose rule root d.magnitude m = .ok (some x) ∧
        estimate rule root t0 tEnd largest = .ok x := by
  unfold estimate
  simp only [hd, hotherwise, bind, Except.bind]
  cases (sampleTimes t0 tEnd).toOption with
  | none => exact Or.inl rfl
  | some times =>
    rw [Option.bind_some]
    cases largest times with
    | none => exact Or.inl rfl
    | some m =>
      rw [Option.bind_some]
      rcases hpropose : propose rule root d.magnitude m with e | _ | x
      · exact Or.inl rfl
      · exact Or.inl rfl
      · exact Or.inr ⟨m, x, hpropose, rfl⟩

/-- **An estimate is between two shares of the domain**, whatever sampling finds and whatever the
    root is, if the bound of the rule leaves room for the smaller one. -/
theorem estimate_within (hrule : rule.Counts most) {bound : ℚ} (hbound : rule.most = ofRat bound)
    {t0 tEnd : Number α} {a b : ℚ} (ht0 : t0.Worth a) (htEnd : tEnd.Worth b)
    (hroom : |b - a| / most ≤ bound) (root : α → α) (largest : List α → Option α) :
    ∃ q, estimate rule root t0 tEnd largest = .ok (ofRat q) ∧
      |b - a| / most ≤ q ∧ q ≤ |b - a| / rule.coarsest := by
  obtain ⟨d, hd, hlength⟩ := Number.length_worth ht0 htEnd
  have hR := abs_nonneg (b - a)
  have hcoarsest := hrule.coarsest_pos
  have hfinest : 0 < rule.finest := hcoarsest.trans_le hrule.coarsest_le_finest
  have hshare : 0 < rule.share := hcoarsest.trans_le hrule.coarsest_le_share
  have hotherwise : fallback rule d.magnitude = .ok (ofRat (min bound (|b - a| / rule.share))) := by
    unfold fallback
    rw [Number.div_whole_worth hlength hshare.ne', hbound, ← Scalar.Faithful.smaller_ofRat]
    rfl
  rcases estimate_cases hd hotherwise root largest with h | ⟨m, x, hpropose, h⟩
  · refine ⟨_, h, le_min hroom (share_antitone hR hshare hrule.share_le), ?_⟩
    exact (min_le_right _ _).trans (share_antitone hR hcoarsest hrule.coarsest_le_share)
  · obtain ⟨q, rfl, hlow, hhigh⟩ := propose_within hrule hlength hR hpropose
    exact ⟨q, h, (share_antitone hR hfinest hrule.finest_le).trans hlow, hhigh⟩

/-! ## The two rules -/

omit [Scalar.Ordered α] [Scalar.Faithful α] in
theorem singleRule_counts : (singleRule : Rule α).Counts 10000 := by
  constructor <;> norm_num [singleRule]

omit [Scalar.Ordered α] [Scalar.Faithful α] in
theorem coupledRule_counts : (coupledRule : Rule α).Counts 100000 := by
  constructor <;> norm_num [coupledRule]

section

variable {t0 tEnd : Number α} {a b : ℚ} (ht0 : t0.Worth a) (htEnd : tEnd.Worth b)
  (hR : |b - a| ≤ 1000) (root : α → α) (f : RightSide α) (y0 : Value α)

include ht0 htEnd hR

/-- **The estimate for a single equation** makes twenty steps to ten thousand, on domains of at most
    a thousand. -/
theorem single_within : ∃ q, single root f t0 y0 tEnd = .ok (ofRat q) ∧
    |b - a| / 10000 ≤ q ∧ q ≤ |b - a| / 20 := by
  have hbound : (singleRule : Rule α).most = ofRat 0.1 := Scalar.Faithful.ofScientific_eq _ _ _
  have hroom : |b - a| / ((10000 : ℤ) : ℚ) ≤ 0.1 := by
    norm_num
    linarith
  obtain ⟨q, hq, hlow, hhigh⟩ := estimate_within singleRule_counts hbound ht0 htEnd hroom root
    (largestSingle f y0)
  exact ⟨q, hq, by exact_mod_cast hlow, hhigh.trans_eq (by norm_num [singleRule])⟩

/-- **The estimate for a coupled system** makes fifty steps to a hundred thousand, on domains of at
    most a thousand. -/
theorem coupled_within : ∃ q, coupled root f t0 y0 tEnd = .ok (ofRat q) ∧
    |b - a| / 100000 ≤ q ∧ q ≤ |b - a| / 50 := by
  have hbound : (coupledRule : Rule α).most = ofRat 0.01 := Scalar.Faithful.ofScientific_eq _ _ _
  have hroom : |b - a| / ((100000 : ℤ) : ℚ) ≤ 0.01 := by
    norm_num
    linarith
  obtain ⟨q, hq, hlow, hhigh⟩ := estimate_within coupledRule_counts hbound ht0 htEnd hroom root
    (largestCoupled f y0)
  exact ⟨q, hq, by exact_mod_cast hlow, hhigh.trans_eq (by norm_num [coupledRule])⟩

end

end Estimate

end InitialValue
