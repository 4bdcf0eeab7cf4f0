/-
  Advice is always given.

  Judging a step size divides the length of the domain, and a division of whole numbers can leave
  the range of machine reals.  It does not when the length itself is in range: dividing by a
  positive number does not take a number out of it (`Number.div_answers`), so both judges answer
  (`single_answers`, `coupled_answers`).
-/
import InitialValue.Proofs.Binary.Nearest
import InitialValue.Proofs.Failing
import InitialValue.Proofs.Number.Order
import InitialValue.StepSize.Advice

namespace InitialValue

/-! ## Numbers in range -/

namespace Number

/-- The number has a machine real. -/
def Fits (a : Number Float) : Prop := ∃ x, a.toReal = .ok x

theorem fits_real (x : Float) : (Number.real x).Fits := ⟨x, rfl⟩

theorem fits_whole_iff (n : ℤ) :
    (Number.whole n).Fits ↔ (n.natAbs : ℚ) < Binary.range := by
  have hfinite := Binary.nearest_isFinite_iff (n < 0) (a := n.natAbs) (b := 1) Nat.one_pos
  rw [Nat.cast_one, mul_one] at hfinite
  rw [← hfinite]
  unfold Fits Number.toReal
  show (∃ x, (Binary.ofInt? n).elim (Except.error Foreign.outOfRange) Except.ok = Except.ok x) ↔ _
  unfold Binary.ofInt?
  dsimp only
  split_ifs with h
  · exact iff_of_true ⟨_, rfl⟩ h
  · refine iff_of_false ?_ h
    rintro ⟨x, hx⟩
    cases hx

theorem fits_magnitude {a : Number Float} (h : a.Fits) : a.magnitude.Fits := by
  cases a with
  | real x => exact fits_real _
  | whole n =>
    rw [fits_whole_iff] at h
    exact (fits_whole_iff _).mpr (by rw [Int.natAbs_natCast]; exact h)

theorem not_same_zero {b : Number Float} (hpos : (Number.whole 0).lt b = true) :
    b.same (.whole 0) = false := by
  obtain ⟨p, q, hp, hq, hlt⟩ := lt_iff.mp hpos
  unfold same
  rw [compare?_eq, hp, hq]
  refine beq_false_of_ne fun h => ?_
  have hcmp : cmp q p = .eq := Option.some.inj h
  exact hlt.ne ((cmp_eq_eq_iff _ _).mp hcmp).symm

/-- **Dividing by a positive number** does not leave the range. -/
theorem div_answers {a b : Number Float} (ha : a.Fits) (hb : b.Fits)
    (hpos : (Number.whole 0).lt b = true) : ∃ x, a.div b = .ok x := by
  obtain ⟨x, hx⟩ := ha
  obtain ⟨y, hy⟩ := hb
  have hreal : (do
      let x ← a.toReal
      let y ← b.toReal
      if b.same (.whole 0) then .error .divisionByZero else .ok (x / y) : Except Foreign Float) =
        .ok (x / y) := by
    rw [hx, hy, not_same_zero hpos]
    rfl
  cases a with
  | real x => exact ⟨_, hreal⟩
  | whole m =>
    cases b with
    | real y => exact ⟨_, hreal⟩
    | whole k =>
      obtain ⟨p, q, hp, hq, hlt⟩ := lt_iff.mp hpos
      cases hp
      cases hq
      have hk : 0 < k := by
        have : (0 : ℚ) < k := by simpa [Level.exact] using hlt
        exact_mod_cast this
      have hk' : 0 < k.natAbs := by omega
      -- whole numbers are divided exactly and rounded once, and the quotient is no larger
      have hone : (1 : ℚ) ≤ (k.natAbs : ℚ) := by exact_mod_cast hk'
      have hrange : (0 : ℚ) ≤ Binary.range := by
        unfold Binary.range
        positivity
      have hfinite : (Binary.nearest (decide (m < 0) != decide (k < 0)) m.natAbs
          k.natAbs).isFinite = true := by
        rw [Binary.nearest_isFinite_iff _ hk']
        exact lt_of_lt_of_le ((fits_whole_iff m).mp ⟨x, hx⟩) (le_mul_of_one_le_right hrange hone)
      refine ⟨Binary.nearest (decide (m < 0) != decide (k < 0)) m.natAbs k.natAbs, ?_⟩
      show (if k = 0 then _ else (if _ then some _ else none : Option Float).elim _ _) = _
      rw [if_neg hk.ne', if_pos hfinite]
      rfl

end Number

/-! ## Both judges -/

namespace Advice

theorem div_whole {length : Number Float} (h : length.Fits) {k : ℤ} (hk : 0 < k)
    (hfits : (Number.whole k).Fits) : ∃ x, length.div (.whole k) = .ok x := by
  refine Number.div_answers h hfits (Number.lt_iff.mpr ⟨_, _, rfl, rfl, ?_⟩)
  have : (0 : ℚ) < k := by exact_mod_cast hk
  simpa [Level.exact] using this

theorem tooLarge_answers {length : Number Float} (h : length.Fits) :
    ∃ a, tooLarge length = .ok a := by
  obtain ⟨x, hx⟩ := div_whole h (k := 20) (by decide) ⟨20.0, by decide⟩
  exact ⟨_, bind_eq_ok.mpr ⟨x, hx, rfl⟩⟩

theorem tooSmall_answers {length : Number Float} (h : length.Fits) :
    ∃ a, tooSmall length = .ok a := by
  obtain ⟨x, hx⟩ := div_whole h (k := 10000) (by decide) ⟨10000.0, by decide⟩
  exact ⟨_, bind_eq_ok.mpr ⟨x, hx, rfl⟩⟩

variable {step t0 tEnd length : Number Float}

/-- **The judge of a single equation answers** for a positive step when the length of the domain is
    in range. -/
theorem single_answers (hlength : tEnd.sub t0 = .ok length) (hfits : length.Fits)
    (hstep : step.Fits) (hpos : (Number.whole 0).lt step = true) :
    ∃ a, single step t0 tEnd = .ok a := by
  have hmagnitude := Number.fits_magnitude hfits
  obtain ⟨count, hcount⟩ := Number.div_answers hmagnitude hstep hpos
  unfold single
  rw [hlength]
  simp only [bind, Except.bind, Number.not_same_zero hpos, hcount, Bool.false_eq_true, if_false]
  split_ifs
  · exact tooLarge_answers hmagnitude
  · exact tooSmall_answers hmagnitude
  · exact ⟨_, rfl⟩
  · exact ⟨_, rfl⟩

/-- **The judge of a coupled system answers** when the length of the domain is in range. -/
theorem coupled_answers (hlength : tEnd.sub t0 = .ok length) (hfits : length.Fits) :
    ∃ a, coupled step t0 tEnd = .ok a := by
  have hmagnitude := Number.fits_magnitude hfits
  have hdiv := fun k hk hfits => div_whole hmagnitude (k := k) hk hfits
  obtain ⟨s10, h10⟩ := hdiv 10 (by decide) ⟨10.0, by decide⟩
  obtain ⟨s50, h50⟩ := hdiv 50 (by decide) ⟨50.0, by decide⟩
  obtain ⟨s100, h100⟩ := hdiv 100 (by decide) ⟨100.0, by decide⟩
  obtain ⟨s1000, h1000⟩ := hdiv 1000 (by decide) ⟨1000.0, by decide⟩
  obtain ⟨s100000, h100000⟩ := hdiv 100000 (by decide) ⟨100000.0, by decide⟩
  unfold coupled
  rw [hlength]
  simp only [bind, Except.bind, h10, h50, h100, h1000, h100000]
  split_ifs <;> exact ⟨_, rfl⟩

end Advice

end InitialValue
