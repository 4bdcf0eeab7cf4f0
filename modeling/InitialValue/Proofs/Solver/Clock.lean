/-
  The recorded times of a run on machine reals.

  Validation bounds the length of a domain but not where it lies, and it compares whole ends before
  they are read as machine reals.  So an accepted domain can be empty once it is read, or its times
  so far from zero that a step is lost in rounding (`clock_stalled`).  Where roundings are small
  against the step, the clock neither stalls nor skips.

  1. **One step** — `Grid.Reads.isOpen_of_left`, `Grid.Reads.lt_of_isOpen`, `left_le_of_lands`: what
     both comparisons of the loop say about the exact grid, up to roundings.
  2. **No step too many** — `Grid.Reads.length_gt_of_isOpen`: where whole steps have used up the
     domain exactly, the loop is over.  Here roundings may not decide, and they do not: rounding
     passes no number of the format, and the length of a domain far from zero is such a number.
     Near zero the time is so exact that what it misses of the end is within the tolerance.
  3. **Along a run** — `Journey.Trail.ordered`, `Journey.Trail.keepsTime`.
  4. **Whole calls** — `solve_keeps_time`.
-/
import InitialValue.Proofs.Solver.Landing

namespace InitialValue

open Binary (value? Near Faithful Fits)

/-! ## Times and their order -/

namespace Grid

/-- A time comes before another on the way from `t0` to `tEnd`. -/
def Precedes (g : Grid Float) (a b : Float) : Prop :=
  if Scalar.lt g.t0 g.tEnd = true then Scalar.lt a b = true else Scalar.lt b a = true

end Grid

namespace Extent

variable (v : Extent)

/-- Roundings are small against the step. -/
def Resolved : Prop := 32 * v.rounding ≤ v.step

/-- The exact value of a time comes before that of another on the way. -/
def Earlier (a b : Float) : Prop :=
  ∃ x y, value? a = some x ∧ value? b = some y ∧ v.way * x < v.way * y

theorem Earlier.trans {v : Extent} {a b c : Float} (h : v.Earlier a b) (h' : v.Earlier b c) :
    v.Earlier a c := by
  obtain ⟨x, y, hx, hy, hxy⟩ := h
  obtain ⟨y', z, hy', hz, hyz⟩ := h'
  obtain rfl : y = y' := Option.some.inj (hy.symm.trans hy')
  exact ⟨x, z, hx, hz, hxy.trans hyz⟩

theorem way_cases : v.way = 1 ∨ v.way = -1 := by
  unfold way Grid.way
  split
  · exact Or.inl rfl
  · exact Or.inr rfl

/-- Rounding passes no number of the format on the way either. -/
theorem way_le_of_faithful {c x r : ℚ} (h : Faithful c x) (hr : Fits r) :
    (v.way * r ≤ v.way * x → v.way * r ≤ v.way * c) ∧
      (v.way * x ≤ v.way * r → v.way * c ≤ v.way * r) := by
  obtain ⟨hlow, hhigh⟩ := h r hr
  rcases v.way_cases with hway | hway <;> rw [hway]
  · simpa only [one_mul] using ⟨hlow, hhigh⟩
  · simpa only [neg_one_mul, neg_le_neg_iff] using ⟨hhigh, hlow⟩

end Extent

namespace Grid.Reads

variable {t0 tEnd stepSize : Float} {v : Extent} (h : Reads t0 tEnd stepSize v) {k : ℕ} {t : Float}

include h

theorem precedes_of_earlier {a b : Float} (hab : v.Earlier a b) :
    (Grid.of t0 tEnd stepSize).Precedes a b := by
  obtain ⟨x, y, hx, hy, hlt⟩ := hab
  have hends := Binary.lt_iff_value h.t0 h.tEnd
  show if Scalar.lt t0 tEnd = true then Scalar.lt a b = true else Scalar.lt b a = true
  unfold Extent.way Grid.way at hlt
  split_ifs at hlt with hleft
  · rw [one_mul, one_mul] at hlt
    rw [if_pos (hends.mpr hleft)]
    exact (Binary.lt_iff_value hx hy).mpr hlt
  · rw [neg_one_mul, neg_one_mul, neg_lt_neg_iff] at hlt
    rw [if_neg fun htrue => hleft (hends.mp htrue)]
    exact (Binary.lt_iff_value hy hx).mpr hlt

/-! ## One step -/

/-- **The loop goes on** where clearly more than the tolerance is left. -/
theorem isOpen_of_left (ht : v.Follows k t) (hfar : k * v.step ≤ 2 * v.size)
    (hleft : v.tolerance + 18 * v.rounding < v.left k) :
    (Grid.of t0 tEnd stepSize).isOpen t = true := by
  obtain ⟨r, hr, -, hrnear⟩ := h.remaining_value ht hfar
  obtain ⟨τ, hτ, hτnear⟩ := h.tolerance_value
  have hway := h.value_direction_mul hr
  refine (Binary.lt_iff_value hτ hway).mpr ?_
  rw [abs_le] at hrnear hτnear
  linarith

/-- **At the start the loop goes on**, when the step is no longer than the domain. -/
theorem isOpen_start (hresolved : v.Resolved) (hstep : v.step ≤ v.left 0 + 4 * v.rounding) :
    (Grid.of t0 tEnd stepSize).isOpen t0 = true := by
  have hrounding := h.rounding_pos
  have hstart : v.Follows 0 t0 := by
    refine ⟨v.t0, h.t0, ?_⟩
    unfold Extent.time
    rw [Nat.cast_zero, zero_mul, add_zero, sub_self, abs_zero]
    linarith
  refine h.isOpen_of_left hstart ?_ ?_
  · rw [Nat.cast_zero, zero_mul]
    linarith [h.size_pos]
  · have htolerance : 4 * v.tolerance ≤ v.step := by
      unfold Extent.tolerance
      linarith [h.step_pos]
    unfold Extent.Resolved at hresolved
    linarith

/-- A time that lands leaves no more than the tolerance after the step, up to roundings. -/
theorem left_le_of_lands (ht : v.Follows k t) (hfar : k * v.step ≤ 2 * v.size)
    (hlands : (Grid.of t0 tEnd stepSize).lands t = true) :
    v.left (k + 1) ≤ v.tolerance + 24 * v.rounding := by
  obtain ⟨q, hq, hqnear⟩ := h.landing_value ht hfar
  obtain ⟨τ, hτ, hτnear⟩ := h.tolerance_value
  have hle : q ≤ τ := (Binary.le_iff_value hq hτ).mp hlands
  rw [abs_le] at hqnear hτnear
  linarith

/-- One least machine real is nothing beside a step. -/
theorem least_le_step : 2 ^ (-1074 : ℤ) ≤ 2 ^ (-74 : ℤ) * v.step := by
  calc (2 : ℚ) ^ (-1074 : ℤ) = 2 ^ (-74 : ℤ) * 2 ^ (-1000 : ℤ) := by
        rw [← zpow_add₀ two_ne_zero]
        norm_num
    _ ≤ 2 ^ (-74 : ℤ) * v.step := mul_le_mul_of_nonneg_left h.le_step (by positivity)

/-- The tolerance is not far below a billionth of a step. -/
theorem tolerance_ge : ∃ τ, value? (Grid.of t0 tEnd stepSize).tolerance = some τ ∧
    9e-10 * v.step ≤ τ := by
  have hpos := h.step_pos
  have hleast := h.least_le_step
  have hmagnitude : value? (Grid.of t0 tEnd stepSize).h.abs = some v.step := by
    have habs := Binary.value_abs h.value_h
    rwa [v.abs_way_mul, abs_of_pos hpos] at habs
  obtain ⟨b, hb, hb0, hb1, hnear⟩ := value_endTolerance
  have hproduct : |b * v.step| ≤ v.step := by
    rw [abs_of_pos (mul_pos hb0 hpos)]
    exact mul_le_of_le_one_left hpos.le hb1
  obtain ⟨τ, hτ, herror, -⟩ := Binary.value_mul hb hmagnitude
    (h.in_range (hproduct.trans (by linarith [v.step_le_size, h.size_pos])))
  have hconstant : (1e-9 - 2 ^ (-52 : ℤ)) * v.step ≤ b * v.step := by
    rw [abs_le] at hnear
    exact mul_le_mul_of_nonneg_right (by linarith) hpos.le
  have hrelative : 2 ^ (-52 : ℤ) * |b * v.step| ≤ 2 ^ (-52 : ℤ) * v.step :=
    mul_le_mul_of_nonneg_left hproduct (by positivity)
  refine ⟨τ, hτ, ?_⟩
  generalize (2 : ℚ) ^ (-1074 : ℤ) = least at hleast herror
  rw [abs_le] at herror
  norm_num at hconstant hrelative hleast herror ⊢
  linarith

/-- Where the loop goes on, what is left is clearly there when rounded. -/
theorem remaining_of_isOpen {x : ℚ} (hx : value? t = some x) (hdistance : |v.tEnd - x| ≤ 4 * v.size)
    (hopen : (Grid.of t0 tEnd stepSize).isOpen t = true) :
    ∃ r, 9e-10 * v.step < v.way * r ∧ Near r (v.tEnd - x) ∧ Faithful r (v.tEnd - x) := by
  have hsize := h.size_pos
  obtain ⟨τ, hτ, hτge⟩ := h.tolerance_ge
  obtain ⟨r, hr, hnear, hfaithful⟩ := Binary.value_sub h.tEnd hx
    (h.in_range (hdistance.trans (by linarith)))
  have hway := h.value_direction_mul hr
  exact ⟨r, hτge.trans_lt ((Binary.lt_iff_value hτ hway).mp hopen), hnear, hfaithful⟩

/-- **Where the loop goes on**, the end is still ahead. -/
theorem lt_of_isOpen {x : ℚ} (hx : value? t = some x) (hdistance : |v.tEnd - x| ≤ 4 * v.size)
    (hopen : (Grid.of t0 tEnd stepSize).isOpen t = true) : v.way * x < v.way * v.tEnd := by
  obtain ⟨r, hr, -, hfaithful⟩ := h.remaining_of_isOpen hx hdistance hopen
  have hpos : 0 < 9e-10 * v.step := mul_pos (by norm_num) h.step_pos
  by_contra hge
  -- what is left would be nothing, exactly and so when rounded
  have hnone := (v.way_le_of_faithful hfaithful Binary.fits_zero).2 (by linarith)
  linarith

/-! ## No step too many -/

/-- The number of steps as a machine real, and the time after them: what is computed, and how far off
    it can be. -/
theorem time_value {r : Float} (hr : (Number.whole k : Number Float).toReal = .ok r)
    (hk : k < 2 ^ 53) (hfar : k * v.step ≤ 2 * v.size) :
    ∃ p x, value? (t0 + r * (Grid.of t0 tEnd stepSize).h) = some x ∧
      |p - k * (v.way * v.step)| ≤ 2 ^ (-52 : ℤ) * (k * v.step) + 2 ^ (-1074 : ℤ) ∧
      Faithful p (k * (v.way * v.step)) ∧ Near x (v.t0 + p) ∧ Faithful x (v.t0 + p) := by
  have hsize := h.size_pos
  have hsteps := h.abs_steps k
  obtain ⟨c, hc, -, hexact⟩ := Binary.value_whole (Number.ofInt?_of_toReal hr)
  have hck : c = k := by
    have habs : |(k : ℤ)| < 2 ^ 53 := by
      rw [Nat.abs_cast]
      exact_mod_cast hk
    simpa using hexact habs
  rw [hck] at hc
  obtain ⟨p, hp, hperror, hpfaithful⟩ := Binary.value_mul hc h.value_h
    (h.in_range (by rw [hsteps]; linarith))
  rw [hsteps] at hperror
  have hpsize : |p| ≤ 5 * v.size := by
    have htriangle := abs_sub_abs_le_abs_sub p (k * (v.way * v.step))
    have hrelative : 2 ^ (-52 : ℤ) * (k * v.step) ≤ 1 * (k * v.step) :=
      mul_le_mul_of_nonneg_right (by norm_num) (hsteps ▸ abs_nonneg _)
    have hleast := h.least_le
    have hrounding := h.rounding_le
    have hpos := h.rounding_pos
    linarith
  have hsum : |v.t0 + p| ≤ 16 * v.size := by
    have htriangle := abs_add_le v.t0 p
    linarith [h.abs_ends.1]
  obtain ⟨x, hx, hnear, hfaithful⟩ := Binary.value_add h.t0 hp (h.in_range hsum)
  exact ⟨p, x, hx, hperror, hpfaithful, hnear, hfaithful⟩

/-- Near zero, the time after whole steps that use up the domain misses the end by less than the
    tolerance, as long as the steps are no more than a million. -/
theorem overshoot_le {p x : ℚ} (hnear : Near x (v.t0 + p))
    (hperror : |p - k * (v.way * v.step)| ≤ 2 ^ (-52 : ℤ) * (k * v.step) + 2 ^ (-1074 : ℤ))
    (hlong : |v.tEnd - v.t0| ≤ 1000000 * v.step) (hpassed : |v.tEnd - v.t0| ≤ k * v.step)
    (hlast : k * v.step ≤ |v.tEnd - v.t0| + v.step) (hend : |v.tEnd| ≤ 2 * |v.tEnd - v.t0|) :
    v.way * (v.tEnd - x) ≤ 8e-10 * v.step ∧ |v.tEnd - x| ≤ 2 * v.step := by
  have hpos := h.step_pos
  have hleast := h.least_le_step
  have hlength : v.way * (v.tEnd - v.t0) = |v.tEnd - v.t0| := Grid.way_mul_sub v.t0 v.tEnd
  generalize |v.tEnd - v.t0| = length at *
  -- the product is off by a rounding of the length, and the sum by one of the end
  have hproduct : |v.way * p - k * v.step| ≤ 3e-10 * v.step := by
    have heq : v.way * p - k * v.step = v.way * (p - k * (v.way * v.step)) := by
      have hone := v.way_mul_way
      linear_combination (k * v.step) * hone
    rw [heq, v.abs_way_mul]
    refine hperror.trans ?_
    have hrelative : 2 ^ (-52 : ℤ) * (k * v.step) ≤ 2 ^ (-52 : ℤ) * (1000001 * v.step) :=
      mul_le_mul_of_nonneg_left (by linarith) (by positivity)
    generalize (2 : ℚ) ^ (-1074 : ℤ) = least at hleast ⊢
    norm_num at hrelative hleast ⊢
    linarith
  have hmiss : v.way * (v.tEnd - (v.t0 + p)) = length - v.way * p := by
    rw [← hlength]
    ring
  have hdistance : |v.tEnd - (v.t0 + p)| ≤ 1.1 * v.step := by
    rw [← v.abs_way_mul, hmiss, abs_le]
    rw [abs_le] at hproduct
    constructor <;> linarith
  have hsum : |x - (v.t0 + p)| ≤ 45e-11 * v.step := by
    have htriangle := abs_sub_abs_le_abs_sub (v.t0 + p) v.tEnd
    rw [abs_sub_comm] at htriangle
    have hrelative : 2 ^ (-52 : ℤ) * |v.t0 + p| ≤ 2 ^ (-52 : ℤ) * (2000002 * v.step) :=
      mul_le_mul_of_nonneg_left (by linarith) (by positivity)
    refine hnear.trans (hrelative.trans ?_)
    norm_num
    linarith
  constructor
  · have hle := le_abs_self (-(v.way * (x - (v.t0 + p))))
    have heq : v.way * (v.tEnd - x) =
        v.way * (v.tEnd - (v.t0 + p)) + -(v.way * (x - (v.t0 + p))) := by ring
    rw [abs_neg, v.abs_way_mul] at hle
    rw [abs_le] at hproduct
    rw [heq, hmiss]
    linarith
  · have htriangle := abs_sub_le v.tEnd (v.t0 + p) x
    rw [abs_sub_comm (v.t0 + p) x] at htriangle
    linarith

/-- **No step too many**: where the loop goes on after whole steps, they have not used up the
    domain. -/
theorem length_gt_of_isOpen (hlong : |v.tEnd - v.t0| ≤ 1000000 * v.step) {r : Float}
    (hr : (Number.whole k : Number Float).toReal = .ok r)
    (hlast : k * v.step ≤ |v.tEnd - v.t0| + v.step)
    (hopen : (Grid.of t0 tEnd stepSize).isOpen (t0 + r * (Grid.of t0 tEnd stepSize).h) = true) :
    k * v.step < |v.tEnd - v.t0| := by
  have hpos := h.step_pos
  have hends : |v.tEnd - v.t0| ≤ |v.tEnd| + |v.t0| := abs_sub v.tEnd v.t0
  have hfar : k * v.step ≤ 2 * v.size := by
    unfold Extent.size
    linarith [abs_nonneg v.t0, abs_nonneg v.tEnd]
  have hk : k < 2 ^ 53 := by
    have hle : (k : ℚ) ≤ 1000001 := le_of_mul_le_mul_right (by linarith) hpos
    have hle' : k ≤ 1000001 := by exact_mod_cast hle
    omega
  obtain ⟨p, x, hx, hperror, hpfaithful, hnear, hfaithful⟩ := h.time_value hr hk hfar
  obtain ⟨x', hx', hfollows⟩ := h.time_follows hfar hr
  obtain rfl : x = x' := Option.some.inj (hx.symm.trans hx')
  have hdistance := h.distance_le hfollows hfar
  by_contra hge
  rw [not_lt] at hge
  by_cases hsmall : |v.tEnd - v.t0| ≤ |v.tEnd| ∧ |v.tEnd - v.t0| ≤ |v.t0|
  · -- far from zero the length is a number of the format, which neither rounding passes
    have hfits := (Binary.fits_value h.tEnd).sub (Binary.fits_value h.t0) hsmall.1 hsmall.2
    have hlength : v.way * (v.tEnd - v.t0) = |v.tEnd - v.t0| := Grid.way_mul_sub v.t0 v.tEnd
    have hsteps : v.way * (k * (v.way * v.step)) = k * v.step := by
      have hone := v.way_mul_way
      linear_combination (k * v.step) * hone
    have hproduct := (v.way_le_of_faithful hpfaithful hfits).1 (by rw [hlength, hsteps]; exact hge)
    have hsum := (v.way_le_of_faithful hfaithful (Binary.fits_value h.tEnd)).1 (by
      rw [mul_add]
      rw [mul_sub] at hproduct
      linarith)
    exact absurd (h.lt_of_isOpen hx hdistance hopen) (not_lt.mpr hsum)
  · have hend : |v.tEnd| ≤ 2 * |v.tEnd - v.t0| := by
      have htriangle := abs_sub_abs_le_abs_sub v.tEnd v.t0
      by_contra hlarge
      exact hsmall ⟨by linarith [abs_nonneg (v.tEnd - v.t0)], by linarith⟩
    obtain ⟨hover, hnearby⟩ := h.overshoot_le hnear hperror hlong hge hlast hend
    obtain ⟨q, hq, hqnear, -⟩ := h.remaining_of_isOpen hx hdistance hopen
    have hrelative : 2 ^ (-52 : ℤ) * |v.tEnd - x| ≤ 2 ^ (-52 : ℤ) * (2 * v.step) :=
      mul_le_mul_of_nonneg_left hnearby (by positivity)
    have hle := le_abs_self (v.way * (q - (v.tEnd - x)))
    rw [v.abs_way_mul, mul_sub] at hle
    have herror := hqnear.trans hrelative
    norm_num at herror hle hover hq
    linarith

end Grid.Reads

/-! ## Along a run -/

/-- The times of a run that neither stalls nor skips: there is a step, the times go from one end to
    the other, and for up to a million steps there are as many as fit into the domain, up to one. -/
structure Grid.KeepsTime (g : Grid Float) (v : Extent) (times : List Float) : Prop where
  moves : 2 ≤ times.length
  ordered : times.Pairwise g.Precedes
  counted : |v.tEnd - v.t0| ≤ 1000000 * v.step →
    |((times.length : ℚ) - 1) - |v.tEnd - v.t0| / v.step| ≤ 1

namespace Journey.Trail

variable {σ : Type} [State Float σ] {plan : Plan Float σ} {y0 : σ} {t0 tEnd stepSize : Float}
  {v : Extent} {n : ℕ} {p q : Point Float σ} {earlier : List (Point Float σ)}

section

variable (hgrid : plan.grid = Grid.of t0 tEnd stepSize) (hreads : Grid.Reads t0 tEnd stepSize v)
  (hresolved : v.Resolved) (hstep : v.step ≤ v.left 0 + 4 * v.rounding)

include hgrid hreads hstep

/-- Where the loop goes on, a run is at a time of the grid. -/
theorem interior (h : Trail plan y0 n p earlier) (hopen : plan.grid.isOpen p.t = true) :
    v.Follows n p.t ∧ v.Ahead n ∧ (n = 0 ∨ ∃ r, (Number.whole n : Number Float).toReal = .ok r ∧
      p.t = t0 + r * (Grid.of t0 tEnd stepSize).h) := by
  have hnotEnd : p.t ≠ tEnd := by
    intro hend
    rw [hend, hgrid, Grid.isOpen_tEnd hreads.isFinite_end] at hopen
    cases hopen
  obtain ⟨hfollows, hahead⟩ :=
    (h.follows hgrid hreads (hreads.ahead_of_step_le hstep)).resolve_left hnotEnd
  refine ⟨hfollows, hahead, ?_⟩
  cases h with
  | first => exact Or.inl rfl
  | step _ _ hnext =>
    obtain ⟨-, htime, -, -⟩ := Point.next_eq_ok.mp hnext
    rw [hgrid] at htime
    rcases Grid.timeAfter_eq_ok.mp htime with ⟨-, hend⟩ | ⟨-, hgridTime⟩
    · exact absurd hend hnotEnd
    · exact Or.inr hgridTime

include hresolved

/-- **A step goes forward.** -/
theorem earlier_next (h : Trail plan y0 n p earlier) (hopen : plan.grid.isOpen p.t = true)
    (hnext : p.next plan.grid plan.step plan.threshold plan.slope (n + 1) = .ok q) :
    v.Earlier p.t q.t := by
  obtain ⟨hfollows, hahead, -⟩ := h.interior hgrid hreads hstep hopen
  obtain ⟨x, hx, hxnear⟩ := hfollows
  obtain ⟨-, htime, -, -⟩ := Point.next_eq_ok.mp hnext
  rw [hgrid] at htime hopen
  rcases Grid.timeAfter_eq_ok.mp htime with ⟨-, hend⟩ | ⟨-, r, hr, hq⟩
  · have hdistance := hreads.distance_le hxnear (hreads.steps_so_far_le hahead)
    rw [hend]
    exact ⟨x, v.tEnd, hx, hreads.tEnd, hreads.lt_of_isOpen hx hdistance hopen⟩
  · -- neighbours on the grid are a step apart, which is more than both roundings
    obtain ⟨y, hy, hynear⟩ := hreads.time_follows (hreads.steps_le hahead) hr
    rw [hq]
    refine ⟨x, y, hx, hy, ?_⟩
    have happart : v.way * v.time (n + 1) - v.way * v.time n = v.step := by
      have hone := v.way_mul_way
      unfold Extent.time
      push_cast
      linear_combination v.step * hone
    have hxway := v.abs_way_mul (x - v.time n)
    have hyway := v.abs_way_mul (y - v.time (n + 1))
    rw [← hxway, abs_le, mul_sub] at hxnear
    rw [← hyway, abs_le, mul_sub] at hynear
    unfold Extent.Resolved at hresolved
    linarith [hreads.rounding_pos]

/-- **The times of a run are in order.** -/
theorem ordered (h : Trail plan y0 n p earlier) :
    (p :: earlier).reverse.Pairwise fun a b => v.Earlier a.t b.t := by
  induction h with
  | first => simp
  | @step n p q earlier htrail hopen hnext ih =>
    have hlast := htrail.earlier_next hgrid hreads hresolved hstep hopen hnext
    rw [List.reverse_cons, List.pairwise_append]
    refine ⟨ih, List.pairwise_singleton _ _, fun a ha b hb => ?_⟩
    rw [List.mem_singleton.mp hb]
    rw [List.reverse_cons, List.pairwise_append] at ih
    rw [List.mem_reverse, List.mem_cons] at ha
    rcases ha with rfl | ha
    · exact hlast
    · exact (ih.2.2 a (List.mem_reverse.mpr ha) p (List.mem_singleton_self p)).trans hlast

/-- **No step too few**: a run that is over has moved, and leaves no more than a step. -/
theorem left_le (h : Trail plan y0 n p earlier) (hclosed : plan.grid.isOpen p.t = false) :
    1 ≤ n ∧ v.left n ≤ v.step := by
  have hslack : v.tolerance + 24 * v.rounding ≤ v.step := by
    unfold Extent.Resolved at hresolved
    unfold Extent.tolerance
    linarith [hreads.step_pos]
  cases h with
  | first hat =>
    have ht : p.t = t0 := by
      rw [(Point.at?_eq_ok.mp hat).1, hgrid]
      rfl
    rw [hgrid, ht, hreads.isOpen_start hresolved hstep] at hclosed
    cases hclosed
  | @step n a _ earlier htrail hopen hnext =>
    refine ⟨Nat.le_add_left 1 n, le_trans ?_ hslack⟩
    obtain ⟨hfollows, hahead, -⟩ := htrail.interior hgrid hreads hstep hopen
    obtain ⟨-, htime, -, -⟩ := Point.next_eq_ok.mp hnext
    rw [hgrid] at htime hclosed
    rcases Grid.timeAfter_eq_ok.mp htime with ⟨hlands, -⟩ | ⟨hlands, r, hr, hq⟩
    · exact hreads.left_le_of_lands hfollows (hreads.steps_so_far_le hahead) hlands
    · have hfollows' : v.Follows (n + 1) p.t := by
        rw [hq]
        exact hreads.time_follows (hreads.steps_le hahead) hr
      have hgrazes := hreads.grazes_of_closed hfollows'
        (hreads.ahead_of_not_lands hfollows hahead hlands) hclosed
      unfold Extent.Grazes at hgrazes
      rw [abs_le] at hgrazes
      linarith

/-- Where the loop goes on, the steps so far fit into the domain. -/
theorem steps_lt (hlong : |v.tEnd - v.t0| ≤ 1000000 * v.step) (h : Trail plan y0 n p earlier)
    (hopen : plan.grid.isOpen p.t = true) : n * v.step < |v.tEnd - v.t0| := by
  have hrounding := hreads.rounding_pos
  obtain ⟨-, hahead, htime⟩ := h.interior hgrid hreads hstep hopen
  unfold Extent.Resolved at hresolved
  rcases htime with rfl | ⟨r, hr, hp⟩
  · unfold Extent.left at hstep
    rw [Nat.cast_zero, zero_mul, sub_zero] at hstep
    rw [Nat.cast_zero, zero_mul]
    linarith
  · have hlast : n * v.step ≤ |v.tEnd - v.t0| + v.step := by
      unfold Extent.Ahead Extent.left at hahead
      linarith [hreads.tolerance_pos]
    rw [hgrid, hp] at hopen
    exact hreads.length_gt_of_isOpen hlong hr hlast hopen

/-- **A run that is over has kept time.** -/
theorem keepsTime (h : Trail plan y0 n p earlier) (hclosed : plan.grid.isOpen p.t = false) :
    (Grid.of t0 tEnd stepSize).KeepsTime v ((p :: earlier).reverse.map (·.t)) := by
  obtain ⟨hmoves, hleft⟩ := h.left_le hgrid hreads hresolved hstep hclosed
  have hlength : ((p :: earlier).reverse.map (·.t)).length = n + 1 := by
    rw [List.length_map, h.count_points]
  refine ⟨by omega, ?_, fun hlong => ?_⟩
  · rw [List.pairwise_map]
    exact (h.ordered hgrid hreads hresolved hstep).imp hreads.precedes_of_earlier
  · have hpos := hreads.step_pos
    -- the last step was taken with a way left to go, so the steps before it fit into the domain
    have hfits : (n - 1) * v.step ≤ |v.tEnd - v.t0| := by
      cases h with
      | first => omega
      | step htrail hopen =>
        have hlt := htrail.steps_lt hgrid hreads hresolved hstep hlong hopen
        push_cast
        linarith
    unfold Extent.left at hleft
    rw [hlength, Nat.cast_add, Nat.cast_one, add_sub_cancel_right, abs_le, neg_le_sub_iff_le_add,
      sub_le_iff_le_add, div_le_iff₀ hpos]
    constructor
    · linarith
    · rw [← sub_le_iff_le_add', le_div_iff₀ hpos]
      exact hfits

end

end Journey.Trail

/-! ## Whole calls -/

/-- The points of a successful call keep time, if accepted options always have a step that is no
    longer than the domain. -/
theorem Solver.keepsTime {σ : Type} [State Float σ] {s : Solver Float σ} {f : RightSide Float}
    {options : Value Float} {o : Outcome Float σ} {t0 tEnd stepSize : Float} {v : Extent}
    (hreads : Grid.Reads t0 tEnd stepSize v) (hresolved : v.Resolved)
    (hstart : ∀ settings warnings, s.form.check s.config options = .ok ⟨.ok settings, warnings⟩ →
      Grid.of settings.t0 settings.tEnd settings.stepSize = Grid.of t0 tEnd stepSize ∧
        v.step ≤ v.left 0 + 4 * v.rounding)
    (h : s.solveWith f options = .ok o) (hs : o.solution.success = true) :
    (Grid.of t0 tEnd stepSize).KeepsTime v (o.solution.points.map (·.t)) := by
  obtain ⟨settings, warnings, method, j, hcheck, -, htrail, hclosed, -, rfl⟩ :=
    solveWith_success h hs
  obtain ⟨hgrid, hstep⟩ := hstart _ _ hcheck
  exact htrail.keepsTime hgrid hreads hresolved hstep hclosed

/-- **A successful call keeps time**, for single equations and for coupled systems, whatever the
    configuration, the method and the right-hand side.  The domain is neither huge nor tiny, and
    roundings of its ends are small against the step. -/
theorem solve_keeps_time (c : Config Float) (f : RightSide Float) (options : Value Float)
    {t0 tEnd stepSize : Float} {v : Extent} (ht0 : (options.option "t0").toReal = .ok t0)
    (htEnd : (options.option "t_end").toReal = .ok tEnd)
    (hstep : (options.option "step_size").toReal = .ok stepSize)
    (hreads : Grid.Reads t0 tEnd stepSize v) (hresolved : v.Resolved) :
    (∀ o : Outcome Float Float, (⟨.single, c⟩ : Solver Float Float).solveWith f options = .ok o →
      o.solution.success = true →
      (Grid.of t0 tEnd stepSize).KeepsTime v (o.solution.points.map (·.t))) ∧
    (∀ o : Outcome Float (List Float),
      (⟨.coupled, c⟩ : Solver Float (List Float)).solveWith f options = .ok o →
      o.solution.success = true →
      (Grid.of t0 tEnd stepSize).KeepsTime v (o.solution.points.map (·.t))) := by
  constructor
  · intro o h hs
    refine Solver.keepsTime hreads hresolved (fun settings warnings hcheck => ?_) h hs
    obtain ⟨a, _, b, s, -, ha, -, hb, hs', -, -, hpassed⟩ := Settings.single_accepts.mp hcheck
    exact hreads.step_le_of_passed hpassed ha hb hs' ht0 htEnd hstep
  · intro o h hs
    refine Solver.keepsTime hreads hresolved (fun settings warnings hcheck => ?_) h hs
    obtain ⟨a, b, s, _, _, -, ha, hb, hs', -, -, -, -, -, hpassed⟩ :=
      Settings.coupled_accepts.mp hcheck
    exact hreads.step_le_of_passed hpassed ha hb hs' ht0 htEnd hstep

/-- Roundings of zero and one are small against a tenth. -/
theorem resolved_tenths : tenthsExtent.Resolved := by
  unfold Extent.Resolved Extent.rounding Extent.size tenthsExtent
  norm_num

/-- From zero to one in tenths: both calls succeed and keep time. -/
theorem solve_keeps_time_tenths :
    (∃ o, (⟨.single, .standard⟩ : Solver Float Float).solveWith growth (tenths (.real 1.0)) = .ok o ∧
      o.solution.success = true ∧
      (Grid.of 0.0 1.0 0.1).KeepsTime tenthsExtent (o.solution.points.map (·.t))) ∧
    (∃ o, (⟨.coupled, .standard⟩ : Solver Float (List Float)).solveWith growth
        (tenths (.list [.real 1.0, .real 2.0])) = .ok o ∧ o.solution.success = true ∧
      (Grid.of 0.0 1.0 0.1).KeepsTime tenthsExtent (o.solution.points.map (·.t))) := by
  constructor
  · have hrun : (((⟨.single, .standard⟩ : Solver Float Float).solveWith growth
        (tenths (.real 1.0))).toOption.any (·.solution.success)) = true := by decide +kernel
    obtain ⟨o, ho, hs⟩ := exists_ok hrun
    exact ⟨o, ho, hs, (solve_keeps_time .standard growth (tenths (.real 1.0)) rfl rfl rfl
      reads_tenths resolved_tenths).1 o ho hs⟩
  · have hrun : (((⟨.coupled, .standard⟩ : Solver Float (List Float)).solveWith growth
        (tenths (.list [.real 1.0, .real 2.0]))).toOption.any (·.solution.success)) = true := by
      decide +kernel
    obtain ⟨o, ho, hs⟩ := exists_ok hrun
    exact ⟨o, ho, hs, (solve_keeps_time .standard growth (tenths (.list [.real 1.0, .real 2.0]))
      rfl rfl rfl reads_tenths resolved_tenths).2 o ho hs⟩

/-- Two whole ends that differ by one and are read as the same machine real. -/
def sameEnds : Value Float := .record [("t0", .whole 9007199254740992), ("y0", .real 1.0),
  ("t_end", .whole 9007199254740993), ("step_size", .real 0.05)]

/-- **A clock that stalls**: the ends are told apart as they were given, and nothing is left between
    them once they are read.  The call succeeds without a step. -/
theorem clock_stalled : ¬ ∀ (fields : List (String × Value Float)) (c : Config Float)
    (f : RightSide Float) (options : Value Float) (t0 tEnd step : Float) (o : Outcome Float Float),
      Config.ofFields fields = .ok c → (options.option "t0").toReal = .ok t0 →
      (options.option "t_end").toReal = .ok tEnd →
      (options.option "step_size").toReal = .ok step →
      (⟨.single, c⟩ : Solver Float Float).solveWith f options = .ok o → o.solution.success = true →
      2 ≤ o.solution.points.length ∧
        (o.solution.points.map (·.t)).Pairwise (Grid.of t0 tEnd step).Precedes ∧
        ∀ a b s : ℚ, value? t0 = some a → value? tEnd = some b → value? step = some s →
          |((o.solution.points.length : ℚ) - 1) - |b - a| / s| ≤ 1 := by
  intro h
  have hrun : (((⟨.single, .standard⟩ : Solver Float Float).solveWith (.constant (.real 0.0))
      sameEnds).toOption.any fun o => o.solution.success && o.solution.points.length == 1) =
        true := by decide +kernel
  obtain ⟨o, ho, hstalled⟩ := exists_ok hrun
  rw [Bool.and_eq_true, beq_iff_eq] at hstalled
  obtain ⟨hmoves, -⟩ := h [] .standard (.constant (.real 0.0)) sameEnds 9007199254740992.0
    9007199254740992.0 0.05 o rfl (by decide +kernel) (by decide +kernel) rfl ho hstalled.1
  omega

end InitialValue
