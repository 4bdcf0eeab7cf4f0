/-
  Scalars in order.

  `Scalar` says nothing about how its operations fit together.  `Scalar.Ordered` does, as far as
  the integration loop relies on it: comparing is comparing levels, a finite value has a rational
  level, its magnitude is the absolute value, and a finite end of a domain is not ahead of itself.
  Machine reals and exact rationals both are ordered.

  What follows for numbers: `lt` and `le` compare levels, and when no bound is smaller than the
  largest component of a state, no component is above the bound.
-/
import InitialValue.Method.Step
import InitialValue.Proofs.Binary.Order
import InitialValue.Proofs.Number.Rational

namespace InitialValue

open Level (order? exact)

/-! ## Reading an order -/

namespace Level

theorem order?_lt_iff {a b : Option Level} :
    order? a b = some .lt ↔ ∃ p q, a = some p ∧ b = some q ∧ p < q := by
  cases a <;> cases b <;> simp [order?, cmp_eq_lt_iff]

theorem order?_le_iff {a b : Option Level} :
    (order? a b).elim false (· != .gt) = true ↔ ∃ p q, a = some p ∧ b = some q ∧ p ≤ q := by
  cases a <;> cases b <;> simp [order?, cmp_eq_gt_iff]

end Level

/-! ## Lawful scalars -/

/-- A scalar whose comparisons follow the order of levels. -/
class Scalar.Ordered (α : Type) [Scalar α] where
  /-- Where a value stands; nowhere when it is undefined. -/
  level : α → Option Level
  compare?_eq : ∀ x y : α, Scalar.compare? x y = order? (level x) (level y)
  compareInt?_eq : ∀ (x : α) (n : Int), Scalar.compareInt? x n = order? (level x) (some (exact n))
  level_of_isFinite : ∀ x : α, Scalar.isFinite x = true → ∃ q, level x = some (exact q)
  level_magnitude : ∀ (x : α) (q : Rat), level x = some (exact q) →
    level (Scalar.magnitude x) = some (exact |q|)
  level_zero : level 0.0 = some (exact 0)
  /-- A finite time has no way left to itself, in either direction. -/
  not_ahead : ∀ x h d : α, Scalar.isFinite x = true → d = 1.0 ∨ d = -1.0 →
    Scalar.lt (1e-9 * Scalar.magnitude h) (d * (x - x)) = false

/-! ## Machine reals -/

namespace Binary

open Float.Model (UnpackedFloat Format)
open Float.Model.UnpackedFloat

/-- A finite number less itself is zero. -/
theorem unpack_sub_self {x : Float} (h : x.isFinite = true) :
    (x - x).toModel.unpack = .zero .positive := by
  have hx : x - x = packed (sub Format.binary64 x.toModel.unpack x.toModel.unpack) := rfl
  have hfin : x.toModel.unpack.isFinite = true := h
  rw [hx]
  generalize x.toModel.unpack = u at hfin ⊢
  have hsub : sub Format.binary64 u u = .zero .positive := by
    rcases u with s | _ | s | ⟨s, m, e, hm⟩
    · cases hfin
    · cases hfin
    · cases s <;> rfl
    · simp [UnpackedFloat.sub, UnpackedFloat.normalize]
  rw [hsub]
  exact unpack_packed trivial

theorem signIn_round (s : Sign) (m : Nat) (e : Int) (a : Accuracy) :
    signIn (roundWithAccuracy Format.binary64 s m e a) = s := by
  unfold roundWithAccuracy
  dsimp only
  split <;> rfl

/-- A product of positive signs is not negative. -/
theorem signIn_mul {u v : UnpackedFloat} (hu : signIn u = .positive) (hv : signIn v = .positive) :
    signIn (mul Format.binary64 u v) = .positive := by
  rcases u with s | _ | s | ⟨s, m, e, hm⟩ <;> rcases v with s' | _ | s' | ⟨s', m', e', hm'⟩ <;>
    first
      | rfl
      | (cases hu; cases hv; rfl)
      | (cases hu; cases hv; exact signIn_round _ _ _ _)

theorem signIn_unpack (x : Float) :
    signIn x.toModel.unpack = signOf x ∨ x.toModel.unpack = .notANumber := by
  have h := shape x
  generalize x.toModel.unpack = u at h ⊢
  cases h with
  | undefined => exact Or.inr rfl
  | _ => exact Or.inl rfl

/-- Unpacking what was packed keeps the sign, or gives the undefined result, which counts as
    positive. -/
theorem signIn_unpack_packed {u : UnpackedFloat} (h : signIn u = .positive) :
    signIn (packed u).toModel.unpack = .positive := by
  rcases signIn_unpack (packed u) with hs | hn
  · rw [hs, signOf_packed, h]
  · rw [hn]; rfl

/-- A magnitude has a positive sign. -/
theorem signIn_abs (x : Float) : signIn x.abs.toModel.unpack = .positive := by
  have habs : signIn x.toModel.unpack.abs = .positive := by cases x.toModel.unpack <;> rfl
  exact signIn_unpack_packed habs

/-- What is not negative is not below a zero. -/
theorem not_lt_zero {u : UnpackedFloat} {s : Sign} (h : signIn u = .positive) :
    u.compare (.zero s) ≠ some .lt := by
  rcases u with s | _ | s | ⟨s, m, e, hm⟩
  · cases h; simp [UnpackedFloat.compare]
  · simp [UnpackedFloat.compare]
  · simp [UnpackedFloat.compare]
  · cases h; simp [UnpackedFloat.compare]

/-- The magnitude scaled by a positive number is not below a multiple of zero. -/
theorem not_ahead (x h d : Float) (hx : x.isFinite = true) (hd : d = 1.0 ∨ d = -1.0) :
    Scalar.lt (1e-9 * Scalar.magnitude h) (d * (x - x)) = false := by
  have hzero : ∃ s, (d * (x - x)).toModel.unpack = .zero s := by
    have hmul : d * (x - x) =
        packed (mul Format.binary64 d.toModel.unpack (x - x).toModel.unpack) := rfl
    rw [hmul, unpack_sub_self hx]
    rcases hd with hd | hd
    · exact ⟨.positive, by rw [hd]; exact unpack_packed (u := .zero .positive) trivial⟩
    · exact ⟨.negative, by rw [hd]; exact unpack_packed (u := .zero .negative) trivial⟩
  have htol : signIn (1e-9 * h.abs).toModel.unpack = .positive :=
    signIn_unpack_packed (signIn_mul (by rfl) (signIn_abs h))
  obtain ⟨s, hs⟩ := hzero
  have hne : order? (level (1e-9 * h.abs)) (level (d * (x - x))) ≠ some .lt := by
    rw [← compare_unpack, hs]
    exact not_lt_zero htol
  show (compare? (1e-9 * h.abs) (d * (x - x)) == some .lt) = false
  rw [compare?_eq]
  exact beq_false_of_ne hne

end Binary

instance : Scalar.Ordered Float where
  level := Binary.level
  compare?_eq := Binary.compare?_eq
  compareInt?_eq := Binary.compareInt?_eq
  level_of_isFinite x h := (Binary.isFinite_iff x).mp h
  level_magnitude _ _ := Binary.level_abs
  level_zero := rfl
  not_ahead := Binary.not_ahead

/-! ## Exact rationals -/

namespace Exact

theorem compare?_eq (x y : Rat) :
    Scalar.compare? x y = order? (some (exact x)) (some (exact y)) := by
  rw [Level.order?_exact, cmp_eq_compareOfLessAndEq]
  rfl

theorem compareInt?_eq (x : Rat) (n : Int) :
    Scalar.compareInt? x n = order? (some (exact x)) (some (exact n)) := by
  rw [Level.order?_exact, cmp_eq_compareOfLessAndEq]
  rfl

theorem level_magnitude (x q : Rat) (h : some (exact x) = some (exact q)) :
    some (exact (Scalar.magnitude x)) = some (exact |q|) := by
  obtain rfl : x = q := by simpa [exact] using h
  rw [Scalar.magnitude_rat]

theorem level_zero : some (exact 0.0) = some (exact 0) := by
  have hzero : (0.0 : Rat) = 0 := by norm_num
  rw [hzero]

theorem not_ahead (x h d : Rat) :
    Scalar.lt (1e-9 * Scalar.magnitude h) (d * (x - x)) = false := by
  rw [Bool.eq_false_iff, ne_eq, Scalar.lt_rat_iff, sub_self, mul_zero, not_lt, Scalar.magnitude_rat]
  exact mul_nonneg (by norm_num) (abs_nonneg h)

end Exact

instance : Scalar.Ordered Rat where
  level x := some (exact x)
  compare?_eq := Exact.compare?_eq
  compareInt?_eq := Exact.compareInt?_eq
  level_of_isFinite x _ := ⟨x, rfl⟩
  level_magnitude := Exact.level_magnitude
  level_zero := Exact.level_zero
  not_ahead x h d _ _ := Exact.not_ahead x h d

/-! ## Numbers -/

namespace Number

variable {α : Type} [Scalar α] [Scalar.Ordered α]

/-- Where a number stands. -/
def level : Number α → Option Level
  | .whole n => some (exact n)
  | .real x => Scalar.Ordered.level x

/-- **Numbers are compared by level.** -/
theorem compare?_eq (a b : Number α) : a.compare? b = order? a.level b.level := by
  cases a with
  | whole m =>
    cases b with
    | whole n =>
      show some (compareOfLessAndEq m n) = order? (some (exact m)) (some (exact n))
      rw [Level.order?_exact, ← cmp_eq_compareOfLessAndEq]
      simp [cmp, cmpUsing]
    | real y =>
      show (Scalar.compareInt? y m).map Ordering.swap = _
      rw [Scalar.Ordered.compareInt?_eq, Level.order?_swap]; rfl
  | real x =>
    cases b with
    | whole n => exact Scalar.Ordered.compareInt?_eq x n
    | real y => exact Scalar.Ordered.compare?_eq x y

theorem lt_iff {a b : Number α} :
    a.lt b = true ↔ ∃ p q, a.level = some p ∧ b.level = some q ∧ p < q := by
  unfold lt
  rw [compare?_eq, beq_iff_eq, Level.order?_lt_iff]

theorem le_iff {a b : Number α} :
    a.le b = true ↔ ∃ p q, a.level = some p ∧ b.level = some q ∧ p ≤ q := by
  unfold le
  rw [compare?_eq, Level.order?_le_iff]

end Number

/-! ## The largest component -/

namespace State

variable {α σ : Type} [Scalar α] [Scalar.Ordered α] [State α σ]

open Scalar.Ordered (level)

theorem level_larger {a b : α} {p q : Level} (ha : level a = some p) (hb : level b = some q) :
    level (Scalar.larger a b) = some (max p q) := by
  unfold Scalar.larger Scalar.lt
  rw [Scalar.Ordered.compare?_eq, ha, hb]
  by_cases h : p < q
  · have hlt : order? (some p) (some q) = some .lt :=
      Level.order?_lt_iff.mpr ⟨p, q, rfl, rfl, h⟩
    rw [hlt, if_pos (by rfl), hb, max_eq_right h.le]
  · have hne : order? (some p) (some q) ≠ some .lt := by
      intro hlt
      obtain ⟨_, _, hp, hq, hpq⟩ := Level.order?_lt_iff.mp hlt
      cases hp; cases hq
      exact h hpq
    rw [beq_false_of_ne hne, if_neg (by decide), ha, max_eq_left (not_lt.mp h)]

/-- Running through finite values, the largest magnitude has a level above all of them. -/
theorem level_foldl_larger (xs : List α) (hfin : xs.all Scalar.isFinite = true) (m : α)
    (p : Level) (hm : level m = some p) :
    ∃ r, level (xs.foldl (fun m x => Scalar.larger m (Scalar.magnitude x)) m) = some r ∧ p ≤ r ∧
      ∀ x ∈ xs, ∃ q, level (Scalar.magnitude x) = some q ∧ q ≤ r := by
  induction xs generalizing m p with
  | nil => exact ⟨p, hm, le_rfl, by simp⟩
  | cons x xs ih =>
    rw [List.all_cons, Bool.and_eq_true] at hfin
    obtain ⟨q, hq⟩ := Scalar.Ordered.level_of_isFinite x hfin.1
    have hmag := Scalar.Ordered.level_magnitude x q hq
    obtain ⟨r, hr, hpr, hall⟩ := ih hfin.2 _ _ (level_larger hm hmag)
    refine ⟨r, hr, (le_max_left _ _).trans hpr, ?_⟩
    intro y hy
    rcases List.mem_cons.mp hy with rfl | hy
    · exact ⟨_, hmag, (le_max_right _ _).trans hpr⟩
    · exact hall y hy

/-- **A state whose largest component does not pass a bound has no component that does**, for a
    bound that is a number at all. -/
theorem magnitude_le {y : σ} {bound : Number α} (hbound : bound.level.isSome)
    (hfin : isFinite α y = true) (h : bound.lt (.real (largest y)) = false) (x : α)
    (hx : x ∈ components y) : (Number.real (Scalar.magnitude x)).le bound = true := by
  obtain ⟨b, hb⟩ := Option.isSome_iff_exists.mp hbound
  obtain ⟨r, hr, -, hall⟩ :=
    level_foldl_larger (components y) hfin (0.0 : α) _ Scalar.Ordered.level_zero
  obtain ⟨q, hq, hqr⟩ := hall x hx
  have hrb : r ≤ b := by
    by_contra hlt
    have htrue : bound.lt (.real (largest y)) = true :=
      Number.lt_iff.mpr ⟨b, r, hb, hr, not_le.mp hlt⟩
    rw [h] at htrue
    cases htrue
  exact Number.le_iff.mpr ⟨q, b, hq, hb, hqr.trans hrb⟩

end State

end InitialValue
