/-
  Scalars that are faithful to the rationals.

  The exact rationals are one kind of numbers without rounding, but not the only one: numbers that
  are rationals where they are finite, and may be infinite or undefined besides, compute the same
  with finite ones.  `Scalar.Faithful` is what both have in common, as far as advice and estimates
  of step sizes rely on it: every rational is a value, a value with the level of a rational is that
  rational, and whole numbers, differences and quotients are not rounded.

  For numbers as they stand in data, `Number.Worth` says which rational a number is; what is computed
  from worths is worth what was computed (`Number.sub_worth`, `Number.magnitude_worth`,
  `Number.div_worth`), and worths are compared as rationals.
-/
import InitialValue.Proofs.Failing
import InitialValue.Proofs.Number.Order

namespace InitialValue

open Level (order? exact)
open Scalar.Ordered (level)

/-- A scalar that is exact wherever it is finite. -/
class Scalar.Faithful (α : Type) [Scalar α] [Scalar.Ordered α] where
  ofRat : ℚ → α
  level_ofRat : ∀ q, level (ofRat q) = some (exact q)
  /-- A value at the level of a rational is that rational. -/
  eq_ofRat : ∀ (x : α) (q : ℚ), level x = some (exact q) → x = ofRat q
  isFinite_ofRat : ∀ q, Scalar.isFinite (ofRat q) = true
  ofInt?_eq : ∀ n : ℤ, Scalar.ofInt? n = some (ofRat n)
  ofQuotient?_eq : ∀ a b : ℤ, b ≠ 0 → Scalar.ofQuotient? a b = some (ofRat (a / b))
  ofScientific_eq : ∀ (m : ℕ) (s : Bool) (e : ℕ),
    (OfScientific.ofScientific m s e : α) = ofRat (OfScientific.ofScientific m s e)
  sub_ofRat : ∀ a b, ofRat a - ofRat b = ofRat (a - b)
  div_ofRat : ∀ a b, b ≠ 0 → ofRat a / ofRat b = ofRat (a / b)

instance : Scalar.Faithful ℚ where
  ofRat q := q
  level_ofRat _ := rfl
  eq_ofRat x q h := by
    have heq : some (exact x) = some (exact q) := h
    simpa [exact] using heq
  isFinite_ofRat _ := rfl
  ofInt?_eq _ := rfl
  ofQuotient?_eq _ _ _ := rfl
  ofScientific_eq _ _ _ := rfl
  sub_ofRat _ _ := rfl
  div_ofRat _ _ _ := rfl

namespace Scalar.Faithful

variable {α : Type} [Scalar α] [Scalar.Ordered α] [Scalar.Faithful α]

theorem compareInt?_ofRat (p : ℚ) (n : ℤ) :
    Scalar.compareInt? (ofRat p : α) n = some (cmp p n) := by
  rw [Scalar.Ordered.compareInt?_eq, level_ofRat, Level.order?_exact]

theorem lt_ofRat {p q : ℚ} : Scalar.lt (ofRat p : α) (ofRat q) = true ↔ p < q := by
  unfold Scalar.lt
  rw [Scalar.Ordered.compare?_eq, level_ofRat, level_ofRat, Level.order?_exact, beq_iff_eq,
    Option.some.injEq, cmp_eq_lt_iff]

/-- The smaller of two rationals. -/
theorem smaller_ofRat (p q : ℚ) : Scalar.smaller (ofRat p : α) (ofRat q) = ofRat (min p q) := by
  unfold Scalar.smaller
  split
  · rename_i h
    rw [min_eq_right (lt_ofRat.mp h).le]
  · rename_i h
    rw [min_eq_left (not_lt.mp (mt lt_ofRat.mpr h))]

/-- **A value held between two rationals** is a rational between them, whatever it was: what is below
    the one or above the other is replaced by it, and so is what is undefined. -/
theorem clamp_ofRat {l u : ℚ} (h : l ≤ u) (s : α) :
    ∃ q, Scalar.larger (ofRat l) (Scalar.smaller (ofRat u) s) = ofRat q ∧ l ≤ q ∧ q ≤ u := by
  unfold Scalar.larger Scalar.smaller
  cases hupper : Scalar.lt s (ofRat u) with
  | false =>
    rw [if_neg Bool.false_ne_true]
    split
    · exact ⟨u, rfl, h, le_rfl⟩
    · exact ⟨l, rfl, le_rfl, h⟩
  | true =>
    rw [if_pos rfl]
    cases hlower : Scalar.lt (ofRat l) s with
    | false => exact ⟨l, by rw [if_neg Bool.false_ne_true], le_rfl, h⟩
    | true =>
      -- what stands between two rationals stands at one
      unfold Scalar.lt at hupper hlower
      rw [Scalar.Ordered.compare?_eq, level_ofRat, beq_iff_eq, Level.order?_lt_iff]
        at hupper hlower
      obtain ⟨p, _, hp, hu, hpu⟩ := hupper
      obtain ⟨_, p', hl, hp', hlp⟩ := hlower
      cases hu
      cases hl
      obtain rfl : p = p' := Option.some.inj (hp.symm.trans hp')
      obtain ⟨q, rfl⟩ : ∃ q, p = exact q := by
        cases p using WithBot.recBotCoe with
        | bot => exact absurd hlp not_lt_bot
        | coe p =>
          cases p using WithTop.recTopCoe with
          | top => exact absurd (hpu.trans (Level.exact_lt_top u)) (lt_irrefl _)
          | coe q => exact ⟨q, rfl⟩
      rw [Level.exact_lt_exact] at hpu hlp
      exact ⟨q, by rw [if_pos rfl, eq_ofRat s q hp], hlp.le, hpu.le⟩

end Scalar.Faithful

/-! ## Numbers -/

namespace Number

open Scalar.Faithful

variable {α : Type} [Scalar α] [Scalar.Ordered α] {a b : Number α} {p q : ℚ}

/-- The number is this rational. -/
def Worth (a : Number α) (q : ℚ) : Prop := a.level = some (exact q)

theorem Worth.whole (n : ℤ) : (Number.whole n : Number α).Worth n := rfl

theorem Worth.unique (h : a.Worth p) (h' : a.Worth q) : p = q := by
  have heq : some (exact p) = some (exact q) := h.symm.trans h'
  simpa [exact] using heq

/-! ### Comparing -/

theorem Worth.lt_iff (ha : a.Worth p) (hb : b.Worth q) : a.lt b = true ↔ p < q := by
  rw [Number.lt_iff, ha, hb]
  simp [Level.exact_lt_exact]

theorem Worth.le_iff (ha : a.Worth p) (hb : b.Worth q) : a.le b = true ↔ p ≤ q := by
  rw [Number.le_iff, ha, hb]
  simp [exact]

theorem Worth.same_iff (ha : a.Worth p) (hb : b.Worth q) : a.same b = true ↔ p = q := by
  unfold same
  rw [compare?_eq, ha, hb, Level.order?_exact, beq_iff_eq, Option.some.injEq, cmp_eq_eq_iff]

/-! ### Computing -/

theorem magnitude_worth (h : a.Worth p) : a.magnitude.Worth |p| := by
  cases a with
  | whole n =>
    obtain rfl : (n : ℚ) = p := (Worth.whole n).unique h
    show some (exact ((n.natAbs : ℤ) : ℚ)) = some (exact |(n : ℚ)|)
    rw [Int.natCast_natAbs, Int.cast_abs]
  | real x => exact Scalar.Ordered.level_magnitude x p h

variable [Scalar.Faithful α]

theorem worth_ofRat (q : ℚ) : (Number.real (ofRat q) : Number α).Worth q := level_ofRat q

/-- A literal is worth the rational that it writes. -/
theorem worth_literal (m : ℕ) (s : Bool) (e : ℕ) :
    (Number.real (OfScientific.ofScientific m s e) : Number α).Worth
      (OfScientific.ofScientific m s e) := by
  rw [ofScientific_eq]
  exact worth_ofRat _

theorem toReal_worth (h : a.Worth p) : a.toReal = .ok (ofRat p) := by
  cases a with
  | whole n =>
    obtain rfl : (n : ℚ) = p := (Worth.whole n).unique h
    show (Scalar.ofInt? n).elim _ _ = _
    rw [ofInt?_eq]
    rfl
  | real x => exact congrArg Except.ok (eq_ofRat x p h)

theorem sub_worth (ha : a.Worth p) (hb : b.Worth q) : ∃ d, a.sub b = .ok d ∧ d.Worth (p - q) := by
  have hreal : (do return .real ((← a.toReal) - (← b.toReal)) : Except Foreign (Number α)) =
      .ok (.real (ofRat (p - q))) := by
    rw [toReal_worth ha, toReal_worth hb, ← sub_ofRat]
    rfl
  cases a <;> cases b
  case whole.whole m n =>
    obtain rfl : (m : ℚ) = p := (Worth.whole m).unique ha
    obtain rfl : (n : ℚ) = q := (Worth.whole n).unique hb
    exact ⟨_, rfl, by rw [← Int.cast_sub]; exact Worth.whole (m - n)⟩
  all_goals exact ⟨_, hreal, worth_ofRat _⟩

/-- The length of the domain between two numbers. -/
theorem length_worth (ha : a.Worth p) (hb : b.Worth q) :
    ∃ d, b.sub a = .ok d ∧ d.magnitude.Worth |q - p| := by
  obtain ⟨d, hd, hworth⟩ := sub_worth hb ha
  exact ⟨d, hd, magnitude_worth hworth⟩

theorem div_worth (ha : a.Worth p) (hb : b.Worth q) (hq : q ≠ 0) :
    a.div b = .ok (ofRat (p / q)) := by
  have hzero : b.same (.whole 0) = false := by
    rw [Bool.eq_false_iff, ne_eq, hb.same_iff (Worth.whole 0), Int.cast_zero]
    exact hq
  have hreal : (do
      let x ← a.toReal
      let y ← b.toReal
      if b.same (.whole 0) then .error .divisionByZero else .ok (x / y) : Except Foreign α) =
        .ok (ofRat (p / q)) := by
    rw [toReal_worth ha, toReal_worth hb, hzero, ← div_ofRat p q hq]
    rfl
  cases a <;> cases b
  case whole.whole m n =>
    obtain rfl : (m : ℚ) = p := (Worth.whole m).unique ha
    obtain rfl : (n : ℚ) = q := (Worth.whole n).unique hb
    have hn : n ≠ 0 := Int.cast_ne_zero.mp hq
    show (if n = 0 then _ else (Scalar.ofQuotient? m n).elim _ _) = _
    rw [if_neg hn, ofQuotient?_eq m n hn]
    rfl
  all_goals exact hreal

theorem div_whole_worth (ha : a.Worth p) {n : ℤ} (hn : n ≠ 0) :
    a.div (.whole n) = .ok (ofRat (p / n)) :=
  div_worth ha (Worth.whole n) (Int.cast_ne_zero.mpr hn)

end Number

end InitialValue
