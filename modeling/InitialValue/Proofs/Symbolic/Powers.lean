/-
  Names in powers.

  A power is a number, or a power of parts of the base and the exponent, as the rules for numbers,
  products, sums and powers of powers have it; none of them brings in names that were not there
  (`Algebra.over_powerStep`).
-/
import InitialValue.Proofs.Symbolic.SumsAndProducts
import InitialValue.Symbolic.Power

namespace InitialValue.Symbolic

open Term

variable {ν : Type} {S : String → Prop} {A : Algebra ν} {x y t b e : Term ν}
  {ts fs : List (Term ν)}

namespace Numeric

variable (hA : A.Keeps S)

include hA

theorem over_ofComplex (prec : Nat) (z : Complex) : (ofComplex A prec z).Over S := by
  unfold ofComplex
  grind

theorem over_value1? {f : Fn} {x : Rounded} (h : value1? A f x = some t) : t.Over S := by
  unfold value1? value1?.hyperbolic? at h
  grind [over_ofComplex]

end Numeric

variable [Ord ν]

namespace Power

omit [Ord ν] in
@[grind .] theorem over_unitPower (n : Int) : (unitPower n : Term ν).Over S := by
  unfold unitPower
  split <;> grind

omit [Ord ν] in
@[grind ←] theorem over_ofUnit (he : e.Over S) : (ofUnit e).Over S := by
  unfold ofUnit
  grind

/-- All factors are over names with a property. -/
structure Signed.Over (S : String → Prop) (s : Signed ν) : Prop where
  nonNegative : ∀ t ∈ s.nonNegative, t.Over S
  negative : ∀ t ∈ s.negative, t.Over S
  other : ∀ t ∈ s.other, t.Over S

omit [Ord ν] in
theorem over_bySign (h : ∀ t ∈ fs, t.Over S) : (bySign fs).Over S := by
  unfold bySign
  refine List.foldrRecOn (motive := Signed.Over S) fs _ ⟨by simp, by simp, by simp⟩ ?_
  rintro s ⟨h1, h2, h3⟩ f hf
  have := h f hf
  constructor <;> grind

theorem over_moveSigns {s : Signed ν} (h : s.Over S) : (∀ t ∈ (moveSigns s).1, t.Over S) ∧ ∀ t ∈
    (moveSigns s).2, t.Over S := by
  have hother : ∀ t ∈
      (if s.units = 0 then s else { s with other := s.other ++ [Term.unit] }).other,
      t.Over S := by
    split
    · exact h.other
    · intro t ht
      rcases List.mem_append.mp ht with ht | ht
      · exact h.other t ht
      · exact List.mem_singleton.mp ht ▸ over_unit
  have hs : (if s.units = 0 then s else { s with other := s.other ++ [Term.unit] }).Over S := by
    refine ⟨?_, ?_, hother⟩
    · split <;> exact h.nonNegative
    · split <;> exact h.negative
  unfold moveSigns
  generalize (if s.units = 0 then s else { s with other := s.other ++ [Term.unit] }) = s' at hs ⊢
  obtain ⟨h1, h2, h3⟩ := hs
  dsimp only
  split
  · exact ⟨h1, h3⟩
  · grind
  · rename_i n more heq
    rw [heq, List.forall_mem_cons] at h2
    grind

section

variable (hA : A.Keeps S)

include hA

omit [Ord ν] in
@[grind ←] theorem over_ofSurd (s : Surd) : (ofSurd A s).Over S := by
  unfold ofSurd
  grind

omit [Ord ν] in
@[grind ←] theorem over_rational (b e : Rat) : (rational A b e).Over S := by
  unfold rational
  grind

omit [Ord ν] in
@[grind ←] theorem over_negativeBinary (prec : Nat) (x : Rounded) (e : Coefficient) :
    (negativeBinary A prec x e).Over S := by
  unfold negativeBinary negativeBinary.complexPower
  grind [Numeric.over_ofComplex]

omit [Ord ν] in
@[grind ←] theorem over_binary (x : Rounded) (e : Coefficient) : (binary A x e).Over S := by
  unfold binary
  grind

omit [Ord ν] in
@[grind ←] theorem over_ofZero (he : e.Over S) : (ofZero A e).Over S := by
  unfold ofZero
  grind

omit [Ord ν] in
@[grind ←] theorem over_ofNum {n : Coefficient} (he : e.Over S) : (ofNum A n e).Over S := by
  unfold ofNum
  grind

@[grind ←] theorem over_splitProduct (h : ∀ t ∈ fs, t.Over S) (he : e.Over S) :
    (splitProduct A fs e).Over S := by
  have h := over_moveSigns (over_bySign h)
  have hb := hA.product _ h.2
  unfold splitProduct
  grind

omit [Ord ν] in
theorem over_halfOfImaginary? {c e : Rat} (h : halfOfImaginary? A c e = some t) : t.Over S := by
  unfold halfOfImaginary? at h
  simp only [Option.bind_eq_bind, Option.bind_eq_some_iff] at h
  obtain ⟨n, -, d, -, h⟩ := h
  grind

@[grind ←] theorem over_ofProduct (h : ∀ t ∈ fs, t.Over S) (he : e.Over S) : (ofProduct A fs e).Over
    S := by
  unfold ofProduct
  split
  · split
    · grind
    · refine over_getD ?_ (over_splitProduct hA h he)
      intro t ht
      split at ht
      · split at ht
        · exact over_halfOfImaginary? hA ht
        · cases ht
      · cases ht
  · exact over_splitProduct hA h he
  · exact over_power.mpr ⟨over_product.mpr h, he⟩

omit [Ord ν] in
theorem over_ofComplexParts? {a b e : Rat} (h : ofComplexParts? A a b e = some t) : t.Over S := by
  unfold ofComplexParts? at h
  split at h
  · grind
  split at h
  · simp only [Option.bind_eq_bind, Option.bind_eq_some_iff] at h
    obtain ⟨d, -, h⟩ := h
    grind
  · cases h

omit [Ord ν] in
theorem over_takeOut? {e : Coefficient} (h : ∀ t ∈ ts, t.Over S) (ht : takeOut? A ts e = some t) :
    t.Over S := by
  unfold takeOut? at ht
  grind

omit [Ord ν] in
@[grind ←] theorem over_ofSum (h : ∀ t ∈ ts, t.Over S) (he : e.Over S) : (ofSum A ts e).Over S := by
  unfold ofSum
  refine over_getD ?_ (over_power.mpr ⟨over_sum.mpr h, he⟩)
  intro t ht
  split at ht
  · split at ht
    · exact over_ofComplexParts? hA ht
    · split at ht
      · cases ht
      · exact over_takeOut? hA h ht
  · exact over_takeOut? hA h ht
  · cases ht

omit [Ord ν] in
@[grind ←] theorem over_ofPower {w b e o : Term ν} (hw : w.Over S) (hb : b.Over S) (he : e.Over S)
    (ho : o.Over S) : (ofPower A w b e o).Over S := by
  unfold ofPower
  grind

end

end Power

/-- **Powers bring in no new names.** -/
theorem Algebra.over_powerStep (hA : A.Keeps S) (hb : b.Over S) (he : e.Over S) :
    (A.powerStep b e).Over S := by
  unfold Algebra.powerStep
  grind

end InitialValue.Symbolic
