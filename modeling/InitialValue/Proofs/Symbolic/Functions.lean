/-
  Names in functions.

  The rules for each function take terms apart, look some of them up, and put numbers, constants and
  parts of the arguments together again; none of them brings in names that were not there.  So one
  more layer of the algebra keeps what the layer below keeps (`Algebra.Keeps.step`), and by
  induction on the layers **simplification brings in no new names** (`Algebra.keeps_standard`).
-/
import InitialValue.Proofs.Symbolic.Powers
import InitialValue.Symbolic.Standard

namespace InitialValue.Symbolic

open Term

variable {ν : Type} [Ord ν] {S : String → Prop} {A : Algebra ν}
  {x y z t u b c e f g r p q p' q' : Term ν} {ts fs args : List (Term ν)}

namespace Circular

omit [Ord ν] in
@[grind →] theorem over_without? {c : Constant} (h : t.Over S) (hu : without? c t = some u) : u.Over
    S := by
  unfold without? at hu
  grind

omit [Ord ν] in
@[grind →] theorem over_imaginary? (h : x.Over S) (ht : imaginary? x = some t) : t.Over S := by
  unfold imaginary? at ht
  simp only [Option.bind_eq_bind, Option.bind_eq_some_iff] at ht
  obtain ⟨u, hu, ht⟩ := ht
  have hu := over_without? h hu
  grind

theorem over_cosine? {q : Rat} (ht : cosine? q = some t) : t.Over S := by
  unfold cosine? quadrant? at ht
  grind

theorem over_sine? {q : Rat} (ht : sine? q = some t) : t.Over S := over_cosine? ht

section

variable (hA : A.Keeps S)

include hA

omit [Ord ν] in
@[grind →] theorem over_straight? (h : x.Over S) (ht : straight? A x = some t) : t.Over S := by
  unfold straight? at ht
  simp only [Option.bind_eq_bind, Option.bind_eq_some_iff] at ht
  obtain ⟨u, hu, ht⟩ := ht
  have hu := over_without? h hu
  grind

omit [Ord ν] in
theorem over_splitRight? {q : Rat} (h : ∀ t ∈ ts, t.Over S) (ht : splitRight? A ts = some (q, t)) :
    t.Over S := by
  unfold splitRight? at ht
  grind

omit [Ord ν] in
@[grind ←] theorem over_timesPi (q : Rat) : (timesPi A q).Over S := by
  unfold timesPi
  grind

@[grind ←] theorem over_sinOfPi (hx : x.Over S) (hc : c.Over S) : (sinOfPi A x c).Over S := by
  unfold sinOfPi
  grind [over_sine?]

@[grind ←] theorem over_cosOfPi (hx : x.Over S) (hc : c.Over S) : (cosOfPi A x c).Over S := by
  unfold cosOfPi
  grind [over_cosine?]

omit [Ord ν] in
@[grind ←] theorem over_rootOfOneMinusSquare (hx : x.Over S) : (rootOfOneMinusSquare A x).Over S :=
    by
  unfold rootOfOneMinusSquare
  grind

omit [Ord ν] in
@[grind ←] theorem over_rootOfOnePlusSquare (hx : x.Over S) : (rootOfOnePlusSquare A x).Over S := by
  unfold rootOfOnePlusSquare
  grind

omit [Ord ν] in
@[grind ←] theorem over_hypotenuse (hx : x.Over S) (hy : y.Over S) : (hypotenuse A x y).Over S := by
  unfold hypotenuse
  grind

@[grind ←] theorem over_sin (hx : x.Over S) : (sin A x).Over S := by
  unfold sin
  repeat' split
  all_goals grind [over_splitRight?]

@[grind ←] theorem over_cos (hx : x.Over S) : (cos A x).Over S := by
  unfold cos
  repeat' split
  all_goals grind [over_splitRight?]

omit [Ord ν] in
theorem over_quotient? {a b : Option (Term ν)} (ha : ∀ t, a = some t → t.Over S)
    (hb : ∀ t, b = some t → t.Over S) (ht : quotient? A a b = some t) : t.Over S := by
  unfold quotient? at ht
  simp only [Option.bind_eq_bind, Option.bind_eq_some_iff] at ht
  obtain ⟨u, hu, v, hv, ht⟩ := ht
  grind

@[grind ←] theorem over_slopeOfPi {f : Fn} {value? : Rat → Option (Term ν)}
    (hv : ∀ q t, value? q = some t → t.Over S) (hx : x.Over S) (hc : c.Over S) :
    (slopeOfPi A f value? x c).Over S := by
  unfold slopeOfPi
  grind

@[grind ←] theorem over_tan (hx : x.Over S) : (tan A x).Over S := by
  have hslope : ∀ (q : Rat) (t : Term ν), quotient? A (sine? q) (cosine? q) = some t → t.Over S :=
    fun q t ht => over_quotient? hA (fun _ => over_sine?) (fun _ => over_cosine?) ht
  unfold tan
  repeat' split
  all_goals grind [over_splitRight?]

@[grind ←] theorem over_cot (hx : x.Over S) : (cot A x).Over S := by
  have hslope : ∀ (q : Rat) (t : Term ν), quotient? A (cosine? q) (sine? q) = some t → t.Over S :=
    fun q t ht => over_quotient? hA (fun _ => over_cosine?) (fun _ => over_sine?) ht
  unfold cot
  repeat' split
  all_goals grind [over_splitRight?]

omit [Ord ν] in
@[grind ←] theorem over_reciprocal (hx : x.Over S) : (reciprocal A x).Over S := by
  unfold reciprocal
  split
  · grind
  · grind
  · rename_i q y
    have hy : y.Over S := by simpa using hx
    split <;> grind
  · rename_i q y
    have hy : y.Over S := by simpa using hx
    split <;> grind
  · exact hA.inv hx

@[grind ←] theorem over_sec (hx : x.Over S) : (sec A x).Over S := by
  unfold sec
  grind

@[grind ←] theorem over_csc (hx : x.Over S) : (csc A x).Over S := by
  unfold csc
  grind

omit [Ord ν] in
@[grind ←] theorem over_foldSine (hx : x.Over S) (a : Float) : (foldSine A x a).Over S := by
  unfold foldSine
  grind

omit [Ord ν] in
@[grind ←] theorem over_foldCosine (hx : x.Over S) (a : Float) : (foldCosine A x a).Over S := by
  unfold foldCosine
  grind

@[grind ←] theorem over_asin (hx : x.Over S) : (asin A x).Over S := by
  unfold asin
  repeat' split
  all_goals grind

@[grind ←] theorem over_acos (hx : x.Over S) : (acos A x).Over S := by
  unfold acos
  repeat' split
  all_goals grind

@[grind ←] theorem over_atan (hx : x.Over S) : (atan A x).Over S := by
  unfold atan
  repeat' split
  all_goals grind

omit [Ord ν] in
@[grind ←] theorem over_complexAngle (hx : x.Over S) (hy : y.Over S) : (complexAngle A y x).Over S
    := by
  unfold complexAngle
  grind

omit [Ord ν] in
@[grind ←] theorem over_atan2 (hx : x.Over S) (hy : y.Over S) : (atan2 A y x).Over S := by
  unfold atan2
  dsimp only
  repeat' split
  all_goals grind

@[grind ←] theorem over_sinh (hx : x.Over S) : (sinh A x).Over S := by
  unfold sinh
  grind

@[grind ←] theorem over_cosh (hx : x.Over S) : (cosh A x).Over S := by
  unfold cosh
  grind

@[grind ←] theorem over_tanh (hx : x.Over S) : (tanh A x).Over S := by
  unfold tanh
  grind

@[grind ←] theorem over_asinh (hx : x.Over S) : (asinh A x).Over S := by
  unfold asinh
  grind

@[grind ←] theorem over_atanh (hx : x.Over S) : (atanh A x).Over S := by
  unfold atanh
  grind

end

end Circular

namespace Exponential

omit [Ord ν] in
theorem over_logFactor? (h : ∀ t ∈ fs, t.Over S) {o : Option (Term ν)} {rest : List (Term ν)}
    (ht : logFactor? fs = some (o, rest)) : (∀ t, o = some t → t.Over S) ∧ ∀ t ∈ rest, t.Over S :=
    by
  induction fs generalizing o rest with
  | nil => grind [logFactor?]
  | cons f fs ih =>
    unfold logFactor? at ht
    simp only [Option.bind_eq_bind, Option.bind_eq_some_iff] at ht
    obtain ⟨⟨found, left⟩, hfound, ht⟩ := ht
    rw [List.forall_mem_cons] at h
    obtain ⟨h1, h2⟩ := ih h.2 hfound
    split at ht
    · rename_i x
      grind
    · grind

section

variable (hA : A.Keeps S)

include hA

omit [Ord ν] in
theorem over_ofAngle? {q : Rat} (ht : ofAngle? A q = some t) : t.Over S := by
  unfold ofAngle? at ht
  grind

omit [Ord ν] in
theorem over_ofProduct? (hx : x.Over S) (ht : ofProduct? A x = some t) : t.Over S := by
  unfold ofProduct? at ht
  split at ht
  · rename_i u hu
    cases ht
    obtain ⟨q, -, hq⟩ := Option.bind_eq_some_iff.mp hu
    exact over_ofAngle? hA hq
  · split at ht
    · rename_i y coeffs hlog
      obtain rfl := Option.some.inj ht
      obtain ⟨hy, hcoeffs⟩ := over_logFactor? hx.factors hlog
      exact hA.power _ _ (hy y rfl) (hA.product _ hcoeffs)
    · cases ht

omit [Ord ν] in
theorem over_ofSum? (h : ∀ t ∈ ts, t.Over S) (ht : ofSum? A ts = some t) : t.Over S := by
  have hparts : ∀ p ∈ ts.map
      (fun t => (t, if t.isOne then .apply .exp [t] else A.apply .exp [t])),
      p.1.Over S ∧ p.2.Over S := by
    intro p hp
    obtain ⟨t, ht, rfl⟩ := List.mem_map.mp hp
    refine ⟨h t ht, ?_⟩
    dsimp only
    split <;> grind
  unfold ofSum? at ht
  dsimp only at ht
  generalize ts.map (fun t => (t, if t.isOne then .apply .exp [t] else A.apply .exp [t])) = parts
    at hparts ht
  split at ht
  · cases ht
  obtain rfl := Option.some.inj ht
  refine hA.product _ fun u hu => ?_
  rcases List.mem_append.mp hu with hu | hu
  · obtain ⟨p, hp, hu⟩ := List.mem_filterMap.mp hu
    have := (hparts p hp).2
    grind
  · rw [List.mem_singleton] at hu
    subst hu
    split
    · exact over_one
    · refine over_apply_one.mpr (hA.sum _ fun v hv => ?_)
      obtain ⟨p, hp, hv⟩ := List.mem_filterMap.mp hv
      have := hparts p hp
      grind

omit [Ord ν] in
@[grind ←] theorem over_exp (hx : x.Over S) : (exp A x).Over S := by
  have hexp : (Term.apply .exp [x]).Over S := over_apply_one.mpr hx
  unfold exp
  split
  case h_8 => exact over_getD (fun t ht => over_ofProduct? hA hx ht) hexp
  case h_9 => exact over_getD (fun t ht => over_ofSum? hA (over_sum.mp hx) ht) hexp
  all_goals grind

omit [Ord ν] in
@[grind ←] theorem over_ofConstant (hx : x.Over S) : (ofConstant A x).Over S := by
  unfold ofConstant
  grind

omit [Ord ν] in
@[grind ←] theorem over_log (hx : x.Over S) : (log A x).Over S := by
  unfold log
  grind

omit [Ord ν] in
@[grind ←] theorem over_ratio (hx : x.Over S) (hb : b.Over S) : (ratio A x b).Over S := by
  unfold ratio
  grind

omit [Ord ν] in
@[grind ←] theorem over_logBase (hx : x.Over S) (hb : b.Over S) : (logBase A x b).Over S := by
  unfold logBase
  grind

end

end Exponential

namespace Magnitude

theorem over_plain (hx : x.Over S) : (plain x).Over S := by
  unfold plain
  grind

omit [Ord ν] in
theorem over_signOf? (ht : signOf? f = some t) : t.Over S := by
  unfold signOf? at ht
  grind

section

variable (hA : A.Keeps S)

include hA

omit [Ord ν] in
theorem over_ofFactor? (hf : f.Over S) (ht : ofFactor? A f = some t) : t.Over S := by
  unfold ofFactor? at ht
  grind

@[grind ←] theorem over_ofProduct (h : ∀ t ∈ fs, t.Over S) : (ofProduct A fs).Over S := by
  have hknown : ∀ t ∈ (fs.map fun f => (plain f, ofFactor? A f)).filterMap (·.2), t.Over S := by
    intro t ht
    obtain ⟨p, hp, ht⟩ := List.mem_filterMap.mp ht
    obtain ⟨f, hf, rfl⟩ := List.mem_map.mp hp
    exact over_ofFactor? hA (h f hf) ht
  have hunknown : ∀ t ∈ (fs.map fun f => (plain f, ofFactor? A f)).filterMap fun p =>
      if p.2.isSome then none else some p.1, t.Over S := by
    intro t ht
    obtain ⟨p, hp, ht⟩ := List.mem_filterMap.mp ht
    obtain ⟨f, hf, rfl⟩ := List.mem_map.mp hp
    have := over_plain (h f hf)
    grind
  unfold ofProduct
  dsimp only at hknown hunknown ⊢
  generalize (fs.map fun f => (plain f, ofFactor? A f)).filterMap (·.2) = known at hknown ⊢
  generalize (fs.map fun f => (plain f, ofFactor? A f)).filterMap
    (fun x => if x.2.isSome then none else some x.1) = unknown at hunknown ⊢
  split
  · grind
  · split <;> grind

@[grind ←] theorem over_abs (hx : x.Over S) : (abs A x).Over S := by
  unfold abs
  repeat' split
  all_goals grind [over_plain]

omit [Ord ν] in
@[grind ←] theorem over_signOfProduct (h : ∀ t ∈ fs, t.Over S) : (signOfProduct A fs).Over S := by
  unfold signOfProduct
  grind [over_signOf?]

omit [Ord ν] in
@[grind ←] theorem over_sign (hx : x.Over S) : (sign A x).Over S := by
  unfold sign
  grind

omit [Ord ν] in
theorem over_ofConstant? {d : Direction} (ht : ofConstant? A d x = some t) : t.Over S := by
  unfold ofConstant? at ht
  simp only [Option.bind_eq_bind, Option.bind_eq_some_iff] at ht
  grind

omit [Ord ν] in
@[grind ←] theorem over_roundTo {d : Direction} (hx : x.Over S) : (roundTo A d x).Over S := by
  have hparts : ∀ t ∈ (x.terms.partition isWhole).1, t.Over S := by
    grind
  have hrest : ∀ t ∈ (x.terms.partition isWhole).2, t.Over S := by
    grind
  unfold roundTo
  split
  · exact over_ofInt _
  · exact over_undefined
  generalize x.terms.partition isWhole = p at hparts hrest ⊢
  obtain ⟨whole, rest⟩ := p
  dsimp only at hparts hrest ⊢
  have hother := hA.sum _ hrest
  have hdown : ((ofConstant? A d (A.sum rest)).getD (.apply d.fn [A.sum rest])).Over S :=
    over_getD (fun _ ht => over_ofConstant? hA ht) (over_apply_one.mpr hother)
  grind

end

end Magnitude

namespace Extremum

omit [Ord ν] in
theorem over_flatten {s : Side} (h : ∀ t ∈ args, t.Over S) : ∀ t ∈ flatten s args, t.Over S := by
  intro t ht
  obtain ⟨u, hu, ht⟩ := List.mem_flatMap.mp ht
  have := h u hu
  grind

theorem over_compete {s : Side} {kept : List (Term ν)} (h : ∀ t ∈ kept, t.Over S) (hx : x.Over S) :
    ∀ t ∈ compete A s kept x, t.Over S := by
  unfold compete
  grind

theorem over_of {s : Side} (h : ∀ t ∈ args, t.Over S) : (of A s args).Over S := by
  have hflat := over_flatten (s := s) h
  unfold of
  generalize flatten s args = us at hflat ⊢
  dsimp only
  split
  · exact over_const _
  generalize hvs : (us.filter fun t => !isConst s.worst t) = vs
  have hvs : ∀ t ∈ vs, t.Over S := by
    grind
  have hkept : ∀ t ∈ (vs.filter fun t => !isBarred A s (vs.filter isPlainNumber) t).foldl
      (compete A s) [], t.Over S := by
    refine List.foldlRecOn (motive := fun kept : List (Term ν) => ∀ t ∈ kept, t.Over S) _ _
      (by simp) ?_
    exact fun kept hkept t ht => over_compete hkept (hvs t (List.mem_filter.mp ht).1)
  generalize (vs.filter fun t => !isBarred A s (vs.filter isPlainNumber) t).foldl
    (compete A s) [] = kept at hkept ⊢
  split
  · exact over_const _
  · exact hkept _ (by simp)
  · grind

end Extremum

namespace Remainder

omit [Ord ν] in
theorem over_dividend (hx : x.Over S) : (ofRemainder?.dividend x).Over S := by
  unfold ofRemainder?.dividend
  grind

theorem over_shared {xs ys : List (Term ν × Nat)} (h : ∀ p ∈ xs, p.1.Over S) : ∀ p ∈ shared xs ys,
    p.1.Over S := by
  intro p hp
  obtain ⟨x, hx, hp⟩ := List.mem_filterMap.mp hp
  obtain ⟨z, -, rfl⟩ := Option.map_eq_some_iff.mp hp
  exact h x hx

section

variable (hA : A.Keeps S)

include hA

omit [Ord ν] in
theorem over_ofConstant? (hx : x.Over S) (hy : y.Over S) (ht : ofConstant? A r x y = some t) :
    t.Over S := by
  unfold ofConstant? at ht
  split at ht
  · simp only [Option.bind_eq_bind, Option.bind_eq_some_iff] at ht
    obtain ⟨z, -, ht⟩ := ht
    grind
  · cases ht

theorem over_known? (hx : x.Over S) (hy : y.Over S) (ht : known? A x y = some t) : t.Over S := by
  unfold known? at ht
  grind [over_ofConstant?]

theorem over_ofRemainder? (hx : x.Over S) (hy : y.Over S) (ht : ofRemainder? A x y = some t) :
    t.Over S := by
  unfold ofRemainder? at ht
  split at ht
  · grind
  · rename_i q z inner
    have hz : z.Over S ∧ inner.Over S := by simpa using hx
    grind
  · rename_i ts
    have hparts : (∀ t ∈ (ts.partition (ofRemainder?.isBy y)).1, t.Over S) ∧
        ∀ t ∈ (ts.partition (ofRemainder?.isBy y)).2, t.Over S := by
      grind
    generalize ts.partition (ofRemainder?.isBy y) = p at hparts ht
    obtain ⟨inner, outer⟩ := p
    dsimp only at hparts ht
    split at ht
    · cases ht
    obtain rfl := Option.some.inj ht
    refine hA.apply _ _ (List.forall_mem_cons.mpr ⟨hA.sum _ fun t ht => ?_, by simpa using hy⟩)
    rcases List.mem_append.mp ht with ht | ht
    · exact hparts.2 t ht
    · obtain ⟨u, hu, rfl⟩ := List.mem_map.mp ht
      exact over_dividend (hparts.1 u hu)
  · cases ht

theorem over_root? {p : Term ν × Nat} (hx : x.Over S) (ht : root? A x = some p) : p.1.Over S := by
  unfold root? root?.ofMultiple at ht
  grind

theorem over_rootsOf (hx : x.Over S) : ∀ p ∈ roots.rootsOf A x, p.1.Over S := by
  intro p hp
  obtain ⟨f, hf, hp⟩ := List.mem_filterMap.mp hp
  exact over_root? hA (hx.factors f hf) hp

theorem over_roots (hx : x.Over S) : ∀ p ∈ roots A x, p.1.Over S := by
  unfold roots
  split
  · rename_i t ts
    rw [over_sum, List.forall_mem_cons] at hx
    have hshared : ∀ p ∈ ts.foldl (fun rs t => shared rs (roots.rootsOf A t))
        (roots.rootsOf A t), p.1.Over S := by
      refine List.foldlRecOn (motive := fun rs : List (Term ν × Nat) => ∀ p ∈ rs, p.1.Over S) _ _
        (over_rootsOf hA hx.1) ?_
      exact fun rs hrs _ _ => over_shared hrs
    dsimp only
    split
    · rw [List.forall_mem_singleton]
      exact over_sum.mpr (List.forall_mem_cons.mpr hx)
    · exact hshared
  · exact over_rootsOf hA hx

@[grind ←] theorem over_common (hx : x.Over S) : (common A x y).Over S := by
  have hshared : ∀ p ∈ shared (roots A x) (roots A y), p.1.Over S :=
    over_shared (over_roots hA hx)
  unfold common
  refine hA.product _ (List.forall_mem_cons.mpr ⟨over_ofInt _, fun t ht => ?_⟩)
  obtain ⟨p, hp, rfl⟩ := List.mem_map.mp ht
  exact hA.power _ _ (hshared p hp) (over_ofInt _)

omit [Ord ν] in
@[grind ←] theorem over_cancel (hg : g.Over S) (hx : x.Over S) : (cancel A g x).Over S := by
  unfold cancel
  grind

omit [Ord ν] in
@[grind ←] theorem over_reduceTerms {y : Term ν} (h : ∀ t ∈ ts, t.Over S) (hy : y.Over S) :
    (reduceTerms A ts y).Over S := by
  unfold reduceTerms
  grind

omit [Ord ν] in
theorem over_takeReal? {p : Term ν × Term ν × Term ν} (hx : x.Over S) (hy : y.Over S)
    (ht : takeReal? A x y = some p) : p.1.Over S ∧ p.2.1.Over S ∧ p.2.2.Over S := by
  have hp := over_split hx
  have hq := over_split hy
  unfold takeReal? at ht
  grind

omit [Ord ν] in
theorem over_sides (hp : p.Over S) (hq : q.Over S) : ∀ s, s =
    (match p with
      | .sum ts => (Term.one, reduceTerms A ts q, q)
      | p => (takeReal? A p q).getD (.one, p, q)) → s.1.Over S ∧ s.2.1.Over S ∧ s.2.2.Over S := by
  rintro s rfl
  split
  · exact ⟨over_one, over_reduceTerms hA (over_sum.mp hp) hq, hq⟩
  · cases htake : takeReal? A p q with
    | none => exact ⟨over_one, hp, hq⟩
    | some p => exact over_takeReal? hA hp hq htake

theorem over_rest (hp : p.Over S) (hq : q.Over S) (hp' : p'.Over S) (hq' : q'.Over S) :
    ((match known? A p' q' with
      | some r => r
      | none => if p'.same p && q'.same q then .apply .mod [p, q] else A.apply .mod [p', q']) :
        Term ν).Over S := by
  split
  · rename_i r hknown
    exact over_known? hA hp' hq' hknown
  · split
    · exact over_apply.mpr (List.forall_mem_cons.mpr ⟨hp, List.forall_mem_singleton.mpr hq⟩)
    · exact hA.apply _ _ (List.forall_mem_cons.mpr ⟨hp', List.forall_mem_singleton.mpr hq'⟩)

@[grind ←] theorem over_reduced (hx : x.Over S) (hy : y.Over S) : (reduced A x y).Over S := by
  have hg : (common A x y).Over S := over_common hA hx
  have hp := over_cancel hA hg hx
  have hq := over_cancel hA hg hy
  obtain ⟨hh, hp', hq'⟩ := over_sides hA hp hq _ rfl
  exact hA.product _ (List.forall_mem_cons.mpr ⟨hg, List.forall_mem_cons.mpr ⟨hh,
    List.forall_mem_singleton.mpr (over_rest hA hp hq hp' hq')⟩⟩)

@[grind ←] theorem over_of (hx : x.Over S) (hy : y.Over S) : (of A x y).Over S := by
  unfold of
  split
  · rename_i r hknown
    exact over_known? hA hx hy hknown
  · exact over_getD (fun _ ht => over_ofRemainder? hA hx hy ht) (over_reduced hA hx hy)

end

end Remainder

namespace Algebra

theorem over_applyOne (hA : A.Keeps S) {f : Fn} {x : Term ν} (hx : x.Over S) :
    (applyOne A f x).Over S := by
  unfold applyOne
  split <;> grind

omit [Ord ν] in
theorem over_evaluated (hA : A.Keeps S) {t : Term ν} (ht : t.Over S) : (evaluated A t).Over S := by
  unfold evaluated
  split
  · exact over_getD (fun t ht => Numeric.over_value1? hA ht) ht
  · exact ht

theorem over_applyStep (hA : A.Keeps S) {f : Fn} {args : List (Term ν)}
    (h : ∀ t ∈ args, t.Over S) : (applyStep A f args).Over S := by
  unfold applyStep
  grind [Extremum.over_of, over_evaluated, over_applyOne]

theorem Keeps.step (hA : A.Keeps S) : A.step.Keeps S where
  sum _ := over_sumStep (A := A)
  product _ := over_productStep hA
  power _ _ := over_powerStep hA
  apply _ _ := over_applyStep hA

theorem keeps_layers (n : Nat) : (layers n : Algebra ν).Keeps S := by
  induction n with
  | zero => exact keeps_inert
  | succ n ih => exact ih.step

theorem keeps_standard : (standard : Algebra ν).Keeps S := keeps_layers depth

end Algebra

end InitialValue.Symbolic
