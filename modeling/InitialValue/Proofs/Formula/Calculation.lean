/-
  What a calculation depends on.

  A term is written out as a calculation without further names (`Calculation.over_ofTerm?`), and a
  calculation looks up the values of the names in it and no others (`Calculation.run_congr`).  An
  equation looks up the names it reports, and those of its names that mean nothing.  If none of the
  latter is given a value, **only what is given for the names of an equation matters**
  (`Equation.valueOf_filter`).
-/
import InitialValue.Formula.Calculation
import InitialValue.Proofs.Symbolic.Names
import InitialValue.Formula.Equation
import InitialValue.Proofs.Failing
import Mathlib.Tactic.ByContra

namespace InitialValue.Formula

open InitialValue.Symbolic

namespace Calculation

variable {ν : Type} {S : String → Prop}

mutual

/-- All names in the calculation that are no symbols have a property. -/
def Over (S : String → Prop) : Calculation ν → Prop
  | .stranger s => S s
  | .neg x => Over S x
  | .add x y => Over S x ∧ Over S y
  | .mul x y => Over S x ∧ Over S y
  | .div x y => Over S x ∧ Over S y
  | .power x y => Over S x ∧ Over S y
  | .root x => Over S x
  | .call _ args => AllOver S args
  | _ => True

/-- All names in the calculations that are no symbols have a property. -/
def AllOver (S : String → Prop) : List (Calculation ν) → Prop
  | [] => True
  | x :: xs => Over S x ∧ AllOver S xs

end

theorem allOver_iff {xs : List (Calculation ν)} : AllOver S xs ↔ ∀ x ∈ xs, x.Over S := by
  induction xs with
  | nil => simp [AllOver]
  | cons x xs ih => simp [AllOver, ih]

variable {x y c : Calculation ν}

@[grind .] theorem over_whole (n : Int) : (whole n : Calculation ν).Over S := trivial

@[grind .] theorem over_real (r : Float) : (real r : Calculation ν).Over S := trivial

@[grind .] theorem over_unit : (unit : Calculation ν).Over S := trivial

@[grind .] theorem over_symbol (v : ν) : (symbol v).Over S := trivial

@[grind =] theorem over_stranger {s : String} : (stranger s : Calculation ν).Over S ↔ S s := Iff.rfl

@[grind =] theorem over_neg : (neg x).Over S ↔ x.Over S := Iff.rfl

@[grind =] theorem over_add : (add x y).Over S ↔ x.Over S ∧ y.Over S := Iff.rfl

@[grind =] theorem over_mul : (mul x y).Over S ↔ x.Over S ∧ y.Over S := Iff.rfl

@[grind =] theorem over_div : (div x y).Over S ↔ x.Over S ∧ y.Over S := Iff.rfl

@[grind =] theorem over_power : (power x y).Over S ↔ x.Over S ∧ y.Over S := Iff.rfl

@[grind =] theorem over_root : (root x).Over S ↔ x.Over S := Iff.rfl

@[grind =] theorem over_call {f : Fn} {args : List (Calculation ν)} :
    (call f args).Over S ↔ ∀ x ∈ args, x.Over S :=
  allOver_iff

/-! ## Numbers -/

theorem over_ofInt? {n : Int} (h : ofInt? n = some c) : c.Over S := by
  unfold ofInt? at h
  grind

theorem over_ofNum? {n : Coefficient} (h : ofNum? n = some c) : c.Over S := by
  unfold ofNum? at h
  simp only [Option.bind_eq_bind] at h
  split at h
  · split at h
    · exact over_ofInt? h
    · simp only [Option.bind_eq_some_iff] at h
      obtain ⟨p, hp, q, hq, h⟩ := h
      exact Option.some.inj h ▸ over_div.mpr ⟨over_ofInt? hp, over_ofInt? hq⟩
  · exact Option.some.inj h ▸ over_real _

theorem over_ofConstant? {k : Constant} (h : ofConstant? k = some c) : c.Over S := by
  unfold ofConstant? at h
  grind

/-! ## Terms written out -/

/-- A term written out over names with a property. -/
def Written.Over (S : String → Prop) (w : Written ν) : Prop :=
  w.alone.Over S ∧ ∀ u, w.under = some u → u.Over S

theorem Written.over_alone (h : c.Over S) : (⟨c, none⟩ : Written ν).Over S :=
  ⟨h, fun _ hu => by cases hu⟩

theorem over_chain {join : Calculation ν → Calculation ν → Calculation ν}
    {empty : Calculation ν} {xs : List (Calculation ν)}
    (hjoin : ∀ x y, x.Over S → y.Over S → (join x y).Over S) (hempty : empty.Over S)
    (h : ∀ x ∈ xs, x.Over S) : (chain join empty xs).Over S := by
  cases xs with
  | nil => exact hempty
  | cons x rest =>
    rw [List.forall_mem_cons] at h
    exact List.foldlRecOn rest join h.1 fun y hy z hz => hjoin y z hy (h.2 z hz)

theorem over_products {xs : List (Calculation ν)} (h : ∀ x ∈ xs, x.Over S) :
    (chain mul (.whole 1) xs).Over S :=
  over_chain (fun _ _ hx hy => over_mul.mpr ⟨hx, hy⟩) (over_whole 1) h

theorem over_raised? {q : Rat} (hx : x.Over S) (h : raised? x q = some c) : c.Over S := by
  unfold raised? at h
  split at h
  · exact Option.some.inj h ▸ hx
  · split at h
    · exact Option.some.inj h ▸ over_root.mpr hx
    · obtain ⟨n, hn, rfl⟩ := Option.map_eq_some_iff.mp h
      exact over_power.mpr ⟨hx, over_ofNum? hn⟩

theorem over_ofPower? {e : Term ν} {w : Written ν} (hx : x.Over S) (hy : y.Over S)
    (h : ofPower? x y e = some w) : w.Over S := by
  unfold ofPower? at h
  split at h
  · split at h
    · simp only [Option.bind_eq_bind, Option.bind_eq_some_iff] at h
      obtain ⟨under, hunder, h⟩ := h
      obtain rfl := Option.some.inj h
      refine ⟨?_, fun u hu => ?_⟩
      · dsimp only
        grind
      · obtain rfl := Option.some.inj hu
        exact over_raised? hx hunder
    · split at h
      · exact Option.some.inj h ▸ Written.over_alone (over_root.mpr hx)
      · exact Option.some.inj h ▸ Written.over_alone (over_power.mpr ⟨hx, hy⟩)
  · exact Option.some.inj h ▸ Written.over_alone (over_power.mpr ⟨hx, hy⟩)

/-- A product over another one, or alone. -/
theorem over_fraction {top bottom : List (Calculation ν)} (htop : ∀ x ∈ top, x.Over S)
    (hbottom : ∀ x ∈ bottom, x.Over S) :
    (if bottom.isEmpty then chain mul (.whole 1) top
      else div (chain mul (.whole 1) top) (chain mul (.whole 1) bottom)).Over S := by
  split
  · exact over_products htop
  · exact over_div.mpr ⟨over_products htop, over_products hbottom⟩

theorem over_ofFactors {negative : Bool} {fs : List (Written ν)} (h : ∀ w ∈ fs, w.Over S) :
    (ofFactors negative fs).Over S := by
  have htop : ∀ x ∈ (fs.filter fun f => f.under.isNone).map (·.alone), x.Over S := by
    intro x hx
    obtain ⟨w, hw, rfl⟩ := List.mem_map.mp hx
    exact (h w (List.mem_filter.mp hw).1).1
  have hbottom : ∀ x ∈ fs.filterMap (·.under), x.Over S := by
    intro x hx
    obtain ⟨w, hw, hx⟩ := List.mem_filterMap.mp hx
    exact (h w hw).2 x hx
  unfold ofFactors
  dsimp only
  generalize (fs.filter fun f => f.under.isNone).map (·.alone) = top at htop ⊢
  generalize fs.filterMap (·.under) = bottom at hbottom ⊢
  have hfull : ∀ x ∈ (if top.isEmpty then [.whole 1] else top), x.Over S := by
    split
    · simp [over_whole]
    · exact htop
  generalize (if top.isEmpty then [.whole 1] else top) = top at hfull ⊢
  refine over_fraction ?_ hbottom
  split
  · rw [List.forall_mem_cons] at hfull ⊢
    exact ⟨over_neg.mpr hfull.1, hfull.2⟩
  · exact hfull

section

variable [Ord ν] {β : Type}

/-- What is put into the order of a sum was there before. -/
theorem exists_of_mem_inSumOrder {items : List (Term ν × β)} {b : β}
    (h : b ∈ inSumOrder items) : ∃ t, (t, b) ∈ items := by
  unfold inSumOrder Monomial.inOrder at h
  obtain ⟨p, hp, rfl⟩ := List.mem_map.mp h
  obtain ⟨q, hq, rfl⟩ := List.mem_map.mp (List.mem_mergeSort.mp hp)
  exact ⟨q.1, hq⟩

/-- What is put into the order of a product was there before. -/
theorem exists_of_mem_inProductOrder {items : List (Term ν × β)} {b : β}
    (h : b ∈ inProductOrder items) : ∃ t, (t, b) ∈ items := by
  unfold inProductOrder at h
  obtain ⟨p, hp, rfl⟩ := List.mem_map.mp h
  obtain ⟨q, hq, rfl⟩ := List.mem_map.mp (List.mem_mergeSort.mp hp)
  exact ⟨q.1, hq⟩

omit [Ord ν] in
/-- The factors without the sign are factors. -/
theorem mem_of_mem_splitSign {fs : List (Term ν × β)} {p : Term ν × β}
    (h : p ∈ (splitSign fs).2.2) : p ∈ fs := by
  unfold splitSign at h
  split at h
  · split at h <;> exact List.mem_cons_of_mem _ h
  · exact h

theorem over_ofProduct? {fs : List (Term ν × Written ν)} {w : Written ν}
    (h : ∀ p ∈ fs, p.2.Over S) (hw : ofProduct? fs = some w) : w.Over S := by
  have hrest : ∀ v ∈ inProductOrder (splitSign fs).2.2, v.Over S := by
    intro v hv
    obtain ⟨t, ht⟩ := exists_of_mem_inProductOrder hv
    exact h _ (mem_of_mem_splitSign ht)
  unfold ofProduct? at hw
  generalize splitSign fs = sign at hrest hw
  obtain ⟨negative, n?, rest⟩ := sign
  dsimp only at hrest hw
  split at hw
  · exact Option.some.inj hw ▸ Written.over_alone (over_ofFactors hrest)
  · split at hw
    · exact Option.some.inj hw ▸ Written.over_alone (over_ofFactors hrest)
    · obtain ⟨n, hn, hw⟩ := Option.bind_eq_some_iff.mp hw
      exact Option.some.inj hw ▸ Written.over_alone (over_ofFactors
        (List.forall_mem_cons.mpr ⟨Written.over_alone (over_ofNum? hn), hrest⟩))

mutual

/-- A term written out has no other names than the term. -/
theorem over_write? : (t : Term ν) → t.Over S → ∀ w, write? t = some w → w.Over S
  | .num n, _, w, h => by
    rw [write?] at h
    obtain ⟨c, hc, h⟩ := Option.bind_eq_some_iff.mp h
    exact Option.some.inj h ▸ Written.over_alone (over_ofNum? hc)
  | .const k, _, w, h => by
    rw [write?] at h
    obtain ⟨c, hc, h⟩ := Option.bind_eq_some_iff.mp h
    exact Option.some.inj h ▸ Written.over_alone (over_ofConstant? hc)
  | .symbol v, _, w, h => by
    rw [write?] at h
    exact Option.some.inj h ▸ Written.over_alone (over_symbol v)
  | .stranger s, ht, w, h => by
    rw [write?] at h
    exact Option.some.inj h ▸ Written.over_alone (over_stranger.mpr (Term.over_stranger.mp ht))
  | .sum ts, ht, w, h => by
    rw [write?] at h
    obtain ⟨ws, hws, h⟩ := Option.bind_eq_some_iff.mp h
    have hws := over_writeAll? ts (Term.over_sum.mp ht) ws hws
    -- the order of the summands is changed, but they are the same ones
    refine Option.some.inj h ▸ Written.over_alone
      (over_chain (fun _ _ hx hy => over_add.mpr ⟨hx, hy⟩) (over_whole 0) fun x hx => ?_)
    obtain ⟨w, hw, rfl⟩ := List.mem_map.mp hx
    obtain ⟨t, hw⟩ := exists_of_mem_inSumOrder hw
    exact (hws w (List.of_mem_zip hw).2).1
  | .product fs, ht, w, h => by
    rw [write?] at h
    obtain ⟨ws, hws, h⟩ := Option.bind_eq_some_iff.mp h
    have hws := over_writeAll? fs (Term.over_product.mp ht) ws hws
    exact over_ofProduct? (fun p hp => hws p.2 (List.of_mem_zip hp).2) h
  | .power b e, ht, w, h => by
    rw [write?] at h
    simp only [Option.bind_eq_bind, Option.bind_eq_some_iff] at h
    obtain ⟨base, hbase, exponent, hexponent, h⟩ := h
    rw [Term.over_power] at ht
    exact over_ofPower? (over_write? b ht.1 base hbase).1
      (over_write? e ht.2 exponent hexponent).1 h
  | .apply f args, ht, w, h => by
    rw [write?] at h
    obtain ⟨ws, hws, h⟩ := Option.bind_eq_some_iff.mp h
    have hws := over_writeAll? args (Term.over_apply.mp ht) ws hws
    refine Option.some.inj h ▸ Written.over_alone (over_call.mpr fun x hx => ?_)
    obtain ⟨w, hw, rfl⟩ := List.mem_map.mp hx
    exact (hws w hw).1

theorem over_writeAll? : (ts : List (Term ν)) → (∀ t ∈ ts, t.Over S) →
    ∀ ws, writeAll? ts = some ws → ∀ w ∈ ws, w.Over S
  | [], _, ws, h => by
    rw [writeAll?] at h
    obtain rfl := Option.some.inj h
    simp
  | t :: ts, ht, ws, h => by
    rw [writeAll?] at h
    simp only [Option.bind_eq_bind, Option.bind_eq_some_iff] at h
    obtain ⟨v, hv, vs, hvs, h⟩ := h
    rw [List.forall_mem_cons] at ht
    exact Option.some.inj h ▸
      List.forall_mem_cons.mpr ⟨over_write? t ht.1 v hv, over_writeAll? ts ht.2 vs hvs⟩

end

theorem over_ofTerm? {t : Term ν} (ht : t.Over S) {c : Calculation ν} (h : ofTerm? t = some c) :
    c.Over S := by
  obtain ⟨w, hw, rfl⟩ := Option.map_eq_some_iff.mp h
  exact (over_write? t ht w hw).1

end

/-! ## Running -/

section

variable {symbols symbols' : ν → Float} {values values' : Values}

theorem strangerValue_congr {s : String}
    (h : values (Text.plainName s) = values' (Text.plainName s)) :
    strangerValue values s = strangerValue values' s := by
  unfold strangerValue
  dsimp only
  rw [h]

mutual

/-- **A calculation depends on values only by the names in it.** -/
theorem run_congr (hv : ∀ v, symbols v = symbols' v)
    (hs : ∀ s, S s → values (Text.plainName s) = values' (Text.plainName s)) :
    (c : Calculation ν) → c.Over S → c.run symbols values = c.run symbols' values'
  | .whole _, _ => rfl
  | .real _, _ => rfl
  | .unit, _ => rfl
  | .symbol v, _ => by rw [run, run, hv]
  | .stranger s, h => by rw [run, run, strangerValue_congr (hs s (over_stranger.mp h))]
  | .neg x, h => by rw [run, run, run_congr hv hs x (over_neg.mp h)]
  | .add x y, h => by
    rw [run, run, run_congr hv hs x (over_add.mp h).1, run_congr hv hs y (over_add.mp h).2]
  | .mul x y, h => by
    rw [run, run, run_congr hv hs x (over_mul.mp h).1, run_congr hv hs y (over_mul.mp h).2]
  | .div x y, h => by
    rw [run, run, run_congr hv hs x (over_div.mp h).1, run_congr hv hs y (over_div.mp h).2]
  | .power x y, h => by
    rw [run, run, run_congr hv hs x (over_power.mp h).1, run_congr hv hs y (over_power.mp h).2]
  | .root x, h => by rw [run, run, run_congr hv hs x (over_root.mp h)]
  | .call f args, h => by rw [run, run, runAll_congr hv hs args (over_call.mp h)]

theorem runAll_congr (hv : ∀ v, symbols v = symbols' v)
    (hs : ∀ s, S s → values (Text.plainName s) = values' (Text.plainName s)) :
    (cs : List (Calculation ν)) → (∀ c ∈ cs, c.Over S) →
      runAll symbols values cs = runAll symbols' values' cs
  | [], _ => rfl
  | c :: cs, h => by
    rw [List.forall_mem_cons] at h
    rw [runAll, runAll, run_congr hv hs c h.1, runAll_congr hv hs cs h.2]

end

end

section

variable {p : ν → Bool} {q : String → Bool}

mutual

/-- What none of the names has a property of does not use any with it. -/
theorem uses_eq_false (hp : ∀ v, p v = false) (hq : ∀ s, S s → q (Text.plainName s) = false) :
    (c : Calculation ν) → c.Over S → c.uses p q = false
  | .whole _, _ => rfl
  | .real _, _ => rfl
  | .unit, _ => rfl
  | .symbol v, _ => by rw [uses, hp]
  | .stranger s, h => by rw [uses, hq s (over_stranger.mp h)]
  | .neg x, h => by rw [uses, uses_eq_false hp hq x (over_neg.mp h)]
  | .add x y, h => by
    rw [uses, uses_eq_false hp hq x (over_add.mp h).1, uses_eq_false hp hq y (over_add.mp h).2]
    rfl
  | .mul x y, h => by
    rw [uses, uses_eq_false hp hq x (over_mul.mp h).1, uses_eq_false hp hq y (over_mul.mp h).2]
    rfl
  | .div x y, h => by
    rw [uses, uses_eq_false hp hq x (over_div.mp h).1, uses_eq_false hp hq y (over_div.mp h).2]
    rfl
  | .power x y, h => by
    rw [uses, uses_eq_false hp hq x (over_power.mp h).1,
      uses_eq_false hp hq y (over_power.mp h).2]
    rfl
  | .root x, h => by rw [uses, uses_eq_false hp hq x (over_root.mp h)]
  | .call f args, h => by rw [uses, anyUses_eq_false hp hq args (over_call.mp h)]

theorem anyUses_eq_false (hp : ∀ v, p v = false) (hq : ∀ s, S s → q (Text.plainName s) = false) :
    (cs : List (Calculation ν)) → (∀ c ∈ cs, c.Over S) → anyUses p q cs = false
  | [], _ => rfl
  | c :: cs, h => by
    rw [List.forall_mem_cons] at h
    rw [anyUses, uses_eq_false hp hq c h.1, anyUses_eq_false hp hq cs h.2]
    rfl

end

end

end Calculation

/-! ## Equations -/

namespace Equation

/-- No name that is given is that of a name in the equation that means nothing. -/
def Deaf (e : Equation) (given : List Given) : Prop :=
  e.calculation.Over fun s => ∀ g ∈ given, g.name ≠ Text.plainName s

variable {e : Equation} {given : List Given}

theorem valuesOf_eq_none {name : String} (h : ∀ g ∈ given, g.name ≠ name) :
    valuesOf given name = none := by
  unfold valuesOf
  rw [Option.map_eq_none_iff, List.find?_eq_none]
  exact fun g hg heq => h g hg (beq_iff_eq.mp heq)

theorem valuesOf_filter {p : String → Bool} {name : String} (h : p name = true) :
    valuesOf (given.filter fun g => p g.name) name = valuesOf given name := by
  unfold valuesOf
  rw [List.find?_filter]
  congr 2
  funext g
  by_cases hg : g.name = name
  · simp [hg, h]
  · simp [hg]

/-- Only names of the equation are used. -/
theorem Deaf.uses (h : e.Deaf given) {g : Given} (hg : g ∈ given) (huses : e.uses g.name = true) :
    g.name ∈ e.names := by
  by_contra hne
  have hunused : e.uses g.name = false := by
    refine Calculation.uses_eq_false (fun i => ?_) (fun s hs => ?_) _ h
    · exact beq_false_of_ne fun heq => hne (heq ▸ List.get_mem _ _)
    · exact beq_false_of_ne fun heq => hs g hg heq.symm
  rw [hunused] at huses
  cases huses

/-- **Only what is given for the names of an equation matters.** -/
theorem valueOf_filter (h : e.Deaf given) :
    e.valueOf (given.filter fun g => e.names.contains g.name) = e.valueOf given := by
  have hquantity : e.quantity (valuesOf (given.filter fun g => e.names.contains g.name)) =
      e.quantity (valuesOf given) := by
    refine Calculation.run_congr (fun i => ?_) (fun s hs => ?_) _ h
    · rw [valuesOf_filter (List.contains_iff_mem.mpr (List.get_mem _ _))]
    · rw [valuesOf_eq_none hs, valuesOf_eq_none fun g hg => hs g (List.mem_filter.mp hg).1]
  have hused : (given.filter fun g => e.names.contains g.name).filter
      (fun g => !g.shape.isEmpty && e.uses g.name) =
        given.filter fun g => !g.shape.isEmpty && e.uses g.name := by
    rw [List.filter_filter]
    refine List.filter_congr fun g hg => ?_
    rw [Bool.and_eq_left_iff_imp, Bool.and_eq_true]
    rintro ⟨-, huses⟩
    exact List.contains_iff_mem.mpr (h.uses hg huses)
  unfold valueOf
  rw [hquantity, hused]

end Equation

end InitialValue.Formula
