/-
  Names that mean nothing.

  What a tree means is made of numbers, constants, symbols, functions and of names that stand for
  none of these.  Every operation on meanings keeps to the names of its operands, since all of them
  simplify with the one standard algebra, which brings in no names; so **the names that mean nothing
  come from the tree** (`Expr.over_meaning?`), and are among those that the scope does not know.
-/
import InitialValue.Formula.Meaning
import InitialValue.Proofs.Formula.Renaming
import InitialValue.Proofs.Symbolic.Functions

namespace InitialValue.Formula

open InitialValue.Symbolic

variable {ν : Type} {S : String → Prop}

namespace Meaning

/-! ## Meanings over names with a property -/

mutual

/-- All names in the meaning that mean nothing have a property. -/
def Over (S : String → Prop) : Meaning ν → Prop
  | .term x => x.Over S
  | .relation _ x y => x.Over S ∧ y.Over S
  | .negation x => x.Over S
  | .collection _ items => AllOver S items
  | .pairs items => PairsOver S items
  | _ => True

/-- All names in the meanings that mean nothing have a property. -/
def AllOver (S : String → Prop) : List (Meaning ν) → Prop
  | [] => True
  | x :: xs => Over S x ∧ AllOver S xs

/-- All names in the pairs that mean nothing have a property. -/
def PairsOver (S : String → Prop) : List (Meaning ν × Meaning ν) → Prop
  | [] => True
  | (x, y) :: rest => Over S x ∧ Over S y ∧ PairsOver S rest

end

theorem allOver_iff {xs : List (Meaning ν)} : AllOver S xs ↔ ∀ x ∈ xs, x.Over S := by
  induction xs with
  | nil => simp [AllOver]
  | cons x xs ih => simp [AllOver, ih]

theorem pairsOver_iff {xs : List (Meaning ν × Meaning ν)} :
    PairsOver S xs ↔ ∀ p ∈ xs, p.1.Over S ∧ p.2.Over S := by
  induction xs with
  | nil => simp [PairsOver]
  | cons p xs ih => simp [PairsOver, ih, and_assoc]

@[simp, grind =] theorem over_term {x : Term ν} : (Meaning.term x).Over S ↔ x.Over S :=
  Iff.rfl

@[simp, grind .] theorem over_function (name : String) :
    (Meaning.function name : Meaning ν).Over S :=
  trivial

@[simp, grind .] theorem over_fact (b : Bool) : (Meaning.fact b : Meaning ν).Over S :=
  trivial

@[simp, grind .] theorem over_truth (b : Bool) : (Meaning.truth b : Meaning ν).Over S :=
  trivial

@[simp, grind =] theorem over_relation {c : Comparison} {x y : Term ν} :
    (Meaning.relation c x y).Over S ↔ x.Over S ∧ y.Over S :=
  Iff.rfl

@[simp, grind .] theorem over_compound (kind : String) :
    (Meaning.compound kind : Meaning ν).Over S :=
  trivial

@[simp, grind =] theorem over_negation {x : Term ν} : (Meaning.negation x).Over S ↔ x.Over S :=
  Iff.rfl

@[simp, grind =] theorem over_collection {b : Bracket} {items : List (Meaning ν)} :
    (Meaning.collection b items).Over S ↔ ∀ x ∈ items, x.Over S :=
  allOver_iff

@[simp, grind =] theorem over_pairs {items : List (Meaning ν × Meaning ν)} :
    (Meaning.pairs items).Over S ↔ ∀ p ∈ items, p.1.Over S ∧ p.2.Over S :=
  pairsOver_iff

@[grind .] theorem over_ofFact (b : Bool) : (ofFact b : Term ν).Over S := by
  unfold ofFact
  grind

theorem toTerm_over {m : Meaning ν} {t : Term ν} (h : m.Over S) (ht : m.toTerm = .ok t) :
    t.Over S := by
  cases m with
  | term x =>
    cases ht
    simpa using h
  | _ => cases ht

/-! ## Statements -/

variable {x y m : Meaning ν} {a b t : Term ν}

@[grind →] theorem over_statements? {p : Meaning ν × Meaning ν} (hx : x.Over S) (hy : y.Over S)
    (h : statements? x y = some p) : p.1.Over S ∧ p.2.Over S := by
  unfold statements? at h
  grind

@[grind ←] theorem over_negate (h : x.Over S) : x.negate.Over S := by
  unfold negate
  split <;> grind

theorem over_operands? {p : Term ν × Term ν} (hx : x.Over S) (hy : y.Over S)
    (h : operands? x y = some p) : p.1.Over S ∧ p.2.Over S := by
  unfold operands? at h
  grind

/-! ## Operators -/

section

variable [Ord ν]

@[grind ←] theorem over_conjunction (hx : x.Over S) (hy : y.Over S) :
    (conjunction x y).Over S := by
  unfold conjunction
  grind

@[grind ←] theorem over_disjunction (hx : x.Over S) (hy : y.Over S) :
    (disjunction x y).Over S := by
  unfold disjunction
  grind

@[grind ←] theorem over_implication (hx : x.Over S) (hy : y.Over S) :
    (implication x y).Over S := by
  unfold implication
  grind

@[grind ←] theorem over_sum (ha : a.Over S) (hb : b.Over S) : (sum a b).Over S := by
  unfold sum
  split
  · exact Term.over_num _
  · exact Algebra.keeps_standard.add ha hb

@[grind ←] theorem over_product (ha : a.Over S) (hb : b.Over S) : (product a b).Over S := by
  unfold product
  split
  · exact Term.over_num _
  · exact Algebra.keeps_standard.mul ha hb

theorem over_quotient? (ha : a.Over S) (hb : b.Over S) (h : quotient? a b = some t) :
    t.Over S := by
  have hdiv : (Algebra.standard.div a b).Over S := Algebra.keeps_standard.div ha hb
  unfold quotient? at h
  split at h
  · grind
  · grind
  · grind
  · exact Option.some.inj h ▸ hdiv

theorem over_remainder? (ha : a.Over S) (hb : b.Over S) (h : remainder? a b = some t) :
    t.Over S := by
  unfold remainder? at h
  split at h
  · cases h
  · exact Option.some.inj h ▸ Algebra.keeps_standard.apply .mod [a, b] (by simp [ha, hb])

theorem over_signed? {s : Sign} (hx : x.Over S) (h : signed? s x = some m) : m.Over S := by
  unfold signed? at h
  grind

theorem over_arithmetic? {op : Operator} (ha : a.Over S) (hb : b.Over S)
    (h : arithmetic? op a b = some t) : t.Over S := by
  cases op with
  | add => exact Option.some.inj h ▸ over_sum ha hb
  | sub => exact Option.some.inj h ▸ over_sum ha (Term.over_negate hb)
  | mul => exact Option.some.inj h ▸ over_product ha hb
  | div => exact over_quotient? ha hb h
  | mod => exact over_remainder? ha hb h
  | power => exact Option.some.inj h ▸ Algebra.keeps_standard.power a b ha hb
  | _ => cases h

theorem over_bitwise? {onWholes : Int → Int → Option Int}
    {onStatements : Meaning ν → Meaning ν → Meaning ν}
    (hon : ∀ x y, x.Over S → y.Over S → (onStatements x y).Over S) (hx : x.Over S) (hy : y.Over S)
    (h : bitwise? onWholes onStatements x y = some m) : m.Over S := by
  unfold bitwise? at h
  split at h
  · obtain ⟨n, -, rfl⟩ := Option.map_eq_some_iff.mp h
    simp [Term.over_ofInt]
  · obtain ⟨p, hp, rfl⟩ := Option.map_eq_some_iff.mp h
    have hp := over_statements? hx hy hp
    exact hon _ _ hp.1 hp.2

omit [Ord ν] in
theorem over_copies {b : Bracket} {xs : List (Meaning ν)} {n : Int} (h : ∀ x ∈ xs, x.Over S)
    (hm : collected?.copies b xs n = some m) : m.Over S := by
  unfold collected?.copies repeated at hm
  split at hm
  · cases hm
  · obtain rfl := Option.some.inj hm
    rw [over_collection]
    intro x hx
    obtain ⟨ys, hys, hx⟩ := List.mem_flatten.mp hx
    rw [List.eq_of_mem_replicate hys] at hx
    exact h x hx

omit [Ord ν] in
theorem over_collected? {op : Operator} (hx : x.Over S) (hy : y.Over S)
    (h : collected? op x y = some m) : m.Over S := by
  unfold collected? at h
  split at h
  · grind
  · grind
  · obtain ⟨n, -, h⟩ := Option.bind_eq_some_iff.mp h
    exact over_copies (by simpa using hx) h
  · obtain ⟨n, -, h⟩ := Option.bind_eq_some_iff.mp h
    exact over_copies (by simpa using hy) h
  · grind
  · cases h

theorem over_binary? {op : Operator} (hx : x.Over S) (hy : y.Over S)
    (h : binary? op x y = some m) : m.Over S := by
  unfold binary? at h
  split at h
  · exact over_bitwise? (fun _ _ => over_conjunction) hx hy h
  · cases hbits : bitwise? (fun a b => some (bitsEither a b)) disjunction x y with
    | some n =>
      rw [hbits] at h
      obtain rfl := Option.some.inj h
      exact over_bitwise? (fun _ _ => over_disjunction) hx hy hbits
    | none =>
      rw [hbits] at h
      exact over_collected? hx hy h
  · exact over_bitwise? (fun _ _ hp hq => over_implication hq hp) hx hy h
  · exact over_bitwise? (fun _ _ => over_implication) hx hy h
  · split at h
    · rename_i a b hab
      have hp := over_operands? hx hy hab
      obtain ⟨t, ht, rfl⟩ := Option.map_eq_some_iff.mp h
      exact over_term.mpr (over_arithmetic? hp.1 hp.2 ht)
    · exact over_collected? hx hy h

/-! ## Comparisons, items and calls -/

theorem over_ordered? {c : Comparison} (ha : a.Over S) (hb : b.Over S)
    (h : ordered? c a b = some m) : m.Over S := by
  unfold ordered? at h
  grind

theorem over_compare? {c : Comparison} (hx : x.Over S) (hy : y.Over S)
    (h : compare? c x y = some m) : m.Over S := by
  unfold compare? at h
  split at h
  · grind
  · grind
  · grind
  · grind
  · obtain ⟨p, hp, h⟩ := Option.bind_eq_some_iff.mp h
    have hp := over_operands? hx hy hp
    exact over_ordered? hp.1 hp.2 h

theorem over_item? {i : Meaning ν} (hx : x.Over S) (h : item? x i = some m) : m.Over S := by
  unfold item? at h
  split at h
  · cases h
  · obtain ⟨n, -, h⟩ := Option.bind_eq_some_iff.mp h
    rw [over_collection] at hx
    dsimp only at h
    generalize (if n < 0 then n + _ else n) = k at h
    split at h
    · cases h
    · exact hx m (List.mem_of_getElem? h)
  · obtain ⟨p, hp, rfl⟩ := Option.map_eq_some_iff.mp h
    rw [over_pairs] at hx
    exact (hx p (List.mem_reverse.mp (List.mem_of_find?_eq_some hp))).2
  · cases h

omit [Ord ν] in
theorem over_terms? {args : List (Meaning ν)} {ts : List (Term ν)} (h : ∀ x ∈ args, x.Over S)
    (hts : terms? args = some ts) : ∀ t ∈ ts, t.Over S := by
  unfold terms? at hts
  induction args generalizing ts with
  | nil => grind
  | cons x xs ih =>
    simp only [List.mapM_cons, Option.bind_eq_bind, Option.bind_eq_some_iff] at hts
    obtain ⟨t, ht, us, hus, hts⟩ := hts
    obtain rfl := Option.some.inj hts
    have hus := ih (fun y hy => h y (List.mem_cons_of_mem x hy)) hus
    cases x with
    | term x =>
      obtain rfl := Option.some.inj ht
      exact List.forall_mem_cons.mpr ⟨over_term.mp (h _ List.mem_cons_self), hus⟩
    | _ => cases ht

theorem over_applyNamed? {name : String} {args : List (Term ν)} (h : ∀ t ∈ args, t.Over S)
    (ht : applyNamed? name args = some t) : t.Over S := by
  have hA : (Algebra.standard : Algebra ν).Keeps S := Algebra.keeps_standard
  unfold applyNamed? extremum? at ht
  grind

theorem over_call? {f : Meaning ν} {args : List (Meaning ν)} (h : ∀ x ∈ args, x.Over S)
    (hm : call? f args = some m) : m.Over S := by
  unfold call? at hm
  split at hm
  · simp only [Option.bind_eq_bind, Option.bind_eq_some_iff] at hm
    obtain ⟨ts, hts, t, ht, hm⟩ := hm
    obtain rfl := Option.some.inj hm
    exact over_term.mpr (over_applyNamed? (over_terms? h hts) ht)
  · cases hm

omit [Ord ν] in
theorem over_ofLiteral? {l : Literal} (h : ofLiteral? l = some m) : m.Over S := by
  unfold ofLiteral? at h
  grind

end

/-- What a name means: a symbol, a constant or a function, or itself as a name that means
    nothing. -/
theorem over_ofName {scope : Scope ν} {name : String}
    (h : scope name = none → isKnown name = false → S name) :
    (ofName scope name).Over S := by
  unfold ofName
  split
  · simp
  · rename_i hscope
    split
    · rename_i c hc
      obtain ⟨p, hp, rfl⟩ := Option.map_eq_some_iff.mp hc
      have hp := List.mem_of_find?_eq_some hp
      simp only [constants, List.mem_cons, List.not_mem_nil, or_false] at hp
      rcases hp with rfl | rfl | rfl | rfl | rfl <;> exact over_term.mpr (Term.over_const _)
    · rename_i hconstant
      split
      · exact over_function name
      · rename_i hfunction
        rw [over_term, Term.over_stranger]
        refine h hscope ?_
        rw [isKnown, Bool.or_eq_false_iff]
        refine ⟨by simpa using hfunction, Bool.eq_false_iff.mpr fun hc => ?_⟩
        rw [List.contains_iff_mem] at hc
        simp only [constantNames, List.mem_cons, List.not_mem_nil, or_false] at hc
        rcases hc with rfl | rfl | rfl | rfl | rfl <;> cases hconstant

end Meaning

/-! ## Trees -/

namespace Expr

variable [Ord ν] {scope : Scope ν} {T : String → Prop}

mutual

/-- **The names that mean nothing in what a tree means** are names of the tree that the scope does
    not know. -/
theorem over_meaning? (hS : ∀ s, T s → scope s = none → isKnown s = false → S s) :
    (x : Expr) → x.Over T → ∀ m, x.meaning? scope = some m → m.Over S
  | .number l, _, m, h => Meaning.over_ofLiteral? (by rwa [meaning?] at h)
  | .name s, hx, m, h => by
    rw [meaning?] at h
    exact Option.some.inj h ▸ Meaning.over_ofName (hS s hx)
  | .signed s x, hx, m, h => by
    rw [meaning?, Option.bind_eq_bind, Option.bind_eq_some_iff] at h
    obtain ⟨v, hv, h⟩ := h
    exact Meaning.over_signed? (over_meaning? hS x hx v hv) h
  | .binary op x y, hx, m, h => by
    simp only [meaning?, Option.bind_eq_bind, Option.bind_eq_some_iff] at h
    obtain ⟨v, hv, w, hw, h⟩ := h
    exact Meaning.over_binary? (over_meaning? hS x hx.1 v hv) (over_meaning? hS y hx.2 w hw) h
  | .compare x rest, hx, m, h => by
    simp only [meaning?, Option.bind_eq_bind, Option.bind_eq_some_iff] at h
    obtain ⟨v, hv, h⟩ := h
    exact over_chain? hS rest hx.2 v (over_meaning? hS x hx.1 v hv) m h
  | .either x y, hx, m, h => by
    simp only [meaning?, Option.bind_eq_bind, Option.bind_eq_some_iff] at h
    obtain ⟨v, hv, b, -, h⟩ := h
    split at h
    · exact Option.some.inj h ▸ over_meaning? hS x hx.1 v hv
    · exact over_meaning? hS y hx.2 m h
  | .both x y, hx, m, h => by
    simp only [meaning?, Option.bind_eq_bind, Option.bind_eq_some_iff] at h
    obtain ⟨v, hv, b, -, h⟩ := h
    split at h
    · exact over_meaning? hS y hx.2 m h
    · exact Option.some.inj h ▸ over_meaning? hS x hx.1 v hv
  | .call f args, hx, m, h => by
    rw [meaning?, Option.bind_eq_bind, Option.bind_eq_some_iff] at h
    obtain ⟨vs, hvs, h⟩ := h
    have hvs := over_meanings? hS args hx.2 vs hvs
    split at h
    · split at h
      · obtain ⟨ts, hts, h⟩ := Option.bind_eq_some_iff.mp h
        obtain rfl := Option.some.inj h
        exact Meaning.over_term.mpr (Term.over_apply.mpr (Meaning.over_terms? hvs hts))
      · exact Meaning.over_call? hvs h
    · obtain ⟨g, -, h⟩ := Option.bind_eq_some_iff.mp h
      exact Meaning.over_call? hvs h
  | .item x i, hx, m, h => by
    simp only [meaning?, Option.bind_eq_bind, Option.bind_eq_some_iff] at h
    obtain ⟨v, hv, w, -, h⟩ := h
    exact Meaning.over_item? (over_meaning? hS x hx.1 v hv) h
  | .collection b items, hx, m, h => by
    simp only [meaning?, Option.bind_eq_bind, Option.bind_eq_some_iff] at h
    obtain ⟨vs, hvs, h⟩ := h
    exact Option.some.inj h ▸ Meaning.over_collection.mpr (over_meanings? hS items hx vs hvs)
  | .pairs items, hx, m, h => by
    simp only [meaning?, Option.bind_eq_bind, Option.bind_eq_some_iff] at h
    obtain ⟨ps, hps, h⟩ := h
    exact Option.some.inj h ▸ Meaning.over_pairs.mpr (over_pairs? hS items hx ps hps)

theorem over_meanings? (hS : ∀ s, T s → scope s = none → isKnown s = false → S s) :
    (xs : List Expr) → AllOver T xs → ∀ ms, meanings? scope xs = some ms →
    ∀ m ∈ ms, m.Over S
  | [], _, ms, h => by
    rw [meanings?] at h
    obtain rfl := Option.some.inj h
    simp
  | x :: xs, hx, ms, h => by
    simp only [meanings?, Option.bind_eq_bind, Option.bind_eq_some_iff] at h
    obtain ⟨v, hv, vs, hvs, h⟩ := h
    exact Option.some.inj h ▸
      List.forall_mem_cons.mpr ⟨over_meaning? hS x hx.1 v hv, over_meanings? hS xs hx.2 vs hvs⟩

theorem over_pairs? (hS : ∀ s, T s → scope s = none → isKnown s = false → S s) :
    (xs : List (Expr × Expr)) → PairsOver T xs →
    ∀ ms, pairs? scope xs = some ms → ∀ p ∈ ms, p.1.Over S ∧ p.2.Over S
  | [], _, ms, h => by
    rw [pairs?] at h
    obtain rfl := Option.some.inj h
    simp
  | (x, y) :: rest, hx, ms, h => by
    simp only [pairs?, Option.bind_eq_bind, Option.bind_eq_some_iff] at h
    obtain ⟨v, hv, w, hw, ps, hps, h⟩ := h
    exact Option.some.inj h ▸ List.forall_mem_cons.mpr
      ⟨⟨over_meaning? hS x hx.1 v hv, over_meaning? hS y hx.2.1 w hw⟩,
        over_pairs? hS rest hx.2.2 ps hps⟩

theorem over_chain? (hS : ∀ s, T s → scope s = none → isKnown s = false → S s) :
    (rest : List (Comparison × Expr)) → ChainOver T rest →
    ∀ v : Meaning ν, v.Over S → ∀ m, chain? scope v rest = some m → m.Over S
  | [], _, v, hv, m, h => by
    rw [chain?] at h
    exact Option.some.inj h ▸ hv
  | [(c, x)], hx, v, hv, m, h => by
    simp only [chain?, Option.bind_eq_bind, Option.bind_eq_some_iff] at h
    obtain ⟨w, hw, h⟩ := h
    exact Meaning.over_compare? hv (over_meaning? hS x hx.1 w hw) h
  | (c, x) :: p :: rest, hx, v, hv, m, h => by
    simp only [chain?, Option.bind_eq_bind, Option.bind_eq_some_iff] at h
    obtain ⟨w, hw, u, hu, b, -, h⟩ := h
    have hw := over_meaning? hS x hx.1 w hw
    split at h
    · exact over_chain? hS (p :: rest) hx.2 w hw m h
    · exact Option.some.inj h ▸ Meaning.over_compare? hv hw hu

end

end Expr

end InitialValue.Formula
