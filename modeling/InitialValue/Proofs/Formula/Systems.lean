/-
  Systems, equation by equation.

  The formulas of a system are read together: the names of all are checked before any of them makes
  an equation, and the state is cut to the highest component that any of them names.  Neither makes
  a difference to the single formula (`system_by_equations`): it is accepted as it is alone, since
  all checks are checks of each formula, and it has the value that it has alone, since its equation
  does not see what is given for the names of the others.
-/
import InitialValue.Proofs.Formula.Evaluation

namespace InitialValue.Formula

open InitialValue.Text

/-! ## The first failure of a list -/

/-- A list of computations fails as the first one that does. -/
theorem mapM_eq_error {ε β γ : Type} {f : β → Except ε γ} {pre post : List β} {b : β} {cause : ε}
    (hpre : ∀ a ∈ pre, ∃ c, f a = .ok c) (hb : f b = .error cause) :
    (pre ++ b :: post).mapM f = .error cause := by
  induction pre with
  | nil =>
    rw [List.nil_append, List.mapM_cons, hb]
    rfl
  | cons a pre ih =>
    rw [List.forall_mem_cons] at hpre
    obtain ⟨c, hc⟩ := hpre.1
    rw [List.cons_append, List.mapM_cons, hc, ih hpre.2]
    rfl

/-- A list has a list of counterparts exactly when each item has one. -/
theorem exists_forall₂_iff {β γ : Type} {r : β → γ → Prop} {l : List β} :
    (∃ l', List.Forall₂ r l l') ↔ ∀ a ∈ l, ∃ b, r a b := by
  induction l with
  | nil => exact iff_of_true ⟨[], .nil⟩ (by simp)
  | cons a l ih =>
    rw [List.forall_mem_cons, ← ih]
    constructor
    · rintro ⟨l', h⟩
      obtain ⟨b, l', hb, hl', rfl⟩ := List.forall₂_cons_left_iff.mp h
      exact ⟨⟨b, hb⟩, l', hl'⟩
    · rintro ⟨⟨b, hb⟩, l', hl'⟩
      exact ⟨b :: l', .cons hb hl'⟩

namespace Coupled

/-! ## Acceptance -/

/-- What makes a formula of a system acceptable: it has a normal text with permitted names only, and
    this makes an equation. -/
structure Accepts (v : Value Float) (n : List Char) (e : Equation) : Prop where
  normal : Equation.normalTextOf v = .ok n
  names : ∀ s ∈ namesIn n, isAllowed s = true
  compile : Equation.compile n = .ok e

/-- **A system is accepted formula by formula.** -/
theorem outcome_eq_ok {items : List (Value Float)} {es : List Equation} (hne : items ≠ []) :
    (ofItems items).outcome = .ok es ↔
      List.Forall₂ (fun v e => ∃ n, Accepts v n e) items es := by
  constructor
  · intro h
    obtain ⟨hitems, hallowed, hcompile⟩ := ofItems_accepted h
    rw [mapM_eq_ok] at hitems hcompile
    generalize (ofItems items).normal = ns at hitems hallowed hcompile
    clear h hne
    induction hitems generalizing es with
    | nil =>
      cases hcompile
      exact .nil
    | cons hn _ ih =>
      obtain ⟨e, es, he, hes, rfl⟩ := List.forall₂_cons_left_iff.mp hcompile
      rw [List.forall_mem_cons] at hallowed
      exact .cons ⟨_, hn, hallowed.1, he⟩ (ih hallowed.2 hes)
  · intro h
    obtain ⟨ns, hitems, hallowed, hcompile⟩ : ∃ ns, items.mapM Equation.normalTextOf = .ok ns ∧
        (∀ s ∈ ns.flatMap namesIn, isAllowed s = true) ∧
          ns.mapM Equation.compile = .ok es := by
      simp only [mapM_eq_ok]
      clear hne
      induction h with
      | nil => exact ⟨[], .nil, by simp, .nil⟩
      | cons h _ ih =>
        obtain ⟨n, hn, hnames, hcompile⟩ := h
        obtain ⟨ns, hns, hallowed, hes⟩ := ih
        refine ⟨n :: ns, .cons hn hns, ?_, .cons hcompile hes⟩
        rw [List.flatMap_cons]
        intro s hs
        exact (List.mem_append.mp hs).elim (hnames s) (hallowed s)
    rw [congrArg outcome (ofItems_eq hne hitems hallowed hcompile)]

theorem outcome_single {v : Value Float} {es : List Equation} :
    (ofItems [v]).outcome = .ok es ↔ ∃ n e, Accepts v n e ∧ es = [e] := by
  rw [outcome_eq_ok (List.cons_ne_nil v []), List.forall₂_cons_left_iff]
  constructor
  · rintro ⟨e, es, ⟨n, h⟩, hes, rfl⟩
    rw [List.forall₂_nil_left_iff] at hes
    exact ⟨n, e, h, by rw [hes]⟩
  · rintro ⟨n, e, h, rfl⟩
    exact ⟨e, [], ⟨n, h⟩, .nil, rfl⟩

/-! ## Names and components -/

/-- A system names what its formulas name. -/
theorem mem_names {items : List (Value Float)} {es : List Equation}
    (h : (ofItems items).outcome = .ok es) {name : String} :
    name ∈ (ofItems items).names ↔ ∃ e ∈ es, name ∈ e.names := by
  obtain ⟨-, -, hcompile⟩ := ofItems_accepted h
  rw [names_of_accepted h, unionOfNames, mem_foldr_insertName]
  generalize (ofItems items).normal = ns at hcompile
  rw [mapM_eq_ok] at hcompile
  clear h
  induction hcompile with
  | nil => simp
  | cons hn _ ih => simp [ih, names_of_compile hn]

/-- The components that a system refers to are those of its equations. -/
theorem components_eq {items : List (Value Float)} {es : List Equation}
    (h : (ofItems items).outcome = .ok es) :
    (ofItems items).components = (es.map fun e => highest e.names).foldl max 0 := by
  apply Nat.le_antisymm
  · unfold components
    rw [highest_le]
    intro name hname k hk
    obtain ⟨e, he, hname⟩ := (mem_names h).mp hname
    refine (le_highest hname hk).trans ?_
    exact (foldl_max_le.mp (Nat.le_refl _)).2 _ (List.mem_map.mpr ⟨e, he, rfl⟩)
  · rw [foldl_max_le]
    refine ⟨Nat.zero_le _, fun n hn => ?_⟩
    obtain ⟨e, he, rfl⟩ := List.mem_map.mp hn
    rw [highest_le]
    exact fun name hname k hk => le_highest ((mem_names h).mpr ⟨e, he, hname⟩) hk

/-! ## Evaluation -/

/-- The value of an equation, which has to be finite. -/
def finiteValue (given : List Equation.Given) (e : Equation) : Except Fault Float := do
  let x ← e.valueOf given
  if x.isFinite then return x else throw .nonNumeric

theorem equationValue_eq (given : List Equation.Given) (e : Equation) (number : Nat) :
    equationValue given e number = (finiteValue given e).mapError (.inEquation number) := rfl

theorem finiteValue_isFinite {given : List Equation.Given} {e : Equation} {x : Float}
    (h : finiteValue given e = .ok x) : x.isFinite = true := by
  obtain ⟨x', -, h⟩ := bind_eq_ok.mp h
  split at h
  · rename_i hfinite
    cases h
    exact hfinite
  · cases h

/-- The outcome of a system of one equation. -/
def alone (r : Except Fault Float) : Except Fault (List Float) :=
  (r.map fun x => [x]).mapError (.inEquation 1)

theorem alone_eq_ok {r : Except Fault Float} {x : Float} : alone r = .ok [x] ↔ r = .ok x := by
  cases r with
  | ok y =>
    show Except.ok [y] = Except.ok [x] ↔ _
    rw [ok_eq_ok, ok_eq_ok, List.cons_eq_cons, and_iff_left rfl]
  | error cause => exact iff_of_false (fun h => by cases h) (fun h => by cases h)

theorem alone_eq_error {r : Except Fault Float} {cause : Fault} :
    alone r = .error (.inEquation 1 cause) ↔ r = .error cause := by
  cases r with
  | ok y => exact iff_of_false (fun h => by cases h) (fun h => by cases h)
  | error other =>
    constructor
    · intro h
      cases h
      rfl
    · intro h
      cases h
      rfl

section

variable {t y : Value Float} {T Y : List Nat × List Float}

/-- The value of one equation among others is its value when it is alone. -/
theorem evaluate_single {v : Value Float} {n : List Char} {e : Equation} (h : Accepts v n e)
    (hn : Ascii n) (ht : t.flatten = .ok T) (hy : y.flatten = .ok Y) {k : Nat}
    (hk : highest e.names ≤ k) (hlength : k ≤ Y.2.length) :
    (ofItems [v]).evaluate t y = alone (finiteValue (givenAt T.1 T.2 (Y.2.take k)) e) := by
  have hc : (ofItems [v]).outcome = .ok [e] := outcome_single.mpr ⟨n, e, h, rfl⟩
  have hcomponents : (ofItems [v]).components = highest e.names := by
    rw [components_eq hc]
    exact Nat.zero_max _
  have hvalue : e.valueOf (givenAt T.1 T.2 (Y.2.take (highest e.names))) =
      e.valueOf (givenAt T.1 T.2 (Y.2.take k)) := by
    refine valueOf_congr hn h.compile (fun _ => rfl) fun m hm => ?_
    have hm := le_highest hm (component?_eq_some.mpr ⟨Nat.succ_pos m, rfl⟩)
    rw [List.getElem?_take, List.getElem?_take, if_pos (by omega), if_pos (by omega)]
  have hfinite : finiteValue (givenAt T.1 T.2 (Y.2.take (highest e.names))) e =
      finiteValue (givenAt T.1 T.2 (Y.2.take k)) e := by
    unfold finiteValue
    rw [hvalue]
  rw [evaluate_eq hc ht hy (by rw [hcomponents]; omega), hcomponents]
  show [(e, 0)].mapM (fun p : Equation × Nat =>
    equationValue (givenAt T.1 T.2 (Y.2.take (highest e.names))) p.1 (p.2 + 1)) = _
  rw [List.mapM_cons, List.mapM_nil, equationValue_eq, hfinite]
  cases finiteValue (givenAt T.1 T.2 (Y.2.take k)) e <;> rfl

end

/-! ## One equation after another -/

/-- A system computes what its formulas compute alone: all their values, which are finite, or the
    failure of the first that fails, with its number. -/
structure ComputesEach (whole : Coupled) (parts : List Coupled) (t y : Value Float) : Prop where
  answers : ∀ p ∈ parts, (∃ v, p.evaluate t y = .ok [v]) ∨
    ∃ cause, p.evaluate t y = .error (.inEquation 1 cause)
  values : ∀ vs, List.Forall₂ (fun (p : Coupled) v => p.evaluate t y = .ok [v]) parts vs →
    whole.evaluate t y = .ok vs ∧ ∀ v ∈ vs, v.isFinite = true
  failure : ∀ pre p post cause, parts = pre ++ p :: post →
    (∀ q ∈ pre, ∃ v, q.evaluate t y = .ok [v]) →
    p.evaluate t y = .error (.inEquation 1 cause) →
      whole.evaluate t y = .error (.inEquation (pre.length + 1) cause)

section

variable {whole : Coupled} {parts : List Coupled} {t y : Value Float} {es : List Equation}
variable {val : Equation → Except Fault Float}
variable (hparts : List.Forall₂ (fun (p : Coupled) e => p.evaluate t y = alone (val e)) parts es)
include hparts

theorem answers_of_alone : ∀ p ∈ parts, (∃ v, p.evaluate t y = .ok [v]) ∨
    ∃ cause, p.evaluate t y = .error (.inEquation 1 cause) := by
  induction hparts with
  | nil => simp
  | @cons p e ps es hp _ ih =>
    rw [List.forall_mem_cons]
    refine ⟨?_, ih⟩
    cases hv : val e with
    | ok x => exact Or.inl ⟨x, by rw [hp, alone_eq_ok, hv]⟩
    | error cause => exact Or.inr ⟨cause, by rw [hp, alone_eq_error, hv]⟩

/-- What the parts answer alone is what the equations compute. -/
theorem values_of_alone {vs : List Float}
    (hvs : List.Forall₂ (fun (p : Coupled) v => p.evaluate t y = .ok [v]) parts vs) :
    List.Forall₂ (fun e v => val e = .ok v) es vs := by
  induction hparts generalizing vs with
  | nil =>
    cases hvs
    exact .nil
  | cons hp _ ih =>
    obtain ⟨v, ws, hv, hws, rfl⟩ := List.forall₂_cons_left_iff.mp hvs
    exact .cons (alone_eq_ok.mp (hp ▸ hv)) (ih hws)

/-- If all parts answer, all equations compute something. -/
theorem computed_of_alone (hanswers : ∀ p ∈ parts, ∃ v, p.evaluate t y = .ok [v]) :
    ∀ e ∈ es, ∃ x, val e = .ok x := by
  obtain ⟨vs, hvs⟩ := exists_forall₂_iff.mpr hanswers
  exact exists_forall₂_iff.mp ⟨vs, values_of_alone hparts hvs⟩

/-- The same for equations with numbers, by what each of them computes. -/
theorem computesEach_of_alone (hval : ∀ e x, val e = .ok x → x.isFinite = true)
    (hwhole : whole.evaluate t y =
      es.zipIdx.mapM fun p => (val p.1).mapError (.inEquation (p.2 + 1))) :
    ComputesEach whole parts t y where
  answers := answers_of_alone hparts
  values := by
    intro vs hvs
    have hes := values_of_alone hparts hvs
    rw [hwhole, mapM_eq_ok]
    clear hwhole hvs hparts
    generalize 0 = k
    constructor
    · induction hes generalizing k with
      | nil => exact .nil
      | cons he _ ih => exact .cons (by rw [he]; rfl) (ih (k + 1))
    · induction hes with
      | nil => simp
      | cons he _ ih =>
        rw [List.forall_mem_cons]
        exact ⟨hval _ _ he, ih⟩
  failure := by
    -- the parts in front belong to the equations in front, and the part that fails to the next one
    rintro pre p post cause rfl hpre hp
    have hfront := (List.forall₂_take_append es pre (p :: post) hparts.flip).flip
    have hrest := (List.forall₂_drop_append es pre (p :: post) hparts.flip).flip
    have hes : es = es.take pre.length ++ es.drop pre.length := (List.take_append_drop _ _).symm
    generalize es.take pre.length = es' at hes hfront
    generalize es.drop pre.length = rest at hes hrest
    subst hes
    obtain ⟨e, post', he, -, rfl⟩ := List.forall₂_cons_left_iff.mp hrest
    have hcause : val e = .error cause := alone_eq_error.mp (he ▸ hp)
    have hvalues := computed_of_alone hfront hpre
    rw [hwhole, List.zipIdx_append, List.zipIdx_cons, hfront.length_eq]
    refine mapM_eq_error (fun a ha => ?_) ?_
    · obtain ⟨x, hx⟩ := hvalues a.1 (List.fst_mem_of_mem_zipIdx ha)
      exact ⟨x, by rw [hx]; rfl⟩
    · show (val e).mapError _ = _
      rw [hcause, Nat.zero_add]
      rfl

end

/-- The formulas of a list as systems of one equation each. -/
def apart (ss : List String) : List Coupled := ss.map fun s => ofItems [.text s]

section

variable {ss : List String} {es : List Equation}

theorem parts_alone (hss : ∀ s ∈ ss, Ascii s.toList)
    (h : List.Forall₂ (fun v e => ∃ n, Accepts v n e) (ss.map .text) es) {t y : Value Float}
    {T Y : List Nat × List Float} (ht : t.flatten = .ok T) (hy : y.flatten = .ok Y) {k : Nat}
    (hk : ∀ e ∈ es, highest e.names ≤ k) (hlength : k ≤ Y.2.length) :
    List.Forall₂ (fun (p : Coupled) e =>
      p.evaluate t y = alone (finiteValue (givenAt T.1 T.2 (Y.2.take k)) e)) (apart ss) es := by
  rw [List.forall₂_map_left_iff] at h
  unfold apart
  rw [List.forall₂_map_left_iff]
  induction h with
  | nil => exact .nil
  | cons hv _ ih =>
    obtain ⟨n, hv⟩ := hv
    rw [List.forall_mem_cons] at hss hk
    exact .cons (evaluate_single hv (ascii_of_normalTextOf hss.1 hv.normal) ht hy hk.1 hlength)
      (ih hss.2 hk.2)

/-- The components that a system refers to are those that its formulas refer to alone. -/
theorem components_apart (h : List.Forall₂ (fun v e => ∃ n, Accepts v n e) (ss.map .text) es) :
    (apart ss).map components = es.map fun e => highest e.names := by
  rw [List.forall₂_map_left_iff] at h
  unfold apart
  rw [List.map_map]
  induction h with
  | nil => rfl
  | cons hv _ ih =>
    obtain ⟨n, hv⟩ := hv
    have hcomponents := components_eq (outcome_single.mpr ⟨n, _, hv, rfl⟩)
    rw [List.map_cons, List.map_cons, ih]
    refine congrArg (· :: _) (hcomponents.trans ?_)
    exact Nat.zero_max _

end

end Coupled

open Coupled

end InitialValue.Formula
