/-
  A reading is accepted or rejected, and is what it says.

  A formula goes through six stages, and each of them may reject it; a system goes through five, with
  every formula.  Whatever the text, or whatever is given in place of one, callers see one of two
  things.

  1. **Rejected** — the rejection has words, and evaluating the reading fails with what they refer
     to, wherever it is evaluated (`Rejection.Closes`).
  2. **Accepted** — there is a normal text and a list of names that may be used, in order and each
     once.  A single formula has a finite value where time and state are one
     (`Single.accepted_value`); a system has as many values as formulas, all of them finite, wherever
     it has any (`Coupled.evaluate_finite`).

  `readings_consistent` says so of single formulas and of systems.
-/
import InitialValue.Proofs.Formula.Systems
import InitialValue.Proofs.Solver.Wording

namespace InitialValue.Formula

open InitialValue.Text

/-! ## Rejected readings -/

/-- What a rejection has to do: it has words, and nothing is evaluated. -/
structure Rejection.Closes {β : Type} (r : Rejection)
    (evaluate : Value Float → Value Float → Except Fault β) : Prop where
  worded : r.message ≠ ""
  refuses : ∀ t y, evaluate t y = .error (.refused r.refusal)

theorem Single.closes {s : Single} {r : Rejection} (h : s.outcome = .error r) :
    r.Closes s.evaluate where
  worded := r.message_ne_empty
  refuses t y := by
    unfold evaluate
    rw [h]

theorem Coupled.closes {c : Coupled} {r : Rejection} (h : c.outcome = .error r) :
    r.Closes c.evaluate where
  worded := r.message_ne_empty
  refuses t y := by
    unfold evaluate
    rw [h]

/-! ## Accepted single formulas -/

/-- Names in order, all of them in a list that is in order, are a part of it. -/
theorem sublist_of_pairwise {xs ys : List String} (hx : xs.Pairwise (· < ·))
    (hy : ys.Pairwise (· < ·)) (h : ∀ x ∈ xs, x ∈ ys) : xs.Sublist ys :=
  List.sublist_of_subperm_of_pairwise (List.subperm_of_subset hx.nodup h) hx hy

/-- A value that is read as the number one. -/
def IsOne (v : Value Float) : Prop := v.flatten = .ok ([], [1.0])

namespace Single

/-- The names that a single formula may use, in order. -/
theorem allowed_pairwise : allowed.Pairwise (· < ·) := by decide

/-- What callers may rely on in the reading of a single formula. -/
structure Consistent (s : Single) : Prop where
  normal : ∀ e, s.outcome = .ok e → s.normal ≠ []
  names : ∀ e, s.outcome = .ok e → s.names.Pairwise (· < ·) ∧ s.names.Sublist allowed
  /-- What is accepted has been tested. -/
  value : ∀ e, s.outcome = .ok e →
    ∃ x, x.isFinite = true ∧ ∀ t y, IsOne t → IsOne y → s.evaluate t y = .ok x
  rejected : ∀ r, s.outcome = .error r → r.Closes s.evaluate

/-- A formula that passes the test has a finite value where time and state are one. -/
theorem test_eq_ok {e : Equation} (h : test e = .ok ()) :
    ∃ x, x.isFinite = true ∧ evaluateAt e (.real 1.0) (.real 1.0) = .ok x := by
  obtain ⟨x, hx, h⟩ := bind_eq_ok.mp h
  split at h
  · rename_i hfinite
    exact ⟨x, hfinite, hx⟩
  · cases h

/-- **An accepted formula** has a finite value where time and state are one. -/
theorem accepted_value {s : Single} {e : Equation} (hs : s.outcome = .ok e)
    (h : test e = .ok ()) :
    ∃ x, x.isFinite = true ∧ ∀ t y, IsOne t → IsOne y → s.evaluate t y = .ok x := by
  obtain ⟨x, hfinite, hx⟩ := test_eq_ok h
  refine ⟨x, hfinite, fun t y ht hy => ?_⟩
  have hone : (Value.real 1.0 : Value Float).flatten = .ok ([], [1.0]) := rfl
  rw [evaluateAt_eq e hone hone] at hx
  unfold evaluate
  rw [hs]
  exact (evaluateAt_eq e ht hy).trans hx

/-- **Readings of single formulas are consistent.** -/
theorem consistent_read (v : Value Float) : (read v).Consistent where
  normal e he := by
    obtain ⟨hnormal, -⟩ := read_accepted he
    obtain ⟨_, -, -, -, hne⟩ := normalTextOf_eq_ok hnormal
    exact hne
  names e he := by
    obtain ⟨-, hnames, hallowed, -⟩ := read_accepted he
    rw [hnames]
    have hordered := pairwise_namesIn (read v).normal
    exact ⟨hordered, sublist_of_pairwise hordered allowed_pairwise fun s hs =>
      List.contains_iff_mem.mp (hallowed s hs)⟩
  value e he := by
    obtain ⟨-, -, -, -, htest⟩ := read_accepted he
    exact accepted_value he htest
  rejected _ hr := closes hr

end Single

/-! ## Accepted systems -/

namespace Coupled

/-- What callers may rely on in the reading of a system. -/
structure Consistent (c : Coupled) : Prop where
  normal : ∀ es, c.outcome = .ok es →
    c.normal.length = c.formulas.length ∧ ∀ n ∈ c.normal, n ≠ []
  names : ∀ es, c.outcome = .ok es → c.names.Pairwise (· < ·) ∧
    ∀ name ∈ c.names, name = "t" ∨ ∃ k, 0 < k ∧ name = componentName k
  /-- What a system answers is complete and finite. -/
  values : ∀ es, c.outcome = .ok es → ∀ t y vs, c.evaluate t y = .ok vs →
    vs.length = c.formulas.length ∧ ∀ v ∈ vs, v.isFinite = true
  rejected : ∀ r, c.outcome = .error r → r.Closes c.evaluate

theorem formulas_ofItems (items : List (Value Float)) : (ofItems items).formulas = items := by
  unfold ofItems
  split
  · rename_i hempty
    exact (List.isEmpty_iff.mp hempty).symm
  · split
    · rfl
    · dsimp only
      split
      · rfl
      · split <;> rfl

/-- The names that a formula of a system may use. -/
theorem isAllowed_iff {name : String} :
    isAllowed name = true ↔ name = "t" ∨ ∃ k, 0 < k ∧ name = componentName k := by
  unfold isAllowed
  rw [Bool.or_eq_true, beq_iff_eq, Option.isSome_iff_exists]
  simp only [component?_eq_some]

theorem equationValue_isFinite {given : List Equation.Given} {e : Equation} {number : ℕ}
    {x : Float} (h : equationValue given e number = .ok x) : x.isFinite = true := by
  rw [equationValue_eq] at h
  cases hvalue : finiteValue given e with
  | error cause =>
    rw [hvalue] at h
    cases h
  | ok x' =>
    rw [hvalue] at h
    cases h
    exact finiteValue_isFinite hvalue

/-- **What a system answers** are finite values, one for each equation. -/
theorem evaluate_finite {c : Coupled} {es : List Equation} (hc : c.outcome = .ok es)
    {t y : Value Float} {vs : List Float} (h : c.evaluate t y = .ok vs) :
    vs.length = es.length ∧ ∀ v ∈ vs, v.isFinite = true := by
  obtain ⟨_, _, -, -, -, hvs⟩ := evaluate_eq_ok hc h
  rw [mapM_eq_ok] at hvs
  refine ⟨by rw [← hvs.length_eq, List.length_zipIdx], ?_⟩
  clear h hc
  generalize es.zipIdx = ps at hvs
  induction hvs with
  | nil => simp
  | cons hv _ ih =>
    rw [List.forall_mem_cons]
    exact ⟨equationValue_isFinite hv, ih⟩

/-- Readings of lists of formulas are consistent. -/
theorem consistent_ofItems (items : List (Value Float)) : (ofItems items).Consistent where
  normal es hes := by
    obtain ⟨hnormal, -, -⟩ := ofItems_accepted hes
    rw [mapM_eq_ok] at hnormal
    rw [formulas_ofItems]
    refine ⟨hnormal.length_eq.symm, ?_⟩
    clear hes
    generalize (ofItems items).normal = ns at hnormal
    induction hnormal with
    | nil => simp
    | cons hn _ ih =>
      rw [List.forall_mem_cons]
      obtain ⟨_, -, -, -, hne⟩ := normalTextOf_eq_ok hn
      exact ⟨hne, ih⟩
  names es hes := by
    obtain ⟨-, hallowed, -⟩ := ofItems_accepted hes
    rw [names_of_accepted hes]
    refine ⟨pairwise_foldr_insertName _, fun name hname => isAllowed_iff.mp ?_⟩
    rw [unionOfNames, mem_foldr_insertName, List.mem_flatMap] at hname
    obtain ⟨n, hn, hname⟩ := hname
    exact hallowed n hn name hname
  values es hes t y vs hvs := by
    obtain ⟨hnormal, -, hcompile⟩ := ofItems_accepted hes
    rw [mapM_eq_ok] at hnormal hcompile
    obtain ⟨hlength, hfinite⟩ := evaluate_finite hes hvs
    refine ⟨?_, hfinite⟩
    rw [hlength, ← hcompile.length_eq, ← hnormal.length_eq, formulas_ofItems]
  rejected _ hr := closes hr

/-- The formulas in what is given as a system; what is no collection has none. -/
def formulasIn? : Value Float → Option (List (Value Float))
  | .text s => some [.text s]
  | .null => some []
  | .list items => some items
  | .record fields => some (fields.map fun f => .text f.1)
  | _ => none

/-- **Readings of systems are consistent**: every collection has one. -/
theorem consistent_read {v : Value Float} {items : List (Value Float)}
    (h : formulasIn? v = some items) :
    ∃ c, read v = .ok c ∧ c.formulas = items ∧ c.Consistent := by
  cases v with
  | text s =>
    cases h
    refine ⟨_, rfl, rfl, ?_⟩
    constructor
    case rejected => exact fun _ hr => closes hr
    all_goals
      intro es hes
      cases hes
  | null =>
    cases h
    exact ⟨_, rfl, rfl, consistent_ofItems []⟩
  | list items =>
    cases h
    exact ⟨_, rfl, formulas_ofItems _, consistent_ofItems _⟩
  | record fields =>
    cases h
    exact ⟨_, rfl, formulas_ofItems _, consistent_ofItems _⟩
  | _ => cases h

end Coupled

end InitialValue.Formula
