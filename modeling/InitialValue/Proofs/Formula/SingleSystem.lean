/-
  A single formula as a system of one equation.

  With its state called `y1` a formula for one state is a formula for the first component of a
  system.  Its normal text is the same but for this name (`normalize_named`), so it is permitted
  where the single formula is, and it makes the same calculation (`compile_named`).  **The system
  computes what the single formula does** (`single_as_system`): its finite values are the values of
  the system, and where it fails or has no finite value, the one equation of the system fails.
-/
import InitialValue.Proofs.Formula.StateName.Compiling
import InitialValue.Proofs.Formula.Systems

namespace InitialValue.Formula

open InitialValue.Text

/-! ## Single numbers -/

/-- A single number, of whatever type. -/
def IsSingleNumber (v : Value Float) : Prop := ∃ x, v.flatten = .ok ([], [x])

/-- A list of a single number. -/
theorem flatten_singleton {v : Value Float} {x : Float} (h : v.flatten = .ok ([], [x])) :
    (Value.list [v]).flatten = .ok ([1], [x]) := by
  obtain ⟨shape, hshape, h⟩ := bind_eq_ok.mp h
  obtain ⟨entries, hentries, h⟩ := bind_eq_ok.mp h
  obtain ⟨rfl, rfl⟩ := Prod.mk.inj (pure_eq_ok.mp h)
  unfold Value.flatten Value.shape Value.entries Value.shapeOfItems Value.entriesOfItems
  rw [hshape, hentries]
  rfl

namespace Equation

variable {e : Equation} {given : List Given}

/-- The value of an equation from single numbers. -/
theorem valueOf_numbers (h : ∀ g ∈ given, g.shape = []) :
    e.valueOf given = e.quantity (valuesOf given) >>= Quantity.result := by
  have hused : given.filter (fun g => !g.shape.isEmpty && e.uses g.name) = [] := by
    rw [List.filter_eq_nil_iff]
    intro g hg
    rw [h g hg]
    exact Bool.false_ne_true
  unfold valueOf
  rw [hused]
  rfl

/-- What is given for names that an equation does not see makes no difference. -/
theorem Deaf.run_eq (h : e.Deaf given) (symbols : Fin e.names.length → Float) :
    e.calculation.run symbols (valuesOf given) = e.calculation.run symbols fun _ => none :=
  Calculation.run_congr (fun _ => rfl) (fun _ => valuesOf_eq_none) e.calculation h

end Equation

namespace StateName

/-! ## Another name for the state -/

/-- A formula with another name for the state. -/
def renamed (w : List Char) (s : String) : String := String.ofList ((stateRule w).apply s.toList)

theorem ascii_named {w : List Char} (hw : IsStateName w) {cs : List Cell} (h : Ascii (plain cs)) :
    Ascii (named w cs) := by
  intro c hc
  obtain ⟨cell, hcell, hc⟩ := List.mem_flatMap.mp hc
  cases cell with
  | char a =>
    obtain rfl := List.mem_singleton.mp hc
    exact h c (List.mem_map.mpr ⟨.char c, hcell, rfl⟩)
  | state =>
    obtain ⟨ds, rfl, hds⟩ := hw
    rcases List.mem_cons.mp hc with rfl | hc
    · decide
    · exact toNat_of_isPlainWord (isPlainWord_of_isDigit (hds c hc))

/-- What a formula is read as with another name `w` for its state, if it makes the equation `e` of
    the normal text `n`: it makes `e'` of `n'`, where the names stand in the same places and the
    same is computed from the same numbers. -/
structure Reads (w : List Char) (s : String) (n n' : List Char) (e e' : Equation) : Prop where
  plain : Equation.compile n = .ok e
  ascii : Ascii n
  normal : Equation.normalTextOf (.text (renamed w s) : Value Float) = .ok n'
  ascii' : Ascii n'
  compile : Equation.compile n' = .ok e'
  names : e'.names = e.names.map (asNamed w)
  run : ∃ hlength : e'.names.length = e.names.length, ∀ symbols values,
    e'.calculation.run symbols values =
      e.calculation.run (fun i => symbols (Fin.cast hlength.symm i)) values

section

variable {w : List Char} {s : String} {n n' : List Char} {e e' : Equation}

/-- **An accepted formula is read as well with another name for its state.** -/
theorem exists_reads (hw : IsStateName w) (hs : Ascii s.toList)
    (hn : Equation.normalTextOf (.text s : Value Float) = .ok n)
    (hallowed : ∀ name ∈ namesIn n, name = "t" ∨ name = "y")
    (hcompile : Equation.compile n = .ok e) : ∃ n' e', Reads w s n n' e e' := by
  obtain ⟨s', heq, hsafe, hnormal, hne⟩ := normalTextOf_eq_ok hn
  cases heq
  have hplain : plain (cellsFrom false s.toList) = s.toList := plain_cellsFrom
  have hmarked : Marked false (cellsFrom false s.toList) false := marked_cellsFrom
  rw [← hplain] at hsafe hnormal
  have hascii := ascii_of_normalTextOf hs hn
  obtain ⟨outs, rfl, hnamed, houts⟩ := normalize_named hw hmarked hnormal
  obtain ⟨e', he', hnames, hrun⟩ := compile_named hw hascii houts hallowed hcompile
  refine ⟨named w outs, e', hcompile, hascii, ?_, ascii_named hw hascii, he', hnames, hrun⟩
  rw [renamed, stateRule_apply]
  refine normalText_eq (checkSafety_named hw hsafe) hnamed ?_
  cases outs with
  | nil => exact absurd rfl hne
  | cons c outs => exact named_ne hw c outs

/-- The two equations compute the same where their names stand for the same numbers. -/
theorem Reads.quantity (h : Reads w s n n' e e') {given given' : List Equation.Given}
    (hnames : ∀ name ∈ e.names,
      Equation.valuesOf given' (asNamed w name) = Equation.valuesOf given name)
    (hdeaf : e.Deaf given) (hdeaf' : e.Deaf given') :
    e'.quantity (Equation.valuesOf given') = e.quantity (Equation.valuesOf given) := by
  obtain ⟨hlength, hrun⟩ := h.run
  unfold Equation.quantity
  rw [hrun, hdeaf.run_eq, hdeaf'.run_eq]
  congr 1
  funext i
  have hname : e'.names.get (Fin.cast hlength.symm i) = asNamed w (e.names.get i) := by
    simp [h.names]
  rw [hname, hnames _ (List.get_mem _ _)]

end

/-! ## The first component -/

/-- The name of the first component. -/
def firstComponent : List Char := ['y', '1']

theorem isStateName_firstComponent : IsStateName firstComponent :=
  ⟨['1'], rfl, List.forall_mem_singleton.mpr (by decide)⟩

section

variable {s : String} {n n' : List Char} {e e' : Equation}
  (h : Reads firstComponent s n n' e e') (hallowed : ∀ name ∈ e.names, name = "t" ∨ name = "y")

include h hallowed

theorem Reads.accepts : Coupled.Accepts (.text (renamed firstComponent s)) n' e' := by
  refine ⟨h.normal, fun name hname => ?_, h.compile⟩
  rw [← names_of_compile h.compile, h.names] at hname
  obtain ⟨own, hown, rfl⟩ := List.mem_map.mp hname
  rcases hallowed own hown with rfl | rfl <;> decide

theorem Reads.highest_le : Coupled.highest e'.names ≤ 1 := by
  rw [Coupled.highest_le, h.names]
  intro name hname k hk
  obtain ⟨own, hown, rfl⟩ := List.mem_map.mp hname
  rcases hallowed own hown with rfl | rfl
  · have htime : Coupled.component? (asNamed firstComponent "t") = none := by decide
    rw [htime] at hk
    cases hk
  · have hstate : Coupled.component? (asNamed firstComponent "y") = some 1 := by decide
    rw [hstate] at hk
    exact (Option.some.inj hk).ge

/-- The equation has the same value from the time and the one component of a system. -/
theorem Reads.valueOf (x y : Float) :
    e'.valueOf (Coupled.givenAt [] [x] [y]) = e.valueOf (Single.givenAt ([], [x]) ([], [y])) := by
  have hsystem : ∀ g ∈ Coupled.givenAt [] [x] [y], g.shape = [] := by simp [Coupled.givenAt]
  have hsingle : ∀ g ∈ Single.givenAt ([], [x]) ([], [y]), g.shape = [] := by
    simp [Single.givenAt]
  rw [Equation.valueOf_numbers hsystem, Equation.valueOf_numbers hsingle, h.quantity ?_
    (Single.deaf h.ascii h.plain _ _) (Coupled.deaf h.ascii h.plain _ _ _)]
  intro name hname
  rcases hallowed name hname with rfl | rfl <;> rfl

end

end StateName

/-! ## The system of a formula -/

/-- A single formula and the system of it compute alike from a time and a state: the finite values
    of the one are those of the other, and without one the first equation of the system fails. -/
structure ComputesAlike (single : Single) (system : Coupled) (t y : Value Float) : Prop where
  value : ∀ v, single.evaluate t y = .ok v → v.isFinite = true →
    system.evaluate t (.list [y]) = .ok [v]
  notFinite : ∀ v, single.evaluate t y = .ok v → v.isFinite = false →
    system.evaluate t (.list [y]) = .error (.inEquation 1 .nonNumeric)
  failure : ∀ cause, single.evaluate t y = .error cause →
    ∃ cause', cause = .inEvaluation cause' ∧
      system.evaluate t (.list [y]) = .error (.inEquation 1 cause')

/-- The same by the value of one equation, which need not be finite. -/
theorem computesAlike_of_value {single : Single} {system : Coupled} {t y : Value Float}
    {e : Equation} {given : List Equation.Given}
    (hsingle : single.evaluate t y = (e.valueOf given).mapError .inEvaluation)
    (hsystem : system.evaluate t (.list [y]) = Coupled.alone (Coupled.finiteValue given e)) :
    ComputesAlike single system t y := by
  unfold Coupled.finiteValue at hsystem
  cases hvalue : e.valueOf given with
  | error cause =>
    rw [hvalue] at hsingle hsystem
    have hfailed : single.evaluate t y = .error (.inEvaluation cause) := hsingle
    refine ⟨fun v hv => ?_, fun v hv => ?_, fun cause' hcause => ⟨cause, ?_, hsystem⟩⟩
    · rw [hfailed] at hv
      cases hv
    · rw [hfailed] at hv
      cases hv
    · rw [hfailed] at hcause
      exact (Except.error.inj hcause).symm
  | ok x =>
    rw [hvalue] at hsingle hsystem
    have hcomputed : single.evaluate t y = .ok x := hsingle
    change _ = Coupled.alone (if x.isFinite then .ok x else .error .nonNumeric) at hsystem
    refine ⟨fun v hv hfinite => ?_, fun v hv hfinite => ?_, fun cause hcause => ?_⟩
    · obtain rfl := Except.ok.inj (hcomputed.symm.trans hv)
      rw [hsystem, if_pos hfinite]
      rfl
    · obtain rfl := Except.ok.inj (hcomputed.symm.trans hv)
      rw [hsystem, if_neg (by rw [hfinite]; exact Bool.false_ne_true)]
      rfl
    · rw [hcomputed] at hcause
      cases hcause

/-- The names of a system of one formula are those of its normal text. -/
theorem Coupled.names_single {v : Value Float} {n : List Char} {e : Equation}
    (h : Accepts v n e) : (ofItems [v]).names = e.names := by
  have hitems : [v].mapM Equation.normalTextOf = .ok [n] := mapM_eq_ok.mpr (.cons h.normal .nil)
  have hcompile : [n].mapM Equation.compile = .ok [e] := mapM_eq_ok.mpr (.cons h.compile .nil)
  have hallowed : ∀ s ∈ [n].flatMap namesIn, isAllowed s = true := by
    rw [List.flatMap_singleton]
    exact h.names
  rw [ofItems_eq (List.cons_ne_nil v []) hitems hallowed hcompile, names_of_compile h.compile]
  show ([n].flatMap namesIn).foldr insertName [] = _
  rw [List.flatMap_singleton]
  exact foldr_insertName_eq (pairwise_namesIn n)

open StateName

end InitialValue.Formula
