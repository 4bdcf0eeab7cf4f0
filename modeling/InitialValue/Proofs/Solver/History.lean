/-
  What a record says of the calls that were made on it.

  A record is changed in place, so what a call writes before it is refused would stay.  `perform`
  carries a call out that way, one reading, check or writing after the other; its answer is that of
  `call`, and the record it leaves is that of `attempt` (`outcome_eq`).

  1. **One call** — `Step` has a constructor for each way in which a call is accepted, and every other
     call leaves the record as it is (`outcome_cases`).
  2. **Histories** — `Tale` says which calls can have been accepted so far and what the record then
     looks like.  An accepted call carries a tale on (`Tale.step`), a refused one does not interrupt
     it, so every history has one (`tale_after`).
  3. **The record** — `record_faithful` reads off the tale what the record tells of any calls, made in
     any order and refused or not.
-/
import InitialValue.Solver.Run
import Mathlib.Data.List.Induction

namespace InitialValue.Run

/-! ## Calls in place -/

/-- An action on a record that may be refused on its way; what it wrote by then stays written. -/
abbrev InPlace := ExceptT Fault (StateM Run)

/-- Moves on to a phase, if the table allows it. -/
def moveOn (p : Phase) : InPlace Unit := do
  let r ← get
  if !r.phase.allows p then
    throw (.illegalTransition r.phase.capitals p.capitals)
  set { r with phase := p }

/-- Carries out a call in place. -/
def perform : Call → InPlace Unit
  | .validated => moveOn .validated
  | .start => moveOn .integrating
  | .recordStep => do
    moveOn .integrating
    modify fun r => { r with steps := r.steps + 1 }
  | .converge => moveOn .converged
  | .fail error => do
    moveOn .failed
    modify fun r => { r with error := some error }

/-- The answer to a call, and the record it leaves. -/
def outcome (r : Run) (c : Call) : Except Fault Unit × Run := (perform c).run.run r

/-- Is a call carried out? -/
def accepts (r : Run) (c : Call) : Bool := (r.outcome c).1.isOk

/-- **Carrying out a call in place** gives the answer of the call and the record of the attempt. -/
theorem outcome_eq (r : Run) (c : Call) :
    r.outcome c = ((r.call c).map fun _ => (), r.attempt c) := by
  obtain ⟨phase, steps, error⟩ := r
  cases phase <;> cases c <;> rfl

/-- The ways in which a call is accepted. -/
inductive Step : Run → Call → Run → Prop
  | validated (n : ℕ) (e : Option String) : Step ⟨.unvalidated, n, e⟩ .validated ⟨.validated, n, e⟩
  | start {p : Phase} (hp : p = .validated ∨ p = .integrating) (n : ℕ) (e : Option String) :
      Step ⟨p, n, e⟩ .start ⟨.integrating, n, e⟩
  | recordStep {p : Phase} (hp : p = .validated ∨ p = .integrating) (n : ℕ) (e : Option String) :
      Step ⟨p, n, e⟩ .recordStep ⟨.integrating, n + 1, e⟩
  | converge (n : ℕ) (e : Option String) : Step ⟨.integrating, n, e⟩ .converge ⟨.converged, n, e⟩
  | fail {p : Phase} (hp : p.isFinal = false) (n : ℕ) (e : Option String) (text : String) :
      Step ⟨p, n, e⟩ (.fail text) ⟨.failed, n, some text⟩

/-- **A call is accepted in one of these ways, or leaves the record as it is.** -/
theorem outcome_cases (r : Run) (c : Call) :
    (∃ fault, r.outcome c = (.error fault, r)) ∨ ∃ r', Step r c r' ∧ r.outcome c = (.ok (), r') := by
  obtain ⟨phase, n, e⟩ := r
  cases phase <;> cases c
  case unvalidated.validated => exact Or.inr ⟨_, .validated n e, rfl⟩
  case validated.start => exact Or.inr ⟨_, .start (Or.inl rfl) n e, rfl⟩
  case integrating.start => exact Or.inr ⟨_, .start (Or.inr rfl) n e, rfl⟩
  case validated.recordStep => exact Or.inr ⟨_, .recordStep (Or.inl rfl) n e, rfl⟩
  case integrating.recordStep => exact Or.inr ⟨_, .recordStep (Or.inr rfl) n e, rfl⟩
  case integrating.converge => exact Or.inr ⟨_, .converge n e, rfl⟩
  case unvalidated.fail text => exact Or.inr ⟨_, .fail rfl n e text, rfl⟩
  case validated.fail text => exact Or.inr ⟨_, .fail rfl n e text, rfl⟩
  case integrating.fail text => exact Or.inr ⟨_, .fail rfl n e text, rfl⟩
  all_goals exact Or.inl ⟨_, rfl⟩

/-- What a refused call was about to write is not there. -/
theorem outcome_of_refused {r : Run} {c : Call} (h : r.accepts c = false) : (r.outcome c).2 = r := by
  rcases outcome_cases r c with ⟨fault, hc⟩ | ⟨r', -, hc⟩
  · rw [hc]
  · rw [accepts, hc] at h
    cases h

theorem step_of_accepts {r : Run} {c : Call} (h : r.accepts c = true) :
    Step r c (r.outcome c).2 := by
  rcases outcome_cases r c with ⟨fault, hc⟩ | ⟨r', hstep, hc⟩
  · rw [accepts, hc] at h
    cases h
  · rw [hc]
    exact hstep

/-- A final record accepts nothing. -/
theorem accepts_of_final {r : Run} (h : r.isFinal = true) (c : Call) : r.accepts c = false := by
  rw [Bool.eq_false_iff]
  intro hc
  have hstep := step_of_accepts hc
  generalize (r.outcome c).2 = r' at hstep
  cases hstep with
  | validated => cases h
  | start hp => rcases hp with rfl | rfl <;> cases h
  | recordStep hp => rcases hp with rfl | rfl <;> cases h
  | converge => cases h
  | fail hp => exact absurd h (Bool.eq_false_iff.mp hp)

/-! ## Histories -/

/-- The record after some calls, refused ones among them. -/
def after (calls : List Call) : Run := calls.foldl (fun r c => (r.outcome c).2) fresh

/-- The calls that are accepted when they are made on a record one after the other. -/
def acceptedFrom : Run → List Call → List Call
  | _, [] => []
  | r, c :: calls =>
    if r.accepts c then c :: acceptedFrom (r.outcome c).2 calls
    else acceptedFrom (r.outcome c).2 calls

/-- The accepted calls of a history. -/
def accepted (calls : List Call) : List Call := acceptedFrom fresh calls

theorem after_snoc (calls : List Call) (c : Call) :
    after (calls ++ [c]) = ((after calls).outcome c).2 := List.foldl_append

theorem acceptedFrom_append (r : Run) (calls calls' : List Call) :
    acceptedFrom r (calls ++ calls') = acceptedFrom r calls ++
      acceptedFrom (calls.foldl (fun r c => (r.outcome c).2) r) calls' := by
  induction calls generalizing r with
  | nil => rfl
  | cons c calls ih =>
    rw [List.cons_append, acceptedFrom, acceptedFrom, ih, List.foldl_cons]
    split <;> rfl

theorem accepted_snoc (calls : List Call) (c : Call) :
    accepted (calls ++ [c]) =
      accepted calls ++ if (after calls).accepts c then [c] else [] := by
  rw [accepted, acceptedFrom_append]
  rfl

/-- Once a record is final it stays as it is. -/
theorem after_append_of_final {calls : List Call} (h : (after calls).isFinal = true)
    (later : List Call) : after (calls ++ later) = after calls := by
  induction later using List.reverseRecOn with
  | nil => rw [List.append_nil]
  | append_singleton later c ih =>
    rw [← List.append_assoc, after_snoc, ih]
    exact outcome_of_refused (accepts_of_final h c)

/-- A call that keeps an integration going. -/
def IsMove (c : Call) : Prop := c = .start ∨ c = .recordStep

/-- The record of an integration, after these moves. -/
def moved (moves : List Call) : Run := ⟨.integrating, moves.count .recordStep, none⟩

/-- A call that says that the run has failed. -/
def Call.isFail : Call → Bool
  | .fail _ => true
  | _ => false

/-- The calls that were accepted on a record, and the record. -/
inductive Tale : List Call → Run → Prop
  | fresh : Tale [] fresh
  | validated : Tale [.validated] ⟨.validated, 0, none⟩
  | integrating {moves : List Call} (hmoves : ∀ c ∈ moves, IsMove c) :
      Tale (.validated :: moves) (moved moves)
  | converged {moves : List Call} (hmoves : ∀ c ∈ moves, IsMove c) :
      Tale (.validated :: moves ++ [.converge]) { moved moves with phase := .converged }
  | failed {told : List Call} {r : Run} (htold : Tale told r) (hr : r.isFinal = false)
      (text : String) : Tale (told ++ [.fail text]) ⟨.failed, r.steps, some text⟩

namespace Tale

variable {told : List Call} {r r' : Run} {c : Call}

/-- An integration goes on with a move, or begins with one. -/
theorem move (h : Tale told r) (hp : r.phase = .validated ∨ r.phase = .integrating)
    (hc : IsMove c) :
    Tale (told ++ [c]) ⟨.integrating, r.steps + [c].count .recordStep, r.error⟩ := by
  cases h with
  | fresh => cases hp <;> contradiction
  | validated =>
    have htale : Tale [.validated, c] (moved [c]) := .integrating (List.forall_mem_singleton.mpr hc)
    rw [moved, ← Nat.zero_add ([c].count _)] at htale
    exact htale
  | @integrating moves hmoves =>
    have htale : Tale (.validated :: (moves ++ [c])) (moved (moves ++ [c])) :=
      .integrating (List.forall_mem_append.mpr ⟨hmoves, List.forall_mem_singleton.mpr hc⟩)
    rw [moved, List.count_append] at htale
    exact htale
  | converged => cases hp <;> contradiction
  | failed => cases hp <;> contradiction

/-- **An accepted call carries a tale on.** -/
theorem step (h : Tale told r) (hstep : Step r c r') : Tale (told ++ [c]) r' := by
  cases hstep with
  | validated =>
    cases h
    exact .validated
  | start hp => exact h.move hp (Or.inl rfl)
  | recordStep hp => exact h.move hp (Or.inr rfl)
  | converge =>
    cases h with
    | integrating hmoves => exact .converged hmoves
  | fail hp n e text => exact h.failed hp text

/-- The steps are the accepted ones. -/
theorem steps_eq (h : Tale told r) : r.steps = told.count .recordStep := by
  induction h with
  | fresh => rfl
  | validated => rfl
  | integrating hmoves => exact (List.count_cons_of_ne (by decide)).symm
  | converged hmoves =>
    rw [List.count_append, List.count_cons_of_ne (by decide)]
    rfl
  | failed htold hr text ih =>
    rw [List.count_append, ← ih, List.count_singleton]
    rfl

theorem error_isSome_iff (h : Tale told r) : r.error.isSome = true ↔ r.phase = .failed := by
  cases h with
  | failed htold hr text => exact iff_of_true rfl rfl
  | _ => exact iff_of_false Bool.false_ne_true nofun

/-- The error is the text of the one accepted failure. -/
theorem failures_eq (h : Tale told r) : told.filter Call.isFail = r.error.toList.map .fail := by
  have hmoves : ∀ {moves : List Call}, (∀ c ∈ moves, IsMove c) → moves.filter Call.isFail = [] := by
    intro moves h
    refine List.filter_eq_nil_iff.mpr fun c hc => ?_
    rcases h c hc with rfl | rfl <;> exact Bool.false_ne_true
  induction h with
  | fresh => rfl
  | validated => rfl
  | integrating h =>
    rw [List.filter_cons_of_neg Bool.false_ne_true]
    exact hmoves h
  | converged h =>
    rw [List.filter_append, List.filter_cons_of_neg Bool.false_ne_true, hmoves h]
    rfl
  | @failed told r htold hr text ih =>
    have hnone : r.error = none := by
      rw [← Option.not_isSome_iff_eq_none, htold.error_isSome_iff]
      intro hp
      rw [isFinal, hp] at hr
      cases hr
    rw [List.filter_append, ih, hnone]
    rfl

/-- What leads to convergence: a validation, moves, and the call that says so. -/
theorem of_converged (h : Tale told r) (hp : r.phase = .converged) :
    ∃ moves, (∀ c ∈ moves, IsMove c) ∧ told = .validated :: moves ++ [.converge] := by
  cases h with
  | @converged moves hmoves => exact ⟨moves, hmoves, rfl⟩
  | _ => cases hp

end Tale

/-- **Every history has a tale.** -/
theorem tale_after (calls : List Call) : Tale (accepted calls) (after calls) := by
  induction calls using List.reverseRecOn with
  | nil => exact .fresh
  | append_singleton calls c ih =>
    rw [accepted_snoc, after_snoc]
    cases hc : (after calls).accepts c with
    | true => exact ih.step (step_of_accepts hc)
    | false =>
      rw [outcome_of_refused hc, if_neg Bool.false_ne_true, List.append_nil]
      exact ih

/-! ## The record -/

/-- **What the record tells** after some calls, made in any order and refused or not. -/
structure Faithful (calls : List Call) : Prop where
  /-- The record is the one that the attempts lead to. -/
  attempts : after calls = calls.foldl attempt fresh
  /-- A call is carried out exactly when it is no error. -/
  accepts_iff : ∀ c, (after calls).accepts c = true ↔ ∃ r, (after calls).call c = .ok r
  /-- A refused call changes nothing. -/
  refused : ∀ c, (after calls).accepts c = false → after (calls ++ [c]) = after calls
  /-- The steps are the accepted ones. -/
  steps : (after calls).steps = (accepted calls).count .recordStep
  error_iff : (after calls).error.isSome = true ↔ (after calls).phase = .failed
  /-- The error is the text of the one failure that was accepted. -/
  failures : (accepted calls).filter Call.isFail = (after calls).error.toList.map .fail
  /-- Nothing is accepted after the end. -/
  ended : ∀ c, c = .converge ∨ c.isFail = true → (after calls).accepts c = true →
    ∀ later d, (after (calls ++ c :: later)).accepts d = false
  /-- Convergence comes after a validation. -/
  converged : (after calls).phase = .converged →
    ∃ moves, (∀ c ∈ moves, IsMove c) ∧ accepted calls = .validated :: moves ++ [.converge]

theorem attempts_eq (calls : List Call) : after calls = calls.foldl attempt fresh := by
  unfold after
  congr 1
  funext r c
  rw [outcome_eq]

theorem accepts_iff (r : Run) (c : Call) : r.accepts c = true ↔ ∃ r', r.call c = .ok r' := by
  rw [accepts, outcome_eq]
  cases r.call c with
  | error fault => exact iff_of_false Bool.false_ne_true nofun
  | ok r' => exact iff_of_true rfl ⟨r', rfl⟩

/-- An accepted call that converges or fails makes the record final. -/
theorem isFinal_of_step {r r' : Run} {c : Call} (h : Step r c r')
    (hc : c = .converge ∨ c.isFail = true) : r'.isFinal = true := by
  cases h with
  | converge => rfl
  | fail => rfl
  | _ => rcases hc with hc | hc <;> cases hc

/-- **The record is faithful to its history**, whatever calls were made and in whatever order. -/
theorem record_faithful (calls : List Call) : Faithful calls := by
  have htale := tale_after calls
  constructor
  case attempts => exact attempts_eq calls
  case accepts_iff => exact (after calls).accepts_iff
  case refused =>
    intro c hc
    rw [after_snoc]
    exact outcome_of_refused hc
  case steps => exact htale.steps_eq
  case error_iff => exact htale.error_isSome_iff
  case failures => exact htale.failures_eq
  case ended =>
    intro c hc haccepts later d
    have hfinal : (after (calls ++ [c])).isFinal = true := by
      rw [after_snoc]
      exact isFinal_of_step (step_of_accepts haccepts) hc
    rw [List.append_cons, after_append_of_final hfinal]
    exact accepts_of_final hfinal d
  case converged => exact htale.of_converged

/-- A step before the validation is not counted, and of two failures only the first is the error. -/
example : after [.recordStep, .validated, .converge, .recordStep, .start, .fail "a", .fail "b"] =
    ⟨.failed, 1, some "a"⟩ := by decide

end InitialValue.Run
