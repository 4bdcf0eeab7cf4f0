/-
  The configuration of a solver: limits that a problem must respect, and how step-size advice is
  taken.

  A configuration is read from fields that nobody has checked.  Fields that are not given keep
  their defaults; a field that does not exist, or a limit that is not a positive number, is
  refused.  The two policies are taken as they come: what counts is whether they hold.
-/
import InitialValue.Value

namespace InitialValue

/-- Limits and policies of a solver. -/
structure Config (α : Type) where
  /-- the longest domain that is accepted -/
  maxDomainLength : Number α
  /-- the largest initial magnitude that is accepted -/
  maxInitialMagnitude : Number α
  /-- a state of a larger magnitude counts as divergent -/
  divergenceThreshold : Number α
  /-- does unfavourable step-size advice refuse the step? -/
  strictStepSize : Value α
  /-- is step-size advice on an accepted step passed on as a warning? -/
  warnOnStepSize : Value α

namespace Config

variable {α : Type} [Scalar α]

/-- What holds when nothing is configured. -/
def standard : Config α where
  maxDomainLength := .real 1000.0
  maxInitialMagnitude := .real 1e6
  divergenceThreshold := .real 1e10
  strictStepSize := .truth true
  warnOnStepSize := .truth true

/-- The names of the fields, in order. -/
def fieldNames : List String :=
  ["divergence_threshold", "max_domain_length", "max_initial_magnitude", "strict_step_size",
   "warn_on_step_size"]

/-! ## Reading -/

/-- Why a configuration is refused. -/
inductive Rejection (α : Type) where
  | unknownFields (names : List String)
  | notPositive (field : String) (given : Value α)

/-- Texts in quotation marks, in square brackets. -/
def listed (names : List String) : String :=
  "[" ++ String.intercalate ", " (names.map Value.quote) ++ "]"

/-- The wording of a refusal. -/
def Rejection.message : Rejection α → String
  | .unknownFields names =>
    "Unknown solver option(s) " ++ listed names ++ ". Valid options: " ++ listed fieldNames
  | .notPositive field given => field ++ " must be a positive number, got " ++ given.quoted

/-- A limit among the fields, or its default. -/
def limit (fields : Value α) (name : String) (default : Number α) :
    Except (Rejection α) (Number α) :=
  match fields.field? name with
  | none => .ok default
  | some v =>
    match v.number? with
    | some n => if (Number.whole 0).lt n then .ok n else .error (.notPositive name v)
    | none => .error (.notPositive name v)

/-- Each text once, in order. -/
def inOrder (names : List String) : List String :=
  (names.mergeSort (fun a b => decide (a ≤ b))).eraseDups

/-- Reads a configuration from fields. -/
def ofFields (fields : List (String × Value α)) : Except (Rejection α) (Config α) := do
  let unknown := (fields.map (·.1)).filter fun n => !fieldNames.contains n
  if !unknown.isEmpty then throw (.unknownFields (inOrder unknown))
  let record : Value α := .record fields
  let usual : Config α := standard
  return {
    maxDomainLength := ← limit record "max_domain_length" usual.maxDomainLength
    maxInitialMagnitude := ← limit record "max_initial_magnitude" usual.maxInitialMagnitude
    divergenceThreshold := ← limit record "divergence_threshold" usual.divergenceThreshold
    strictStepSize := (record.field? "strict_step_size").getD usual.strictStepSize
    warnOnStepSize := (record.field? "warn_on_step_size").getD usual.warnOnStepSize }

/-- A number as a value. -/
def ofNumber : Number α → Value α
  | .whole n => .whole n
  | .real x => .real x

/-- The configuration as fields. -/
def fields (c : Config α) : List (String × Value α) := [
  ("max_domain_length", ofNumber c.maxDomainLength),
  ("max_initial_magnitude", ofNumber c.maxInitialMagnitude),
  ("divergence_threshold", ofNumber c.divergenceThreshold),
  ("strict_step_size", c.strictStepSize),
  ("warn_on_step_size", c.warnOnStepSize)]

end Config

end InitialValue
