import InitialValue.Binary
import InitialValue.Decimal.Layout
import InitialValue.Decimal.Numeral
import InitialValue.Decimal.Rounding
import InitialValue.Decimal.Shortest
import InitialValue.Fault
import InitialValue.Formula.Calculation
import InitialValue.Formula.Equation
import InitialValue.Formula.Expr
import InitialValue.Formula.Meaning
import InitialValue.Formula.Names
import InitialValue.Formula.Normal
import InitialValue.Formula.Reading
import InitialValue.Formula.Safety
import InitialValue.Formula.Substitution
import InitialValue.Formula.Token
import InitialValue.Method.Catalog
import InitialValue.Method.Key
import InitialValue.Method.Step
import InitialValue.Number.Complex
import InitialValue.Number.Number
import InitialValue.Number.Quantity
import InitialValue.Number.Scalar
import InitialValue.Problem
import InitialValue.Proofs.Binary.Arithmetic
import InitialValue.Proofs.Binary.Fields
import InitialValue.Proofs.Binary.HalfMore
import InitialValue.Proofs.Binary.Nearest
import InitialValue.Proofs.Binary.Order
import InitialValue.Proofs.Binary.Quotient
import InitialValue.Proofs.Binary.Rounding
import InitialValue.Proofs.Binary.Whole
import InitialValue.Proofs.Decimal.Numeral
import InitialValue.Proofs.Failing
import InitialValue.Proofs.Formula.Acceptance
import InitialValue.Proofs.Formula.Apart
import InitialValue.Proofs.Formula.Calculation
import InitialValue.Proofs.Formula.Characters
import InitialValue.Proofs.Formula.Components
import InitialValue.Proofs.Formula.Constants
import InitialValue.Proofs.Formula.Cutting
import InitialValue.Proofs.Formula.Dependence
import InitialValue.Proofs.Formula.DottedNumbers
import InitialValue.Proofs.Formula.Evaluation
import InitialValue.Proofs.Formula.Explicit
import InitialValue.Proofs.Formula.Failures
import InitialValue.Proofs.Formula.Fragments
import InitialValue.Proofs.Formula.HalfAway
import InitialValue.Proofs.Formula.Halting
import InitialValue.Proofs.Formula.Identifiers
import InitialValue.Proofs.Formula.Ink
import InitialValue.Proofs.Formula.Juxtaposed
import InitialValue.Proofs.Formula.Layout
import InitialValue.Proofs.Formula.Lexeme
import InitialValue.Proofs.Formula.Literals
import InitialValue.Proofs.Formula.Lookahead
import InitialValue.Proofs.Formula.Meaning
import InitialValue.Proofs.Formula.Names
import InitialValue.Proofs.Formula.NormalText
import InitialValue.Proofs.Formula.NumberPattern
import InitialValue.Proofs.Formula.NumberPowers
import InitialValue.Proofs.Formula.Numeral
import InitialValue.Proofs.Formula.Operands
import InitialValue.Proofs.Formula.Operators
import InitialValue.Proofs.Formula.Phrase
import InitialValue.Proofs.Formula.PhraseText
import InitialValue.Proofs.Formula.Piecewise
import InitialValue.Proofs.Formula.PowerRule
import InitialValue.Proofs.Formula.Powers
import InitialValue.Proofs.Formula.Reader
import InitialValue.Proofs.Formula.Renaming
import InitialValue.Proofs.Formula.Rereading
import InitialValue.Proofs.Formula.Respacing
import InitialValue.Proofs.Formula.Room
import InitialValue.Proofs.Formula.Scan
import InitialValue.Proofs.Formula.Seams
import InitialValue.Proofs.Formula.Seclusion
import InitialValue.Proofs.Formula.Settling
import InitialValue.Proofs.Formula.SingleSystem
import InitialValue.Proofs.Formula.Spacing
import InitialValue.Proofs.Formula.Spelling
import InitialValue.Proofs.Formula.Stability
import InitialValue.Proofs.Formula.Stars
import InitialValue.Proofs.Formula.StateName.Cells
import InitialValue.Proofs.Formula.StateName.Compiling
import InitialValue.Proofs.Formula.StateName.Lengths
import InitialValue.Proofs.Formula.StateName.Marking
import InitialValue.Proofs.Formula.StateName.Normal
import InitialValue.Proofs.Formula.StateName.Products
import InitialValue.Proofs.Formula.StateName.Rules
import InitialValue.Proofs.Formula.StateName.Scanning
import InitialValue.Proofs.Formula.Strangers
import InitialValue.Proofs.Formula.Substitution
import InitialValue.Proofs.Formula.Surroundings
import InitialValue.Proofs.Formula.Survival
import InitialValue.Proofs.Formula.Systems
import InitialValue.Proofs.Formula.Tokens
import InitialValue.Proofs.Formula.Variables
import InitialValue.Proofs.Formula.Weaving
import InitialValue.Proofs.Formula.Whitelist
import InitialValue.Proofs.Method.Autonomous
import InitialValue.Proofs.Method.Componentwise
import InitialValue.Proofs.Method.Mirror
import InitialValue.Proofs.Method.Order
import InitialValue.Proofs.Method.Quadrature
import InitialValue.Proofs.Method.Stages
import InitialValue.Proofs.Number.Exact
import InitialValue.Proofs.Number.Extended
import InitialValue.Proofs.Number.Faithful
import InitialValue.Proofs.Number.Order
import InitialValue.Proofs.Number.Rational
import InitialValue.Proofs.RightSide
import InitialValue.Proofs.Shape
import InitialValue.Proofs.Solver.Acceptance
import InitialValue.Proofs.Solver.Answers
import InitialValue.Proofs.Solver.Autonomous
import InitialValue.Proofs.Solver.Checks
import InitialValue.Proofs.Solver.Clock
import InitialValue.Proofs.Solver.Decoupled
import InitialValue.Proofs.Solver.Determined
import InitialValue.Proofs.Solver.Dimensions
import InitialValue.Proofs.Solver.ExactGrid
import InitialValue.Proofs.Solver.ExactOptions
import InitialValue.Proofs.Solver.History
import InitialValue.Proofs.Solver.Horizon
import InitialValue.Proofs.Solver.IterationCap
import InitialValue.Proofs.Solver.Landing
import InitialValue.Proofs.Solver.Lifecycle
import InitialValue.Proofs.Solver.Limits
import InitialValue.Proofs.Solver.Lockstep
import InitialValue.Proofs.Solver.Mirror
import InitialValue.Proofs.Solver.Ranges
import InitialValue.Proofs.Solver.Readings
import InitialValue.Proofs.Solver.Records
import InitialValue.Proofs.Solver.RoundedGrid
import InitialValue.Proofs.Solver.Soundness
import InitialValue.Proofs.Solver.StepCount
import InitialValue.Proofs.Solver.Strictness
import InitialValue.Proofs.Solver.Suggestion
import InitialValue.Proofs.Solver.SystemOptions
import InitialValue.Proofs.Solver.Trail
import InitialValue.Proofs.Solver.Verdicts
import InitialValue.Proofs.Solver.Warnings
import InitialValue.Proofs.Solver.Wording
import InitialValue.Proofs.StepSize.Advice
import InitialValue.Proofs.StepSize.Estimate
import InitialValue.Proofs.StepSize.Judgement
import InitialValue.Proofs.StepSize.Settlement
import InitialValue.Proofs.StepSize.Usable
import InitialValue.Proofs.Symbolic.Functions
import InitialValue.Proofs.Symbolic.Names
import InitialValue.Proofs.Symbolic.Powers
import InitialValue.Proofs.Symbolic.SumsAndProducts
import InitialValue.Proofs.Text.Classes
import InitialValue.Proofs.Text.Runs
import InitialValue.RightSide
import InitialValue.Solver.Config
import InitialValue.Solver.FromText
import InitialValue.Solver.Run
import InitialValue.Solver.Settings
import InitialValue.Solver.Solution
import InitialValue.Solver.Solve
import InitialValue.Solver.Trajectory
import InitialValue.StepSize.Advice
import InitialValue.StepSize.Estimate
import InitialValue.Symbolic.Algebra
import InitialValue.Symbolic.Approx
import InitialValue.Symbolic.Coefficient
import InitialValue.Symbolic.Function.Angle
import InitialValue.Symbolic.Function.Circular
import InitialValue.Symbolic.Function.Exponential
import InitialValue.Symbolic.Function.Extremum
import InitialValue.Symbolic.Function.Magnitude
import InitialValue.Symbolic.Function.Numeric
import InitialValue.Symbolic.Function.Remainder
import InitialValue.Symbolic.Key
import InitialValue.Symbolic.Power
import InitialValue.Symbolic.Product
import InitialValue.Symbolic.Root
import InitialValue.Symbolic.Rounded
import InitialValue.Symbolic.Standard
import InitialValue.Symbolic.Sum
import InitialValue.Symbolic.Term
import InitialValue.Text.Blank
import InitialValue.Text.Identifier
import InitialValue.Text.Word
import InitialValue.Value
