import Stylesheet.Operator
import Stylesheet.Span

/-!
# Errors of evaluation

An error has a cause, which fixes its message, and may have a place and notes. The place is
attached where it is known best: an error that comes out of an operand keeps the place it already
has (`EvalError.orAt`).
-/

namespace Stylesheet

/-- Why an evaluation has no value. -/
inductive Cause where
  /-- Numbers of different dimensions meet; both units as text. -/
  | incompatibleUnits (left right : String)
  /-- The operator has no meaning for this pair of operands. -/
  | undefinedOperation (left : String) (op : Operator) (right : String)
  /-- The operator applies to no value of this type. -/
  | invalidOperand (typeName : String) (op : Operator)
  | undefinedVariable (name : String)
  | undefinedFunction (name : String)
  /-- A map has a key twice. -/
  | duplicateKey (key : String)
  /-- The message of a stylesheet or of a host function. -/
  | custom (message : String)
  deriving DecidableEq

/-- The message of a cause. -/
def Cause.message : Cause → String
  | .incompatibleUnits left right =>
    "incompatible units: '" ++ left ++ "' and '" ++ right ++ "'"
  | .undefinedOperation left op right =>
    "undefined operation: \"" ++ left ++ " " ++ op.symbol ++ " " ++ right ++ "\""
  | .invalidOperand typeName op =>
    "operator `" ++ op.symbol ++ "` cannot be applied to " ++ typeName
  | .undefinedVariable name => "undefined variable: $" ++ name
  | .undefinedFunction name => "undefined function: " ++ name
  | .duplicateKey key => "duplicate key " ++ key ++ " in map"
  | .custom message => message

/-- A remark on an error, which may have a place of its own. -/
structure Note where
  message : String
  span? : Option Span := none
  deriving DecidableEq

/-- An error with its place and its notes. -/
structure EvalError where
  cause : Cause
  span? : Option Span := none
  notes : List Note := []
  deriving DecidableEq

namespace EvalError

/-- The message of the cause. -/
def message (e : EvalError) : String := e.cause.message

/-- An error with a message of its own. -/
def custom (message : String) : EvalError := { cause := .custom message }

/-- The error, placed at `span`. -/
def placed (e : EvalError) (span : Span) : EvalError := { e with span? := some span }

/-- The error, placed at `span` unless it has a place. -/
def orAt (e : EvalError) (span : Span) : EvalError := { e with span? := some (e.span?.getD span) }

/-- The error with one more note. -/
def withNote (e : EvalError) (note : Note) : EvalError := { e with notes := e.notes ++ [note] }

/-- The message with its place. -/
def text (e : EvalError) : String :=
  match e.span? with
  | some span => e.message ++ " at " ++ span.text
  | none => e.message

theorem orAt_span? (e : EvalError) (span : Span) : (e.orAt span).span?.isSome = true := rfl

theorem orAt_of_span? {e : EvalError} {place : Span} (h : e.span? = some place) (span : Span) :
    e.orAt span = e := by
  cases e
  simp only at h
  simp [orAt, h]

end EvalError

end Stylesheet
