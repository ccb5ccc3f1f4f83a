/-!
# Binary operators

The thirteen operators of the expression language, in three families: logical, comparison and
arithmetic. An operator that is written back as text keeps the blanks that stood around it,
because `a - b` and `a-b` are different text.
-/

namespace Stylesheet

/-- A binary operator. -/
inductive Operator where
  | and
  | or
  | eq
  | ne
  | gt
  | ge
  | lt
  | le
  | add
  | sub
  | mul
  | div
  | mod
  deriving DecidableEq, Inhabited

namespace Operator

/-- Every operator once. -/
def all : List Operator :=
  [.and, .or, .eq, .ne, .gt, .ge, .lt, .le, .add, .sub, .mul, .div, .mod]

/-- How the operator is written in a stylesheet. -/
def symbol : Operator → String
  | .and => "and"
  | .or => "or"
  | .eq => "=="
  | .ne => "!="
  | .gt => ">"
  | .ge => ">="
  | .lt => "<"
  | .le => "<="
  | .add => "+"
  | .sub => "-"
  | .mul => "*"
  | .div => "/"
  | .mod => "%"

/-- What an inspection calls the operator. -/
def name : Operator → String
  | .and => "and"
  | .or => "or"
  | .eq => "eq"
  | .ne => "neq"
  | .gt => "gt"
  | .ge => "gte"
  | .lt => "lt"
  | .le => "lte"
  | .add => "plus"
  | .sub => "minus"
  | .mul => "times"
  | .div => "div"
  | .mod => "mod"

/-- The operator of a name. -/
def ofName? (text : String) : Option Operator :=
  all.find? fun op => op.name == text

/-- Whether the operator compares its operands and gives a truth value. -/
def isComparison : Operator → Bool
  | .eq | .ne | .gt | .ge | .lt | .le => true
  | _ => false

/-- Whether the operator is `and` or `or`, which give one of their operands. -/
def isLogical : Operator → Bool
  | .and | .or => true
  | _ => false

/-- A place in the list of operators, distinct for distinct operators. -/
def rank : Operator → Nat
  | .and => 0
  | .or => 1
  | .eq => 2
  | .ne => 3
  | .gt => 4
  | .ge => 5
  | .lt => 6
  | .le => 7
  | .add => 8
  | .sub => 9
  | .mul => 10
  | .div => 11
  | .mod => 12

end Operator

/-- The operators that compute with numbers. -/
inductive Arithmetic where
  | add
  | sub
  | mul
  | div
  | mod
  deriving DecidableEq, Inhabited

namespace Arithmetic

/-- The operator as one of all operators. -/
def operator : Arithmetic → Operator
  | .add => .add
  | .sub => .sub
  | .mul => .mul
  | .div => .div
  | .mod => .mod

/-- Whether the operator has no result on colours for a zero on its right. -/
def divides : Arithmetic → Bool
  | .div | .mod => true
  | _ => false

end Arithmetic

/-- An operator with the blanks it was written with. -/
structure Operand where
  op : Operator
  spaceBefore : Bool := true
  spaceAfter : Bool := true
  deriving DecidableEq, Inhabited

namespace Operand

/-- The symbol with its blanks, as it stands between two operands. -/
def separator (o : Operand) : String :=
  (if o.spaceBefore then " " else "") ++ o.op.symbol ++ (if o.spaceAfter then " " else "")

end Operand

end Stylesheet
