import Stylesheet.EvalError
import Stylesheet.Value.Basic

/-!
# Environments

What evaluation asks from outside: the value of a variable, the result of a function that is known
by its name, and the result of a host function. Values of variables are evaluated already; a
function is given evaluated arguments and may return a diagnostic instead of a result.
-/

namespace Stylesheet

/-- How a host function is called: with its arguments and the place of the call. -/
abbrev Host := Native → List Value → Span → Value

/-- What names stand for. -/
structure Environment where
  /-- The value of a variable, if there is one. -/
  lookup? : String → Option Value
  /-- The result of the function of a name, if there is one. -/
  call? : String → List (Argument Value) → Span → Option (Except EvalError Value)
  /-- The result of a host function. -/
  host : Host

/-- The environment in which no name stands for anything, and host functions have no result. -/
def Environment.empty : Environment where
  lookup? _ := none
  call? _ _ _ := none
  host _ _ span := .null span

end Stylesheet
