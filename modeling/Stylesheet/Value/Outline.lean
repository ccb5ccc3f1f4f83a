import Stylesheet.Value.Render

/-!
# Outlines

An outline shows how a value is built: it names the kind of every node, down to the leaves, which
are shown as text. It is meant for whoever looks for a fault, not for a stylesheet.
-/

namespace Stylesheet

namespace Outline

/-- A character inside double quotes, with an escape where it cannot stand as it is. -/
def escapeChar (c : Char) : String :=
  if c = '\n' then "\\n"
  else if c = '\r' then "\\r"
  else if c = '\t' then "\\t"
  else if c = '"' then "\\\""
  else if c = '\\' then "\\\\"
  else if c.toNat = 0 then "\\0"
  else if c.toNat < 0x20 ∨ c.toNat = 0x7f then
    "\\u\x7b" ++ String.ofList (Nat.toDigits 16 c.toNat) ++ "\x7d"
  else String.singleton c

/-- A text in double quotes with escapes. -/
def textLiteral (s : String) : String :=
  "\"" ++ String.join (s.toList.map escapeChar) ++ "\""

/-- A text that may be missing. -/
def optionLiteral : Option String → String
  | none => "None"
  | some s => "Some(" ++ textLiteral s ++ ")"

/-- A truth value. -/
def boolLiteral (b : Bool) : String := if b then "true" else "false"

/-- Texts in brackets. -/
def sequence (texts : List String) : String := "[" ++ ", ".intercalate texts ++ "]"

end Outline

namespace Value

open Outline

mutual

/-- How a value is built. -/
def outline : Value → String
  | .number n => "Number(" ++ n.text ++ ")"
  | .color c => "Color(" ++ c.css {} ++ ")"
  | .string s => "String(" ++ s.inspect ++ ")"
  | .template t => "Schema(" ++ sequence (outlineFragments t.fragments) ++ ")"
  | .list l => "List(" ++ l.separator.name ++ ", " ++ sequence (outlineItems l.items) ++ ")"
  | .map m => "\x7b" ++ ", ".intercalate (outlineEntries m.entries) ++ "\x7d"
  | .bool value _ => "Bool(" ++ boolLiteral value ++ ")"
  | .null _ => "Null"
  | .parent _ => "Parent"
  | .function f => "Function(" ++ f.name ++ ")"
  | .call c => "Call(" ++ c.name ++ ", " ++ sequence (outlineArguments c.arguments) ++ ")"
  | .variable v => "Variable($" ++ v.name ++ ")"
  | .operation e =>
    "Binary(" ++ outline e.left ++ " " ++ e.operand.op.symbol ++ " " ++ outline e.right ++ ")"
  | .diagnostic d =>
    (match d.severity with
      | .error => "CustomError("
      | .warning => "CustomWarning(") ++ textLiteral d.message ++ ")"
  termination_by structural v => v

/-- The outlines of the items of a list. -/
def outlineItems : List Value → List String
  | [] => []
  | v :: vs => outline v :: outlineItems vs
  termination_by structural vs => vs

/-- The outlines of the pieces of a template. -/
def outlineFragments : List (Fragment Value) → List String
  | [] => []
  | .text s :: fs => ("Text(" ++ textLiteral s ++ ")") :: outlineFragments fs
  | .hole v :: fs => ("Interpolation(" ++ outline v ++ ")") :: outlineFragments fs
  termination_by structural fs => fs

/-- The outlines of pairs. -/
def outlineEntries : List (Value × Value) → List String
  | [] => []
  | (key, v) :: es => (outline key ++ ": " ++ outline v) :: outlineEntries es
  termination_by structural es => es

/-- The outlines of arguments. -/
def outlineArguments : List (Argument Value) → List String
  | [] => []
  | a :: as =>
    ("Argument \x7b name: " ++ optionLiteral a.name? ++ ", value: " ++ outline a.value ++
      ", is_rest: " ++ boolLiteral a.rest ++ ", is_keyword_rest: " ++ boolLiteral a.keywordRest ++
      " \x7d") :: outlineArguments as
  termination_by structural as => as

end

end Value

end Stylesheet
