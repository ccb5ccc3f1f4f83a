import Stylesheet.Environment

/-!
# Scopes

A scope is a stack of frames of variables above a global frame that is never left, together with
the host functions that are known by name.

**The global frame stays (`depth_pos`)**: leaving a scope that has no frame above the global one
changes nothing.
-/

namespace Stylesheet

/-- The variables of one block. -/
abbrev Frame := List (String × Value)

/-- Variables in nested frames, the innermost first, and functions. -/
structure Scope where
  locals : List Frame := []
  globals : Frame := []
  functions : List (String × Native) := []

namespace Scope

/-- Binds a name in one frame. -/
def bind (name : String) (v : Value) (frame : Frame) : Frame :=
  Entries.put (· == name) name v frame

/-- The value of a name in one frame. -/
def bound? (name : String) (frame : Frame) : Option Value := Entries.find? (· == name) frame

/-- Enters a block. -/
def push (s : Scope) : Scope := { s with locals := [] :: s.locals }

/-- Leaves the innermost block, if there is one. -/
def pop (s : Scope) : Scope := { s with locals := s.locals.tail }

/-- The count of frames, the global one included. -/
def depth (s : Scope) : Nat := s.locals.length + 1

/-- Binds a variable in the global frame. -/
def defineGlobal (s : Scope) (name : String) (v : Value) : Scope :=
  { s with globals := bind name v s.globals }

/-- Binds a variable in the innermost frame. -/
def define (s : Scope) (name : String) (v : Value) : Scope :=
  match s.locals with
  | frame :: outer => { s with locals := bind name v frame :: outer }
  | [] => s.defineGlobal name v

/-- Makes a host function known under its name. -/
def defineFunction (s : Scope) (f : Native) : Scope :=
  { s with functions := Entries.put (· == f.name) f.name f s.functions }

/-- The value of a variable: that of the innermost frame that binds it. -/
def lookup? (s : Scope) (name : String) : Option Value :=
  (s.locals.findSome? (bound? name)).or (bound? name s.globals)

/-- The host function of a name. -/
def function? (s : Scope) (name : String) : Option Native :=
  Entries.find? (· == name) s.functions

/-- The result of the host function of a name, given the arguments without their names. -/
def call? (s : Scope) (host : Host) (name : String) (arguments : List (Argument Value))
    (span : Span) : Option (Except EvalError Value) :=
  (s.function? name).map fun f => .ok (host f (arguments.map Argument.value) span)

/-- The scope with every value of a variable changed. -/
def mapValues (f : Value → Value) (s : Scope) : Scope :=
  let onFrame (frame : Frame) : Frame := frame.map fun (name, v) => (name, f v)
  { s with locals := s.locals.map onFrame, globals := onFrame s.globals }

/-- The scope as what evaluation asks. -/
def environment (s : Scope) (host : Host) : Environment :=
  { lookup? := s.lookup?, call? := s.call? host, host }

theorem depth_pos (s : Scope) : 0 < s.depth := Nat.succ_pos _

end Scope

end Stylesheet
