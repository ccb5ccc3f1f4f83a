import Stylesheet.Text.Escape

/-!
# Quoted text

A string can be written between two quote marks of one kind. Inside, the mark and the backslash are
escaped by a backslash, and a line break is written as the escape `\a`.

**Writing (`quote`)** picks the mark that needs the fewest escapes. A line break, or a carriage
return followed by one, becomes `\a`; a space ends the escape where the next character would
otherwise be read as part of it.

**Reading (`unquote`)** takes the marks off and decodes the escapes. A text that is no complete
quoted string comes back as it is, without a mark.
-/

namespace Stylesheet.Text

/-! ## Quote marks -/

/-- The single quote mark. -/
def single : Char := '\x27'

/-- The double quote mark. -/
def double : Char := '"'

/-- Whether a character is a quote mark. -/
def isMark (c : Char) : Bool := c == single || c == double

/-- The mark to write a text with. A single mark in the text forces the double one; otherwise a
double mark in it forces the single one; otherwise the fallback is taken, if it is a mark. -/
def bestMark (cs : List Char) (fallback : Char) : Char :=
  if single ∈ cs then double
  else if double ∈ cs then single
  else if isMark fallback then fallback
  else double

/-! ## Writing -/

/-- Whether a character is one of the five ASCII blanks. -/
def isAsciiBlank (c : Char) : Bool :=
  c == ' ' || c == '\t' || c == '\n' || c == '\x0c' || c == '\r'

/-- A line break inside quotes, in front of the given text. -/
def newlineEscape (rest : List Char) : List Char :=
  if rest.head?.any fun c => isHexDigit c || isAsciiBlank c then ['\\', 'a', ' '] else ['\\', 'a']

/-- The text between the marks `q`. -/
def escapeBody (q : Char) : List Char → List Char
  | [] => []
  | '\r' :: '\n' :: cs => newlineEscape cs ++ escapeBody q cs
  | '\n' :: cs => newlineEscape cs ++ escapeBody q cs
  | c :: cs =>
    if c = '\\' then '\\' :: '\\' :: escapeBody q cs
    else if c = q then '\\' :: c :: escapeBody q cs
    else c :: escapeBody q cs

/-- A text between the given marks. -/
def quoteWith (q : Char) (cs : List Char) : List Char :=
  q :: (escapeBody q cs ++ [q])

/-- Writes a text in quotes, with the preferred mark where the text leaves the choice. -/
def quote (s : String) (preferred : Option Char) : String :=
  let cs := s.toList
  String.ofList (quoteWith (bestMark cs (preferred.getD double)) cs)

/-! ## Reading -/

/-- How the inside of a quoted text is read. -/
structure Reading where
  /-- Escapes stay as they are written. -/
  keepEscapes : Bool := false
  /-- A mark that no backslash stands before makes the text no quoted string. -/
  strict : Bool := true
  deriving DecidableEq, Inhabited

/-- Reads the text between two marks `q`. The flag says that an unpaired backslash stands right
before the text. There is no result for a backslash at the end, nor, when reading strictly, for a
mark that no backslash stands before. -/
def unescapeBody? (how : Reading) (q : Char) (escaped : Bool) : List Char → Option (List Char)
  | [] => if escaped then none else some []
  | c :: cs =>
    if c = '\\' ∧ escaped = false then
      if how.keepEscapes then (unescapeBody? how q true cs).map (c :: ·)
      else
        match _read : hexEscape? cs with
        | some (decoded, rest) => (unescapeBody? how q false rest).map (decoded :: ·)
        | none => unescapeBody? how q true cs
    else if how.strict ∧ escaped = false ∧ c = q then none
    else (unescapeBody? how q false cs).map (c :: ·)
termination_by cs => cs.length
decreasing_by
  · simp
  · have := hexEscape?_length _read
    simp only [List.length_cons]
    omega
  · simp
  · simp

/-- The mark a text begins and ends with and what stands between, for two characters or more. -/
def enclosed? (cs : List Char) : Option (Char × List Char) :=
  match cs with
  | first :: second :: rest =>
    if isMark first ∧ (second :: rest).getLast? = some first then
      some (first, (second :: rest).dropLast)
    else none
  | _ => none

/-- Reads a whole quoted text: what it says and its mark. -/
def unquoteChars? (how : Reading) (cs : List Char) : Option (List Char × Char) :=
  match enclosed? cs with
  | some (q, inner) => (unescapeBody? how q false inner).map (·, q)
  | none => none

/-- Takes the quotes off a text. Without a complete pair of quotes the text stays as it is. -/
def unquote (s : String) (how : Reading) : String × Option Char :=
  match unquoteChars? how s.toList with
  | some (cs, q) => (String.ofList cs, some q)
  | none => (s, none)

end Stylesheet.Text
