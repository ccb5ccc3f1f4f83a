import Stylesheet.Digest
import Stylesheet.Span
import Stylesheet.Text.Blank
import Stylesheet.Text.Quoted

/-!
# Strings

A string holds its decoded text. The quote mark it was written with, if any, decides only how it is
printed: `"a"` and `a` are the same string.
-/

namespace Stylesheet

/-- A string, quoted or not. -/
structure StringValue where
  text : String
  quote? : Option Char := none
  /-- Whether compressed output may collapse runs of white space. -/
  compressible : Bool := false
  span : Span
  memo : Memo := none

/-- How the token of a string is taken. -/
structure TokenOptions where
  /-- The mark to print with instead of the one in the token, where there is one in it. -/
  mark? : Option Char := none
  keepEscapes : Bool := false
  /-- The token is the text, marks and all. -/
  verbatim : Bool := false
  strict : Bool := true

namespace StringValue

/-- A string without quotes. -/
def plain (span : Span) (text : String) : StringValue := { text, span }

/-- The string of a token that may carry quotes and escapes. -/
def ofToken (span : Span) (token : String) (options : TokenOptions) : StringValue :=
  if options.verbatim then plain span token
  else
    match Text.unquote token { keepEscapes := options.keepEscapes, strict := options.strict } with
    | (text, none) => { text, span }
    | (text, some mark) => { text, quote? := some (options.mark?.getD mark), span }

/-- The string with another mark, or without one. The digest stays. -/
def setQuote (s : StringValue) (mark? : Option Char) : StringValue := { s with quote? := mark? }

/-- The string with its leave to be collapsed. -/
def setCompressible (s : StringValue) (on : Bool) : StringValue := { s with compressible := on }

/-- The string without the blanks at its end. The digest is dropped if the text changes. -/
def trimEnd (s : StringValue) : StringValue :=
  if Text.endsBlank s.text then { s with text := Text.trimEnd s.text, memo := none } else s

/-- The empty string without quotes is left out of a list that holds it. -/
def isInvisible (s : StringValue) : Bool := s.text.isEmpty && s.quote?.isNone

/-- The string in quotes, whatever it was written with. -/
def inspect (s : StringValue) : String := Text.quote s.text none

/-- The string as CSS: in quotes if it was written with quotes. -/
def css (s : StringValue) : String :=
  match s.quote? with
  | some mark => Text.quote s.text (some mark)
  | none => s.text

/-- Strings are equal when their texts are. -/
def beq (a b : StringValue) : Bool := a.text == b.text

/-- What the digest of a string depends on. -/
def words (s : StringValue) : List Word := [.text s.text]

/-- The digest of a string. -/
def digest [Hasher] (s : StringValue) : UInt64 := s.memo.read s.words

/-- The string carrying its digest. -/
def digested [Hasher] (s : StringValue) : StringValue := { s with memo := some s.digest }

end StringValue

end Stylesheet
