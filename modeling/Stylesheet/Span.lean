/-!
# Source spans

A span says where a value was written: a source, and a half-open range of byte offsets in it.
Values carry spans for diagnostics only, so no comparison of values looks at them.

**Merging (`Span.merge`)** covers both ranges. Ranges of different sources cannot be covered by
one span, and then the receiver is kept as it is.
-/

namespace Stylesheet

/-- Which stylesheet an offset counts in. Source `0` is text that no file holds. -/
structure Source where
  id : UInt32
  deriving DecidableEq, Inhabited

/-- A half-open range of byte offsets in one source. -/
structure Span where
  source : Source
  start : UInt32
  stop : UInt32
  deriving DecidableEq, Inhabited

/-- Why a range of offsets is not a span: an end of it does not fit into 32 bits. -/
inductive SpanError where
  | startTooLarge (offset : Nat)
  | stopTooLarge (offset : Nat)
  deriving DecidableEq

namespace SpanError

/-- A number in upper-case hexadecimal digits. -/
def hexText (n : Nat) : String :=
  String.ofList ((Nat.toDigits 16 n).map Char.toUpper)

/-- The text of the error, with the offset in decimal and in hexadecimal. -/
def message : SpanError → String
  | .startTooLarge offset => tooLarge "start" offset
  | .stopTooLarge offset => tooLarge "end" offset
where
  tooLarge (which : String) (offset : Nat) : String :=
    "span " ++ which ++ " " ++ toString offset ++ " (0x" ++ hexText offset ++
      ") exceeds u32::MAX (0xFFFFFFFF)"

end SpanError

namespace Span

/-- The span of values that no source text stands behind. -/
def nowhere : Span := ⟨⟨0⟩, 0, 0⟩

/-- The empty span at one offset. -/
def point (source : Source) (offset : UInt32) : Span := ⟨source, offset, offset⟩

/-- The span from `start` to `stop`, unless an offset is too large. A start that is too large is
reported first. -/
def ofRange (source : Source) (start stop : Nat) : Except SpanError Span :=
  if UInt32.size ≤ start then .error (.startTooLarge start)
  else if UInt32.size ≤ stop then .error (.stopTooLarge stop)
  else .ok ⟨source, start.toUInt32, stop.toUInt32⟩

/-- The number of bytes covered, for a span whose end is not before its start. -/
def length (s : Span) : UInt32 := s.stop - s.start

/-- Whether the span starts where it ends. -/
def isEmpty (s : Span) : Bool := s.start == s.stop

/-- Whether an offset lies in the range. -/
def contains (s : Span) (offset : UInt32) : Bool :=
  decide (s.start ≤ offset) && decide (offset < s.stop)

/-- The least span covering both. Spans of different sources are not merged: the receiver wins. -/
def merge (s t : Span) : Span :=
  if s.source = t.source then ⟨s.source, min s.start t.start, max s.stop t.stop⟩ else s

/-- The offsets, as in `3..7`. -/
def text (s : Span) : String :=
  toString s.start.toNat ++ ".." ++ toString s.stop.toNat

/-- The offsets with their source, as in `#1:3..7`. -/
def sourceText (s : Span) : String :=
  "#" ++ toString s.source.id.toNat ++ ":" ++ s.text

end Span

end Stylesheet
