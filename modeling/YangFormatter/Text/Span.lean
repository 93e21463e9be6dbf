/-! # Spans of source bytes

A span is the half-open range of UTF-8 byte offsets that a token covers.
-/

namespace YangFormatter

/-- A half-open range of byte offsets. -/
structure Span where
  /-- The offset of the first byte. -/
  start : Nat
  /-- The offset just past the last byte. -/
  stop : Nat
  /-- A span does not end before it starts. -/
  start_le_stop : start ≤ stop := by omega
deriving DecidableEq, Repr

/-- Why two integers are not the ends of a span. -/
inductive SpanError where
  /-- One of the offsets is below zero. -/
  | negative
  /-- The range ends before it starts. -/
  | reversed
deriving DecidableEq, Repr

/-- The wording of a refused range. -/
def SpanError.message : SpanError → String
  | .negative => "TextRange positions cannot be negative"
  | .reversed => "TextRange invariant violated: start > end"

namespace Span

/-- The span between two offsets. A negative offset is reported before a
reversed range. -/
def ofOffsets (start stop : Int) : Except SpanError Span :=
  if start < 0 ∨ stop < 0 then
    .error .negative
  else if ordered : start ≤ stop then
    .ok ⟨start.toNat, stop.toNat, by omega⟩
  else
    .error .reversed

/-- The empty span at an offset. -/
def point (offset : Nat) : Span :=
  ⟨offset, offset, Nat.le_refl offset⟩

/-- The number of bytes in a span. -/
def length (span : Span) : Nat :=
  span.stop - span.start

/-- The order of spans: by start, and by end for equal starts. -/
def precedes (first second : Span) : Bool :=
  first.start < second.start || (first.start == second.start && first.stop ≤ second.stop)

/-- The spans in order; equal spans keep their places. -/
def sort (spans : List Span) : List Span :=
  spans.mergeSort precedes

/-- A span as it is shown to people. -/
def display (span : Span) : String :=
  s!"TextRange({span.start}, {span.stop})"

/-- Two natural offsets in order are always the ends of a span. -/
theorem ofOffsets_natCast {start stop : Nat} (ordered : start ≤ stop) :
    ofOffsets start stop = .ok ⟨start, stop, ordered⟩ := by
  have signs : ¬ ((start : Int) < 0 ∨ (stop : Int) < 0) := by omega
  have castOrdered : (start : Int) ≤ (stop : Int) := by omega
  simp only [ofOffsets, signs, castOrdered, ↓reduceIte, ↓reduceDIte, Int.toNat_natCast]

end Span

end YangFormatter
