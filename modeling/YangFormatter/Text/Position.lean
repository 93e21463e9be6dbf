import YangFormatter.Text.Basic

/-! # Lines and columns

A position is a line and a column, both counted from one. Columns count bytes,
like the offsets they come from.
-/

namespace YangFormatter

/-- A place in a file as it is shown to people. -/
structure Position where
  /-- The line, counted from one. -/
  line : Nat
  /-- The column in bytes, counted from one. It leaves the line where the offset
  leaves the file. -/
  column : Int
deriving DecidableEq, Repr

namespace Position

/-- The byte that ends a line. -/
def lineFeed : UInt8 := 0x0A

/-- The bytes before an offset. A negative offset counts from the end, and an
offset outside the file is brought to its nearer end. -/
def bytesBefore (bytes : List UInt8) (offset : Int) : List UInt8 :=
  if 0 ≤ offset then bytes.take offset.toNat else bytes.take (bytes.length + offset).toNat

/-- The number of bytes up to and including the last line feed. -/
def lineStart (bytes : List UInt8) : Nat :=
  bytes.length - (bytes.reverse.takeWhile (· != lineFeed)).length

/-- The position of a byte offset. -/
def ofOffset (bytes : List UInt8) (offset : Int) : Position :=
  let before := bytesBefore bytes offset
  { line := before.count lineFeed + 1
    column := offset - lineStart before + 1 }

/-- A position as it is shown to people. -/
def display (position : Position) : String :=
  s!"line {position.line} col {position.column}"

end Position

end YangFormatter
