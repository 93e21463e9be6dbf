import YangFormatter.Problem
import YangFormatter.Text.Utf8

/-! # Sources

What is given to the formatter: text, or bytes that ought to be UTF-8.
-/

namespace YangFormatter

/-- An input to be formatted. -/
inductive Source where
  /-- Text. -/
  | text (content : Text)
  /-- Bytes. -/
  | bytes (content : List UInt8)
deriving DecidableEq, Repr

namespace Source

/-- The bytes of a source. -/
def toBytes : Source → List UInt8
  | .text content => Utf8.encode content
  | .bytes content => content

/-- The problem of bytes that are not UTF-8: the first byte that does not fit, as
the character of that code. -/
def illFormed (fault : Utf8.Fault) : Problem :=
  ⟨.unexpectedCharacter [Char.ofNat fault.byte.toNat], fault.offset⟩

/-- The text of a source. -/
def decode : Source → Except Problem Text
  | .text content => .ok content
  | .bytes content => (Utf8.decode content).mapError illFormed

/-- The text of a source, with replacement characters for what is not UTF-8. -/
def decodeLossy : Source → Text
  | .text content => content
  | .bytes content => Utf8.decodeLossy content

end Source

end YangFormatter
