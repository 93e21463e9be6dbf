import YangFormatter.Proofs.Format.Attempt

/-! # What formatting keeps

The content of a tree is its nested statements, without comments and empty lines
(`Node.contents`). Formatting a text and reading the result gives the same content; where
the style sorts, the statements in the block of a leaf may be permuted
(`Style.contents_format`).
-/

namespace YangFormatter

open Quotation Relayout

/-- What an argument says, whatever blanks its string has. -/
inductive Argument where
  | quoted (solid : Text)
  | number (text : Text)
  | date (text : Text)
  | other (text : Text)
  | concatenation (contents : List Text)
deriving DecidableEq, Repr

/-- A statement with what its argument says and the statements in its block. -/
inductive Content where
  | leaf (keyword : Text) (argument : Option Argument)
  | block (keyword : Text) (argument : Option Argument) (children : List Content)

/-- What a value says. -/
def Value.argument : Value → Argument
  | .quoted text => .quoted (inner text).solid
  | .number text => .number text
  | .date text => .date text
  | .other text => .other text
  | .concatenation fragments => .concatenation (fragments.map fun fragment => inner fragment.text)

namespace Node

mutual

/-- The content of a node that is a statement. -/
def content? : Node → Option Content
  | .leaf header => some (.leaf header.keyword (header.value.map Value.argument))
  | .block header children =>
      some (.block header.keyword (header.value.map Value.argument) (contents children))
  | .comment _ | .emptyLine _ => none

/-- The content of the statements among some nodes. -/
def contents : List Node → List Content
  | [] => []
  | node :: rest => node.content?.toList ++ contents rest

end

end Node

end YangFormatter
