import YangFormatter.Token.Basic

/-! # Syntax trees

A tree keeps every comment and every empty line of its source, but no other white
space. What a statement consists of up to its terminator, and the comments after
the terminator on the same line, are its header.
-/

namespace YangFormatter

/-- One string of a concatenation and the comments after it. -/
structure Fragment where
  /-- The string with its quotes. -/
  text : Text
  /-- The comments between this string and what follows it. -/
  comments : List Text := []
deriving DecidableEq, Repr

/-- The argument of a statement. -/
inductive Value where
  /-- A string with its quotes. -/
  | quoted (text : Text)
  /-- A number. -/
  | number (text : Text)
  /-- A date. -/
  | date (text : Text)
  /-- Any other token. -/
  | other (text : Text)
  /-- Strings joined by plus signs. Reading makes it of two or more. -/
  | concatenation (fragments : List Fragment)
deriving DecidableEq, Repr

namespace Value

/-- The value that a single token stands for. -/
def ofLexeme (lexeme : Lexeme) : Value :=
  match lexeme.kind with
  | .string => .quoted lexeme.text
  | .number => .number lexeme.text
  | .date => .date lexeme.text
  | _ => .other lexeme.text

end Value

/-- A statement without its block. -/
structure Header where
  /-- The keyword. -/
  keyword : Text
  /-- The comments between the keyword and the value or the terminator. -/
  keywordComments : List Text := []
  /-- The argument, if the statement has one. -/
  value : Option Value := none
  /-- The comments between the value and the terminator. -/
  valueComments : List Text := []
  /-- The comments after the terminator, on the same line. -/
  postComments : List Text := []
deriving DecidableEq, Repr

/-- One thing in a file or a block. -/
inductive Node where
  /-- A statement that a semicolon ends. -/
  | leaf (header : Header)
  /-- A statement with a block. -/
  | block (header : Header) (children : List Node)
  /-- A comment that belongs to no statement. -/
  | comment (text : Text)
  /-- An empty line, kept as the line break it was. -/
  | emptyLine (text : Text)
deriving Repr

namespace Node

/-- The header of a statement. -/
def header? : Node → Option Header
  | .leaf header | .block header _ => some header
  | .comment _ | .emptyLine _ => none

/-- Whether a node is a statement. -/
def isStatement : Node → Bool
  | .leaf _ | .block _ _ => true
  | .comment _ | .emptyLine _ => false

/-- Whether a node is an empty line. -/
def isEmptyLine : Node → Bool
  | .emptyLine _ => true
  | _ => false

mutual

/-- The height of a node. A block is one higher than what stands in it, and what a statement
without a block adds depends on its header. -/
def height (own : Header → Nat) : Node → Nat
  | .leaf header => own header
  | .block _ children => heightAll own children + 1
  | .comment _ | .emptyLine _ => 0

/-- The height of the highest of some nodes. -/
def heightAll (own : Header → Nat) : List Node → Nat
  | [] => 0
  | first :: rest => max (first.height own) (heightAll own rest)

end

/-- How many blocks stand in one another. -/
def nesting (nodes : List Node) : Nat :=
  heightAll (fun _ => 0) nodes

/-- How many statements stand in one another: one more than there are blocks, if a statement
stands in the innermost block. -/
def tiers (nodes : List Node) : Nat :=
  heightAll (fun _ => 1) nodes

end Node

end YangFormatter
