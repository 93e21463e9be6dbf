import YangFormatter.Machine
import YangFormatter.Tree.Basic
import YangFormatter.Tree.Keyword

/-! # Outlines

A listing of a tree for people: nested parentheses that show the kind of every
node and value, and how many comments stand where.
-/

namespace YangFormatter.Outline

/-- The word for a kind of keyword. -/
def keywordWord : KeywordKind → String
  | .recognized => "Keyword"
  | .extension => "ExtensionKeyword"
  | .invalid => "INVALID"

/-- A character of a keyword between double quotes. -/
def escape (character : Char) : Text :=
  if character == '\\' || character == '"' then ['\\', character] else [character]

/-- A keyword with the word for its kind. -/
def keyword (text : Text) : Text :=
  (keywordWord (.ofText text)).toList ++ " \"".toList ++ text.flatMap escape ++ ['"']

/-- The word for a kind of value. -/
def valueWord : Value → String
  | .quoted _ => "String"
  | .number _ => "Number"
  | .date _ => "Date"
  | .other _ => "Other"
  | .concatenation _ => "StringConcatenation"

/-- The same mark for each of some comments. -/
def marks (mark : String) (comments : List Text) : Text :=
  comments.flatMap fun _ => mark.toList

/-- A statement up to its block. -/
def header (header : Header) : Text :=
  '(' :: keyword header.keyword ++ marks " <comment>" header.keywordComments
    ++ header.value.elim [] (fun value => ' ' :: (valueWord value).toList)
    ++ marks " <comment>" header.valueComments ++ marks " <post-comment>" header.postComments

/-- The start of the line of a node. -/
def line (depth : Nat) : Text :=
  '\n' :: List.replicate (2 * depth) ' '

mutual

/-- A node at a depth. -/
def node (depth : Nat) : Node → Text
  | .leaf head => line depth ++ header head ++ [')']
  | .block head children => line depth ++ header head ++ nodes (depth + 1) children ++ [')']
  | .comment _ => line depth ++ "(comment)".toList
  | .emptyLine _ => line depth ++ "[EmptyLine]".toList

/-- Nodes side by side. -/
def nodes (depth : Nat) : List Node → Text
  | [] => []
  | first :: rest => node depth first ++ nodes depth rest

end

/-- The outline of a tree. -/
def render (tree : List Node) : Text :=
  "(root".toList ++ nodes 1 tree ++ ")\n".toList

/-- The outline of a tree, unless a machine has not enough calls for it: one for each of the
statements that stand in one another. -/
def render? (machine : Machine) (tree : List Node) : Option Text :=
  if machine.carries (Node.tiers tree) then some (render tree) else none

end YangFormatter.Outline
