import YangFormatter.Style
import YangFormatter.Tidy.Quotation
import YangFormatter.Tree.Basic

/-! # Layout

Writes a tree as text. Each node has lines of its own, indented by its depth. A
value that does not fit beside its keyword goes to the next line, as does every
string of several lines, whose further lines start below the first character after
the quote.
-/

namespace YangFormatter.Layout

/-- Whether a comment runs to the end of its line. -/
def isLineComment : Text → Bool
  | '/' :: '/' :: _ => true
  | _ => false

/-- Texts with a space before each. -/
def spaced (texts : List Text) : Text :=
  texts.flatMap (' ' :: ·)

/-- Texts on lines of their own, each behind the same indentation. -/
def onLines (indent : Text) (texts : List Text) : Text :=
  texts.flatMap ('\n' :: indent ++ ·)

/-- Comments after what stands on the line: block comments first, then the first
line comment. Each further line comment needs a line of its own, at a depth. -/
def comments (style : Style) (depth : Int) (comments : List Text) : Text :=
  let blocks := comments.filter (!isLineComment ·)
  let lines := comments.filter isLineComment
  spaced (blocks ++ lines.take 1) ++
    match lines.drop 1 with
    | [] => []
    | overflow => onLines (style.indent depth) overflow

/-- The first line of a statement up to its value. -/
def opening (style : Style) (depth : Int) (header : Header) : Text :=
  style.indent depth ++ header.keyword ++ spaced header.keywordComments

/-- A further line of a string; an empty line is not indented. -/
def continuation (indent line : Text) : Text :=
  '\n' :: if line.isEmpty then [] else indent ++ ' ' :: line

/-- A string of several lines, from the line below its keyword on. -/
def multiline (indent text : Text) : Text :=
  match text.lines with
  | [] => []
  | first :: rest => '\n' :: indent ++ first ++ rest.flatMap (continuation indent)

/-- Whether a value fits on a line that is `column` characters long so far, with a
space before it and a terminator after it. -/
def fits (style : Style) (column : Nat) (text : Text) : Bool :=
  column + text.length + 2 ≤ style.maxWidth

/-- A value of one line, beside its keyword if it fits there. -/
def oneLine (style : Style) (depth : Int) (column : Nat) (text : Text) : Text :=
  if fits style column text then ' ' :: text else '\n' :: style.indent (depth + 1) ++ text

/-- A string that is joined to those before it, on a line of its own. The plus
sign stands so that the strings line up below the first of them. -/
def joined (style : Style) (depth : Int) (keyword : Text) (fragment : Fragment) : Text :=
  '\n' :: style.indent depth ++ List.replicate (keyword.length - 2) ' ' ++ " + ".toList
    ++ fragment.text ++ comments style (depth + 1) fragment.comments

/-- The strings of a concatenation. -/
def concatenation (style : Style) (depth : Int) (keyword : Text) : List Fragment → Text
  | [] => []
  | first :: rest =>
      ' ' :: first.text ++ comments style (depth + 1) first.comments
        ++ rest.flatMap (joined style depth keyword)

/-- A value after the first `column` characters of its statement. -/
def value (style : Style) (depth : Int) (keyword : Text) (column : Nat) : Value → Text
  | .quoted text =>
      if Quotation.isMultiline text then multiline (style.indent (depth + 1)) text
      else oneLine style depth column text
  | .number text | .date text | .other text => oneLine style depth column text
  | .concatenation fragments => concatenation style depth keyword fragments

/-- A statement up to its terminator. -/
def header (style : Style) (depth : Int) (header : Header) : Text :=
  let line := opening style depth header
  line ++
    match header.value with
    | none => []
    | some given =>
        value style depth header.keyword line.length given
          ++ comments style (depth + 1) header.valueComments

mutual

/-- A node at a depth, with its last line break. -/
def node (style : Style) (depth : Int) : Node → Text
  | .leaf head =>
      header style depth head ++ ';' :: comments style depth head.postComments ++ ['\n']
  | .block head children =>
      header style depth head ++ ' ' :: '{'
        :: comments style (depth + 1) head.postComments ++ '\n'
        :: nodes style (depth + 1) children ++ style.indent depth ++ ['}', '\n']
  | .comment text => style.indent depth ++ text ++ ['\n']
  | .emptyLine _ => ['\n']

/-- Nodes one after the other. -/
def nodes (style : Style) (depth : Int) : List Node → Text
  | [] => []
  | first :: rest => node style depth first ++ nodes style depth rest

end

/-- A whole tree. -/
def tree (style : Style) (forest : List Node) : Text :=
  nodes style 0 forest

end YangFormatter.Layout
