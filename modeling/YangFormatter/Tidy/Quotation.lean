import YangFormatter.Text.Margin

/-! # Tidying quoted strings

A quoted string is kept with its quotes. Strings get double quotes where that
needs no escape, lose the blanks at both ends, and lose the margin that their
lines after the first share.
-/

namespace YangFormatter.Quotation

/-- What stands between the quotes. -/
def inner (text : Text) : Text :=
  (text.drop 1).dropLast

/-- The opening quote, as a text. -/
def quote (text : Text) : Text :=
  text.take 1

/-- The string with the same quotes around another text. -/
def withInner (text content : Text) : Text :=
  quote text ++ content ++ quote text

/-- Whether a string goes over more than one line. -/
def isMultiline (text : Text) : Bool :=
  text.contains '\n'

/-- Writes a string with double quotes, unless it contains one. -/
def doubleQuoted (text : Text) : Text :=
  if text.head? = some '\'' ∧ '"' ∉ inner text then
    '"' :: inner text ++ ['"']
  else
    text

/-- A text without the blanks at both ends; those at the end are kept where a
backslash would come to stand last. -/
def strippedInner (content : Text) : Text :=
  if content.trim.getLast? = some '\\' then content.trimStart else content.trim

/-- The string without blanks at both ends. -/
def stripped (text : Text) : Text :=
  withInner text (strippedInner (inner text))

/-- A line without the carriage return at its end. -/
def dropReturn (line : Text) : Text :=
  if line.getLast? = some '\r' then line.dropLast else line

/-- The lines with the margin of all but the first removed. -/
def dedentLines : List Text → List Text
  | [] => []
  | first :: rest => first :: Margin.remove rest

/-- The string with its lines after the first moved left as far as they go
together. A string of one line is left as it is. -/
def dedented (text : Text) : Text :=
  let lines := (inner text).lines.map dropReturn
  if lines.length < 2 then text else withInner text (.ofLines (dedentLines lines))

end YangFormatter.Quotation
