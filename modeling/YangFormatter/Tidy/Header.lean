import YangFormatter.Tidy.Quotation
import YangFormatter.Tree.Basic

/-! # Tidying a statement

What formatting does to a single statement: its strings are tidied, and the
comments inside it move behind its terminator.
-/

namespace YangFormatter

namespace Fragment

/-- Writes one string of a concatenation with double quotes where possible. -/
def doubleQuoted (fragment : Fragment) : Fragment :=
  { fragment with text := Quotation.doubleQuoted fragment.text }

/-- Strings without the comments after the last of them. -/
def dropLastComments : List Fragment → List Fragment
  | [] => []
  | [last] => [{ last with comments := [] }]
  | first :: second :: rest => first :: dropLastComments (second :: rest)

end Fragment

namespace Value

/-- Applies a function to the text of a value that is one string. -/
def mapQuoted (change : Text → Text) : Value → Value
  | .quoted text => .quoted (change text)
  | value => value

/-- Writes every string of a value with double quotes where possible. -/
def doubleQuoted : Value → Value
  | .quoted text => .quoted (Quotation.doubleQuoted text)
  | .concatenation fragments => .concatenation (fragments.map Fragment.doubleQuoted)
  | value => value

/-- The comments that stand directly before the terminator inside a value. -/
def lastComments : Value → List Text
  | .concatenation fragments => fragments.getLast?.elim [] Fragment.comments
  | _ => []

/-- The value without the comments directly before the terminator. -/
def dropLastComments : Value → Value
  | .concatenation fragments => .concatenation (Fragment.dropLastComments fragments)
  | value => value

end Value

namespace Header

/-- Applies a function to the value of a statement. -/
def mapValue (change : Value → Value) (header : Header) : Header :=
  { header with value := header.value.map change }

/-- Writes strings with double quotes where possible. -/
def doubleQuoted (header : Header) : Header :=
  header.mapValue Value.doubleQuoted

/-- Removes the blanks at both ends of a string. -/
def stripped (header : Header) : Header :=
  header.mapValue (Value.mapQuoted Quotation.stripped)

/-- Removes the margin of a string of several lines. -/
def dedented (header : Header) : Header :=
  header.mapValue (Value.mapQuoted Quotation.dedented)

/-- Moves the comments inside a statement behind its terminator, in front of
those that stand there. -/
def relocated (header : Header) : Header :=
  { header with
    keywordComments := []
    value := header.value.map Value.dropLastComments
    valueComments := []
    postComments :=
      header.keywordComments ++ header.valueComments
        ++ header.value.elim [] Value.lastComments ++ header.postComments }

/-- All that formatting does to one statement. -/
def tidied (header : Header) : Header :=
  header.doubleQuoted.stripped.dedented.relocated

end Header

end YangFormatter
