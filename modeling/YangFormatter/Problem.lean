import YangFormatter.Text.Quoted
import YangFormatter.Text.Span

/-! # Problems

What can go wrong between reading a source and writing its formatted text. A
problem is a cause and the byte offset it was found at; its wording, code and
hint follow from the cause.
-/

namespace YangFormatter

/-- A stage of formatting, for problems that are only described in words. -/
inductive Stage where
  /-- Formatting as a whole. -/
  | formatting
  /-- Writing the formatted text. -/
  | writing
  /-- Building the tree. -/
  | parsing
  /-- Splitting the text into tokens. -/
  | lexing
deriving DecidableEq, Repr

/-- The cause of a problem. -/
inductive Cause where
  /-- A string without its closing quote. -/
  | unterminatedString
  /-- A block comment without its end. -/
  | unterminatedComment
  /-- A character that begins no token. -/
  | unexpectedCharacter (found : Text)
  /-- A token that cannot stand where it stands. -/
  | unexpectedToken (found : Text) (context : String)
  /-- The text ends inside a statement. -/
  | unexpectedEnd
  /-- A closing brace without an open block. -/
  | unexpectedClosingBrace
  /-- The text ends inside a block. -/
  | unclosedBlock
  /-- A plus sign beside something other than a string. -/
  | invalidConcatenation
  /-- A problem of some stage, described in words. -/
  | stated (stage : Stage) (message : String)
deriving DecidableEq, Repr

/-- The part of the program that a diagnostic comes from. -/
inductive Category where
  | lexer
  | parser
  | format
deriving DecidableEq, Repr

/-- The name of a category. -/
def Category.name : Category → String
  | .lexer => "lexer"
  | .parser => "parser"
  | .format => "format"

/-- How serious a diagnostic is. -/
inductive Severity where
  | error
  | warning
deriving DecidableEq, Repr

/-- The name of a severity. -/
def Severity.name : Severity → String
  | .error => "error"
  | .warning => "warning"

/-- A problem as it is reported. -/
structure Diagnostic where
  /-- The identifier of the kind of problem. -/
  code : String
  /-- The wording. -/
  message : String
  /-- The place. -/
  span : Span
  /-- How serious it is. -/
  severity : Severity := .error
  /-- What to do about it. -/
  hint : Option String := none
  /-- Where it comes from. -/
  category : Option Category := none
deriving DecidableEq, Repr

/-- Whether some diagnostic is an error. -/
def Diagnostic.anyError (diagnostics : List Diagnostic) : Bool :=
  diagnostics.any (·.severity == .error)

namespace Cause

/-- The cause of a failed write. -/
def writeFailed (reason : String) : Cause :=
  .stated .writing ("I/O error: " ++ reason)

/-- The identifier of the kind of problem. -/
def code : Cause → String
  | unterminatedString => "LEXER_UNTERMINATED_STRING"
  | unterminatedComment => "LEXER_UNTERMINATED_COMMENT"
  | unexpectedCharacter _ => "LEXER_UNEXPECTED_CHARACTER"
  | unexpectedToken _ _ => "PARSER_UNEXPECTED_TOKEN"
  | unexpectedEnd => "PARSER_UNEXPECTED_END_OF_INPUT"
  | unexpectedClosingBrace => "PARSER_UNEXPECTED_CLOSING_BRACE"
  | unclosedBlock => "PARSER_UNCLOSED_BLOCK"
  | invalidConcatenation => "PARSER_INVALID_CONCATENATION"
  | stated _ _ => "FORMAT_OUTPUT_FAILED"

/-- The category of the kind of problem. -/
def category : Cause → Category
  | unterminatedString | unterminatedComment | unexpectedCharacter _ => .lexer
  | unexpectedToken _ _ | unexpectedEnd | unexpectedClosingBrace | unclosedBlock
  | invalidConcatenation => .parser
  | stated _ _ => .format

/-- What to do about the problem, where something can be said. -/
def hint : Cause → Option String
  | unterminatedString => "Close the string with the same quote character it was opened with."
  | unterminatedComment => "Close the comment with `*/`."
  | unexpectedEnd => "Terminate the statement with `;` or open a block with `\x7b`."
  | unclosedBlock => "Add the missing `\x7d`."
  | _ => none

/-- The wording of a problem found at a byte offset. -/
def messageAt (position : Int) : Cause → String
  | unterminatedString => s!"String starting at {position} was never terminated"
  | unterminatedComment => s!"Block comment starting at {position} was never terminated"
  | unexpectedCharacter found =>
      s!"Unexpected character at position {position}: {found.quoted}"
  | unexpectedToken found context => s!"Unexpected token {found.quoted}, {context}"
  | unexpectedEnd => "Unexpected end of input"
  | unexpectedClosingBrace => "Unexpected closing curly brace"
  | unclosedBlock => "Unclosed block at end of file"
  | invalidConcatenation => "Can only concatenate strings"
  | stated _ message =>
      if message.isEmpty then "I/O error while writing formatted output" else message

/-- The report of a cause at a span. -/
def diagnosticOver (cause : Cause) (position : Int) (span : Span) : Diagnostic :=
  { code := cause.code
    message := cause.messageAt position
    span
    hint := cause.hint
    category := some cause.category }

/-- The report of a cause at an offset, which has to be that of a byte. -/
def diagnosticAt (cause : Cause) (position : Int) : Except SpanError Diagnostic :=
  (Span.ofOffsets position position).map (cause.diagnosticOver position)

end Cause

/-- Something that went wrong, and where. -/
structure Problem where
  /-- What went wrong. -/
  cause : Cause
  /-- The byte offset it was found at. -/
  position : Nat
deriving DecidableEq, Repr

namespace Problem

/-- The wording of a problem. -/
def message (problem : Problem) : String :=
  problem.cause.messageAt problem.position

/-- The report of a problem. It always exists, since offsets are not negative. -/
def diagnostic (problem : Problem) : Diagnostic :=
  problem.cause.diagnosticOver problem.position (.point problem.position)

/-- A problem's report is the report of its cause at its offset. -/
theorem diagnosticAt_position (problem : Problem) :
    problem.cause.diagnosticAt problem.position = .ok problem.diagnostic := by
  simp only [Cause.diagnosticAt, Span.ofOffsets_natCast (Nat.le_refl problem.position)]
  rfl

end Problem

end YangFormatter
