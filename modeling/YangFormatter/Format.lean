import YangFormatter.Layout
import YangFormatter.Reading.Tree
import YangFormatter.Tidy.Tree

/-! # Formatting

A source is parsed, its tree is tidied, and the tree is written. The formatted text of a tree
is what formatting comes to where nothing breaks it off; a report on a source has that text or
tells of a problem.
-/

namespace YangFormatter

/-- The formatted text of a tree. -/
def Style.formatTree (style : Style) (nodes : List Node) : Text :=
  Layout.tree style (Tidy.tree style nodes)

/-- What formatting a source came to. -/
structure Report where
  /-- The text of the source, as far as it is text. -/
  sourceText : Text
  /-- The formatted text; the text of the source where there is a problem. -/
  formattedText : Text
  /-- The problems. -/
  diagnostics : List Diagnostic
deriving DecidableEq, Repr

namespace Report

/-- Whether formatting changes the source. -/
def changed (report : Report) : Bool :=
  report.formattedText != report.sourceText

/-- Whether formatting failed. -/
def hasErrors (report : Report) : Bool :=
  Diagnostic.anyError report.diagnostics

end Report

end YangFormatter
