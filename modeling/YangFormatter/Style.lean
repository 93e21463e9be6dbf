import YangFormatter.Text.Basic

/-! # Styles

How wide an indentation is, at which column lines are wrapped, and whether
statements are put into their canonical order.
-/

namespace YangFormatter

/-- A style of formatting. -/
structure Style where
  /-- The number of spaces for one level of nesting. -/
  indentWidth : Nat := 2
  /-- The number of characters that a line should not exceed. -/
  maxWidth : Nat := 79
  /-- Whether statements are put into canonical order. -/
  canonicalOrder : Bool := false
  /-- A line has room for something. -/
  maxWidth_pos : 0 < maxWidth := by decide
deriving DecidableEq, Repr

/-- Why two widths are no style. -/
inductive StyleError where
  /-- The indentation is below zero. -/
  | negativeIndent
  /-- The lines are not wide enough for one character. -/
  | noWidth
deriving DecidableEq, Repr

/-- The wording of a refused style. -/
def StyleError.message : StyleError → String
  | .negativeIndent => "indent_width cannot be negative"
  | .noWidth => "max_width must be positive"

namespace Style

/-- The style with the given widths. A bad indentation is reported before a bad
line width. -/
def ofWidths (indentWidth maxWidth : Int) (canonicalOrder : Bool) : Except StyleError Style :=
  if indentWidth < 0 then
    .error .negativeIndent
  else if wide : 0 < maxWidth then
    .ok
      { indentWidth := indentWidth.toNat
        maxWidth := maxWidth.toNat
        canonicalOrder
        maxWidth_pos := by omega }
  else
    .error .noWidth

/-- The indentation at a depth; none below depth zero. Whether a machine can make it is said
by `Style.indent?`. -/
def indent (style : Style) (depth : Int) : Text :=
  List.replicate (style.indentWidth * depth).toNat ' '

end Style

end YangFormatter
