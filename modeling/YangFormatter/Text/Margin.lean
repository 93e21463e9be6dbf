import YangFormatter.Text.Blank

/-! # Common margins

The margin of some lines is the longest indentation that all of them share, tabs
and spaces compared literally. Lines of nothing but indentation do not take part
and become empty.
-/

namespace YangFormatter.Margin

/-- The longest text that both texts start with. -/
def shared : Text → Text → Text
  | first :: firstRest, second :: secondRest =>
      if first = second then first :: shared firstRest secondRest else []
  | _, _ => []

/-- The indentation a line starts with. -/
def indentation (line : Text) : Text :=
  line.takeWhile isIndent

/-- Whether a line holds nothing but indentation. -/
def isEmptyLine (line : Text) : Bool :=
  line.all isIndent

/-- The indentations of the lines that hold more than indentation. -/
def indentations (lines : List Text) : List Text :=
  (lines.filter (!isEmptyLine ·)).map indentation

/-- The indentation that all lines share; empty where no line has content. -/
def common (lines : List Text) : Text :=
  match indentations lines with
  | [] => []
  | first :: others => others.foldl shared first

/-- A line without a margin of the given length. -/
def removeFrom (width : Nat) (line : Text) : Text :=
  if isEmptyLine line then [] else line.drop width

/-- The lines without their common margin. -/
def remove (lines : List Text) : List Text :=
  lines.map (removeFrom (common lines).length)

end YangFormatter.Margin
