/-! # Source text

Source text is a list of characters. Offsets count UTF-8 bytes and widths count
characters, so neither is the index of a list.
-/

namespace YangFormatter

/-- A piece of source text. -/
abbrev Text := List Char

namespace Text

/-- The lines of a text: what stands between its line feeds. -/
def lines (text : Text) : List Text :=
  text.splitOn '\n'

/-- The text with a line feed between each line and the next. -/
def ofLines (lines : List Text) : Text :=
  ['\n'].intercalate lines

/-- Every text has a line, if only an empty one. -/
theorem lines_ne_nil (text : Text) : text.lines ≠ [] :=
  List.splitOn_ne_nil _ _

/-- A text is put back together from its lines. -/
@[simp]
theorem ofLines_lines (text : Text) : ofLines text.lines = text :=
  List.intercalate_splitOn _

end Text

end YangFormatter
