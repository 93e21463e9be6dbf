import YangFormatter.Text.Basic

/-! # Blank characters

The characters that are trimmed from the ends of a string, and those that may
indent a line.
-/

namespace YangFormatter

/-- The Unicode characters that count as white space. -/
def isBlank (character : Char) : Bool :=
  let point := character.toNat
  (0x09 ≤ point && point ≤ 0x0D) || (0x1C ≤ point && point ≤ 0x20) || point == 0x85
    || point == 0xA0 || point == 0x1680 || (0x2000 ≤ point && point ≤ 0x200A) || point == 0x2028
    || point == 0x2029 || point == 0x202F || point == 0x205F || point == 0x3000

/-- The characters that indent a line. -/
def isIndent (character : Char) : Bool :=
  character == ' ' || character == '\t'

namespace Text

/-- The text without the blanks at its start. -/
def trimStart (text : Text) : Text :=
  text.dropWhile isBlank

/-- The text without the blanks at its end. -/
def trimEnd (text : Text) : Text :=
  (text.reverse.dropWhile isBlank).reverse

/-- The text without the blanks at both ends. -/
def trim (text : Text) : Text :=
  text.trimStart.trimEnd

end Text

/-- What indents a line is blank. -/
theorem isBlank_of_isIndent {character : Char} (indent : isIndent character = true) :
    isBlank character = true := by
  simp only [isIndent, Bool.or_eq_true, beq_iff_eq] at indent
  rcases indent with rfl | rfl <;> rfl

end YangFormatter
