import YangFormatter.Text.Printable

/-! # Quoted text

The form in which messages and tables show a piece of source text: between
quotes, on one line, in printable characters.
-/

namespace YangFormatter.Quoted

/-- The quote around a text: a single quote, unless the text holds one and holds
no double quote. -/
def quoteFor (text : Text) : Char :=
  if text.contains '\'' && !text.contains '"' then '"' else '\''

/-- A number in lower-case hexadecimal digits, at least `width` of them. -/
def hexadecimal (width number : Nat) : Text :=
  let digits := Nat.toDigits 16 number
  List.replicate (width - digits.length) '0' ++ digits

/-- How one character is written between two `quote` characters. -/
def character (quote : Char) (char : Char) : Text :=
  let point := char.toNat
  if char == quote || char == '\\' then ['\\', char]
  else if char == '\t' then ['\\', 't']
  else if char == '\n' then ['\\', 'n']
  else if char == '\r' then ['\\', 'r']
  else if isPrintable char then [char]
  else if point < 0x100 then '\\' :: 'x' :: hexadecimal 2 point
  else if point < 0x10000 then '\\' :: 'u' :: hexadecimal 4 point
  else '\\' :: 'U' :: hexadecimal 8 point

/-- A text between quotes, with what cannot be shown escaped. -/
def render (text : Text) : Text :=
  let quote := quoteFor text
  quote :: text.flatMap (character quote) ++ [quote]

end YangFormatter.Quoted

namespace YangFormatter.Text

/-- A text as messages show it. -/
def quoted (text : Text) : String :=
  String.ofList (Quoted.render text)

end YangFormatter.Text
