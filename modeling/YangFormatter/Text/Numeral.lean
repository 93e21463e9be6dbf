import YangFormatter.Text.Blank

/-! # Integers as people write them

An integer may have blanks around it, a sign, leading zeros, single underscores
between digits, and decimal digits of any script.
-/

namespace YangFormatter.Numeral

/-- The code points of the digit zero in each script that has decimal digits. In
each of them the ten digits follow one another. -/
def zeros : List Nat :=
  [0x30, 0x660, 0x6F0, 0x7C0, 0x966, 0x9E6, 0xA66, 0xAE6, 0xB66, 0xBE6, 0xC66, 0xCE6, 0xD66,
    0xDE6, 0xE50, 0xED0, 0xF20, 0x1040, 0x1090, 0x17E0, 0x1810, 0x1946, 0x19D0, 0x1A80, 0x1A90,
    0x1B50, 0x1BB0, 0x1C40, 0x1C50, 0xA620, 0xA8D0, 0xA900, 0xA9D0, 0xA9F0, 0xAA50, 0xABF0,
    0xFF10, 0x104A0, 0x10D30, 0x11066, 0x110F0, 0x11136, 0x111D0, 0x112F0, 0x11450, 0x114D0,
    0x11650, 0x116C0, 0x11730, 0x118E0, 0x11950, 0x11C50, 0x11D50, 0x11DA0, 0x16A60, 0x16AC0,
    0x16B50, 0x1D7CE, 0x1D7D8, 0x1D7E2, 0x1D7EC, 0x1D7F6, 0x1E140, 0x1E2F0, 0x1E950, 0x1FBF0]

/-- The value of a decimal digit of any script. -/
def digit? (character : Char) : Option Nat :=
  let point := character.toNat
  (zeros.find? fun base => base ≤ point && point < base + 10).map (point - ·)

/-- Whether a character is a decimal digit of some script. -/
def isDigit (character : Char) : Bool :=
  (digit? character).isSome

/-- The greatest number of digits an integer may have. -/
def maxDigits : Nat := 4300

/-- Whether a character may stand around an integer: any blank but the
information separators. -/
def isPadding (character : Char) : Bool :=
  isBlank character && !(0x1C ≤ character.toNat && character.toNat ≤ 0x1F)

/-- A text without the padding at both ends. -/
def unpad (text : Text) : Text :=
  ((text.dropWhile isPadding).reverse.dropWhile isPadding).reverse

/-- The digits of a text of digits in which single underscores may stand between
two digits. -/
def digits? : Text → Option (List Nat)
  | [] => none
  | [last] => (digit? last).map ([·])
  | first :: '_' :: rest => do
      let value ← digit? first
      let values ← digits? rest
      return value :: values
  | first :: rest => do
      let value ← digit? first
      let values ← digits? rest
      return value :: values

/-- The number that decimal digits denote. -/
def ofDigits (digits : List Nat) : Nat :=
  digits.foldl (fun number digit => number * 10 + digit) 0

/-- Reads a number without a sign. -/
def natural? (text : Text) : Option Nat := do
  let digits ← digits? text
  if digits.length ≤ maxDigits then some (ofDigits digits) else none

/-- Reads an integer. -/
def integer? (text : Text) : Option Int :=
  match unpad text with
  | '+' :: rest => (natural? rest).map Int.ofNat
  | '-' :: rest => (natural? rest).map fun number => - (number : Int)
  | rest => (natural? rest).map Int.ofNat

end YangFormatter.Numeral
