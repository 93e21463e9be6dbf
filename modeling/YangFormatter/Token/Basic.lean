import YangFormatter.Text.Basic
import YangFormatter.Text.Span

/-! # Tokens

The small set of tokens that a YANG module is split into. White space, line
breaks and comments are tokens too, so that the tokens cover the whole text.
-/

namespace YangFormatter

/-- The kinds of tokens. -/
inductive TokenKind where
  /-- A run of spaces and tabs. -/
  | whitespace
  /-- A line feed, or a carriage return with its line feed. -/
  | lineBreak
  /-- A line comment or a block comment. -/
  | comment
  /-- A string with its quotes. -/
  | string
  /-- An integer or a decimal fraction. -/
  | number
  /-- A date of the form `2024-01-31`. -/
  | date
  /-- A keyword, an identifier, or any other run of characters. -/
  | other
  | semicolon
  | plus
  | openBlock
  | closeBlock
deriving DecidableEq, Repr

namespace TokenKind

/-- All kinds of tokens. -/
def all : List TokenKind :=
  [whitespace, lineBreak, comment, string, number, date, other, semicolon, plus, openBlock,
    closeBlock]

/-- The name of a kind in token tables. -/
def name : TokenKind → String
  | whitespace => "WHITESPACE"
  | lineBreak => "LINE_BREAK"
  | comment => "COMMENT"
  | string => "STRING"
  | number => "NUMBER"
  | date => "DATE"
  | other => "OTHER"
  | semicolon => "SEMICOLON"
  | plus => "PLUS"
  | openBlock => "OPEN_BLOCK"
  | closeBlock => "CLOSE_BLOCK"

/-- The number of a kind: tens for trivia, twenties for values, thirties for
punctuation. -/
def code : TokenKind → Nat
  | whitespace => 10
  | lineBreak => 11
  | comment => 12
  | string => 20
  | number => 21
  | date => 22
  | other => 23
  | semicolon => 30
  | plus => 31
  | openBlock => 32
  | closeBlock => 33

/-- The kind of a name. -/
def ofName? (name : String) : Option TokenKind :=
  all.find? (·.name == name)

/-- Whether tokens of a kind only separate others. -/
def isTrivia : TokenKind → Bool
  | whitespace | lineBreak | comment => true
  | _ => false

/-- Whether a kind ends the header of a statement. -/
def isTerminator : TokenKind → Bool
  | semicolon | openBlock => true
  | _ => false

end TokenKind

/-- A token without its place: a kind and the text it stands for. -/
structure Lexeme where
  /-- The kind of token. -/
  kind : TokenKind
  /-- The text, quotes and comment marks included. -/
  text : Text
deriving DecidableEq, Repr

/-- A token and the bytes it covers. -/
structure Token extends Lexeme where
  /-- The bytes of the source. -/
  span : Span
deriving DecidableEq, Repr

/-- The offset of a token's first byte. -/
def Token.start (token : Token) : Nat :=
  token.span.start

/-- The offset of a token's last byte; one less than its start for an empty
token. -/
def Token.last (token : Token) : Int :=
  (token.span.stop : Int) - 1

end YangFormatter
