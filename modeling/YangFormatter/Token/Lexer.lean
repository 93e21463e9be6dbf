import YangFormatter.Problem
import YangFormatter.Text.Blank
import YangFormatter.Text.Utf8
import YangFormatter.Token.Basic

/-! # Splitting text into tokens

A text is split from left to right. Each token is as long as its kind allows, and
nothing is skipped: the texts of the tokens are the text (`Lexeme.first_text`). A
fault lies at the start of the token that could not be read.
-/

namespace YangFormatter

/-- The characters that end a run of other characters. -/
def isDelimiter (character : Char) : Bool :=
  isIndent character || character == '\r' || character == '\n' || character == ';'
    || character == '{' || character == '}'

/-- The kind of a token that is one character long. -/
def TokenKind.ofPunctuation? (character : Char) : Option TokenKind :=
  if character = ';' then some .semicolon
  else if character = '+' then some .plus
  else if character = '{' then some .openBlock
  else if character = '}' then some .closeBlock
  else none

namespace Word

/-- Whether some digits are an integer: a zero, or digits with no zero in front. -/
def isInteger : Text → Bool
  | [] => false
  | ['0'] => true
  | first :: _ => first != '0'

/-- Whether a text is empty or a point and at least one digit. -/
def isFraction : Text → Bool
  | [] => true
  | '.' :: digits => !digits.isEmpty && digits.all Char.isDigit
  | _ => false

/-- Whether a text is a number without a sign. -/
def isUnsigned (text : Text) : Bool :=
  isInteger (text.takeWhile Char.isDigit) && isFraction (text.dropWhile Char.isDigit)

/-- Whether a text is a number: a minus sign or none, an integer, and a fraction
or none. -/
def isNumber : Text → Bool
  | '-' :: rest => isUnsigned rest
  | text => isUnsigned text

/-- Whether a text is a date: four, two and two digits with hyphens between. -/
def isDate : Text → Bool
  | [y₁, y₂, y₃, y₄, '-', m₁, m₂, '-', d₁, d₂] =>
      [y₁, y₂, y₃, y₄, m₁, m₂, d₁, d₂].all Char.isDigit
  | _ => false

/-- The kind of a run of characters that are no delimiters. -/
def kind (text : Text) : TokenKind :=
  if isNumber text then .number
  else if isDate text then .date
  else .other

end Word

namespace Lexer

/-- Splits after the first `quote` that no backslash stands directly before.
`escaped` says whether a backslash stands before the text. -/
def throughQuote (quote : Char) (escaped : Bool) : Text → Option (Text × Text)
  | [] => none
  | character :: rest =>
      if character = quote ∧ escaped = false then
        some ([character], rest)
      else
        (throughQuote quote (character == '\\') rest).map fun (taken, remaining) =>
          (character :: taken, remaining)

/-- Splits before the first line break. A carriage return that no line feed
follows is part of the line. -/
def toLineEnd : Text → Text × Text
  | [] => ([], [])
  | '\n' :: rest => ([], '\n' :: rest)
  | '\r' :: '\n' :: rest => ([], '\r' :: '\n' :: rest)
  | character :: rest =>
      let (taken, remaining) := toLineEnd rest
      (character :: taken, remaining)

/-- Splits after the first end of a block comment. -/
def throughCommentEnd : Text → Option (Text × Text)
  | [] => none
  | '*' :: '/' :: rest => some (['*', '/'], rest)
  | character :: rest =>
      (throughCommentEnd rest).map fun (taken, remaining) => (character :: taken, remaining)

/-- A string and what is behind it are the text. -/
theorem throughQuote_append {quote : Char} {escaped : Bool} {text taken remaining : Text}
    (split : throughQuote quote escaped text = some (taken, remaining)) :
    taken ++ remaining = text := by
  induction text generalizing escaped taken remaining with
  | nil => simp [throughQuote] at split
  | cons character rest ih =>
      unfold throughQuote at split
      split at split
      · simp only [Option.some.injEq, Prod.mk.injEq] at split
        obtain ⟨rfl, rfl⟩ := split
        rfl
      · obtain ⟨⟨inner, after⟩, found, same⟩ := Option.map_eq_some_iff.mp split
        simp only [Prod.mk.injEq] at same
        obtain ⟨rfl, rfl⟩ := same
        simp [ih found]

theorem toLineEnd_append (text : Text) : (toLineEnd text).1 ++ (toLineEnd text).2 = text := by
  fun_induction toLineEnd text with
  | case1 => rfl
  | case2 => rfl
  | case3 => rfl
  | case4 character rest _ _ taken remaining split ih =>
      simp only [split] at ih
      simp [ih]

theorem throughCommentEnd_append {text taken remaining : Text}
    (split : throughCommentEnd text = some (taken, remaining)) : taken ++ remaining = text := by
  fun_induction throughCommentEnd text generalizing taken remaining with
  | case1 => simp at split
  | case2 rest =>
      simp only [Option.some.injEq, Prod.mk.injEq] at split
      obtain ⟨rfl, rfl⟩ := split
      rfl
  | case3 character rest _ ih =>
      obtain ⟨⟨inner, after⟩, found, same⟩ := Option.map_eq_some_iff.mp split
      simp only [Prod.mk.injEq] at same
      obtain ⟨rfl, rfl⟩ := same
      simp [ih found]

end Lexer

open Lexer

/-- Reads the first token of the text that starts with `head` and goes on with
`tail`, and what follows the token. -/
def Lexeme.first (head : Char) (tail : Text) : Except Cause (Lexeme × Text) :=
  match TokenKind.ofPunctuation? head with
  | some kind => .ok (⟨kind, [head]⟩, tail)
  | none =>
      if isIndent head then
        .ok (⟨.whitespace, head :: tail.takeWhile isIndent⟩, tail.dropWhile isIndent)
      else if head = '\n' then
        .ok (⟨.lineBreak, [head]⟩, tail)
      else if head = '\r' then
        match tail with
        | '\n' :: rest => .ok (⟨.lineBreak, [head, '\n']⟩, rest)
        | _ => .error (.unexpectedCharacter [head])
      else if head = '"' ∨ head = '\'' then
        match throughQuote head false tail with
        | some (taken, rest) => .ok (⟨.string, head :: taken⟩, rest)
        | none => .error .unterminatedString
      else
        match head, tail with
        | '/', '/' :: line =>
            .ok (⟨.comment, '/' :: '/' :: (toLineEnd line).1⟩, (toLineEnd line).2)
        | '/', '*' :: body =>
            match throughCommentEnd body with
            | some (taken, rest) => .ok (⟨.comment, '/' :: '*' :: taken⟩, rest)
            | none => .error .unterminatedComment
        | _, _ =>
            let word := head :: tail.takeWhile (!isDelimiter ·)
            .ok (⟨Word.kind word, word⟩, tail.dropWhile (!isDelimiter ·))

/-- The text of the first token and what follows it are the whole text, and the
token is not empty. -/
theorem Lexeme.first_text {head : Char} {tail remaining : Text} {lexeme : Lexeme}
    (read : Lexeme.first head tail = .ok (lexeme, remaining)) :
    lexeme.text ++ remaining = head :: tail ∧ lexeme.text ≠ [] := by
  unfold Lexeme.first at read
  split at read
  · simp only [Except.ok.injEq, Prod.mk.injEq] at read
    obtain ⟨rfl, rfl⟩ := read
    exact ⟨rfl, List.cons_ne_nil _ _⟩
  split at read
  · simp only [Except.ok.injEq, Prod.mk.injEq] at read
    obtain ⟨rfl, rfl⟩ := read
    exact ⟨by simp, List.cons_ne_nil _ _⟩
  split at read
  · simp only [Except.ok.injEq, Prod.mk.injEq] at read
    obtain ⟨rfl, rfl⟩ := read
    exact ⟨rfl, List.cons_ne_nil _ _⟩
  split at read
  · split at read
    · simp only [Except.ok.injEq, Prod.mk.injEq] at read
      obtain ⟨rfl, rfl⟩ := read
      exact ⟨rfl, List.cons_ne_nil _ _⟩
    · contradiction
  split at read
  · split at read
    next taken rest split =>
      simp only [Except.ok.injEq, Prod.mk.injEq] at read
      obtain ⟨rfl, rfl⟩ := read
      exact ⟨by simp [throughQuote_append split], List.cons_ne_nil _ _⟩
    next => contradiction
  split at read
  · simp only [Except.ok.injEq, Prod.mk.injEq] at read
    obtain ⟨rfl, rfl⟩ := read
    exact ⟨by simp [toLineEnd_append], List.cons_ne_nil _ _⟩
  · split at read
    next taken rest split =>
      simp only [Except.ok.injEq, Prod.mk.injEq] at read
      obtain ⟨rfl, rfl⟩ := read
      exact ⟨by simp [throughCommentEnd_append split], List.cons_ne_nil _ _⟩
    next => contradiction
  · simp only [Except.ok.injEq, Prod.mk.injEq] at read
    obtain ⟨rfl, rfl⟩ := read
    exact ⟨by simp, List.cons_ne_nil _ _⟩

end YangFormatter
