import YangFormatter.Problem
import YangFormatter.Tree.Basic

/-! # Reading the header of a statement

A header is read token by token. White space and line breaks say nothing inside
it, and a comment belongs to what it follows. Any token but a terminator may be a
value, even a closing brace or a plus sign; only strings are concatenated.
-/

namespace YangFormatter

/-- How far a header has been read. -/
inductive HeaderState where
  /-- Nothing has been read. -/
  | start
  /-- The keyword has been read, and comments after it. -/
  | keyword (keyword : Text) (comments : List Text)
  /-- A value has been read, and comments after it. -/
  | value (keyword : Text) (keywordComments : List Text) (value : Value) (comments : List Text)
  /-- Strings have been joined, the last of them just now. -/
  | fragment (keyword : Text) (keywordComments : List Text) (earlier : List Fragment)
      (last : Fragment)
  /-- A plus sign follows the strings joined so far. -/
  | plus (keyword : Text) (keywordComments : List Text) (earlier : List Fragment)
      (last : Fragment)
deriving DecidableEq, Repr

/-- What a token does to a header. -/
inductive HeaderStep where
  /-- The header goes on. -/
  | more (state : HeaderState)
  /-- The token ends the header, and perhaps opens a block. -/
  | finished (header : Header) (opens : Bool)
  /-- The token cannot stand there. -/
  | refused (cause : Cause)
deriving DecidableEq, Repr

/-- A fragment with one more comment after it. -/
def Fragment.addComment (fragment : Fragment) (comment : Text) : Fragment :=
  { fragment with comments := fragment.comments ++ [comment] }

namespace HeaderState

/-- What is expected at the start of a statement. -/
def expectedKeyword : String := "expected a statement keyword"

/-- What is expected after a value. -/
def expectedTerminator : String := "expected ';' or '\x7b' after the value"

/-- What is expected after a concatenated string. -/
def expectedPlus : String := "expected '+', ';' or '\x7b'"

/-- Reads one more token of a header. -/
def step (state : HeaderState) (lexeme : Lexeme) : HeaderStep :=
  match state with
  | start =>
      match lexeme.kind with
      | .other => .more (keyword lexeme.text [])
      | _ => .refused (.unexpectedToken lexeme.text expectedKeyword)
  | keyword word comments =>
      match lexeme.kind with
      | .whitespace | .lineBreak => .more state
      | .comment => .more (keyword word (comments ++ [lexeme.text]))
      | .semicolon => .finished { keyword := word, keywordComments := comments } false
      | .openBlock => .finished { keyword := word, keywordComments := comments } true
      | _ => .more (value word comments (.ofLexeme lexeme) [])
  | value word keywordComments given comments =>
      let header : Header :=
        { keyword := word, keywordComments, value := some given, valueComments := comments }
      match lexeme.kind with
      | .whitespace | .lineBreak => .more state
      | .comment => .more (value word keywordComments given (comments ++ [lexeme.text]))
      | .semicolon => .finished header false
      | .openBlock => .finished header true
      | .plus =>
          match given with
          | .quoted text => .more (plus word keywordComments [] ⟨text, comments⟩)
          | _ => .refused .invalidConcatenation
      | _ => .refused (.unexpectedToken lexeme.text expectedTerminator)
  | fragment word keywordComments earlier last =>
      let header : Header :=
        { keyword := word, keywordComments, value := some (.concatenation (earlier ++ [last])) }
      match lexeme.kind with
      | .whitespace | .lineBreak => .more state
      | .comment => .more (fragment word keywordComments earlier (last.addComment lexeme.text))
      | .semicolon => .finished header false
      | .openBlock => .finished header true
      | .plus => .more (plus word keywordComments earlier last)
      | _ => .refused (.unexpectedToken lexeme.text expectedPlus)
  | plus word keywordComments earlier last =>
      match lexeme.kind with
      | .whitespace | .lineBreak => .more state
      | .comment => .more (plus word keywordComments earlier (last.addComment lexeme.text))
      | .string => .more (fragment word keywordComments (earlier ++ [last]) ⟨lexeme.text, []⟩)
      | _ => .refused .invalidConcatenation

end HeaderState

end YangFormatter
