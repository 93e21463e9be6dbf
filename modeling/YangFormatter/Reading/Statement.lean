import YangFormatter.Reading.Header
import YangFormatter.Token.Stream

/-! # Reading one statement

A statement is its header and the comments after it on the same line. Its block,
if it opens one, is left on the stream.
-/

namespace YangFormatter.TokenStream

/-- Reads tokens up to the end of a header. -/
def readHeader (fault : Option Problem) (stop : Nat) (state : HeaderState) :
    List Token → Except Problem (Header × Bool) × TokenStream
  | [] =>
      match fault with
      | some problem => (.error problem, ⟨[], none, stop⟩)
      | none => (.error ⟨.unexpectedEnd, stop⟩, ⟨[], none, stop⟩)
  | token :: tokens =>
      match state.step token.toLexeme with
      | .more next => readHeader fault stop next tokens
      | .finished header opens => (.ok (header, opens), ⟨tokens, fault, stop⟩)
      | .refused cause => (.error ⟨cause, token.start⟩, ⟨tokens, fault, stop⟩)

/-- Splits off the white space and comments at the front, and keeps the texts of
the comments. -/
def splitTrailing : List Token → List Text × List Token
  | [] => ([], [])
  | token :: tokens =>
      match token.kind with
      | .whitespace => splitTrailing tokens
      | .comment =>
          let (comments, rest) := splitTrailing tokens
          (token.text :: comments, rest)
      | _ => ([], token :: tokens)

/-- Reads a statement without its block, and whether it opens one. What was
consumed before a problem stays consumed. -/
def readStatement (stream : TokenStream) : Except Problem (Header × Bool) × TokenStream :=
  match readHeader stream.fault stream.stop .start stream.tokens with
  | (.error problem, rest) => (.error problem, rest)
  | (.ok (header, opens), rest) =>
      let (postComments, tokens) := splitTrailing rest.tokens
      match tokens, rest.fault with
      | [], some problem => (.error problem, { rest with tokens := [], fault := none })
      | _, _ => (.ok ({ header with postComments }, opens), { rest with tokens })

end YangFormatter.TokenStream
