import YangFormatter.Text.Quoted
import YangFormatter.Token.Basic

/-! # Token tables

A listing of tokens for people: one line for each token with its kind, its first
and last byte, and its text.
-/

namespace YangFormatter.TokenTable

/-- A text filled up with spaces to at least `width` characters. -/
def pad (width : Nat) (text : String) : String :=
  text ++ String.ofList (List.replicate (width - text.length) ' ')

/-- The line of one token. -/
def row (token : Token) : String :=
  let extent := s!"{token.start} -> {token.last}"
  s!"{pad 20 token.kind.name} {pad 15 extent} {token.text.quoted}"

/-- The table of some tokens; nothing at all for no tokens. -/
def render (tokens : List Token) : String :=
  String.join (tokens.map fun token => row token ++ "\n")

end YangFormatter.TokenTable
