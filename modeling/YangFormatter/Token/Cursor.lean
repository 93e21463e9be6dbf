import YangFormatter.Token.Stream

/-! # Token cursors

Tokens can also be read on demand. A scanner reads the token in front of it, a supply hands
on what its scanner reads until there is an end, and a cursor looks one token ahead on a
supply. A fault passes through all three to whoever asked for the token.

What a cursor still has to give is a stream (`TokenCursor.remaining`).
-/

namespace YangFormatter

/-- A place in a text up to which tokens were read. -/
structure Scanner where
  /-- The text from there on. -/
  rest : Text
  /-- The number of bytes before it. -/
  offset : Nat
  /-- Whether a token could not be read. Nothing is read from then on. -/
  failed : Bool
deriving DecidableEq, Repr

namespace Scanner

/-- The scanner at the start of a text. -/
def ofText (text : Text) : Scanner :=
  { rest := text, offset := 0, failed := false }

/-- Reads the token in front of a scanner, if there is one. -/
def next (scanner : Scanner) : Except Problem (Option Token) × Scanner :=
  match scanner.failed, scanner.rest with
  | true, _ | false, [] => (.ok none, scanner)
  | false, head :: tail =>
      match Lexeme.first head tail with
      | .ok (lexeme, rest) =>
          (.ok (some (TokenStream.place scanner.offset lexeme)),
            { scanner with rest, offset := scanner.offset + Utf8.length lexeme.text })
      | .error cause => (.error ⟨cause, scanner.offset⟩, { scanner with failed := true })

/-- What is in front of a scanner, in a text that ends at `stop`. -/
def remaining (scanner : Scanner) (stop : Nat) : TokenStream :=
  if scanner.failed then
    { tokens := [], fault := none, stop }
  else
    let (tokens, fault) := TokenStream.scan scanner.offset scanner.rest
    { tokens, fault, stop }

/-- What is in front of a scanner ends where the text does. -/
@[simp]
theorem stop_remaining (scanner : Scanner) (stop : Nat) :
    (scanner.remaining stop).stop = stop := by
  unfold remaining
  split <;> rfl

end Scanner

/-- The tokens that a scanner reads, one after the other. -/
structure TokenSupply where
  /-- Where the next token is read. -/
  scanner : Scanner
  /-- Whether the scanner had no token to read. It is not asked again. -/
  ended : Bool
deriving DecidableEq, Repr

namespace TokenSupply

/-- Hands on the next token. The supply ends where there is none, and at a fault. -/
def next (supply : TokenSupply) : Except Problem (Option Token) × TokenSupply :=
  if supply.ended then
    (.ok none, supply)
  else
    match supply.scanner.next with
    | (.ok (some token), scanner) => (.ok (some token), { supply with scanner })
    | (noToken, scanner) => (noToken, { scanner, ended := true })

/-- What a supply still has to hand on, of a text that ends at `stop`. -/
def remaining (supply : TokenSupply) (stop : Nat) : TokenStream :=
  if supply.ended then { tokens := [], fault := none, stop } else supply.scanner.remaining stop

@[simp]
theorem stop_remaining (supply : TokenSupply) (stop : Nat) :
    (supply.remaining stop).stop = stop := by
  unfold remaining
  split
  · rfl
  · exact supply.scanner.stop_remaining stop

end TokenSupply

/-- A supply of tokens of which the next may have been looked at already. -/
structure TokenCursor where
  /-- The tokens that were not looked at. -/
  supply : TokenSupply
  /-- The token that was looked at and not taken. -/
  peeked : Option Token
  /-- Whether the supply was found to be empty. A fault alone does not show that. -/
  exhausted : Bool
  /-- The offset just past the end of the whole text. -/
  stop : Nat
deriving DecidableEq, Repr

namespace TokenCursor

/-- The cursor at the start of a text. -/
def ofText (text : Text) : TokenCursor :=
  { supply := { scanner := .ofText text, ended := false }, peeked := none, exhausted := false
    stop := Utf8.length text }

/-- Looks at the next token and keeps it. -/
def peek (cursor : TokenCursor) : Except Problem (Option Token) × TokenCursor :=
  match cursor.peeked, cursor.exhausted with
  | some token, _ => (.ok (some token), cursor)
  | none, true => (.ok none, cursor)
  | none, false =>
      match cursor.supply.next with
      | (.ok (some token), supply) =>
          (.ok (some token), { cursor with supply, peeked := some token })
      | (.ok none, supply) => (.ok none, { cursor with supply, exhausted := true })
      | (.error problem, supply) => (.error problem, { cursor with supply })

/-- Takes the next token: looks at it, and keeps it no longer. -/
def bump (cursor : TokenCursor) : Except Problem (Option Token) × TokenCursor :=
  match cursor.peek with
  | (.ok token, after) => (.ok token, { after with peeked := none })
  | (.error problem, after) => (.error problem, after)

/-- What a cursor still has to give. -/
def remaining (cursor : TokenCursor) : TokenStream :=
  let behind : TokenStream :=
    if cursor.exhausted then { tokens := [], fault := none, stop := cursor.stop }
    else cursor.supply.remaining cursor.stop
  { behind with tokens := cursor.peeked.toList ++ behind.tokens }

/-- The cursor of a text has the stream of the text to give. -/
theorem remaining_ofText (text : Text) : (ofText text).remaining = TokenStream.ofText text :=
  rfl

end TokenCursor

end YangFormatter
