import YangFormatter.Source
import YangFormatter.Token.Lexer

/-! # Token streams

The tokens of a text in order, ended by the fault that stopped the lexer if there
was one. The fault is met once, by whoever first asks for the token that could not
be read; after it, as after the last token, there is nothing more.
-/

namespace YangFormatter

/-- A stream of tokens. -/
structure TokenStream where
  /-- The tokens still to come. -/
  tokens : List Token
  /-- What stands in the way after the last of them. -/
  fault : Option Problem
  /-- The offset just past the end of the whole text. -/
  stop : Nat
deriving DecidableEq, Repr

namespace TokenStream

/-- The token of a lexeme that starts at an offset. -/
def place (offset : Nat) (lexeme : Lexeme) : Token :=
  { lexeme with
    span := ⟨offset, offset + Utf8.length lexeme.text, Nat.le_add_right _ _⟩ }

/-- The tokens of a text that starts at `offset`, with the fault that ends them;
`scanned` holds the tokens before it, newest first. -/
def scanOnto (scanned : List Token) (offset : Nat) : Text → List Token × Option Problem
  | [] => (scanned.reverse, none)
  | head :: tail =>
      match _read : Lexeme.first head tail with
      | .ok (lexeme, remaining) =>
          scanOnto (place offset lexeme :: scanned) (offset + Utf8.length lexeme.text) remaining
      | .error cause => (scanned.reverse, some ⟨cause, offset⟩)
termination_by text => text.length
decreasing_by
  have ⟨whole, nonempty⟩ := Lexeme.first_text _read
  rw [← whole, List.length_append]
  have := List.length_pos_iff.mpr nonempty
  omega

/-- The tokens of a text that starts at `offset`, with the fault that ends them. -/
def scan (offset : Nat) (text : Text) : List Token × Option Problem :=
  scanOnto [] offset text

/-- The stream of a text. -/
def ofText (text : Text) : TokenStream :=
  let (tokens, fault) := scan 0 text
  { tokens, fault, stop := Utf8.length text }

/-- The stream of a source, if it is text at all. -/
def ofSource (source : Source) : Except Problem TokenStream :=
  source.decode.map ofText

/-- Whether nothing more is to come, not even a fault. -/
def isExhausted (stream : TokenStream) : Bool :=
  stream.tokens.isEmpty && stream.fault.isNone

/-- Looks at the next token. Nothing is consumed, but a fault is met only once. -/
def peek (stream : TokenStream) : Except Problem (Option Token) × TokenStream :=
  match stream.tokens, stream.fault with
  | token :: _, _ => (.ok (some token), stream)
  | [], some problem => (.error problem, { stream with fault := none })
  | [], none => (.ok none, stream)

/-- Takes the next token. -/
def next (stream : TokenStream) : Except Problem (Option Token) × TokenStream :=
  match stream.tokens, stream.fault with
  | token :: tokens, _ => (.ok (some token), { stream with tokens })
  | [], some problem => (.error problem, { stream with fault := none })
  | [], none => (.ok none, stream)

/-- Takes all tokens. A fault loses those before it. -/
def drain (stream : TokenStream) : Except Problem (List Token) × TokenStream :=
  let spent := { stream with tokens := [], fault := none }
  match stream.fault with
  | none => (.ok stream.tokens, spent)
  | some problem => (.error problem, spent)

/-- All tokens of a text, or the problem that stopped the lexer. -/
def tokenize (text : Text) : Except Problem (List Token) :=
  (ofText text).drain.1

/-- Tokens scanned earlier only stand in front of those still to be scanned. -/
theorem scanOnto_append (newer older : List Token) (offset : Nat) (text : Text) :
    scanOnto (newer ++ older) offset text =
      (older.reverse ++ (scanOnto newer offset text).1, (scanOnto newer offset text).2) := by
  fun_induction scanOnto newer offset text with
  | case1 => simp [scanOnto]
  | case2 newer offset head tail lexeme remaining read ih =>
      rw [scanOnto, ← ih]
      split
      next same => simp_all
      next same => simp_all
  | case3 newer offset head tail cause read =>
      rw [scanOnto]
      split
      next same => simp_all
      next same => simp_all

@[simp]
theorem scan_nil (offset : Nat) : scan offset [] = ([], none) := by
  simp [scan, scanOnto]

/-- Scanning reads one token and goes on after it. -/
theorem scan_cons_of_read {offset : Nat} {head : Char} {tail remaining : Text} {lexeme : Lexeme}
    (read : Lexeme.first head tail = .ok (lexeme, remaining)) :
    scan offset (head :: tail) =
      (place offset lexeme :: (scan (offset + Utf8.length lexeme.text) remaining).1,
        (scan (offset + Utf8.length lexeme.text) remaining).2) := by
  have earlier := scanOnto_append [] [place offset lexeme] (offset + Utf8.length lexeme.text)
    remaining
  rw [scan, scanOnto]
  split
  next same =>
    rw [read] at same
    cases same
    simpa [scan] using earlier
  next same =>
    rw [read] at same
    cases same

/-- Scanning ends at the token that cannot be read. -/
theorem scan_cons_of_fault {offset : Nat} {head : Char} {tail : Text} {cause : Cause}
    (fault : Lexeme.first head tail = .error cause) :
    scan offset (head :: tail) = ([], some ⟨cause, offset⟩) := by
  rw [scan, scanOnto]
  split
  next same =>
    rw [fault] at same
    cases same
  next same =>
    rw [fault] at same
    cases same
    rfl

end TokenStream

end YangFormatter
