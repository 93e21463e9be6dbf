import Mathlib.Tactic
import YangFormatter.Proofs.Token.LexicalGrammar

/-! # What tokens cover

The tokens of a text lie side by side from its first byte on (`Token.Tile`). They go to its
end, or to the first place where no token can be read (`Lexer.Unreadable`), which is where
the fault is reported. Whoever meets the fault meets it once: the stream is spent from then
on (`TokenStream.Spent`), whatever is done with it.
-/

namespace YangFormatter

open Quotation Lexer

/-- Tokens that are not empty lie side by side between two offsets, each as long as its text. -/
def Token.Tile : Nat → List Token → Nat → Prop
  | start, [], stop => start = stop
  | start, token :: tokens, stop =>
      token.text ≠ [] ∧ token.span.start = start ∧
        token.span.length = Utf8.length token.text ∧ Tile token.span.stop tokens stop

/-! ## Faults -/

/-- What a text begins with where no token can be read: a carriage return that is not part of
a line break, a quote behind which all such quotes stand behind a backslash, or the mark of a
block comment with no mark for its end behind it. -/
inductive Lexer.Unreadable : Cause → Text → Prop where
  | loneReturn {rest : Text} (alone : rest.head? ≠ some '\n') :
      Unreadable (.unexpectedCharacter ['\r']) ('\r' :: rest)
  | endlessString {quote : Char} {rest : Text} (isQuote : IsQuote quote)
      (escaped : ∀ before after, rest = before ++ quote :: after → before.getLast? = some '\\') :
      Unreadable .unterminatedString (quote :: rest)
  | endlessComment {rest : Text} (endless : ¬ ['*', '/'] <:+: rest) :
      Unreadable .unterminatedComment ('/' :: '*' :: rest)

namespace Lexer

/-- A string with no end shields its quotes. -/
private theorem shields_of_throughQuote {quote : Char} {escaped : Bool} {text : Text}
    (endless : throughQuote quote escaped text = none) : shields quote escaped text = true := by
  induction text generalizing escaped with
  | nil => rfl
  | cons character rest ih =>
      rw [throughQuote] at endless
      split at endless
      · cases endless
      next goesOn =>
        rw [shields, ih (Option.map_eq_none_iff.mp endless), Bool.and_true]
        by_cases own : character = quote
        · simp_all
        · simp [own]

/-- A string has no end exactly if every quote stands behind a backslash. -/
theorem throughQuote_eq_none_iff {quote : Char} {text : Text} :
    throughQuote quote false text = none ↔
      ∀ before after, text = before ++ quote :: after → before.getLast? = some '\\' := by
  have shielded : throughQuote quote false text = none ↔ shields quote false text = true :=
    ⟨shields_of_throughQuote, throughQuote_of_shields⟩
  rw [shielded, LexicalGrammar.shields_iff]
  refine forall₂_congr fun before after => imp_congr_right fun _ => ?_
  cases before.getLast? <;> simp

/-- A comment has no end exactly if its mark is nowhere. -/
theorem throughCommentEnd_eq_none_iff {text : Text} :
    throughCommentEnd text = none ↔ ¬ ['*', '/'] <:+: text := by
  fun_induction throughCommentEnd text with
  | case1 => simp
  | case2 rest => simp [List.infix_cons_iff]
  | case3 character rest noEnd ih =>
      have start : ¬ ['*', '/'] <+: character :: rest := by
        intro begins
        obtain ⟨behind, same⟩ := begins
        cases same
        exact noEnd behind rfl rfl
      rw [Option.map_eq_none_iff, ih, List.infix_cons_iff, or_iff_right start]

end Lexer

/-- The lexer reports a fault exactly where a text begins with one. -/
theorem Lexeme.first_eq_error_iff {head : Char} {tail : Text} {cause : Cause} :
    first head tail = .error cause ↔ Unreadable cause (head :: tail) := by
  constructor
  · intro fault
    unfold first at fault
    split at fault
    · cases fault
    split at fault
    · cases fault
    split at fault
    · cases fault
    split at fault
    next carriage =>
      split at fault
      · cases fault
      next alone =>
        cases fault
        cases carriage
        refine .loneReturn fun feed => ?_
        obtain ⟨rest, same⟩ := List.head?_eq_some_iff.mp feed
        exact alone rest same
    split at fault
    next isQuote =>
      split at fault
      · cases fault
      next endless =>
        cases fault
        exact .endlessString isQuote (throughQuote_eq_none_iff.mp endless)
    split at fault
    · cases fault
    · split at fault
      · cases fault
      next endless =>
        cases fault
        exact .endlessComment (throughCommentEnd_eq_none_iff.mp endless)
    · cases fault
  · intro unreadable
    cases unreadable with
    | loneReturn alone =>
        cases tail with
        | nil => rfl
        | cons next others =>
            have noFeed : next ≠ '\n' := fun feed => alone (congrArg some feed)
            simp [first, TokenKind.ofPunctuation?, isIndent, noFeed]
    | endlessString isQuote escaped =>
        have endless := throughQuote_eq_none_iff.mpr escaped
        rcases isQuote with rfl | rfl
        all_goals
          unfold first
          simp only [TokenKind.ofPunctuation?, isIndent, endless]
          rfl
    | endlessComment endless =>
        unfold first
        simp only [TokenKind.ofPunctuation?, isIndent, throughCommentEnd_eq_none_iff.mpr endless]
        rfl

namespace TokenStream

/-! ## Scanning -/

/-- The tokens of a text tile it from its offset on, up to its end or to where it is not
readable. -/
theorem tile_scan (offset : Nat) (text : Text) :
    ∃ rest, (scan offset text).1.flatMap (·.text) ++ rest = text ∧
      Token.Tile offset (scan offset text).1
        (offset + Utf8.length ((scan offset text).1.flatMap (·.text))) ∧
      ((scan offset text).2 = none ∧ rest = [] ∨
        ∃ cause, Unreadable cause rest ∧ (scan offset text).2 =
          some ⟨cause, offset + Utf8.length ((scan offset text).1.flatMap (·.text))⟩) := by
  match text with
  | [] =>
      rw [scan_nil]
      exact ⟨[], rfl, rfl, .inl ⟨rfl, rfl⟩⟩
  | head :: tail =>
      cases read : Lexeme.first head tail with
      | error cause =>
          rw [scan_cons_of_fault read]
          exact ⟨head :: tail, rfl, rfl, .inr ⟨cause, Lexeme.first_eq_error_iff.mp read, rfl⟩⟩
      | ok pair =>
          obtain ⟨lexeme, remaining⟩ := pair
          obtain ⟨whole, nonempty⟩ := Lexeme.first_text read
          have shorter : remaining.length < (head :: tail).length := by
            have := List.length_pos_iff.mpr nonempty
            rw [← whole, List.length_append]
            omega
          obtain ⟨rest, spelled, tiled, ends⟩ :=
            tile_scan (offset + Utf8.length lexeme.text) remaining
          rw [scan_cons_of_read read]
          refine ⟨rest, ?_, ⟨nonempty, rfl, Nat.add_sub_cancel_left _ _, ?_⟩, ?_⟩
          · rw [List.flatMap_cons, List.append_assoc, spelled]
            exact whole
          · rw [List.flatMap_cons, Utf8.length_append, ← Nat.add_assoc]
            exact tiled
          · rw [List.flatMap_cons, Utf8.length_append, ← Nat.add_assoc]
            exact ends
termination_by text.length
decreasing_by exact shorter

/-! ## Taking tokens -/

/-- What can be done with a stream. -/
inductive Operation where
  | peek
  | next
  | drain
deriving DecidableEq, Repr

/-- The tokens that an operation yields, or the problem that it meets. -/
def perform (stream : TokenStream) : Operation → Except Problem (List Token) × TokenStream
  | .peek => (stream.peek.1.map Option.toList, stream.peek.2)
  | .next => (stream.next.1.map Option.toList, stream.next.2)
  | .drain => stream.drain

/-- The stream after some operations. -/
def after (stream : TokenStream) (operations : List Operation) : TokenStream :=
  operations.foldl (fun stream operation => (stream.perform operation).2) stream

/-- Taking tokens one after the other yields some, and then no more or a problem. -/
inductive Yields : TokenStream → List Token → Option Problem → Prop where
  | ended {stream rest : TokenStream} (ends : stream.next = (.ok none, rest)) :
      Yields stream [] none
  | failed {stream rest : TokenStream} {problem : Problem}
      (fails : stream.next = (.error problem, rest)) : Yields stream [] (some problem)
  | token {stream rest : TokenStream} {token : Token} {tokens : List Token}
      {fault : Option Problem} (takes : stream.next = (.ok (some token), rest))
      (others : Yields rest tokens fault) : Yields stream (token :: tokens) fault

/-- A stream yields its tokens, and its fault if there is one. -/
theorem yields_self (stream : TokenStream) : stream.Yields stream.tokens stream.fault := by
  obtain ⟨tokens, fault, stop⟩ := stream
  induction tokens with
  | nil =>
      cases fault with
      | none => exact .ended rfl
      | some problem => exact .failed rfl
  | cons token tokens ih => exact .token rfl ih

/-- Nothing is left on a stream. -/
structure Spent (stream : TokenStream) : Prop where
  tokens : stream.tokens = []
  fault : stream.fault = none

/-- A spent stream is exhausted. -/
theorem Spent.isExhausted {stream : TokenStream} (spent : stream.Spent) :
    stream.isExhausted = true := by
  rw [TokenStream.isExhausted, spent.tokens, spent.fault]
  rfl

/-- A spent stream yields nothing and stays spent. -/
theorem Spent.perform {stream : TokenStream} (spent : stream.Spent) (operation : Operation) :
    (stream.perform operation).1 = .ok [] ∧ (stream.perform operation).2.Spent := by
  obtain ⟨tokens, fault, stop⟩ := stream
  obtain ⟨rfl, rfl⟩ := spent
  cases operation <;> exact ⟨rfl, rfl, rfl⟩

/-- A spent stream stays spent. -/
theorem Spent.after {stream : TokenStream} (spent : stream.Spent) (operations : List Operation) :
    (stream.after operations).Spent := by
  induction operations generalizing stream with
  | nil => exact spent
  | cons operation operations ih => exact ih (spent.perform operation).2

/-- An operation that fails meets the fault of the stream, and leaves nothing. -/
theorem spent_of_failed {stream : TokenStream} {operation : Operation} {problem : Problem}
    (fails : (stream.perform operation).1 = .error problem) :
    stream.fault = some problem ∧ (stream.perform operation).2.Spent := by
  obtain ⟨tokens, fault, stop⟩ := stream
  cases operation with
  | peek | next =>
      cases tokens with
      | cons token tokens => cases fails
      | nil =>
          cases fault with
          | none => cases fails
          | some own =>
              cases fails
              exact ⟨rfl, rfl, rfl⟩
  | drain =>
      cases fault with
      | none => cases fails
      | some own =>
          cases fails
          exact ⟨rfl, rfl, rfl⟩

/-- No operation brings a fault into a stream. -/
theorem fault_perform {stream : TokenStream} {operation : Operation} {problem : Problem}
    (faulty : (stream.perform operation).2.fault = some problem) :
    stream.fault = some problem := by
  obtain ⟨tokens, fault, stop⟩ := stream
  cases operation with
  | peek | next =>
      cases tokens with
      | cons token tokens => exact faulty
      | nil => cases fault <;> cases faulty
  | drain => cases fault <;> cases faulty

/-- No operations bring a fault into a stream. -/
theorem fault_after {stream : TokenStream} {operations : List Operation} {problem : Problem}
    (faulty : (stream.after operations).fault = some problem) : stream.fault = some problem := by
  induction operations generalizing stream with
  | nil => exact faulty
  | cons operation operations ih => exact fault_perform (ih faulty)

/-- The tokens that a text yields tile it from its first byte on. They go to its end, or to
where it is not readable, and there the problem lies. No other problem is ever met, and after
it there is nothing more. -/
theorem yields_ofText (text : Text) :
    ∃ tokens fault rest, (ofText text).Yields tokens fault ∧
      tokens.flatMap (·.text) ++ rest = text ∧
      Token.Tile 0 tokens (Utf8.length (tokens.flatMap (·.text))) ∧
      (fault = none ∧ rest = [] ∨
        ∃ cause, Unreadable cause rest ∧
          fault = some ⟨cause, Utf8.length (tokens.flatMap (·.text))⟩) ∧
      ∀ earlier operation problem later,
        (((ofText text).after earlier).perform operation).1 = .error problem →
          fault = some problem ∧
            ((ofText text).after (earlier ++ operation :: later)).isExhausted = true ∧
            ∀ further, (((ofText text).after (earlier ++ operation :: later)).perform further).1 =
              .ok [] := by
  obtain ⟨rest, spelled, tiled, ends⟩ := tile_scan 0 text
  rw [Nat.zero_add] at tiled ends
  refine ⟨_, _, rest, yields_self (ofText text), spelled, tiled, ends, ?_⟩
  intro earlier operation problem later fails
  obtain ⟨own, failed⟩ := spent_of_failed fails
  have spent := failed.after later
  have split : (((ofText text).after earlier).perform operation).2.after later =
      (ofText text).after (earlier ++ operation :: later) := by
    rw [after, after, after, List.foldl_append, List.foldl_cons]
  rw [split] at spent
  exact ⟨fault_after own, spent.isExhausted, fun further => (spent.perform further).1⟩

/-- A string whose only further quote stands behind a backslash, after a character of two
bytes. -/
theorem yields_ofText_endless :
    (((ofText "é 'x\\'".toList).after [.next, .next]).perform .peek).1 =
        .error ⟨.unterminatedString, 3⟩ ∧
      ((ofText "é 'x\\'".toList).after [.next, .next, .peek, .next]).isExhausted = true := by
  have fails : (((ofText "é 'x\\'".toList).after [.next, .next]).perform .peek).1 =
      .error ⟨.unterminatedString, 3⟩ := by
    cbv
  obtain ⟨_, _, _, _, _, _, _, spent⟩ := yields_ofText "é 'x\\'".toList
  obtain ⟨_, exhausted, _⟩ := spent [.next, .next] .peek _ [.next] fails
  exact ⟨fails, exhausted⟩

end TokenStream

end YangFormatter
