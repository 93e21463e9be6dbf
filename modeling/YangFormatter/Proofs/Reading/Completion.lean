import YangFormatter.Proofs.Token.Grammar
import YangFormatter.Reading.Tree

/-! # Reading without places

Where a token stands decides only where a problem is reported. Apart from that the
tree builder reads tokens without their places (`TreeBuilder.read`), and a text has
a tree exactly when it is put together from tokens that a builder completes to that
tree (`Text.parse_eq_ok_iff`).
-/

namespace YangFormatter

namespace TreeBuilder

/-- The builder without the place of the last token. -/
def unplaced (builder : TreeBuilder) : TreeBuilder :=
  { builder with lastStart := 0 }

/-- Reads one more token, wherever it stands. -/
def read (builder : TreeBuilder) (lexeme : Lexeme) : Except Cause TreeBuilder :=
  builder.step { lexeme with span := .point 0 }

theorem read_inHeader (blocks : List OpenBlock) (siblings : List Node) (state : HeaderState)
    (lastStart : Nat) (lexeme : Lexeme) :
    read ⟨blocks, siblings, .inHeader state, lastStart⟩ lexeme =
      afterStep ⟨blocks, siblings, .inHeader state, lastStart⟩ (state.step lexeme) := rfl

/-- Behind a header, whatever else than a space or a comment stands there comes after
the statement. -/
theorem step_afterHeader {blocks : List OpenBlock} {siblings : List Node} {header : Header}
    {opens : Bool} {lastStart : Nat} {token : Token} (noSpace : token.kind ≠ .whitespace)
    (noComment : token.kind ≠ .comment) :
    step ⟨blocks, siblings, .afterHeader header opens, lastStart⟩ token =
      (addStatement ⟨blocks, siblings, .afterHeader header opens, lastStart⟩ header
        opens).stepBetween false token := by
  obtain ⟨⟨kind, text⟩, span⟩ := token
  cases kind with
  | whitespace => exact (noSpace rfl).elim
  | comment => exact (noComment rfl).elim
  | lineBreak | string | number | date | other | semicolon | plus | openBlock | closeBlock => rfl

theorem read_afterHeader {blocks : List OpenBlock} {siblings : List Node} {header : Header}
    {opens : Bool} {lastStart : Nat} {lexeme : Lexeme} (noSpace : lexeme.kind ≠ .whitespace)
    (noComment : lexeme.kind ≠ .comment) :
    read ⟨blocks, siblings, .afterHeader header opens, lastStart⟩ lexeme =
      (addStatement ⟨blocks, siblings, .afterHeader header opens, lastStart⟩ header
        opens).stepBetween false { lexeme with span := .point 0 } :=
  step_afterHeader noSpace noComment

/-- Some tokens complete a tree. -/
inductive Completes : TreeBuilder → List Lexeme → List Node → Prop where
  | finish {builder : TreeBuilder} {nodes : List Node} (finished : builder.finish 0 = .ok nodes) :
      Completes builder [] nodes
  | step {builder next : TreeBuilder} {lexeme : Lexeme} {lexemes : List Lexeme}
      {nodes : List Node} (reads : builder.read lexeme = .ok next)
      (completes : Completes next lexemes nodes) : Completes builder (lexeme :: lexemes) nodes

/-- A step within a header does not depend on the places of tokens. -/
private theorem afterStep_unplaced (builder : TreeBuilder) (step : HeaderStep) :
    (builder.afterStep step).map unplaced = builder.unplaced.afterStep step := by
  cases step <;> rfl

/-- A token between statements does not depend on its place. -/
private theorem stepBetween_unplaced (builder : TreeBuilder) (afterBreak : Bool) (token : Token) :
    (builder.stepBetween afterBreak token).map unplaced =
      builder.unplaced.stepBetween afterBreak { token.toLexeme with span := .point 0 } := by
  obtain ⟨⟨kind, text⟩, span⟩ := token
  cases kind with
  | closeBlock => cases blocks : builder.blocks <;> simp [stepBetween, unplaced, blocks] <;> rfl
  | whitespace | lineBreak | comment | string | number | date | other | semicolon | plus
  | openBlock => rfl

/-- What a token does to a builder does not depend on where it stands. -/
theorem step_unplaced (builder : TreeBuilder) (token : Token) :
    (builder.step token).map unplaced = builder.unplaced.read token.toLexeme := by
  obtain ⟨blocks, siblings, place, lastStart⟩ := builder
  cases place with
  | between afterBreak => exact stepBetween_unplaced _ _ _
  | inHeader state => exact afterStep_unplaced _ _
  | afterHeader header opens =>
      obtain ⟨⟨kind, text⟩, span⟩ := token
      cases kind with
      | closeBlock => cases opens <;> cases blocks <;> rfl
      | whitespace | comment => rfl
      | lineBreak | string | number | date | other | semicolon | plus | openBlock =>
          cases opens <;> rfl

/-- Closing a builder does not depend on the places of tokens. -/
private theorem close_unplaced (builder : TreeBuilder) (nodes : List Node) :
    builder.close = .ok nodes ↔ builder.unplaced.close = .ok nodes := by
  unfold close unplaced
  split <;> simp

/-- Finishing a tree does not depend on the places of tokens. -/
theorem finish_unplaced (builder : TreeBuilder) (stop : Nat) (nodes : List Node) :
    builder.finish stop = .ok nodes ↔ builder.unplaced.finish 0 = .ok nodes := by
  obtain ⟨blocks, siblings, place, lastStart⟩ := builder
  cases place with
  | between afterBreak => exact close_unplaced _ _
  | inHeader state => simp [finish, unplaced]
  | afterHeader header opens =>
      refine (close_unplaced _ _).trans ?_
      cases opens <;> rfl

/-- A run over placed tokens ends in a tree exactly when the tokens complete it. -/
theorem completes_iff_run (builder : TreeBuilder) (tokens : List Token) (stop : Nat)
    (nodes : List Node) :
    Completes builder.unplaced (tokens.map Token.toLexeme) nodes ↔
      ∃ final, builder.run tokens = .ok final ∧ final.finish stop = .ok nodes := by
  induction tokens generalizing builder with
  | nil =>
      constructor
      · rintro (⟨finished⟩ | _)
        exact ⟨builder, rfl, (finish_unplaced _ _ _).mpr finished⟩
      · rintro ⟨final, same, finished⟩
        cases same
        exact .finish ((finish_unplaced _ _ _).mp finished)
  | cons token tokens ih =>
      have moved := step_unplaced builder token
      rw [List.map_cons, run]
      cases stepped : builder.step token with
      | error cause =>
          rw [stepped] at moved
          constructor
          · rintro (_ | ⟨reads, _⟩)
            rw [← moved] at reads
            cases reads
          · rintro ⟨final, same, _⟩
            cases same
      | ok next =>
          rw [stepped] at moved
          rw [← ih next]
          constructor
          · rintro (_ | ⟨reads, completes⟩)
            rw [← moved] at reads
            cases reads
            exact completes
          · exact .step moved.symm

end TreeBuilder

open TreeBuilder

/-- A text has a tree exactly when it consists of tokens that complete that tree. -/
theorem Text.parse_eq_ok_iff {text : Text} {nodes : List Node} :
    text.parse = .ok nodes ↔ ∃ lexemes, Lexes text lexemes ∧ Completes {} lexemes nodes := by
  have start : unplaced {} = {} := rfl
  constructor
  · intro parsed
    unfold Text.parse TokenStream.readTree TokenStream.ofText at parsed
    dsimp only at parsed
    split at parsed
    · cases parsed
    next final ran =>
      split at parsed
      · cases parsed
      next sound =>
        refine ⟨_, TokenStream.lexes_of_scan 0 text sound, ?_⟩
        rw [← start, completes_iff_run {} _ (Utf8.length text)]
        exact ⟨final, ran, parsed⟩
  · rintro ⟨lexemes, lexes, completes⟩
    obtain ⟨sound, rfl⟩ := TokenStream.scan_of_lexes lexes 0
    rw [← start, completes_iff_run {} _ (Utf8.length text)] at completes
    obtain ⟨final, ran, finished⟩ := completes
    unfold Text.parse TokenStream.readTree TokenStream.ofText
    dsimp only
    rw [ran, sound]
    exact finished

end YangFormatter
