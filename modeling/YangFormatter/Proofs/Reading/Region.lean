import YangFormatter.Proofs.Reading.Completion

/-! # Where tokens stand

A token stands between statements, in the header of one, or on the line behind a header
(`Region`). The kinds of the tokens before it say which: a header goes from a keyword to the
first semicolon or opening brace behind it. A builder stands where its next token stands
(`TreeBuilder.region_step`), and knows the start of the last token that begins a statement or
belongs to none (`TreeBuilder.lastStart_run`).
-/

namespace YangFormatter

/-- Where a token stands. -/
inductive Region where
  /-- Between statements. -/
  | between
  /-- Behind a keyword, up to the terminator. -/
  | header
  /-- Behind a terminator, with nothing but white space and comments before it. -/
  | trailing
deriving DecidableEq, Repr

namespace Region

/-- The region behind a token of some kind. What stands in no header begins one, unless it
separates other tokens or closes a block. -/
def after : Region → TokenKind → Region
  | .header, .semicolon | .header, .openBlock => .trailing
  | .header, _ => .header
  | region, .whitespace | region, .comment => region
  | _, .lineBreak | _, .closeBlock => .between
  | _, _ => .header

/-- Whether a token of some kind is a keyword, or belongs neither to a header nor to the white
space and comments directly behind one. -/
def isLandmark : Region → TokenKind → Bool
  | .between, _ => true
  | .header, _ => false
  | .trailing, kind => kind != .whitespace && kind != .comment

/-- Behind a header, what is neither white space nor a comment stands between statements. -/
theorem after_trailing {kind : TokenKind} (noSpace : kind ≠ .whitespace)
    (noComment : kind ≠ .comment) : trailing.after kind = between.after kind := by
  cases kind with
  | whitespace => exact (noSpace rfl).elim
  | comment => exact (noComment rfl).elim
  | lineBreak | string | number | date | other | semicolon | plus | openBlock | closeBlock => rfl

end Region

/-- The tokens that are keywords, or belong neither to a header nor to the white space and
comments directly behind one. The first of the tokens stands in a region. -/
def Token.landmarks (region : Region) : List Token → List Token
  | [] => []
  | token :: tokens =>
      if region.isLandmark token.kind then token :: landmarks (region.after token.kind) tokens
      else landmarks (region.after token.kind) tokens

/-- The region that a place lies in. -/
def Place.region : Place → Region
  | .between _ => .between
  | .inHeader _ => .header
  | .afterHeader _ _ => .trailing

/-- The region behind what a token has done to a header, if it stood there. -/
def HeaderStep.region? : HeaderStep → Option Region
  | .more _ => some .header
  | .finished _ _ => some .trailing
  | .refused _ => none

/-- A token within a header leads to the region behind it. -/
theorem HeaderState.region_step (state : HeaderState) (lexeme : Lexeme) {region : Region}
    (stood : (state.step lexeme).region? = some region) :
    region = Region.header.after lexeme.kind := by
  obtain ⟨kind, text⟩ := lexeme
  cases state with
  | value word keywordComments given comments =>
      cases given <;> cases kind <;> cases stood <;> rfl
  | start | keyword | fragment | plus => cases kind <;> cases stood <;> rfl

namespace TreeBuilder

/-- A step within a header leads to the region behind it, and meets no landmark. -/
private theorem region_afterStep {builder next : TreeBuilder} {step : HeaderStep}
    (moved : builder.afterStep step = .ok next) :
    step.region? = some next.place.region ∧ next.lastStart = builder.lastStart := by
  cases step with
  | more state =>
      cases moved
      exact ⟨rfl, rfl⟩
  | finished header opens =>
      cases moved
      exact ⟨rfl, rfl⟩
  | refused cause => cases moved

/-- A token between statements leads to the region behind it, and is the last that was met. -/
private theorem region_stepBetween {builder next : TreeBuilder} {afterBreak : Bool}
    {token : Token} (moved : builder.stepBetween afterBreak token = .ok next) :
    next.place.region = Region.between.after token.kind ∧ next.lastStart = token.start := by
  obtain ⟨⟨kind, text⟩, span⟩ := token
  cases kind with
  | closeBlock =>
      obtain ⟨blocks, siblings, place, lastStart⟩ := builder
      cases blocks with
      | nil => cases moved
      | cons block outer =>
          cases moved
          exact ⟨rfl, rfl⟩
  | whitespace | lineBreak | comment | other =>
      cases moved
      exact ⟨rfl, rfl⟩
  | string | number | date | semicolon | plus | openBlock => cases moved

/-- A builder follows the regions of the tokens, and keeps the starts of landmarks. -/
theorem region_step {builder next : TreeBuilder} {token : Token}
    (moved : builder.step token = .ok next) :
    next.place.region = builder.place.region.after token.kind ∧
      next.lastStart =
        if builder.place.region.isLandmark token.kind then token.start else builder.lastStart := by
  obtain ⟨blocks, siblings, place, lastStart⟩ := builder
  cases place with
  | between afterBreak => exact region_stepBetween moved
  | inHeader state =>
      obtain ⟨stood, kept⟩ := region_afterStep moved
      exact ⟨state.region_step token.toLexeme stood, kept⟩
  | afterHeader header opens =>
      by_cases space : token.kind = .whitespace
      · obtain ⟨⟨kind, text⟩, span⟩ := token
        cases space
        cases moved
        exact ⟨rfl, rfl⟩
      by_cases comment : token.kind = .comment
      · obtain ⟨⟨kind, text⟩, span⟩ := token
        cases comment
        cases moved
        exact ⟨rfl, rfl⟩
      · have landmark : Region.trailing.isLandmark token.kind = true := by
          simp [Region.isLandmark, space, comment]
        rw [step_afterHeader space comment] at moved
        rw [Place.region, Region.after_trailing space comment, if_pos landmark]
        exact region_stepBetween moved

/-- What a builder keeps is the start of the last landmark, if there has been one. -/
theorem lastStart_run {builder final : TreeBuilder} {tokens : List Token}
    (ran : builder.run tokens = .ok final) :
    final.lastStart =
      ((Token.landmarks builder.place.region tokens).getLast?.map Token.start).getD
        builder.lastStart := by
  induction tokens generalizing builder with
  | nil =>
      cases ran
      rfl
  | cons token tokens ih =>
      rw [run] at ran
      split at ran
      next next moved =>
        obtain ⟨region, start⟩ := region_step moved
        rw [ih ran, Token.landmarks, region, start]
        split
        · rw [List.getLast?_cons]
          cases (Token.landmarks _ tokens).getLast? <;> rfl
        · rfl
      next => cases ran

end TreeBuilder

end YangFormatter
