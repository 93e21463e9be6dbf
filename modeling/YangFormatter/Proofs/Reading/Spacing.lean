import YangFormatter.Proofs.Reading.Region
import YangFormatter.Proofs.Token.LexicalGrammar

/-! # What spacing means to a tree

What comes of some tokens is a tree or the cause of a problem (`TreeBuilder.outcome`). White
space plays no part in it, nor does the spelling of line breaks except in the text of an empty
line (`TreeBuilder.outcome_unspaced`), nor do line breaks in headers
(`TreeBuilder.outcome_joinHeaders`).
-/

namespace YangFormatter

/-! ## Tokens -/

namespace Lexeme

/-- A token with a line feed for its line break, if it is one. -/
def unifyBreak (lexeme : Lexeme) : Lexeme :=
  match lexeme.kind with
  | .lineBreak => ⟨.lineBreak, ['\n']⟩
  | _ => lexeme

/-- Some tokens without white space, and with line feeds for all line breaks. -/
def unspaced (lexemes : List Lexeme) : List Lexeme :=
  (lexemes.filter (·.kind != .whitespace)).map unifyBreak

/-- Some tokens without the line breaks in headers. The first of them stands in a region. -/
def joinHeaders (region : Region) : List Lexeme → List Lexeme
  | [] => []
  | lexeme :: lexemes =>
      if region = .header ∧ lexeme.kind = .lineBreak then joinHeaders region lexemes
      else lexeme :: joinHeaders (region.after lexeme.kind) lexemes

theorem unspaced_cons_whitespace {lexeme : Lexeme} (space : lexeme.kind = .whitespace)
    (lexemes : List Lexeme) : unspaced (lexeme :: lexemes) = unspaced lexemes := by
  rw [unspaced, List.filter_cons_of_neg (by simp [space]), unspaced]

theorem unspaced_cons {lexeme : Lexeme} (noSpace : lexeme.kind ≠ .whitespace)
    (lexemes : List Lexeme) :
    unspaced (lexeme :: lexemes) = lexeme.unifyBreak :: unspaced lexemes := by
  rw [unspaced, List.filter_cons_of_pos (by simp [noSpace]), List.map_cons, unspaced]

theorem kind_unifyBreak (lexeme : Lexeme) : lexeme.unifyBreak.kind = lexeme.kind := by
  obtain ⟨kind, text⟩ := lexeme
  cases kind <;> rfl

end Lexeme

/-- A header that has begun does not look at the text of a line break. -/
theorem HeaderState.step_unifyBreak {state : HeaderState} (begun : state ≠ .start)
    (lexeme : Lexeme) : state.step lexeme.unifyBreak = state.step lexeme := by
  obtain ⟨kind, text⟩ := lexeme
  cases kind with
  | lineBreak =>
      cases state with
      | start => exact (begun rfl).elim
      | keyword | value | fragment | plus => rfl
  | whitespace | comment | string | number | date | other | semicolon | plus | openBlock
  | closeBlock => rfl

/-! ## Trees -/

namespace Node

mutual

/-- A node with a line feed for each empty line. -/
def unifyBreaks : Node → Node
  | .leaf header => .leaf header
  | .block header children => .block header (unifyAllBreaks children)
  | .comment text => .comment text
  | .emptyLine _ => .emptyLine ['\n']

/-- Nodes with a line feed for each empty line. -/
def unifyAllBreaks : List Node → List Node
  | [] => []
  | node :: rest => node.unifyBreaks :: unifyAllBreaks rest

end

theorem unifyAllBreaks_eq_map (nodes : List Node) :
    unifyAllBreaks nodes = nodes.map unifyBreaks := by
  induction nodes with
  | nil => rfl
  | cons node rest ih => rw [unifyAllBreaks, ih, List.map_cons]

end Node

/-- An open block with a line feed for each empty line before it. -/
def OpenBlock.unifyBreaks (block : OpenBlock) : OpenBlock :=
  { block with before := block.before.map Node.unifyBreaks }

namespace TreeBuilder

/-- What comes of some tokens, wherever they stand. -/
def outcome (builder : TreeBuilder) : List Lexeme → Except Cause (List Node)
  | [] => (builder.finish 0).mapError Problem.cause
  | lexeme :: lexemes =>
      match builder.read lexeme with
      | .ok next => next.outcome lexemes
      | .error cause => .error cause

theorem outcome_cons_ok {builder next : TreeBuilder} {lexeme : Lexeme}
    (reads : builder.read lexeme = .ok next) (lexemes : List Lexeme) :
    builder.outcome (lexeme :: lexemes) = next.outcome lexemes := by
  rw [outcome, reads]

theorem outcome_cons_error {builder : TreeBuilder} {lexeme : Lexeme} {cause : Cause}
    (refused : builder.read lexeme = .error cause) (lexemes : List Lexeme) :
    builder.outcome (lexeme :: lexemes) = .error cause := by
  rw [outcome, refused]

/-- Why a block is not closed does not depend on the places of tokens. -/
private theorem cause_close (builder : TreeBuilder) :
    builder.close.mapError Problem.cause = builder.unplaced.close.mapError Problem.cause := by
  obtain ⟨_ | ⟨block, outer⟩, siblings, place, lastStart⟩ := builder <;> rfl

/-- Why a tree is not finished does not depend on the places of tokens. -/
private theorem cause_finish (builder : TreeBuilder) (stop : Nat) :
    (builder.finish stop).mapError Problem.cause =
      (builder.unplaced.finish 0).mapError Problem.cause := by
  obtain ⟨blocks, siblings, place, lastStart⟩ := builder
  cases place with
  | between afterBreak => exact cause_close _
  | inHeader state => rfl
  | afterHeader header opens => cases opens <;> exact cause_close _

/-- A run over placed tokens comes to the same, but for the places of problems. -/
theorem cause_run (builder : TreeBuilder) (tokens : List Token) (stop : Nat) :
    ((builder.run tokens).mapError Prod.fst >>= fun final => final.finish stop).mapError
        Problem.cause =
      builder.unplaced.outcome (tokens.map Token.toLexeme) := by
  induction tokens generalizing builder with
  | nil => exact cause_finish builder stop
  | cons token tokens ih =>
      have moved := step_unplaced builder token
      rw [List.map_cons, run]
      cases stepped : builder.step token with
      | ok next =>
          rw [stepped] at moved
          rw [outcome_cons_ok moved.symm, ← ih next]
      | error cause =>
          rw [stepped] at moved
          rw [outcome_cons_error moved.symm]
          rfl

/-! ## Line breaks in headers -/

/-- If a builder stands in a header, its keyword has been read. -/
def Begun (builder : TreeBuilder) : Prop :=
  builder.place ≠ .inHeader .start

/-- A step within a header leaves one that has begun. -/
private theorem begun_afterStep {builder next : TreeBuilder} {state : HeaderState}
    {lexeme : Lexeme} (moved : builder.afterStep (state.step lexeme) = .ok next) : next.Begun := by
  obtain ⟨kind, text⟩ := lexeme
  intro start
  cases state with
  | value word keywordComments given comments =>
      cases given <;> cases kind <;> cases moved <;> cases start
  | start | keyword | fragment | plus => cases kind <;> cases moved <;> cases start

/-- What begins between statements has begun. -/
private theorem begun_stepBetween {builder next : TreeBuilder} {afterBreak : Bool} {token : Token}
    (moved : builder.stepBetween afterBreak token = .ok next) : next.Begun := by
  obtain ⟨⟨kind, text⟩, span⟩ := token
  intro start
  cases kind with
  | closeBlock =>
      obtain ⟨_ | ⟨block, outer⟩, siblings, place, lastStart⟩ := builder <;> cases moved
      cases start
  | whitespace | lineBreak | comment | string | number | date | other | semicolon | plus
  | openBlock => cases moved <;> cases start

/-- A builder that has read a token stands in no header that has not begun. -/
theorem begun_read {builder next : TreeBuilder} {lexeme : Lexeme}
    (moved : builder.read lexeme = .ok next) : next.Begun := by
  obtain ⟨blocks, siblings, place, lastStart⟩ := builder
  cases place with
  | between afterBreak => exact begun_stepBetween moved
  | inHeader state => exact begun_afterStep moved
  | afterHeader header opens =>
      by_cases space : lexeme.kind = .whitespace
      · obtain ⟨kind, text⟩ := lexeme
        cases space
        cases moved
        exact nofun
      by_cases comment : lexeme.kind = .comment
      · obtain ⟨kind, text⟩ := lexeme
        cases comment
        cases moved
        exact nofun
      · rw [read_afterHeader space comment] at moved
        exact begun_stepBetween moved

/-- A line break within a header changes nothing. -/
theorem read_lineBreak {builder : TreeBuilder} (begun : builder.Begun)
    (inside : builder.place.region = .header) {lexeme : Lexeme}
    (breaks : lexeme.kind = .lineBreak) : builder.read lexeme = .ok builder := by
  obtain ⟨kind, text⟩ := lexeme
  obtain ⟨blocks, siblings, place, lastStart⟩ := builder
  cases breaks
  cases place with
  | between | afterHeader => cases inside
  | inHeader state =>
      cases state with
      | start => exact (begun rfl).elim
      | keyword | value | fragment | plus => rfl

/-- Line breaks in headers make no difference. -/
theorem outcome_joinHeaders {builder : TreeBuilder} (begun : builder.Begun)
    (lexemes : List Lexeme) :
    builder.outcome (Lexeme.joinHeaders builder.place.region lexemes) =
      builder.outcome lexemes := by
  induction lexemes generalizing builder with
  | nil => rfl
  | cons lexeme lexemes ih =>
      rw [Lexeme.joinHeaders]
      split
      next inside =>
        rw [outcome_cons_ok (read_lineBreak begun inside.1 inside.2)]
        exact ih begun
      next =>
        cases moved : builder.read lexeme with
        | ok next =>
            have region : next.place.region = builder.place.region.after lexeme.kind :=
              (region_step moved).1
            rw [outcome_cons_ok moved, outcome_cons_ok moved, ← region]
            exact ih (begun_read moved)
        | error cause => rw [outcome_cons_error moved, outcome_cons_error moved]

/-! ## White space -/

/-- A builder with a line feed for each empty line, and without the place of the last token. -/
def unifyBreaks (builder : TreeBuilder) : TreeBuilder where
  blocks := builder.blocks.map OpenBlock.unifyBreaks
  siblings := builder.siblings.map Node.unifyBreaks
  place := builder.place

/-- White space changes nothing but whether the last token was a line break. -/
theorem read_whitespace {builder : TreeBuilder} (begun : builder.Begun) {lexeme : Lexeme}
    (space : lexeme.kind = .whitespace) :
    ∃ next, builder.read lexeme = .ok next ∧ next.unifyBreaks = builder.unifyBreaks := by
  obtain ⟨kind, text⟩ := lexeme
  obtain ⟨blocks, siblings, place, lastStart⟩ := builder
  cases space
  cases place with
  | between | afterHeader => exact ⟨_, rfl, rfl⟩
  | inHeader state =>
      cases state with
      | start => exact (begun rfl).elim
      | keyword | value | fragment | plus => exact ⟨_, rfl, rfl⟩

/-- A step within a header sees no spelling of line breaks. -/
private theorem afterStep_unifyBreaks (builder : TreeBuilder) (step : HeaderStep) :
    (builder.afterStep step).map unifyBreaks = builder.unifyBreaks.afterStep step := by
  cases step <;> rfl

/-- Between statements, only the empty lines show how line breaks are spelled. -/
private theorem stepBetween_unifyBreak (builder : TreeBuilder) (afterBreak : Bool)
    (lexeme : Lexeme) :
    (builder.stepBetween afterBreak { lexeme with span := .point 0 }).map unifyBreaks =
      builder.unifyBreaks.stepBetween afterBreak { lexeme.unifyBreak with span := .point 0 } := by
  obtain ⟨kind, text⟩ := lexeme
  cases kind with
  | lineBreak => cases afterBreak <;> rfl
  | closeBlock =>
      obtain ⟨_ | ⟨block, outer⟩, siblings, place, lastStart⟩ := builder
      · rfl
      · have closed : Node.unifyBreaks (.block block.header siblings.reverse) =
            .block block.header (siblings.map Node.unifyBreaks).reverse := by
          rw [Node.unifyBreaks, Node.unifyAllBreaks_eq_map, List.map_reverse]
        exact congrArg (fun node => Except.ok (TreeBuilder.mk (outer.map OpenBlock.unifyBreaks)
          (node :: block.before.map Node.unifyBreaks) (.between false) 0)) closed
  | whitespace | comment | string | number | date | other | semicolon | plus | openBlock => rfl

/-- Adding a statement sees no spelling of line breaks. -/
private theorem addStatement_unifyBreaks (builder : TreeBuilder) (header : Header) (opens : Bool) :
    (builder.addStatement header opens).unifyBreaks =
      builder.unifyBreaks.addStatement header opens := by
  cases opens <;> rfl

/-- Only the empty lines of a builder show how line breaks are spelled. -/
theorem read_unifyBreak {builder : TreeBuilder} (begun : builder.Begun) (lexeme : Lexeme) :
    (builder.read lexeme).map unifyBreaks = builder.unifyBreaks.read lexeme.unifyBreak := by
  obtain ⟨blocks, siblings, place, lastStart⟩ := builder
  cases place with
  | between afterBreak => exact stepBetween_unifyBreak _ _ _
  | inHeader state =>
      have started : state ≠ .start := fun start => begun (congrArg Place.inHeader start)
      rw [read_inHeader, afterStep_unifyBreaks, ← HeaderState.step_unifyBreak started]
      rfl
  | afterHeader header opens =>
      by_cases space : lexeme.kind = .whitespace
      · obtain ⟨kind, text⟩ := lexeme
        cases space
        rfl
      by_cases comment : lexeme.kind = .comment
      · obtain ⟨kind, text⟩ := lexeme
        cases comment
        rfl
      · rw [read_afterHeader space comment, stepBetween_unifyBreak, addStatement_unifyBreaks]
        rw [← lexeme.kind_unifyBreak] at space comment
        exact (read_afterHeader space comment).symm

/-- Closing a builder sees no spelling of line breaks. -/
theorem close_unifyBreaks (builder : TreeBuilder) :
    (builder.close.mapError Problem.cause).map (List.map Node.unifyBreaks) =
      builder.unifyBreaks.close.mapError Problem.cause := by
  obtain ⟨_ | ⟨block, outer⟩, siblings, place, lastStart⟩ := builder
  · exact congrArg Except.ok List.map_reverse
  · rfl

/-- Finishing a tree sees no spelling of line breaks. -/
theorem finish_unifyBreaks (builder : TreeBuilder) :
    ((builder.finish 0).mapError Problem.cause).map (List.map Node.unifyBreaks) =
      (builder.unifyBreaks.finish 0).mapError Problem.cause := by
  obtain ⟨blocks, siblings, place, lastStart⟩ := builder
  cases place with
  | between afterBreak => exact close_unifyBreaks _
  | inHeader state => rfl
  | afterHeader header opens => cases opens <;> exact close_unifyBreaks _

/-- White space makes no difference, and line breaks make the same however they are spelled. -/
theorem outcome_unspaced {builder : TreeBuilder} (begun : builder.Begun) (lexemes : List Lexeme) :
    (builder.outcome lexemes).map (List.map Node.unifyBreaks) =
      builder.unifyBreaks.outcome (Lexeme.unspaced lexemes) := by
  induction lexemes generalizing builder with
  | nil => exact finish_unifyBreaks builder
  | cons lexeme lexemes ih =>
      by_cases space : lexeme.kind = .whitespace
      · obtain ⟨next, moved, same⟩ := read_whitespace begun space
        rw [outcome_cons_ok moved, ih (begun_read moved), same,
          Lexeme.unspaced_cons_whitespace space]
      · have own := read_unifyBreak begun lexeme
        rw [Lexeme.unspaced_cons space]
        cases moved : builder.read lexeme with
        | ok next =>
            rw [moved] at own
            rw [outcome_cons_ok moved, outcome_cons_ok own.symm, ih (begun_read moved)]
        | error cause =>
            rw [moved] at own
            rw [outcome_cons_error moved, outcome_cons_error own.symm]
            rfl

end TreeBuilder

/-! ## Texts -/

/-- What comes of a text that can be split into tokens is what comes of these. -/
theorem Text.cause_parse {text : Text} {tokens : List Token}
    (scanned : TokenStream.tokenize text = .ok tokens) :
    text.parse.mapError Problem.cause =
      TreeBuilder.outcome {} (tokens.map Token.toLexeme) := by
  have read := TreeBuilder.cause_run {} tokens (Utf8.length text)
  refine Eq.trans ?_ read
  unfold Text.parse TokenStream.ofText TokenStream.readTree
  rw [TokenStream.tokenize_eq_ok_iff.mp scanned]
  dsimp only
  cases TreeBuilder.run {} tokens <;> rfl

/-- But for the places of problems and the spelling of empty lines, what comes of a text depends
only on its tokens without white space and without the line breaks in headers. -/
theorem Text.cause_parse_unspaced {text : Text} {tokens : List Token}
    (scanned : TokenStream.tokenize text = .ok tokens) :
    (text.parse.mapError Problem.cause).map (List.map Node.unifyBreaks) =
      TreeBuilder.outcome {}
        (Lexeme.joinHeaders .between (Lexeme.unspaced (tokens.map Token.toLexeme))) := by
  have begun : TreeBuilder.Begun {} := nofun
  rw [Text.cause_parse scanned, TreeBuilder.outcome_unspaced begun]
  exact (TreeBuilder.outcome_joinHeaders begun _).symm

end YangFormatter
