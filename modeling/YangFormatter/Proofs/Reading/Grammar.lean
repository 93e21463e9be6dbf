import YangFormatter.Proofs.Reading.Completion
import YangFormatter.Proofs.Token.LexicalGrammar

/-! # The grammar of statements

Which lists of tokens make up a file (`Grammar.Items`). Only the kinds of the tokens
matter. A builder accepts tokens by its shape alone, the number of open blocks and how far
a header has been read (`TreeBuilder.shape_read`), and what it still has to meet is the
rest of a derivation (`Grammar.Continues`). So a text has a tree exactly if the grammar
derives its tokens (`Text.parse_iff_items`).
-/

namespace YangFormatter

namespace Grammar

/-! ## Derivations -/

/-- White space, line breaks and comments, in any order. -/
def Trivia (kinds : List TokenKind) : Prop :=
  ∀ kind ∈ kinds, kind.isTrivia = true

/-- A kind of token that can be a value by itself. -/
def IsValue (kind : TokenKind) : Prop :=
  kind.isTrivia = false ∧ kind.isTerminator = false

/-- Strings behind plus signs, one or more. -/
inductive Joined : List TokenKind → Prop where
  | once {before after : List TokenKind} (blank : Trivia before) (blank' : Trivia after) :
      Joined (.plus :: (before ++ .string :: after))
  | more {before after others : List TokenKind} (blank : Trivia before) (blank' : Trivia after)
      (joined : Joined others) : Joined (.plus :: (before ++ .string :: (after ++ others)))

/-- A statement up to its terminator: a keyword, and then nothing, a value, or strings
that are joined. -/
inductive Heading : List TokenKind → Prop where
  | bare {before : List TokenKind} (blank : Trivia before) : Heading (.other :: before)
  | value {before after : List TokenKind} {kind : TokenKind} (blank : Trivia before)
      (value : IsValue kind) (blank' : Trivia after) :
      Heading (.other :: (before ++ kind :: after))
  | concatenation {before after others : List TokenKind} (blank : Trivia before)
      (blank' : Trivia after) (joined : Joined others) :
      Heading (.other :: (before ++ .string :: (after ++ others)))

mutual

/-- Statements with trivia between them. -/
inductive Items : List TokenKind → Prop where
  | nil : Items []
  | trivia {kind : TokenKind} {rest : List TokenKind} (blank : kind.isTrivia = true)
      (items : Items rest) : Items (kind :: rest)
  | statement {kinds rest : List TokenKind} (statement : Statement kinds) (items : Items rest) :
      Items (kinds ++ rest)

/-- A keyword with what belongs to it, and a semicolon or a block. -/
inductive Statement : List TokenKind → Prop where
  | intro {heading ending : List TokenKind} (heads : Heading heading)
      (terminates : Terminator ending) : Statement (heading ++ ending)

/-- A semicolon, or a block. -/
inductive Terminator : List TokenKind → Prop where
  | semicolon : Terminator [.semicolon]
  | block {inner : List TokenKind} (items : Items inner) :
      Terminator (.openBlock :: (inner ++ [.closeBlock]))

end

end Grammar

/-! ## Shapes -/

/-- How far a header has been read, whatever it holds. -/
inductive HeaderPhase where
  | start
  | keyword
  | string
  | value
  | fragment
  | plus
deriving DecidableEq, Repr

/-- What a kind of token does to a header. -/
inductive HeaderMove where
  | more (phase : HeaderPhase)
  | finished (opens : Bool)
  | refused
deriving DecidableEq, Repr

namespace HeaderPhase

/-- What a token of some kind does to a header of which a part has been read. -/
def step (phase : HeaderPhase) (kind : TokenKind) : HeaderMove :=
  match phase, kind with
  | .start, .other => .more .keyword
  | .start, _ => .refused
  | phase, .whitespace | phase, .lineBreak | phase, .comment => .more phase
  | .keyword, .string => .more .string
  | .plus, .string => .more .fragment
  | .plus, _ => .refused
  | _, .semicolon => .finished false
  | _, .openBlock => .finished true
  | .string, .plus | .fragment, .plus => .more .plus
  | .keyword, _ => .more .value
  | _, _ => .refused

/-- Trivia leave a header as it is once its keyword has been read. -/
theorem step_trivia {phase : HeaderPhase} {kind : TokenKind} (blank : kind.isTrivia = true)
    (begun : phase ≠ .start) : phase.step kind = .more phase := by
  cases phase with
  | start => exact (begun rfl).elim
  | keyword | string | value | fragment | plus => cases kind <;> cases blank <;> rfl

end HeaderPhase

/-- How far a header has been read, without the texts that were read. -/
def HeaderState.phase : HeaderState → HeaderPhase
  | .start => .start
  | .keyword _ _ => .keyword
  | .value _ _ (.quoted _) _ => .string
  | .value _ _ _ _ => .value
  | .fragment _ _ _ _ => .fragment
  | .plus _ _ _ _ => .plus

/-- What a token does to a header, without the texts that were read. -/
def HeaderStep.move : HeaderStep → HeaderMove
  | .more state => .more state.phase
  | .finished _ opens => .finished opens
  | .refused _ => .refused

/-- What a token does to a header depends on its kind and on the phase only. -/
theorem HeaderState.move_step (state : HeaderState) (lexeme : Lexeme) :
    (state.step lexeme).move = state.phase.step lexeme.kind := by
  obtain ⟨kind, text⟩ := lexeme
  cases state with
  | value word keywordComments given comments => cases given <;> cases kind <;> rfl
  | start | keyword | fragment | plus => cases kind <;> rfl

/-- Where a builder stands: how many blocks are open, and how far the header has been read
that it stands in. -/
structure Shape where
  depth : Nat
  header : Option HeaderPhase
deriving DecidableEq, Repr

namespace Shape

/-- The number of open blocks behind a header. -/
def behind (depth : Nat) (opens : Bool) : Nat :=
  if opens then depth + 1 else depth

/-- Where a builder stands after a token that belongs to a header. -/
def after (depth : Nat) : HeaderMove → Option Shape
  | .more phase => some ⟨depth, some phase⟩
  | .finished opens => some ⟨behind depth opens, none⟩
  | .refused => none

/-- Where a builder stands after one more token, if the token can stand there. -/
def step (shape : Shape) (kind : TokenKind) : Option Shape :=
  match shape.header, kind with
  | some phase, kind => after shape.depth (phase.step kind)
  | none, .whitespace | none, .lineBreak | none, .comment => some shape
  | none, .closeBlock =>
      match shape.depth with
      | 0 => none
      | depth + 1 => some ⟨depth, none⟩
  | none, kind => after shape.depth (HeaderPhase.start.step kind)

/-- Where a builder stands after some tokens, if it can read them all. -/
def run (shape : Shape) (kinds : List TokenKind) : Option Shape :=
  kinds.foldlM step shape

end Shape

namespace TreeBuilder

/-- Where a builder stands. Behind a header the statement counts as added. -/
def shape (builder : TreeBuilder) : Shape :=
  match builder.place with
  | .between _ => ⟨builder.blocks.length, none⟩
  | .inHeader state => ⟨builder.blocks.length, some state.phase⟩
  | .afterHeader _ opens => ⟨Shape.behind builder.blocks.length opens, none⟩

/-- Going on with a header changes the shape as the move of the header does. -/
private theorem shape_afterStep (builder : TreeBuilder) (step : HeaderStep) :
    (builder.afterStep step).toOption.map shape = Shape.after builder.blocks.length step.move := by
  cases step <;> rfl

/-- Between statements, what a token does to the shape depends on its kind only. -/
private theorem shape_stepBetween (builder : TreeBuilder) (afterBreak : Bool) (token : Token) :
    (builder.stepBetween afterBreak token).toOption.map shape =
      Shape.step ⟨builder.blocks.length, none⟩ token.kind := by
  obtain ⟨⟨kind, text⟩, span⟩ := token
  obtain ⟨blocks, siblings, place, lastStart⟩ := builder
  cases kind with
  | closeBlock => cases blocks <;> rfl
  | whitespace | lineBreak | comment | string | number | date | other | semicolon | plus
  | openBlock => rfl

/-- What a token does to the shape of a builder depends on its kind and on the shape only. -/
theorem shape_read (builder : TreeBuilder) (lexeme : Lexeme) :
    (builder.read lexeme).toOption.map shape = builder.shape.step lexeme.kind := by
  obtain ⟨blocks, siblings, place, lastStart⟩ := builder
  cases place with
  | between afterBreak => exact shape_stepBetween _ _ _
  | inHeader state =>
      rw [read_inHeader, shape_afterStep, HeaderState.move_step]
      rfl
  | afterHeader header opens =>
      by_cases space : lexeme.kind = .whitespace
      · obtain ⟨kind, text⟩ := lexeme
        cases space
        rfl
      by_cases comment : lexeme.kind = .comment
      · obtain ⟨kind, text⟩ := lexeme
        cases comment
        rfl
      · rw [read_afterHeader space comment, shape_stepBetween]
        cases opens <;> rfl

/-- A builder can be closed exactly if it has no open blocks. -/
private theorem close_iff_shape (builder : TreeBuilder) :
    (∃ nodes, builder.close = .ok nodes) ↔ builder.blocks.length = 0 := by
  unfold close
  cases builder.blocks <;> simp

/-- Some tokens complete a tree exactly if they lead the shape of the builder back to that
of an empty one. -/
theorem completes_iff_shape (builder : TreeBuilder) (lexemes : List Lexeme) :
    (∃ nodes, Completes builder lexemes nodes) ↔
      builder.shape.run (lexemes.map Lexeme.kind) = some ⟨0, none⟩ := by
  induction lexemes generalizing builder with
  | nil =>
      have finishes : (∃ nodes, Completes builder [] nodes) ↔
          ∃ nodes, builder.finish 0 = .ok nodes := by
        constructor
        · rintro ⟨nodes, ⟨finished⟩⟩
          exact ⟨nodes, finished⟩
        · rintro ⟨nodes, finished⟩
          exact ⟨nodes, .finish finished⟩
      rw [finishes]
      obtain ⟨blocks, siblings, place, lastStart⟩ := builder
      cases place with
      | between afterBreak =>
          refine (close_iff_shape _).trans ?_
          simp [Shape.run, shape]
      | inHeader state => simp [Shape.run, shape, finish]
      | afterHeader header opens =>
          refine (close_iff_shape _).trans ?_
          cases opens <;> simp [Shape.run, shape, Shape.behind, addStatement]
  | cons lexeme lexemes ih =>
      have moved := shape_read builder lexeme
      rw [List.map_cons, Shape.run, List.foldlM_cons, ← moved]
      cases reads : builder.read lexeme with
      | error cause =>
          constructor
          · rintro ⟨nodes, _ | ⟨reads', _⟩⟩
            rw [reads] at reads'
            cases reads'
          · intro run
            cases run
      | ok next =>
          refine Iff.trans ?_ (ih next)
          constructor
          · rintro ⟨nodes, _ | ⟨reads', completes⟩⟩
            rw [reads] at reads'
            cases reads'
            exact ⟨nodes, completes⟩
          · rintro ⟨nodes, completes⟩
            exact ⟨nodes, .step reads completes⟩

end TreeBuilder

namespace Grammar

/-! ## What a shape still has to meet -/

theorem Trivia.cons {kind : TokenKind} {kinds : List TokenKind} (blank : kind.isTrivia = true)
    (others : Trivia kinds) : Trivia (kind :: kinds) :=
  List.forall_mem_cons.mpr ⟨blank, others⟩

theorem Trivia.nil : Trivia [] :=
  fun _ member => (List.not_mem_nil member).elim

/-- What may stand behind a string up to the terminator. -/
def Further (kinds : List TokenKind) : Prop :=
  ∃ after others, Trivia after ∧ (others = [] ∨ Joined others) ∧ kinds = after ++ others

/-- The rest of a heading of which a part has been read. -/
def Remainder : HeaderPhase → List TokenKind → Prop
  | .start, kinds => Heading kinds
  | .keyword, kinds => Heading (.other :: kinds)
  | .string, kinds | .fragment, kinds => Further kinds
  | .value, kinds => Trivia kinds
  | .plus, kinds => Joined (.plus :: kinds)

/-- What closes the open blocks. -/
inductive Closes : Nat → List TokenKind → Prop where
  | items {kinds : List TokenKind} (items : Items kinds) : Closes 0 kinds
  | block {depth : Nat} {inner rest : List TokenKind} (items : Items inner)
      (outer : Closes depth rest) : Closes (depth + 1) (inner ++ .closeBlock :: rest)

/-- The kind of token that ends a header. -/
def terminator (opens : Bool) : TokenKind :=
  if opens then .openBlock else .semicolon

/-- What completes a derivation of which a builder has read a part. -/
def Continues (shape : Shape) (kinds : List TokenKind) : Prop :=
  match shape.header with
  | none => Closes shape.depth kinds
  | some phase =>
      ∃ heading opens rest, Remainder phase heading ∧
        Closes (Shape.behind shape.depth opens) rest ∧
          kinds = heading ++ terminator opens :: rest

/-- Trivia may stand before whatever goes on with a string. -/
theorem Further.trivia {kind : TokenKind} {kinds : List TokenKind} (blank : kind.isTrivia = true)
    (further : Further kinds) : Further (kind :: kinds) := by
  obtain ⟨after, others, blank', joined, rfl⟩ := further
  exact ⟨kind :: after, others, blank'.cons blank, joined, rfl⟩

/-- A keyword, a string and what goes on with the string are the heading of a statement. -/
theorem Further.heading {kinds : List TokenKind} (further : Further kinds) :
    Heading (.other :: .string :: kinds) := by
  obtain ⟨after, others, blank, rfl | joined, rfl⟩ := further
  · rw [List.append_nil]
    exact @Heading.value [] _ .string .nil ⟨rfl, rfl⟩ blank
  · exact @Heading.concatenation [] _ _ .nil blank joined

/-- A string behind a plus sign may be gone on with as the first one may. -/
theorem Further.joined {kinds : List TokenKind} (further : Further kinds) :
    Joined (.plus :: .string :: kinds) := by
  obtain ⟨after, others, blank, rfl | joined, rfl⟩ := further
  · rw [List.append_nil]
    exact @Joined.once [] _ .nil blank
  · exact @Joined.more [] _ _ .nil blank joined

theorem Further.plus {kinds : List TokenKind} (joined : Joined (.plus :: kinds)) :
    Further (.plus :: kinds) :=
  ⟨[], _, .nil, .inr joined, rfl⟩

/-- Trivia may stand directly behind the keyword of a heading. -/
private theorem heading_trivia {kind : TokenKind} {kinds : List TokenKind}
    (blank : kind.isTrivia = true) (heading : Heading (.other :: kinds)) :
    Heading (.other :: kind :: kinds) := by
  cases heading with
  | bare before => exact .bare (before.cons blank)
  | value before value after => exact @Heading.value (kind :: _) _ _ (before.cons blank) value after
  | concatenation before after joined =>
      exact @Heading.concatenation (kind :: _) _ _ (before.cons blank) after joined

/-- Trivia may stand directly behind a plus sign. -/
private theorem joined_trivia {kind : TokenKind} {kinds : List TokenKind}
    (blank : kind.isTrivia = true) (joined : Joined (.plus :: kinds)) :
    Joined (.plus :: kind :: kinds) := by
  cases joined with
  | once before after => exact @Joined.once (kind :: _) _ (before.cons blank) after
  | more before after joined => exact @Joined.more (kind :: _) _ _ (before.cons blank) after joined

/-- Trivia may stand before what is left of a heading, except at its very start. -/
private theorem Remainder.trivia {phase : HeaderPhase} {kind : TokenKind} {kinds : List TokenKind}
    (blank : kind.isTrivia = true) (begun : phase ≠ .start) (rest : Remainder phase kinds) :
    Remainder phase (kind :: kinds) := by
  cases phase with
  | start => exact (begun rfl).elim
  | keyword => exact heading_trivia blank rest
  | string | fragment => exact Further.trivia blank rest
  | value => exact Trivia.cons blank rest
  | plus => exact joined_trivia blank rest

/-- A token that goes on with a heading belongs to it. -/
theorem Remainder.cons {phase next : HeaderPhase} {kind : TokenKind} {kinds : List TokenKind}
    (moved : phase.step kind = .more next) (rest : Remainder next kinds) :
    Remainder phase (kind :: kinds) := by
  cases phase with
  | start => cases kind <;> cases moved; exact rest
  | keyword =>
      cases kind with
      | whitespace | lineBreak | comment =>
          cases moved
          exact rest.trivia rfl nofun
      | string =>
          cases moved
          exact rest.heading
      | number | date | other | plus | closeBlock =>
          cases moved
          exact @Heading.value [] _ _ .nil ⟨rfl, rfl⟩ rest
      | semicolon | openBlock => cases moved
  | string | fragment =>
      cases kind with
      | whitespace | lineBreak | comment =>
          cases moved
          exact rest.trivia rfl nofun
      | plus =>
          cases moved
          exact Further.plus rest
      | string | number | date | other | closeBlock | semicolon | openBlock => cases moved
  | value =>
      cases kind with
      | whitespace | lineBreak | comment =>
          cases moved
          exact rest.trivia rfl nofun
      | plus | string | number | date | other | closeBlock | semicolon | openBlock => cases moved
  | plus =>
      cases kind with
      | whitespace | lineBreak | comment =>
          cases moved
          exact rest.trivia rfl nofun
      | string =>
          cases moved
          exact rest.joined
      | plus | number | date | other | closeBlock | semicolon | openBlock => cases moved

/-- A token that ends a heading is a terminator, and nothing of the heading is left. -/
theorem Remainder.nil {phase : HeaderPhase} {kind : TokenKind} {opens : Bool}
    (moved : phase.step kind = .finished opens) :
    Remainder phase [] ∧ kind = terminator opens := by
  have further : Further [] := ⟨[], [], .nil, .inl rfl, rfl⟩
  cases phase with
  | start | plus => cases kind <;> cases moved
  | keyword => cases kind <;> cases moved <;> exact ⟨.bare .nil, rfl⟩
  | string | fragment => cases kind <;> cases moved <;> exact ⟨further, rfl⟩
  | value => cases kind <;> cases moved <;> exact ⟨Trivia.nil, rfl⟩

/-- Trivia may stand before what closes the open blocks. -/
theorem Closes.trivia {depth : Nat} {kind : TokenKind} {kinds : List TokenKind}
    (blank : kind.isTrivia = true) (closes : Closes depth kinds) :
    Closes depth (kind :: kinds) := by
  cases closes with
  | items items => exact .items (.trivia blank items)
  | block items outer => exact .block (.trivia blank items) outer

/-- A statement may stand before what closes the open blocks. -/
theorem Closes.statement {depth : Nat} {kinds rest : List TokenKind} (statement : Statement kinds)
    (closes : Closes depth rest) : Closes depth (kinds ++ rest) := by
  cases closes with
  | items items => exact .items (.statement statement items)
  | block items outer =>
      rw [← List.append_assoc]
      exact .block (.statement statement items) outer

/-- A heading and its terminator stand before what closes the block that they open. -/
theorem Closes.heading {depth : Nat} {opens : Bool} {heading rest : List TokenKind}
    (heads : Heading heading) (closes : Closes (Shape.behind depth opens) rest) :
    Closes depth (heading ++ terminator opens :: rest) := by
  cases opens with
  | false =>
      have leaf := Closes.statement (.intro heads .semicolon) closes
      rwa [List.append_assoc] at leaf
  | true =>
      cases closes with
      | block items outer =>
          have block := Closes.statement (.intro heads (.block items)) outer
          rwa [List.append_assoc, List.cons_append, List.append_assoc] at block

/-- What goes on behind a token of a header goes on with the token in front as well. -/
private theorem continues_after {depth : Nat} {phase : HeaderPhase} {kind : TokenKind}
    {next : Shape} {kinds : List TokenKind}
    (moved : Shape.after depth (phase.step kind) = some next) (continues : Continues next kinds) :
    Continues ⟨depth, some phase⟩ (kind :: kinds) := by
  cases step : phase.step kind with
  | more other =>
      rw [step] at moved
      cases moved
      obtain ⟨heading, opens, rest, remainder, closes, rfl⟩ := continues
      exact ⟨kind :: heading, opens, rest, remainder.cons step, closes, rfl⟩
  | finished opens =>
      rw [step] at moved
      cases moved
      obtain ⟨remainder, rfl⟩ := Remainder.nil step
      exact ⟨[], opens, kinds, remainder, continues, rfl⟩
  | refused =>
      rw [step] at moved
      cases moved

/-- A token that a builder accepts goes on with the derivation. -/
theorem Continues.step {shape next : Shape} {kind : TokenKind} {kinds : List TokenKind}
    (moved : shape.step kind = some next) (continues : Continues next kinds) :
    Continues shape (kind :: kinds) := by
  obtain ⟨depth, _ | phase⟩ := shape
  · have statement : ∀ {kind}, Shape.after depth (HeaderPhase.start.step kind) = some next →
        Continues ⟨depth, none⟩ (kind :: kinds) := by
      intro kind moved
      obtain ⟨heading, opens, rest, heads, closes, same⟩ := continues_after moved continues
      rw [same]
      exact Closes.heading heads closes
    cases kind with
    | whitespace | lineBreak | comment =>
        cases moved
        exact Closes.trivia rfl continues
    | closeBlock =>
        cases depth with
        | zero => cases moved
        | succ depth =>
            cases moved
            exact .block .nil continues
    | string | number | date | other | semicolon | plus | openBlock => exact statement moved
  · exact continues_after moved continues

/-- Tokens that take a builder back to no open blocks complete what it has read. -/
theorem continues_of_run {shape : Shape} {kinds : List TokenKind}
    (run : shape.run kinds = some ⟨0, none⟩) : Continues shape kinds := by
  induction kinds generalizing shape with
  | nil =>
      cases run
      exact .items .nil
  | cons kind kinds ih =>
      rw [Shape.run, List.foldlM_cons] at run
      obtain ⟨next, moved, others⟩ := Option.bind_eq_some_iff.mp run
      exact (ih others).step moved

/-! ## Derivations are read -/

/-- A run over tokens and then over others is one run. -/
theorem run_append {shape middle : Shape} {first : List TokenKind}
    (run : shape.run first = some middle) (second : List TokenKind) :
    shape.run (first ++ second) = middle.run second := by
  rw [Shape.run] at run
  rw [Shape.run, List.foldlM_append, run]
  rfl

theorem run_cons {shape next : Shape} {kind : TokenKind} (moved : shape.step kind = some next)
    (kinds : List TokenKind) : shape.run (kind :: kinds) = next.run kinds := by
  rw [Shape.run, List.foldlM_cons, moved]
  rfl

/-- A run over trivia leaves a header as it is once its keyword has been read. -/
theorem run_trivia {kinds : List TokenKind} (blank : Trivia kinds) (depth : Nat)
    (phase : HeaderPhase) (begun : phase ≠ .start) :
    Shape.run ⟨depth, some phase⟩ kinds = some ⟨depth, some phase⟩ := by
  induction kinds with
  | nil => rfl
  | cons kind kinds ih =>
      obtain ⟨own, others⟩ := List.forall_mem_cons.mp blank
      have stays : Shape.step ⟨depth, some phase⟩ kind = some ⟨depth, some phase⟩ :=
        congrArg (Shape.after depth) (HeaderPhase.step_trivia own begun)
      rw [run_cons stays]
      exact ih others

/-- A run over a plus sign and the string behind it joins the string to the others. -/
private theorem run_join {before after : List TokenKind} (blank : Trivia before)
    (blank' : Trivia after) (depth : Nat) {phase : HeaderPhase}
    (joins : phase.step .plus = .more .plus) (others : List TokenKind) :
    Shape.run ⟨depth, some phase⟩ (.plus :: (before ++ .string :: (after ++ others))) =
      Shape.run ⟨depth, some .fragment⟩ others := by
  have moved : Shape.step ⟨depth, some phase⟩ .plus = some ⟨depth, some .plus⟩ :=
    congrArg (Shape.after depth) joins
  rw [run_cons moved, run_append (run_trivia blank depth .plus nofun)]
  exact run_append (run_trivia blank' depth .fragment nofun) others

/-- A run over strings behind plus signs ends behind a joined string. -/
theorem run_joined {kinds : List TokenKind} (joined : Joined kinds) (depth : Nat)
    {phase : HeaderPhase} (joins : phase.step .plus = .more .plus) :
    Shape.run ⟨depth, some phase⟩ kinds = some ⟨depth, some .fragment⟩ := by
  induction joined generalizing phase with
  | once blank blank' =>
      have run := run_join blank blank' depth joins []
      rwa [List.append_nil] at run
  | more blank blank' _ ih =>
      rw [run_join blank blank' depth joins]
      exact ih rfl

/-- A heading is read up to where a terminator may stand. -/
theorem run_heading {kinds : List TokenKind} (heading : Heading kinds) (depth : Nat) :
    ∃ phase : HeaderPhase, (∀ opens, phase.step (terminator opens) = .finished opens) ∧
      Shape.run ⟨depth, none⟩ kinds = some ⟨depth, some phase⟩ := by
  have keyword : ∀ others, Shape.run ⟨depth, none⟩ (.other :: others) =
      Shape.run ⟨depth, some .keyword⟩ others := fun _ => rfl
  cases heading with
  | bare blank =>
      refine ⟨.keyword, fun opens => by cases opens <;> rfl, ?_⟩
      rw [keyword, run_trivia blank depth .keyword nofun]
  | @value _ after kind blank value blank' =>
      rw [keyword, run_append (run_trivia blank depth .keyword nofun)]
      obtain ⟨content, goesOn⟩ := value
      cases kind with
      | string =>
          refine ⟨.string, fun opens => by cases opens <;> rfl, ?_⟩
          exact run_trivia blank' depth _ nofun
      | number | date | other | plus | closeBlock =>
          refine ⟨.value, fun opens => by cases opens <;> rfl, ?_⟩
          exact run_trivia blank' depth _ nofun
      | whitespace | lineBreak | comment => cases content
      | semicolon | openBlock => cases goesOn
  | @concatenation _ after others blank blank' joined =>
      refine ⟨.fragment, fun opens => by cases opens <;> rfl, ?_⟩
      have string : Shape.run ⟨depth, some .keyword⟩ (.string :: (after ++ others)) =
          Shape.run ⟨depth, some .string⟩ (after ++ others) := rfl
      rw [keyword, run_append (run_trivia blank depth .keyword nofun), string,
        run_append (run_trivia blank' depth .string nofun)]
      exact run_joined joined depth rfl

mutual

/-- What is derived is read, and leaves the open blocks as they are. -/
theorem run_items : ∀ {kinds : List TokenKind}, Items kinds → ∀ depth : Nat,
    Shape.run ⟨depth, none⟩ kinds = some ⟨depth, none⟩
  | _, .nil, depth => rfl
  | _, @Items.trivia kind _ blank items, depth => by
      have stays : Shape.step ⟨depth, none⟩ kind = some ⟨depth, none⟩ := by
        cases kind <;> cases blank <;> rfl
      rw [run_cons stays]
      exact run_items items depth
  | _, .statement statement items, depth => by
      rw [run_append (run_statement statement depth)]
      exact run_items items depth

/-- A run over a statement ends where it began, between statements. -/
theorem run_statement : ∀ {kinds : List TokenKind}, Statement kinds → ∀ depth : Nat,
    Shape.run ⟨depth, none⟩ kinds = some ⟨depth, none⟩
  | _, .intro heads terminates, depth => by
      obtain ⟨phase, ends, run⟩ := run_heading heads depth
      rw [run_append run]
      exact run_terminator terminates depth ends

/-- A run over a terminator ends the statement, in the block in which it began. -/
theorem run_terminator : ∀ {kinds : List TokenKind}, Terminator kinds → ∀ (depth : Nat)
    {phase : HeaderPhase}, (∀ opens, phase.step (terminator opens) = .finished opens) →
      Shape.run ⟨depth, some phase⟩ kinds = some ⟨depth, none⟩
  | _, .semicolon, depth, phase, ends => by
      have leaves : Shape.step ⟨depth, some phase⟩ .semicolon = some ⟨depth, none⟩ :=
        congrArg (Shape.after depth) (ends false)
      exact run_cons leaves []
  | _, .block items, depth, phase, ends => by
      have enters : Shape.step ⟨depth, some phase⟩ .openBlock = some ⟨depth + 1, none⟩ :=
        congrArg (Shape.after depth) (ends true)
      rw [run_cons enters, run_append (run_items items (depth + 1))]
      rfl

end

/-- A run from no open blocks ends there again exactly if the tokens are statements with trivia. -/
theorem run_iff_items {kinds : List TokenKind} :
    Shape.run ⟨0, none⟩ kinds = some ⟨0, none⟩ ↔ Items kinds := by
  constructor
  · intro run
    have closes : Closes 0 kinds := continues_of_run run
    cases closes with
    | items items => exact items
  · exact fun items => run_items items 0

end Grammar

/-- A text has a tree exactly if it is split into tokens that the grammar derives. -/
theorem Text.parse_iff_items (text : Text) :
    (∃ nodes, text.parse = .ok nodes) ↔
      ∃ tokens, TokenStream.tokenize text = .ok tokens ∧
        Grammar.Items (tokens.map fun token => token.kind) := by
  have kinds : ∀ tokens : List Token, (tokens.map Token.toLexeme).map Lexeme.kind =
      tokens.map fun token => token.kind := fun tokens => List.map_map
  have accepts : ∀ lexemes, (∃ nodes, TreeBuilder.Completes {} lexemes nodes) ↔
      Grammar.Items (lexemes.map Lexeme.kind) := fun lexemes =>
    (TreeBuilder.completes_iff_shape {} lexemes).trans Grammar.run_iff_items
  constructor
  · rintro ⟨nodes, parsed⟩
    obtain ⟨lexemes, lexes, completes⟩ := Text.parse_eq_ok_iff.mp parsed
    obtain ⟨tokens, read, rfl⟩ := TokenStream.tokenize_iff_lexes.mpr lexes
    refine ⟨tokens, read, ?_⟩
    rw [← kinds]
    exact (accepts _).mp ⟨nodes, completes⟩
  · rintro ⟨tokens, read, items⟩
    rw [← kinds, ← accepts] at items
    obtain ⟨nodes, completes⟩ := items
    exact ⟨nodes, Text.parse_eq_ok_iff.mpr
      ⟨_, TokenStream.tokenize_iff_lexes.mp ⟨tokens, read, rfl⟩, completes⟩⟩

end YangFormatter
