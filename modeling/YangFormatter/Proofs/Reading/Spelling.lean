import Mathlib.Tactic
import YangFormatter.Proofs.Token.LexicalGrammar
import YangFormatter.Proofs.Tree.Pieces

/-! # What a tree spells

A tree spells tokens: those of its statements and comments, in the order in which it holds
them (`Node.spelling`). Reading loses none and moves none: the tree of a text spells the
tokens of the text without white space, line breaks and the plus signs that join strings
(`Text.spelling_parse`).
-/

namespace YangFormatter

namespace Lexeme

/-- The tokens that comments were. -/
def ofComments (comments : List Text) : List Lexeme :=
  comments.map fun comment => ⟨.comment, comment⟩

/-- Whether a plus sign behind a token of some kind joins strings: if the last token before the
plus sign, apart from white space, line breaks and comments, is a string. `before` says whether
one before the token would. -/
def joins (before : Bool) : TokenKind → Bool
  | .whitespace | .lineBreak | .comment => before
  | .string => true
  | .number | .date | .other | .semicolon | .plus | .openBlock | .closeBlock => false

/-- A token, unless it is white space, a line break or a plus sign that joins strings. -/
def remnant (joining : Bool) (lexeme : Lexeme) : List Lexeme :=
  match lexeme.kind with
  | .whitespace | .lineBreak => []
  | .plus => if joining then [] else [lexeme]
  | .comment | .string | .number | .date | .other | .semicolon | .openBlock | .closeBlock =>
      [lexeme]

/-- Some tokens without white space, line breaks and the plus signs that join strings. -/
def essential (joining : Bool) : List Lexeme → List Lexeme
  | [] => []
  | lexeme :: lexemes => lexeme.remnant joining ++ essential (joins joining lexeme.kind) lexemes

end Lexeme

/-- The token that a value other than a string, a number or a date stands for: a word, or a
plus sign or closing brace in the place of one. -/
def Value.otherLexeme (text : Text) : Lexeme :=
  ⟨if text = ['+'] then .plus else if text = ['}'] then .closeBlock else .other, text⟩

/-- The tokens of one of several joined strings, with the comments after it. -/
def Fragment.spelling (fragment : Fragment) : List Lexeme :=
  ⟨.string, fragment.text⟩ :: Lexeme.ofComments fragment.comments

/-- The tokens of a value, without the plus signs that join strings. -/
def Value.spelling : Value → List Lexeme
  | .quoted text => [⟨.string, text⟩]
  | .number text => [⟨.number, text⟩]
  | .date text => [⟨.date, text⟩]
  | .other text => [otherLexeme text]
  | .concatenation fragments => fragments.flatMap Fragment.spelling

namespace Header

/-- The tokens of a header before its terminator. -/
def body (header : Header) : List Lexeme :=
  ⟨.other, header.keyword⟩ :: Lexeme.ofComments header.keywordComments ++
    header.value.elim [] Value.spelling ++ Lexeme.ofComments header.valueComments

/-- The token that ends a header. -/
def terminator (opens : Bool) : Lexeme :=
  if opens then ⟨.openBlock, ['{']⟩ else ⟨.semicolon, [';']⟩

/-- The tokens of a header with its terminator and the comments after it. -/
def spelling (header : Header) (opens : Bool) : List Lexeme :=
  header.body ++ terminator opens :: Lexeme.ofComments header.postComments

/-- A statement has comments after a single value only, and a concatenation joins several
strings. -/
structure Shaped (header : Header) : Prop where
  absent : header.value = none → header.valueComments = []
  joined : ∀ fragments, header.value = some (.concatenation fragments) →
    2 ≤ fragments.length ∧ header.valueComments = []

end Header

namespace Node

mutual

/-- The tokens of a node, without those that a tree does not hold. -/
def spelling : Node → List Lexeme
  | .leaf header => header.spelling false
  | .block header children =>
      header.spelling true ++ spellingAll children ++ [⟨.closeBlock, ['}']⟩]
  | .comment text => [⟨.comment, text⟩]
  | .emptyLine _ => []

/-- The tokens of some nodes, one node after the other. -/
def spellingAll : List Node → List Lexeme
  | [] => []
  | node :: nodes => node.spelling ++ spellingAll nodes

end

theorem spellingAll_eq_flatMap (nodes : List Node) :
    spellingAll nodes = nodes.flatMap spelling := by
  induction nodes with
  | nil => rfl
  | cons node nodes ih => rw [spellingAll, List.flatMap_cons, ih]

theorem spellingAll_append (nodes others : List Node) :
    spellingAll (nodes ++ others) = spellingAll nodes ++ spellingAll others := by
  simp only [spellingAll_eq_flatMap, List.flatMap_append]

@[simp]
theorem spellingAll_singleton (node : Node) : spellingAll [node] = node.spelling := by
  rw [spellingAll, spellingAll, List.append_nil]

end Node

namespace Lexeme

@[simp]
theorem ofComments_nil : ofComments [] = [] := rfl

@[simp]
theorem ofComments_append (comments others : List Text) :
    ofComments (comments ++ others) = ofComments comments ++ ofComments others :=
  List.map_append

@[simp]
theorem ofComments_singleton (comment : Text) : ofComments [comment] = [⟨.comment, comment⟩] := rfl

/-- A word is neither a plus sign nor a closing brace. -/
theorem WellFormed.otherLexeme {text : Text} (formed : WellFormed ⟨.other, text⟩) :
    Value.otherLexeme text = ⟨.other, text⟩ := by
  have plain : Word.IsPlain text := formed.1
  have noPlus : text ≠ ['+'] := by
    rintro rfl
    exact plain.2.1 rfl
  have noBrace : text ≠ ['}'] := by
    rintro rfl
    cases plain.1 '}' List.mem_cons_self
  rw [Value.otherLexeme, if_neg noPlus, if_neg noBrace]

end Lexeme

/-- A token that is a value spells itself. -/
theorem Value.spelling_ofLexeme {lexeme : Lexeme} (formed : lexeme.WellFormed)
    (content : lexeme.kind.isTrivia = false) (goesOn : lexeme.kind.isTerminator = false) :
    (Value.ofLexeme lexeme).spelling = [lexeme] := by
  obtain ⟨kind, text⟩ := lexeme
  cases kind with
  | string | number | date => rfl
  | other => exact congrArg (fun lexeme => [lexeme]) formed.otherLexeme
  | plus | closeBlock =>
      cases formed
      rfl
  | whitespace | lineBreak | comment => cases content
  | semicolon | openBlock => cases goesOn

/-! ## Headers -/

namespace HeaderState

/-- The tokens of what has been read of a header. -/
def spelling : HeaderState → List Lexeme
  | .start => []
  | .keyword word comments => Header.body { keyword := word, keywordComments := comments }
  | .value word keywordComments given comments =>
      Header.body
        { keyword := word, keywordComments, value := some given, valueComments := comments }
  | .fragment word keywordComments earlier last | .plus word keywordComments earlier last =>
      Header.body
        { keyword := word, keywordComments, value := some (.concatenation (earlier ++ [last])) }

/-- Whether a plus sign would join strings. -/
def joins : HeaderState → Bool
  | .value _ _ (.quoted _) _ | .fragment _ _ _ _ => true
  | _ => false

end HeaderState

/-- After a step, a header spells some tokens, and a plus sign would join strings or not. -/
def HeaderStep.Spells (step : HeaderStep) (lexemes : List Lexeme) (joins : Bool) : Prop :=
  match step with
  | .more state => state.spelling = lexemes ∧ state.joins = joins
  | .finished header opens => header.spelling opens = lexemes ∧ joins = false
  | .refused _ => True

/-- A terminator finishes a header that spells what was read, and itself. -/
private theorem HeaderStep.spells_terminator {kind : TokenKind} {text : Text} {header : Header}
    {opens : Bool} (bare : header.postComments = [])
    (same : (⟨kind, text⟩ : Lexeme) = Header.terminator opens) :
    (HeaderStep.finished header opens).Spells (header.body ++ [⟨kind, text⟩]) false := by
  rw [same]
  refine ⟨?_, rfl⟩
  rw [Header.spelling, bare]
  rfl

/-- A comment behind a string is spelled behind it. -/
private theorem HeaderState.spelling_addComment (word : Text) (keywordComments : List Text)
    (earlier : List Fragment) (last : Fragment) (comment : Text) :
    (fragment word keywordComments earlier (last.addComment comment)).spelling =
      (fragment word keywordComments earlier last).spelling ++ [⟨.comment, comment⟩] := by
  simp [spelling, Header.body, Value.spelling, Fragment.spelling, Fragment.addComment]

/-- Reading a token adds it to what a header spells. -/
theorem HeaderState.spells_step (state : HeaderState) {lexeme : Lexeme}
    (formed : lexeme.WellFormed) :
    (state.step lexeme).Spells (state.spelling ++ lexeme.remnant state.joins)
      (Lexeme.joins state.joins lexeme.kind) := by
  obtain ⟨kind, text⟩ := lexeme
  cases state with
  | start =>
      cases kind with
      | other => exact ⟨rfl, rfl⟩
      | _ => trivial
  | keyword word comments =>
      cases kind with
      | whitespace | lineBreak => exact ⟨(List.append_nil _).symm, rfl⟩
      | comment => exact ⟨by simp [spelling, Header.body, Lexeme.remnant], rfl⟩
      | semicolon | openBlock =>
          cases formed
          exact HeaderStep.spells_terminator rfl rfl
      | string | number | date | other | plus | closeBlock =>
          have own := Value.spelling_ofLexeme formed rfl rfl
          exact ⟨by simp [spelling, Header.body, Lexeme.remnant, own, joins], rfl⟩
  | value word keywordComments given comments =>
      cases kind with
      | whitespace | lineBreak => exact ⟨(List.append_nil _).symm, rfl⟩
      | comment => exact ⟨by simp [spelling, Header.body, Lexeme.remnant], by cases given <;> rfl⟩
      | semicolon | openBlock =>
          cases formed
          exact HeaderStep.spells_terminator rfl rfl
      | plus =>
          cases given with
          | quoted string =>
              refine ⟨?_, rfl⟩
              simp [spelling, Header.body, Value.spelling, Fragment.spelling, joins, Lexeme.remnant]
          | number _ | date _ | other _ | concatenation _ => trivial
      | string | number | date | other | closeBlock => trivial
  | fragment word keywordComments earlier last =>
      cases kind with
      | whitespace | lineBreak => exact ⟨(List.append_nil _).symm, rfl⟩
      | comment => exact ⟨spelling_addComment _ _ _ _ _, rfl⟩
      | semicolon | openBlock =>
          cases formed
          exact HeaderStep.spells_terminator rfl rfl
      | plus => exact ⟨(List.append_nil _).symm, rfl⟩
      | string | number | date | other | closeBlock => trivial
  | plus word keywordComments earlier last =>
      cases kind with
      | whitespace | lineBreak => exact ⟨(List.append_nil _).symm, rfl⟩
      | comment => exact ⟨spelling_addComment _ _ _ _ _, rfl⟩
      | string =>
          refine ⟨?_, rfl⟩
          simp [spelling, Header.body, Value.spelling, Fragment.spelling, Lexeme.remnant]
      | number | date | other | semicolon | plus | openBlock | closeBlock => trivial

/-! ## Trees -/

/-- The tokens before the nodes of a block that is still open. -/
def OpenBlock.spelling (block : OpenBlock) : List Lexeme :=
  Node.spellingAll block.before.reverse ++ block.header.spelling true

namespace Place

/-- The tokens of the statement that stands at a place and is not in the tree yet. -/
def spelling : Place → List Lexeme
  | .between _ => []
  | .inHeader state => state.spelling
  | .afterHeader header opens => header.spelling opens

/-- Whether a plus sign at a place would join strings. -/
def joins : Place → Bool
  | .inHeader state => state.joins
  | .between _ | .afterHeader _ _ => false

end Place

namespace TreeBuilder

/-- The tokens of some open blocks and of the nodes of the innermost. -/
def earlier (blocks : List OpenBlock) (siblings : List Node) : List Lexeme :=
  blocks.reverse.flatMap OpenBlock.spelling ++ Node.spellingAll siblings.reverse

/-- The tokens of a tree of which only a part has been read. -/
def spelling (builder : TreeBuilder) : List Lexeme :=
  earlier builder.blocks builder.siblings ++ builder.place.spelling

/-- A builder spells some tokens, and a plus sign would join strings or not. -/
def Spells (builder : TreeBuilder) (lexemes : List Lexeme) (joins : Bool) : Prop :=
  builder.spelling = lexemes ∧ builder.place.joins = joins

theorem earlier_cons (blocks : List OpenBlock) (node : Node) (siblings : List Node) :
    earlier blocks (node :: siblings) = earlier blocks siblings ++ node.spelling := by
  simp [earlier, Node.spellingAll_append]

/-- A block that is opened is spelled as its header. -/
theorem earlier_open (blocks : List OpenBlock) (header : Header) (siblings : List Node) :
    earlier (⟨header, siblings⟩ :: blocks) [] =
      earlier blocks siblings ++ header.spelling true := by
  simp [earlier, OpenBlock.spelling, Node.spellingAll]

/-- A block that is closed is spelled with its closing brace. -/
theorem earlier_close (block : OpenBlock) (outer : List OpenBlock) (siblings : List Node) :
    earlier outer (.block block.header siblings.reverse :: block.before) =
      earlier (block :: outer) siblings ++ [⟨.closeBlock, ['}']⟩] := by
  simp [earlier, OpenBlock.spelling, Node.spellingAll_append, Node.spelling]

/-- The statement whose header is complete is spelled last. -/
theorem earlier_addStatement (builder : TreeBuilder) (header : Header) (opens : Bool) :
    let next := builder.addStatement header opens
    earlier next.blocks next.siblings =
      earlier builder.blocks builder.siblings ++ header.spelling opens := by
  cases opens with
  | false => exact earlier_cons _ _ _
  | true => exact earlier_open _ _ _

/-- A step within a header goes on with what the builder spells. -/
private theorem spells_afterStep {builder next : TreeBuilder} {step : HeaderStep}
    {lexemes : List Lexeme} {joins : Bool} (own : step.Spells lexemes joins)
    (moved : builder.afterStep step = .ok next) :
    next.Spells (earlier builder.blocks builder.siblings ++ lexemes) joins := by
  cases step with
  | more state =>
      cases moved
      exact ⟨congrArg (earlier builder.blocks builder.siblings ++ ·) own.1, own.2⟩
  | finished header opens =>
      cases moved
      exact ⟨congrArg (earlier builder.blocks builder.siblings ++ ·) own.1, own.2.symm⟩
  | refused cause => cases moved

/-- A token between statements goes on with what the builder spells. -/
private theorem spells_stepBetween {builder next : TreeBuilder} {afterBreak : Bool} {token : Token}
    (formed : token.WellFormed) (moved : builder.stepBetween afterBreak token = .ok next) :
    next.Spells (earlier builder.blocks builder.siblings ++ token.remnant false)
      (Lexeme.joins false token.kind) := by
  obtain ⟨⟨kind, text⟩, span⟩ := token
  cases kind with
  | whitespace =>
      cases moved
      exact ⟨rfl, rfl⟩
  | lineBreak =>
      cases moved
      refine ⟨congrArg (· ++ []) ?_, rfl⟩
      cases afterBreak with
      | false => rfl
      | true => exact (earlier_cons _ _ _).trans (List.append_nil _)
  | comment =>
      cases moved
      exact ⟨(List.append_nil _).trans (earlier_cons _ _ _), rfl⟩
  | closeBlock =>
      obtain ⟨blocks, siblings, place, lastStart⟩ := builder
      cases blocks with
      | nil => cases moved
      | cons block outer =>
          cases moved
          cases formed
          exact ⟨(List.append_nil _).trans (earlier_close _ _ _), rfl⟩
  | other =>
      cases moved
      exact ⟨rfl, rfl⟩
  | string | number | date | semicolon | plus | openBlock => cases moved

/-- Reading a token adds it to what a builder spells. -/
theorem spells_read {builder next : TreeBuilder} {lexeme : Lexeme} (formed : lexeme.WellFormed)
    (moved : builder.read lexeme = .ok next) :
    next.Spells (builder.spelling ++ lexeme.remnant builder.place.joins)
      (Lexeme.joins builder.place.joins lexeme.kind) := by
  obtain ⟨blocks, siblings, place, lastStart⟩ := builder
  cases place with
  | between afterBreak =>
      rw [spelling, Place.spelling, List.append_nil]
      exact @spells_stepBetween _ _ _ { lexeme with span := .point 0 } formed moved
  | inHeader state =>
      rw [spelling, List.append_assoc]
      exact spells_afterStep (state.spells_step formed) moved
  | afterHeader header opens =>
      by_cases space : lexeme.kind = .whitespace
      · obtain ⟨kind, text⟩ := lexeme
        cases space
        cases moved
        exact ⟨(List.append_nil _).symm, rfl⟩
      by_cases comment : lexeme.kind = .comment
      · obtain ⟨kind, text⟩ := lexeme
        cases comment
        cases moved
        refine ⟨?_, rfl⟩
        simp [spelling, Place.spelling, Header.spelling, Header.body, Lexeme.remnant]
      · rw [read_afterHeader space comment] at moved
        have own := spells_stepBetween formed moved
        rw [earlier_addStatement] at own
        exact own

/-- A finished tree spells what its builder spelled. -/
theorem spelling_finish {builder : TreeBuilder} {nodes : List Node}
    (finished : builder.finish 0 = .ok nodes) : Node.spellingAll nodes = builder.spelling := by
  have closed : ∀ {last : TreeBuilder}, last.close = .ok nodes →
      Node.spellingAll nodes = earlier last.blocks last.siblings := by
    intro last ends
    unfold close at ends
    split at ends
    next empty =>
      cases ends
      rw [earlier, List.isEmpty_iff.mp empty]
      rfl
    next => cases ends
  obtain ⟨blocks, siblings, place, lastStart⟩ := builder
  cases place with
  | between afterBreak => rw [closed finished, spelling, Place.spelling, List.append_nil]
  | inHeader state => cases finished
  | afterHeader header opens => rw [closed finished, earlier_addStatement, spelling, Place.spelling]

/-- A tree spells what its builder has spelled so far, and then the rest of the tokens. -/
theorem Completes.spelling_eq {builder : TreeBuilder} {lexemes : List Lexeme} {nodes : List Node}
    (completes : Completes builder lexemes nodes) (formed : ∀ lexeme ∈ lexemes, lexeme.WellFormed) :
    Node.spellingAll nodes = builder.spelling ++ Lexeme.essential builder.place.joins lexemes := by
  induction completes with
  | finish finished => rw [spelling_finish finished, Lexeme.essential, List.append_nil]
  | @step builder next lexeme lexemes nodes reads _ ih =>
      obtain ⟨first, others⟩ := List.forall_mem_cons.mp formed
      obtain ⟨spelled, joined⟩ := spells_read first reads
      rw [ih others, spelled, joined, Lexeme.essential, List.append_assoc]

end TreeBuilder

/-- The value and the joined strings of a header that is being read are as in a complete one. -/
def HeaderState.Shaped : HeaderState → Prop
  | .value _ _ given _ => ∀ fragments, given ≠ .concatenation fragments
  | .fragment _ _ earlier _ => earlier ≠ []
  | .start | .keyword _ _ | .plus _ _ _ _ => True

/-- A token keeps a header in shape. -/
theorem HeaderState.Shaped.step {state : HeaderState} (before : state.Shaped) (lexeme : Lexeme) :
    (state.step lexeme).Holds Shaped Header.Shaped := by
  obtain ⟨kind, text⟩ := lexeme
  cases state with
  | start => cases kind <;> trivial
  | keyword word comments =>
      cases kind with
      | whitespace | lineBreak | comment => trivial
      | semicolon | openBlock => exact ⟨fun _ => rfl, fun _ same => by cases same⟩
      | string | number | date | other | plus | closeBlock => exact fun _ same => by cases same
  | value word keywordComments given comments =>
      cases kind with
      | whitespace | lineBreak | comment => exact before
      | semicolon | openBlock =>
          refine ⟨fun same => (by cases same), fun fragments same => ?_⟩
          exact (before fragments (Option.some.inj same)).elim
      | plus => cases given <;> trivial
      | string | number | date | other | closeBlock => trivial
  | fragment word keywordComments earlier last =>
      cases kind with
      | whitespace | lineBreak | comment => exact before
      | semicolon | openBlock =>
          refine ⟨fun same => (by cases same), fun fragments same => ?_⟩
          cases same
          have earlierLength := List.length_pos_iff.mpr before
          refine ⟨?_, rfl⟩
          rw [List.length_append, List.length_singleton]
          omega
      | plus | string | number | date | other | closeBlock => trivial
  | plus word keywordComments earlier last =>
      cases kind with
      | string => exact List.append_ne_nil_of_right_ne_nil _ (List.cons_ne_nil _ _)
      | _ => trivial

/-- The tree of a text spells the tokens of the text, but for white space, line breaks and the
plus signs that join strings. Only a single value has comments of its own after it. -/
theorem Text.spelling_parse {text : Text} {nodes : List Node} (parsed : text.parse = .ok nodes) :
    ∃ tokens, TokenStream.tokenize text = .ok tokens ∧
      Node.spellingAll nodes = Lexeme.essential false (tokens.map Token.toLexeme) ∧
      ∀ node ∈ nodes, node.Every Header.Shaped fun _ => True := by
  obtain ⟨lexemes, lexes, completes⟩ := Text.parse_eq_ok_iff.mp parsed
  obtain ⟨tokens, read, rfl⟩ := TokenStream.tokenize_iff_lexes.mpr lexes
  have invariant : HeaderInvariant HeaderState.Shaped Header.Shaped fun _ => True :=
    { start := trivial
      step := fun before _ => before.step _
      postComment := fun before _ => ⟨before.absent, before.joined⟩ }
  exact ⟨tokens, read, completes.spelling_eq lexes.wellFormed,
    completes.every invariant fun _ _ => trivial⟩

/-- Joined strings with a comment between them, and a plus sign that is a value. -/
theorem Text.spelling_parse_nested :
    ∃ nodes, Text.parse "a 'x' //f\n+ \"y\" \x7b //p\nb + /*v*/; \x7d".toList = .ok nodes ∧
      ∃ tokens,
        TokenStream.tokenize "a 'x' //f\n+ \"y\" \x7b //p\nb + /*v*/; \x7d".toList = .ok tokens ∧
        Node.spellingAll nodes = Lexeme.essential false (tokens.map Token.toLexeme) ∧
        ∀ node ∈ nodes, node.Every Header.Shaped fun _ => True := by
  have parsed : Text.parse "a 'x' //f\n+ \"y\" \x7b //p\nb + /*v*/; \x7d".toList =
      .ok [.block
        { keyword := "a".toList
          value := some (.concatenation
            [{ text := "'x'".toList, comments := ["//f".toList] }, { text := "\"y\"".toList }])
          postComments := ["//p".toList] }
        [.leaf
          { keyword := "b".toList
            value := some (.other "+".toList)
            valueComments := ["/*v*/".toList] }]] := by
    cbv
  exact ⟨_, parsed, Text.spelling_parse parsed⟩

end YangFormatter
