import YangFormatter.Proofs.Reading.Completion

/-! # What a tree is made of

What holds while a header is read from tokens, and of the header then, holds of every
header of the tree (`TreeBuilder.Completes.every`). So every word, string and comment of a
tree is the text of a token (`Node.MadeOf`), and a property of the tokens of a text becomes
a property of the pieces of its tree (`Text.madeOf_of_parse`).
-/

namespace YangFormatter

/-- To show something of every node, show it of a block whose nodes have it. -/
@[elab_as_elim]
theorem Node.induction {motive : Node → Prop} (leaf : ∀ header, motive (.leaf header))
    (block : ∀ header children, (∀ child ∈ children, motive child) →
      motive (.block header children))
    (comment : ∀ text, motive (.comment text)) (emptyLine : ∀ text, motive (.emptyLine text))
    (node : Node) : motive node :=
  @Node.rec motive (fun nodes => ∀ child ∈ nodes, motive child) leaf block comment emptyLine
    (fun _ member => (List.not_mem_nil member).elim)
    (fun _ _ first others child member => by
      rcases List.mem_cons.mp member with rfl | inside
      · exact first
      · exact others child inside) node

/-- Every statement within a node has a header with one property, and every
comment that belongs to no statement has another. -/
inductive Node.Every (header : Header → Prop) (comment : Text → Prop) : Node → Prop where
  | leaf {head : Header} (own : header head) : Every header comment (.leaf head)
  | block {head : Header} {children : List Node} (own : header head)
      (within : ∀ child ∈ children, Every header comment child) :
      Every header comment (.block head children)
  | comment {text : Text} (own : comment text) : Every header comment (.comment text)
  | emptyLine {text : Text} : Every header comment (.emptyLine text)

/-- Weaker properties hold of every header and comment too. -/
theorem Node.Every.imp {header header' : Header → Prop} {comment comment' : Text → Prop}
    (headers : ∀ head, header head → header' head)
    (comments : ∀ text, comment text → comment' text) {node : Node}
    (every : node.Every header comment) : node.Every header' comment' := by
  induction every with
  | leaf own => exact .leaf (headers _ own)
  | block own _ ih => exact .block (headers _ own) ih
  | comment own => exact .comment (comments _ own)
  | emptyLine => exact .emptyLine

/-- Two properties of every header and comment hold of them together. -/
theorem Node.Every.and {header header' : Header → Prop} {comment comment' : Text → Prop}
    {node : Node} (every : node.Every header comment) (every' : node.Every header' comment') :
    node.Every (fun head => header head ∧ header' head)
      fun text => comment text ∧ comment' text := by
  induction every with
  | leaf own =>
      cases every' with
      | leaf own' => exact .leaf ⟨own, own'⟩
  | block own _ ih =>
      cases every' with
      | block own' within' =>
          exact .block ⟨own, own'⟩ fun child member => ih child member (within' child member)
  | comment own =>
      cases every' with
      | comment own' => exact .comment ⟨own, own'⟩
  | emptyLine => exact .emptyLine

theorem Node.every_leaf_iff {header : Header → Prop} {comment : Text → Prop} {head : Header} :
    (Node.leaf head).Every header comment ↔ header head := by
  constructor
  · rintro ⟨own⟩
    exact own
  · exact .leaf

/-- A block has its own header and those within it. -/
theorem Node.every_block_iff {header : Header → Prop} {comment : Text → Prop} {head : Header}
    {children : List Node} :
    (Node.block head children).Every header comment ↔
      header head ∧ ∀ child ∈ children, child.Every header comment := by
  constructor
  · rintro (_ | ⟨own, within⟩)
    exact ⟨own, within⟩
  · exact fun both => .block both.1 both.2

theorem Node.every_comment_iff {header : Header → Prop} {comment : Text → Prop} {text : Text} :
    (Node.comment text).Every header comment ↔ comment text := by
  constructor
  · rintro (_ | _ | own)
    exact own
  · exact .comment

/-! ## Properties of all headers -/

section

variable (during : HeaderState → Prop) (after : Header → Prop)

/-- After a step, a property holds of the header so far, or another of the complete one. -/
def HeaderStep.Holds : HeaderStep → Prop
  | .more state => during state
  | .finished header _ => after header
  | .refused _ => True

/-- One property holds of a header while it is read from tokens, and another of the header
when it is complete. -/
structure HeaderInvariant (made : Lexeme → Prop) : Prop where
  start : during .start
  step : ∀ {state : HeaderState} {lexeme : Lexeme}, during state → made lexeme →
    (state.step lexeme).Holds during after
  postComment : ∀ {header : Header} {comment : Text}, after header → made ⟨.comment, comment⟩ →
    after { header with postComments := header.postComments ++ [comment] }

/-- A property holds of the header that is being read, or another of the one before the place. -/
def Place.Holds : Place → Prop
  | .between _ => True
  | .inHeader state => during state
  | .afterHeader header _ => after header

/-- All headers that a builder holds have a property, as does the one that it reads. -/
structure TreeBuilder.Holds (made : Lexeme → Prop) (builder : TreeBuilder) : Prop where
  blocks : ∀ block ∈ builder.blocks, after block.header ∧
    ∀ node ∈ block.before, node.Every after fun comment => made ⟨.comment, comment⟩
  siblings : ∀ node ∈ builder.siblings, node.Every after fun comment => made ⟨.comment, comment⟩
  place : builder.place.Holds during after

end

namespace TreeBuilder

variable {during : HeaderState → Prop} {after : Header → Prop} {made : Lexeme → Prop}

/-- A step within a header keeps the invariant of a builder. -/
private theorem Holds.afterStep {builder next : TreeBuilder} {step : HeaderStep}
    (before : builder.Holds during after made) (own : step.Holds during after)
    (moved : builder.afterStep step = .ok next) : next.Holds during after made := by
  cases step with
  | more state =>
      cases moved
      exact { before with place := own }
  | finished header opens =>
      cases moved
      exact { before with place := own }
  | refused cause => cases moved

/-- Adding a complete header keeps the invariant of a builder. -/
private theorem Holds.addStatement {builder : TreeBuilder} {header : Header} {opens : Bool}
    (before : builder.Holds during after made) (own : after header) :
    (builder.addStatement header opens).Holds during after made := by
  cases opens with
  | false =>
      refine ⟨before.blocks, ?_, trivial⟩
      intro node member
      rcases List.mem_cons.mp member with rfl | inside
      · exact .leaf own
      · exact before.siblings node inside
  | true =>
      refine ⟨?_, by simp [TreeBuilder.addStatement], trivial⟩
      intro block member
      rcases List.mem_cons.mp member with rfl | inside
      · exact ⟨own, before.siblings⟩
      · exact before.blocks block inside

/-- A token between statements keeps the invariant of a builder. -/
private theorem Holds.stepBetween (invariant : HeaderInvariant during after made)
    {builder next : TreeBuilder} {afterBreak : Bool} {token : Token}
    (before : builder.Holds during after made) (own : made token.toLexeme)
    (moved : builder.stepBetween afterBreak token = .ok next) : next.Holds during after made := by
  obtain ⟨⟨kind, text⟩, span⟩ := token
  cases kind with
  | whitespace =>
      cases moved
      exact { before with place := trivial }
  | lineBreak =>
      cases moved
      refine ⟨before.blocks, ?_, trivial⟩
      intro node member
      cases afterBreak with
      | false => exact before.siblings node member
      | true =>
          rcases List.mem_cons.mp member with rfl | inside
          · exact .emptyLine
          · exact before.siblings node inside
  | comment =>
      cases moved
      refine ⟨before.blocks, ?_, trivial⟩
      intro node member
      rcases List.mem_cons.mp member with rfl | inside
      · exact .comment own
      · exact before.siblings node inside
  | closeBlock =>
      obtain ⟨blocks, siblings, place, lastStart⟩ := builder
      cases blocks with
      | nil => cases moved
      | cons block outer =>
          cases moved
          obtain ⟨header, earlier⟩ := before.blocks block List.mem_cons_self
          refine ⟨fun other member => before.blocks other (List.mem_cons_of_mem _ member), ?_,
            trivial⟩
          intro node member
          rcases List.mem_cons.mp member with rfl | inside
          · exact .block header fun child within =>
              before.siblings child (List.mem_reverse.mp within)
          · exact earlier node inside
  | other =>
      cases moved
      exact { before with place := invariant.step invariant.start own }
  | string | number | date | semicolon | plus | openBlock => cases moved

/-- Reading a token keeps the property of all headers. -/
theorem Holds.read (invariant : HeaderInvariant during after made) {builder next : TreeBuilder}
    {lexeme : Lexeme} (before : builder.Holds during after made) (own : made lexeme)
    (moved : builder.read lexeme = .ok next) : next.Holds during after made := by
  obtain ⟨blocks, siblings, place, lastStart⟩ := builder
  have spot := before.place
  cases place with
  | between afterBreak => exact before.stepBetween invariant own moved
  | inHeader state => exact before.afterStep (invariant.step spot own) moved
  | afterHeader header opens =>
      by_cases space : lexeme.kind = .whitespace
      · obtain ⟨kind, text⟩ := lexeme
        cases space
        cases moved
        exact before
      by_cases comment : lexeme.kind = .comment
      · obtain ⟨kind, text⟩ := lexeme
        cases comment
        cases moved
        exact { before with place := invariant.postComment spot own }
      · rw [read_afterHeader space comment] at moved
        exact (before.addStatement spot).stepBetween invariant own moved

/-- The headers of a closed builder are those that it held. -/
private theorem Holds.close {builder : TreeBuilder} {nodes : List Node}
    (before : builder.Holds during after made) (closed : builder.close = .ok nodes) :
    ∀ node ∈ nodes, node.Every after fun comment => made ⟨.comment, comment⟩ := by
  unfold TreeBuilder.close at closed
  split at closed
  · cases closed
    intro node member
    exact before.siblings node (List.mem_reverse.mp member)
  · cases closed

/-- The headers of a tree have the property of complete headers, if each token keeps the invariant.
-/
private theorem Completes.every_of_holds (invariant : HeaderInvariant during after made)
    {builder : TreeBuilder} {lexemes : List Lexeme} {nodes : List Node}
    (completes : Completes builder lexemes nodes) (before : builder.Holds during after made)
    (each : ∀ lexeme ∈ lexemes, made lexeme) :
    ∀ node ∈ nodes, node.Every after fun comment => made ⟨.comment, comment⟩ := by
  induction completes with
  | @finish builder nodes finished =>
      obtain ⟨blocks, siblings, place, lastStart⟩ := builder
      cases place with
      | between afterBreak => exact before.close finished
      | inHeader state => cases finished
      | afterHeader header opens => exact (before.addStatement before.place).close finished
  | step reads _ ih =>
      exact ih (before.read invariant (each _ List.mem_cons_self) reads)
        fun lexeme member => each lexeme (List.mem_cons_of_mem _ member)

/-- What holds of every complete header holds of all headers of a tree. -/
theorem Completes.every (invariant : HeaderInvariant during after made) {lexemes : List Lexeme}
    {nodes : List Node} (completes : Completes {} lexemes nodes)
    (each : ∀ lexeme ∈ lexemes, made lexeme) :
    ∀ node ∈ nodes, node.Every after fun comment => made ⟨.comment, comment⟩ :=
  completes.every_of_holds invariant ⟨by simp, by simp, trivial⟩ each

end TreeBuilder

/-! ## Pieces -/

section

variable (made : Lexeme → Prop)

/-- The string and the comments of a fragment are tokens. -/
structure Fragment.MadeOf (fragment : Fragment) : Prop where
  text : made ⟨.string, fragment.text⟩
  comments : ∀ comment ∈ fragment.comments, made ⟨.comment, comment⟩

/-- A value is a token that neither separates nor terminates, or several strings. -/
inductive Value.MadeOf : Value → Prop where
  | single {lexeme : Lexeme} (content : lexeme.kind.isTrivia = false)
      (goesOn : lexeme.kind.isTerminator = false) (own : made lexeme) : MadeOf (.ofLexeme lexeme)
  | concatenation {fragments : List Fragment} (several : 2 ≤ fragments.length)
      (each : ∀ fragment ∈ fragments, fragment.MadeOf made) : MadeOf (.concatenation fragments)

/-- The keyword, the value and the comments of a statement are tokens. -/
structure Header.MadeOf (header : Header) : Prop where
  keyword : made ⟨.other, header.keyword⟩
  keywordComments : ∀ comment ∈ header.keywordComments, made ⟨.comment, comment⟩
  value : ∀ value ∈ header.value, value.MadeOf made
  valueComments : ∀ comment ∈ header.valueComments, made ⟨.comment, comment⟩
  postComments : ∀ comment ∈ header.postComments, made ⟨.comment, comment⟩

/-- All that a node holds is made of tokens. -/
def Node.MadeOf : Node → Prop :=
  Node.Every (Header.MadeOf made) fun comment => made ⟨.comment, comment⟩

/-- All that has been read of a header is made of tokens. -/
def HeaderState.MadeOf : HeaderState → Prop
  | .start => True
  | .keyword word comments =>
      made ⟨.other, word⟩ ∧ ∀ comment ∈ comments, made ⟨.comment, comment⟩
  | .value word keywordComments given comments =>
      Header.MadeOf made
        { keyword := word, keywordComments, value := some given, valueComments := comments }
  | .fragment word keywordComments earlier last =>
      Header.MadeOf made
        { keyword := word, keywordComments, value := some (.concatenation (earlier ++ [last])) }
  | .plus word keywordComments earlier last =>
      Header.MadeOf made { keyword := word, keywordComments } ∧
        ∀ fragment ∈ earlier ++ [last], fragment.MadeOf made

end

variable {made : Lexeme → Prop}

/-- A header that is made of some tokens is made of tokens with a weaker property. -/
theorem Header.MadeOf.mono {made' : Lexeme → Prop} (weaker : ∀ lexeme, made lexeme → made' lexeme)
    {header : Header} (own : header.MadeOf made) : header.MadeOf made' := by
  have values : ∀ value : Value, value.MadeOf made → value.MadeOf made' := by
    intro value given
    cases given with
    | single content goesOn own => exact .single content goesOn (weaker _ own)
    | concatenation several each =>
        refine .concatenation several fun fragment member => ?_
        have made := each fragment member
        exact ⟨weaker _ made.text, fun comment inside => weaker _ (made.comments comment inside)⟩
  exact
    { keyword := weaker _ own.keyword
      keywordComments := fun comment member => weaker _ (own.keywordComments comment member)
      value := fun value member => values value (own.value value member)
      valueComments := fun comment member => weaker _ (own.valueComments comment member)
      postComments := fun comment member => weaker _ (own.postComments comment member) }

/-- A node that is made of some tokens is made of tokens with a weaker property. -/
theorem Node.MadeOf.mono {made' : Lexeme → Prop} (weaker : ∀ lexeme, made lexeme → made' lexeme)
    {node : Node} (own : node.MadeOf made) : node.MadeOf made' :=
  Node.Every.imp (fun _ header => header.mono weaker) (fun _ comment => weaker _ comment) own

theorem Value.MadeOf.quoted {text : Text} (own : made ⟨.string, text⟩) :
    (Value.quoted text).MadeOf made :=
  @single made ⟨.string, text⟩ rfl rfl own

/-- The token of a string is one that it is made of. -/
theorem Value.madeOf_quoted {text : Text} (value : (Value.quoted text).MadeOf made) :
    made ⟨.string, text⟩ := by
  generalize same : Value.quoted text = given at value
  cases value with
  | @single lexeme _ _ own =>
      obtain ⟨kind, own'⟩ := lexeme
      cases kind <;> cases same
      exact own
  | concatenation => cases same

/-- Several strings that are joined are made of the tokens of each. -/
theorem Value.madeOf_concatenation {fragments : List Fragment}
    (value : (Value.concatenation fragments).MadeOf made) :
    2 ≤ fragments.length ∧ ∀ fragment ∈ fragments, fragment.MadeOf made := by
  generalize same : Value.concatenation fragments = given at value
  cases value with
  | @single lexeme _ _ own =>
      obtain ⟨kind, own'⟩ := lexeme
      cases kind <;> cases same
  | concatenation several each =>
      cases same
      exact ⟨several, each⟩

private theorem madeOf_append {comments : List Text} {comment : Text}
    (earlier : ∀ comment ∈ comments, made ⟨.comment, comment⟩) (last : made ⟨.comment, comment⟩) :
    ∀ other ∈ comments ++ [comment], made ⟨.comment, other⟩ := by
  intro other member
  rcases List.mem_append.mp member with before | own
  · exact earlier other before
  · rw [List.mem_singleton.mp own]
    exact last

/-- A joined string takes in the comment behind it. -/
private theorem Fragment.MadeOf.addComment {fragment : Fragment} {comment : Text}
    (own : fragment.MadeOf made) (last : made ⟨.comment, comment⟩) :
    (fragment.addComment comment).MadeOf made :=
  ⟨own.text, madeOf_append own.comments last⟩

/-- Reading a token of a header keeps it made of tokens. -/
theorem HeaderState.MadeOf.step {state : HeaderState} {lexeme : Lexeme}
    (before : state.MadeOf made) (own : made lexeme) :
    (state.step lexeme).Holds (MadeOf made) (Header.MadeOf made) := by
  obtain ⟨kind, text⟩ := lexeme
  cases state with
  | start =>
      cases kind with
      | other => exact ⟨own, fun _ member => (List.not_mem_nil member).elim⟩
      | _ => trivial
  | keyword word comments =>
      obtain ⟨keyword, keywordComments⟩ := before
      have header : Header.MadeOf made { keyword := word, keywordComments := comments } :=
        ⟨keyword, keywordComments, by simp, by simp, by simp⟩
      cases kind with
      | whitespace | lineBreak => exact ⟨keyword, keywordComments⟩
      | comment => exact ⟨keyword, madeOf_append keywordComments own⟩
      | semicolon | openBlock => exact header
      | string | number | date | other | plus | closeBlock =>
          refine ⟨keyword, keywordComments, ?_, by simp, by simp⟩
          rintro value ⟨⟩
          exact .single rfl rfl own
  | value word keywordComments given comments =>
      cases kind with
      | whitespace | lineBreak | semicolon | openBlock => exact before
      | comment => exact { before with valueComments := madeOf_append before.valueComments own }
      | plus =>
          cases given with
          | quoted string =>
              refine ⟨⟨before.keyword, before.keywordComments, by simp, by simp, by simp⟩, ?_⟩
              intro fragment member
              rw [List.mem_singleton.mp member]
              exact ⟨Value.madeOf_quoted (before.value _ rfl), before.valueComments⟩
          | number _ | date _ | other _ | concatenation _ => trivial
      | string | number | date | other | closeBlock => trivial
  | fragment word keywordComments earlier last =>
      obtain ⟨several, each⟩ := Value.madeOf_concatenation (before.value _ rfl)
      cases kind with
      | whitespace | lineBreak | semicolon | openBlock => exact before
      | comment =>
          refine ⟨before.keyword, before.keywordComments, ?_, by simp, by simp⟩
          rintro value ⟨⟩
          refine .concatenation (by simpa using several) ?_
          intro fragment member
          rcases List.mem_append.mp member with inside | final
          · exact each fragment (List.mem_append_left _ inside)
          · rw [List.mem_singleton.mp final]
            exact (each last (by simp)).addComment own
      | plus =>
          exact ⟨⟨before.keyword, before.keywordComments, by simp, by simp, by simp⟩, each⟩
      | string | number | date | other | closeBlock => trivial
  | plus word keywordComments earlier last =>
      obtain ⟨header, each⟩ := before
      cases kind with
      | whitespace | lineBreak => exact ⟨header, each⟩
      | comment =>
          refine ⟨header, ?_⟩
          intro fragment member
          rcases List.mem_append.mp member with inside | final
          · exact each fragment (List.mem_append_left _ inside)
          · rw [List.mem_singleton.mp final]
            exact (each last (by simp)).addComment own
      | string =>
          refine ⟨header.keyword, header.keywordComments, ?_, by simp, by simp⟩
          rintro value ⟨⟩
          refine .concatenation (by simp) ?_
          intro fragment member
          rcases List.mem_append.mp member with inside | final
          · exact each fragment inside
          · rw [List.mem_singleton.mp final]
            exact ⟨own, fun _ member => (List.not_mem_nil member).elim⟩
      | number | date | other | semicolon | openBlock | closeBlock | plus => trivial

/-- What holds of all tokens of a text holds of all pieces of its tree. -/
theorem Text.madeOf_of_parse {text : Text} {nodes : List Node} (parsed : text.parse = .ok nodes)
    (each : ∀ lexemes, Lexes text lexemes → ∀ lexeme ∈ lexemes, made lexeme) :
    ∀ node ∈ nodes, node.MadeOf made := by
  have invariant : HeaderInvariant (HeaderState.MadeOf made) (Header.MadeOf made) made :=
    { start := trivial
      step := HeaderState.MadeOf.step
      postComment := fun before own =>
        { before with postComments := madeOf_append before.postComments own } }
  obtain ⟨lexemes, lexes, completes⟩ := Text.parse_eq_ok_iff.mp parsed
  exact completes.every invariant (each lexemes lexes)

end YangFormatter
