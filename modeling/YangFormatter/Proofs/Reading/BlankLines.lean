import YangFormatter.Proofs.Reading.Grammar
import YangFormatter.Proofs.Reading.Region
import YangFormatter.Proofs.Reading.Spelling

/-! # Where empty lines stand

A line break outside of headers is an empty line if the last token before it, apart from white
space, is a line break too (`Lexeme.IsBlankLine`). A builder knows this from the places it has
been in (`TreeBuilder.Follows`), so it records each of these line breaks, in order, and no other.
The tree has it where the builder stood: in the innermost open block, behind what the tokens
before it spell and in front of what the tokens behind it spell (`Text.recorded_parse`).
-/

namespace YangFormatter

/-! ## Line breaks among tokens -/

/-- The region that some tokens lead to, and the number of blocks that they leave open. -/
structure Standing where
  region : Region := .between
  depth : Nat := 0
deriving DecidableEq, Repr

/-- An opening brace that ends a header opens a block, and a closing brace outside of headers
closes one. -/
def Standing.after (standing : Standing) (kind : TokenKind) : Standing where
  region := standing.region.after kind
  depth :=
    match standing.region, kind with
    | .header, .openBlock => standing.depth + 1
    | .header, _ => standing.depth
    | _, .closeBlock => standing.depth - 1
    | _, _ => standing.depth

namespace Lexeme

/-- Where the token behind some tokens stands. -/
def standing (before : List Lexeme) : Standing :=
  before.foldl (fun standing lexeme => standing.after lexeme.kind) {}

/-- Whether the last of some tokens, apart from white space, is a line break. -/
def endsInBreak (before : List Lexeme) : Bool :=
  (before.reverse.find? (·.kind != .whitespace)).any (·.kind == .lineBreak)

/-- A token behind some others is a line break outside of headers, and so is the last token
before it that is not white space. -/
def IsBlankLine (before : List Lexeme) (lexeme : Lexeme) : Prop :=
  lexeme.kind = .lineBreak ∧ (standing before).region ≠ .header ∧ endsInBreak before = true

instance (before : List Lexeme) (lexeme : Lexeme) : Decidable (IsBlankLine before lexeme) :=
  inferInstanceAs (Decidable (_ ∧ _ ∧ _))

/-- The texts of the empty lines among some tokens; `before` holds the tokens before them. -/
def blankLines (before : List Lexeme) : List Lexeme → List Text
  | [] => []
  | lexeme :: lexemes =>
      (if IsBlankLine before lexeme then [lexeme.text] else []) ++
        blankLines (before ++ [lexeme]) lexemes

/-- Whether a plus sign behind some tokens joins strings. -/
def joining (before : List Lexeme) : Bool :=
  before.foldl (fun joining lexeme => joins joining lexeme.kind) false

theorem standing_concat (before : List Lexeme) (lexeme : Lexeme) :
    standing (before ++ [lexeme]) = (standing before).after lexeme.kind :=
  List.foldl_concat ..

theorem joining_concat (before : List Lexeme) (lexeme : Lexeme) :
    joining (before ++ [lexeme]) = joins (joining before) lexeme.kind :=
  List.foldl_concat ..

/-- Tokens end in a line break if the last one is one, or white space behind one. -/
theorem endsInBreak_concat (before : List Lexeme) (lexeme : Lexeme) :
    endsInBreak (before ++ [lexeme]) =
      (lexeme.kind == .lineBreak || (lexeme.kind == .whitespace && endsInBreak before)) := by
  obtain ⟨kind, text⟩ := lexeme
  rw [endsInBreak, List.reverse_concat, List.find?_cons]
  cases kind with
  | whitespace | lineBreak | comment | string | number | date | other | semicolon | plus
  | openBlock | closeBlock => rfl

/-- The blank lines among tokens are those of the first ones and then those of the others. -/
theorem blankLines_append (before lexemes others : List Lexeme) :
    blankLines before (lexemes ++ others) =
      blankLines before lexemes ++ blankLines (before ++ lexemes) others := by
  induction lexemes generalizing before with
  | nil => rw [List.nil_append, blankLines, List.nil_append, List.append_nil]
  | cons lexeme lexemes ih =>
      rw [List.cons_append, blankLines, ih, blankLines, List.append_assoc, List.append_assoc,
        List.singleton_append]

/-- Tokens are left out one by one, with a view to those before them. -/
theorem essential_append (joining : Bool) (lexemes others : List Lexeme) :
    essential joining (lexemes ++ others) =
      essential joining lexemes ++
        essential (lexemes.foldl (fun joining lexeme => joins joining lexeme.kind) joining)
          others := by
  induction lexemes generalizing joining with
  | nil => rfl
  | cons lexeme lexemes ih =>
      rw [List.cons_append, essential, ih, essential, List.append_assoc, List.foldl_cons]

/-- The last token is left out with a view to those before it. -/
theorem essential_concat (before : List Lexeme) (lexeme : Lexeme) :
    essential false (before ++ [lexeme]) =
      essential false before ++ lexeme.remnant (joining before) := by
  rw [essential_append, essential, essential, List.append_nil, joining]

end Lexeme

/-! ## Empty lines in a tree -/

namespace Node

mutual

/-- The empty lines within a node, as the line breaks they were. -/
def emptyLines : Node → List Text
  | .leaf _ | .comment _ => []
  | .block _ children => emptyLinesAll children
  | .emptyLine text => [text]

/-- The empty lines within some nodes, one node after the other. -/
def emptyLinesAll : List Node → List Text
  | [] => []
  | node :: nodes => node.emptyLines ++ emptyLinesAll nodes

end

theorem emptyLinesAll_append (nodes others : List Node) :
    emptyLinesAll (nodes ++ others) = emptyLinesAll nodes ++ emptyLinesAll others := by
  induction nodes with
  | nil => rfl
  | cons node nodes ih => rw [List.cons_append, emptyLinesAll, ih, emptyLinesAll, List.append_assoc]

/-- The empty lines within the newest node come last. -/
theorem emptyLinesAll_reverse_cons (node : Node) (nodes : List Node) :
    emptyLinesAll (node :: nodes).reverse = emptyLinesAll nodes.reverse ++ node.emptyLines := by
  rw [List.reverse_cons, emptyLinesAll_append, emptyLinesAll, emptyLinesAll, List.append_nil]

end Node

/-- A block around a place in a tree: the statement that opens it, with the nodes before and
behind that statement. -/
structure Frame extends OpenBlock where
  behind : List Node

namespace Frame

/-- The tree that has some nodes inside of frames, innermost first. -/
def fill : List Frame → List Node → List Node
  | [], nodes => nodes
  | frame :: outer, nodes =>
      fill outer (frame.before.reverse ++ .block frame.header nodes :: frame.behind)

/-- The tokens behind a place in a tree, where some nodes follow in the innermost block. -/
def spellingBehind (frames : List Frame) (back : List Node) : List Lexeme :=
  Node.spellingAll back ++
    frames.flatMap fun frame => ⟨.closeBlock, ['}']⟩ :: Node.spellingAll frame.behind

/-- A tree spells what stands before a place and then what stands behind it. -/
theorem spellingAll_fill (frames : List Frame) (siblings back : List Node) :
    Node.spellingAll (fill frames (siblings.reverse ++ back)) =
      TreeBuilder.earlier (frames.map Frame.toOpenBlock) siblings ++
        spellingBehind frames back := by
  induction frames generalizing siblings back with
  | nil =>
      rw [fill, Node.spellingAll_append, spellingBehind, List.flatMap_nil, List.append_nil]
      rfl
  | cons frame outer ih =>
      rw [fill, ih, List.map_cons, spellingBehind, spellingBehind, List.flatMap_cons]
      simp [TreeBuilder.earlier, OpenBlock.spelling, Node.spellingAll_append, Node.spellingAll,
        Node.spelling]

end Frame

/-! ## What a builder records -/

/-- Whether a line break at a place is an empty line. -/
def Place.afterBreak : Place → Bool
  | .between afterBreak => afterBreak
  | .inHeader _ | .afterHeader _ _ => false

/-- The empty line that a token at a place stands for, if it stands for one. -/
def Place.recorded (place : Place) (lexeme : Lexeme) : List Text :=
  if lexeme.kind = .lineBreak ∧ place.afterBreak = true then [lexeme.text] else []

namespace TreeBuilder

/-- The empty lines in some open blocks and among the nodes of the innermost. -/
def emptyLines (blocks : List OpenBlock) (siblings : List Node) : List Text :=
  blocks.reverse.flatMap (fun block => Node.emptyLinesAll block.before.reverse) ++
    Node.emptyLinesAll siblings.reverse

/-- What can become of the open blocks and the nodes of the innermost when a token is read, and
the empty lines that come with it: a node is added, a block is opened, or a block is closed. -/
inductive Grows : List OpenBlock → List Node → List Text → List OpenBlock → List Node → Prop where
  | idle {blocks : List OpenBlock} {siblings : List Node} : Grows blocks siblings [] blocks siblings
  | node {blocks : List OpenBlock} {siblings : List Node} (node : Node) :
      Grows blocks siblings node.emptyLines blocks (node :: siblings)
  | opened {blocks : List OpenBlock} {siblings : List Node} (header : Header) :
      Grows blocks siblings [] (⟨header, siblings⟩ :: blocks) []
  | closed {block : OpenBlock} {outer : List OpenBlock} {siblings : List Node} :
      Grows (block :: outer) siblings [] outer
        (.block block.header siblings.reverse :: block.before)
  | trans {blocks inner later : List OpenBlock} {siblings nodes others : List Node}
      {lines more : List Text} (first : Grows blocks siblings lines inner nodes)
      (second : Grows inner nodes more later others) :
      Grows blocks siblings (lines ++ more) later others

/-- A builder that grows by some blank lines has them behind its empty lines. -/
theorem Grows.emptyLines_eq {blocks later : List OpenBlock} {siblings others : List Node}
    {lines : List Text} (grows : Grows blocks siblings lines later others) :
    emptyLines later others = emptyLines blocks siblings ++ lines := by
  induction grows with
  | idle => rw [List.append_nil]
  | node node => rw [emptyLines, Node.emptyLinesAll_reverse_cons, ← List.append_assoc, emptyLines]
  | opened header => simp [emptyLines, Node.emptyLinesAll]
  | closed => simp [emptyLines, Node.emptyLinesAll_append, Node.emptyLinesAll, Node.emptyLines]
  | trans _ _ ih ih' => rw [ih', ih, List.append_assoc]

/-- A tree goes on from some open blocks and from the nodes of the innermost. -/
def Extends (blocks : List OpenBlock) (siblings nodes : List Node) : Prop :=
  ∃ frames back, frames.map Frame.toOpenBlock = blocks ∧
    nodes = Frame.fill frames (siblings.reverse ++ back)

/-- A tree that goes on from what has grown goes on from what was there before. -/
theorem Grows.extends {blocks later : List OpenBlock} {siblings others nodes : List Node}
    {lines : List Text} (grows : Grows blocks siblings lines later others)
    (rest : Extends later others nodes) : Extends blocks siblings nodes := by
  induction grows with
  | idle => exact rest
  | node node =>
      obtain ⟨frames, back, same, rfl⟩ := rest
      exact ⟨frames, node :: back, same, by simp⟩
  | opened header =>
      obtain ⟨frames, back, same, rfl⟩ := rest
      obtain ⟨frame, outer, rfl, own, others⟩ := List.map_eq_cons_iff.mp same
      refine ⟨outer, .block header back :: frame.behind, others, ?_⟩
      rw [Frame.fill, own]
      rfl
  | @closed block outer siblings =>
      obtain ⟨frames, back, same, rfl⟩ := rest
      refine ⟨⟨block, back⟩ :: frames, [], by rw [List.map_cons, same], ?_⟩
      simp [Frame.fill]
  | trans _ _ ih ih' => exact ih (ih' rest)

/-- A step within a header adds no node, and ends the line. -/
private theorem afterStep_eq {builder next : TreeBuilder} {step : HeaderStep}
    (moved : builder.afterStep step = .ok next) :
    next.blocks = builder.blocks ∧ next.siblings = builder.siblings ∧
      next.place.afterBreak = false := by
  cases step with
  | more state =>
      cases moved
      exact ⟨rfl, rfl, rfl⟩
  | finished header opens =>
      cases moved
      exact ⟨rfl, rfl, rfl⟩
  | refused cause => cases moved

/-- Adding a statement adds no empty line. -/
private theorem grows_addStatement (builder : TreeBuilder) (header : Header) (opens : Bool) :
    Grows builder.blocks builder.siblings [] (builder.addStatement header opens).blocks
      (builder.addStatement header opens).siblings := by
  cases opens with
  | false => exact .node (.leaf header)
  | true => exact .opened header

/-- Between statements a builder grows by the blank line that a token is. -/
private theorem grows_stepBetween {builder next : TreeBuilder} {afterBreak : Bool} {token : Token}
    (moved : builder.stepBetween afterBreak token = .ok next) :
    Grows builder.blocks builder.siblings ((Place.between afterBreak).recorded token.toLexeme)
        next.blocks next.siblings ∧
      next.place.afterBreak =
        (token.kind == .lineBreak || (token.kind == .whitespace && afterBreak)) := by
  obtain ⟨⟨kind, text⟩, span⟩ := token
  cases kind with
  | whitespace =>
      cases moved
      exact ⟨.idle, rfl⟩
  | lineBreak =>
      cases moved
      cases afterBreak with
      | false => exact ⟨.idle, rfl⟩
      | true => exact ⟨.node (.emptyLine text), rfl⟩
  | comment =>
      cases moved
      exact ⟨.node (.comment text), rfl⟩
  | closeBlock =>
      obtain ⟨blocks, siblings, place, lastStart⟩ := builder
      cases blocks with
      | nil => cases moved
      | cons block outer =>
          cases moved
          exact ⟨.closed, rfl⟩
  | other =>
      cases moved
      exact ⟨.idle, rfl⟩
  | string | number | date | semicolon | plus | openBlock => cases moved

/-- Reading a token records the empty line that it stands for, and leaves the builder behind a
line break exactly if it stands outside of headers and is one, or is white space behind one. -/
theorem grows_read {builder next : TreeBuilder} {lexeme : Lexeme}
    (moved : builder.read lexeme = .ok next) :
    Grows builder.blocks builder.siblings (builder.place.recorded lexeme) next.blocks
        next.siblings ∧
      next.place.afterBreak =
        (builder.place.region != .header &&
          (lexeme.kind == .lineBreak ||
            (lexeme.kind == .whitespace && builder.place.afterBreak))) := by
  obtain ⟨blocks, siblings, place, lastStart⟩ := builder
  cases place with
  | between afterBreak => exact grows_stepBetween moved
  | inHeader state =>
      obtain ⟨sameBlocks, sameSiblings, headerBreak⟩ := afterStep_eq moved
      rw [sameBlocks, sameSiblings, headerBreak]
      refine ⟨?_, rfl⟩
      rw [Place.recorded, if_neg fun both => Bool.false_ne_true both.2]
      exact .idle
  | afterHeader header opens =>
      have unrecorded : (Place.afterHeader header opens).recorded lexeme = [] :=
        if_neg fun both => Bool.false_ne_true both.2
      rw [unrecorded]
      by_cases space : lexeme.kind = .whitespace
      · obtain ⟨kind, text⟩ := lexeme
        cases space
        cases moved
        exact ⟨.idle, rfl⟩
      by_cases comment : lexeme.kind = .comment
      · obtain ⟨kind, text⟩ := lexeme
        cases comment
        cases moved
        exact ⟨.idle, rfl⟩
      · rw [read_afterHeader space comment] at moved
        obtain ⟨grows, afterBreak⟩ := grows_stepBetween moved
        have nothingYet : (Place.between false).recorded lexeme = [] :=
          if_neg fun both => Bool.false_ne_true both.2
        refine ⟨?_, afterBreak⟩
        rw [nothingYet] at grows
        exact (grows_addStatement _ header opens).trans grows

/-- Finishing a tree adds no empty line. -/
private theorem grows_finish {builder : TreeBuilder} {nodes : List Node}
    (finished : builder.finish 0 = .ok nodes) :
    Grows builder.blocks builder.siblings [] [] nodes.reverse := by
  have closed : ∀ {last : TreeBuilder}, last.close = .ok nodes →
      last.blocks = [] ∧ last.siblings = nodes.reverse := by
    intro last ends
    unfold close at ends
    split at ends
    next empty =>
      cases ends
      exact ⟨List.isEmpty_iff.mp empty, last.siblings.reverse_reverse.symm⟩
    next => cases ends
  obtain ⟨blocks, siblings, place, lastStart⟩ := builder
  cases place with
  | between afterBreak =>
      obtain ⟨rfl, rfl⟩ := closed finished
      exact .idle
  | inHeader state => cases finished
  | afterHeader header opens =>
      obtain ⟨noBlocks, own⟩ := closed finished
      have grows := grows_addStatement ⟨blocks, siblings, .afterHeader header opens, lastStart⟩
        header opens
      rwa [noBlocks, own] at grows

/-- A tree goes on from every builder that completes it. -/
theorem Completes.extends {builder : TreeBuilder} {lexemes : List Lexeme} {nodes : List Node}
    (completes : Completes builder lexemes nodes) :
    Extends builder.blocks builder.siblings nodes := by
  induction completes with
  | finish finished =>
      exact (grows_finish finished).extends ⟨[], [], rfl, by simp [Frame.fill]⟩
  | step reads _ ih => exact (grows_read reads).1.extends ih

/-! ## Along the tokens -/

/-- A builder stands where some tokens lead, and has recorded what is among them. -/
structure Follows (builder : TreeBuilder) (before : List Lexeme) : Prop where
  standing : Standing.mk builder.place.region builder.shape.depth = Lexeme.standing before
  afterBreak : builder.place.afterBreak =
    (builder.place.region != .header && Lexeme.endsInBreak before)
  spells : builder.Spells (Lexeme.essential false before) (Lexeme.joining before)
  recorded : emptyLines builder.blocks builder.siblings = Lexeme.blankLines [] before

theorem follows_start : Follows {} [] :=
  ⟨rfl, rfl, ⟨rfl, rfl⟩, rfl⟩

/-- A builder that has read some tokens stands in the region that they lead to. -/
theorem Follows.region {builder : TreeBuilder} {before : List Lexeme}
    (follows : builder.Follows before) :
    builder.place.region = (Lexeme.standing before).region :=
  congrArg Standing.region follows.standing

/-- A builder that has read some tokens records exactly the blank lines behind them. -/
theorem Follows.recorded_eq {builder : TreeBuilder} {before : List Lexeme}
    (follows : builder.Follows before) (lexeme : Lexeme) :
    builder.place.recorded lexeme =
      if Lexeme.IsBlankLine before lexeme then [lexeme.text] else [] := by
  have same : (lexeme.kind = .lineBreak ∧ builder.place.afterBreak = true) ↔
      Lexeme.IsBlankLine before lexeme := by
    rw [Lexeme.IsBlankLine, follows.afterBreak, follows.region, Bool.and_eq_true, bne_iff_ne]
  rw [Place.recorded]
  exact if_congr same rfl rfl

end TreeBuilder

/-- What a token does to the number of open blocks follows from its kind and its region. -/
theorem Shape.depth_step {shape next : Shape} {region : Region} {kind : TokenKind}
    (inside : region = .header ↔ shape.header.isSome = true) (moved : shape.step kind = some next) :
    next.depth = (Standing.after ⟨region, shape.depth⟩ kind).depth := by
  obtain ⟨depth, header⟩ := shape
  cases header with
  | none =>
      cases region with
      | header => exact (Bool.false_ne_true (inside.mp rfl)).elim
      | between | trailing =>
          cases kind with
          | closeBlock =>
              cases depth with
              | zero => cases moved
              | succ depth =>
                  cases moved
                  rfl
          | whitespace | lineBreak | comment | other =>
              cases moved
              rfl
          | string | number | date | semicolon | plus | openBlock => cases moved
  | some phase =>
      cases inside.mpr rfl
      cases phase <;> cases kind <;> cases moved <;> rfl

namespace TreeBuilder

/-- A token opens and closes blocks in a builder as it does among the tokens. -/
theorem depth_read {builder next : TreeBuilder} {lexeme : Lexeme}
    (moved : builder.read lexeme = .ok next) :
    next.shape.depth =
      (Standing.after ⟨builder.place.region, builder.shape.depth⟩ lexeme.kind).depth := by
  have shaped := builder.shape_read lexeme
  rw [moved] at shaped
  refine Shape.depth_step ?_ shaped.symm
  obtain ⟨blocks, siblings, place, lastStart⟩ := builder
  cases place <;> simp [Place.region, shape]

/-- A builder that has read one more token has followed it. -/
theorem Follows.read {builder next : TreeBuilder} {before : List Lexeme} {lexeme : Lexeme}
    (follows : builder.Follows before) (formed : lexeme.WellFormed)
    (moved : builder.read lexeme = .ok next) : next.Follows (before ++ [lexeme]) := by
  obtain ⟨grows, afterBreak⟩ := grows_read moved
  obtain ⟨region, _⟩ := region_step moved
  obtain ⟨spelled, joins⟩ := spells_read formed moved
  refine ⟨?_, ?_, ⟨?_, ?_⟩, ?_⟩
  · rw [Lexeme.standing_concat, ← follows.standing, region, depth_read moved]
    rfl
  · rw [afterBreak, follows.afterBreak, region, Lexeme.endsInBreak_concat]
    obtain ⟨kind, text⟩ := lexeme
    -- Behind a header stands its terminator, so nothing that ends it follows a line break.
    cases builder.place.region <;> cases kind <;> cases Lexeme.endsInBreak before <;> rfl
  · rw [spelled, Lexeme.essential_concat, follows.spells.1, follows.spells.2]
  · rw [joins, Lexeme.joining_concat, follows.spells.2]
  · rw [grows.emptyLines_eq, follows.recorded, follows.recorded_eq, Lexeme.blankLines_append,
      Lexeme.blankLines, Lexeme.blankLines, List.append_nil, List.nil_append]

/-- Wherever some tokens are divided, a builder has followed the first part and completes the
tree with the second. -/
theorem Completes.exists_follows {builder : TreeBuilder} {done before rest : List Lexeme}
    {nodes : List Node} (follows : builder.Follows done)
    (formed : ∀ lexeme ∈ before, lexeme.WellFormed)
    (completes : Completes builder (before ++ rest) nodes) :
    ∃ next : TreeBuilder, next.Follows (done ++ before) ∧ Completes next rest nodes := by
  induction before generalizing builder done with
  | nil =>
      rw [List.append_nil]
      exact ⟨builder, follows, completes⟩
  | cons lexeme before ih =>
      obtain ⟨first, others⟩ := List.forall_mem_cons.mp formed
      cases completes with
      | step reads completes =>
          have behind := ih (follows.read first reads) others completes
          rwa [List.append_assoc, List.singleton_append] at behind

end TreeBuilder

/-- The empty lines of a tree are those among some tokens, in order and as they are written there.
Each has as many blocks around it as are open at its token. What stands before it in the tree
spells the tokens before it and holds the empty lines among them, and what stands behind it
spells the tokens behind it. -/
structure Node.Records (nodes : List Node) (lexemes : List Lexeme) : Prop where
  lines : emptyLinesAll nodes = Lexeme.blankLines [] lexemes
  places : ∀ before lexeme after, lexemes = before ++ lexeme :: after →
    Lexeme.IsBlankLine before lexeme → ∃ frames front back,
      nodes = Frame.fill frames (front ++ .emptyLine lexeme.text :: back) ∧
      frames.length = (Lexeme.standing before).depth ∧
      TreeBuilder.earlier (frames.map Frame.toOpenBlock) front.reverse =
        Lexeme.essential false before ∧
      TreeBuilder.emptyLines (frames.map Frame.toOpenBlock) front.reverse =
        Lexeme.blankLines [] before ∧
      Frame.spellingBehind frames back = Lexeme.essential false after

namespace TreeBuilder

/-- A builder that meets an empty line puts it behind the nodes of the innermost block. -/
theorem Follows.exists_place {builder : TreeBuilder} {before after : List Lexeme}
    {lexeme : Lexeme} {nodes : List Node} (follows : builder.Follows before)
    (blank : Lexeme.IsBlankLine before lexeme)
    (completes : Completes builder (lexeme :: after) nodes) :
    ∃ frames back, frames.map Frame.toOpenBlock = builder.blocks ∧
      nodes = Frame.fill frames (builder.siblings.reverse ++ .emptyLine lexeme.text :: back) ∧
      builder.place = .between true := by
  obtain ⟨isBreak, outside, broken⟩ := blank
  have stands : builder.place.afterBreak = true := by
    rw [follows.afterBreak, follows.region, broken, Bool.and_true, bne_iff_ne]
    exact outside
  obtain ⟨kind, text⟩ := lexeme
  obtain ⟨blocks, siblings, place, lastStart⟩ := builder
  cases place with
  | inHeader | afterHeader => cases stands
  | between afterBreak =>
      cases stands
      cases isBreak
      cases completes with
      | step reads completes =>
          cases reads
          obtain ⟨frames, back, same, whole⟩ := completes.extends
          exact ⟨frames, back, same, by simpa using whole, rfl⟩

/-- A tree that tokens complete records their blank lines. -/
theorem Completes.records {lexemes : List Lexeme} {nodes : List Node}
    (completes : Completes {} lexemes nodes) (formed : ∀ lexeme ∈ lexemes, lexeme.WellFormed) :
    Node.Records nodes lexemes := by
  have spelled : Node.spellingAll nodes = Lexeme.essential false lexemes :=
    completes.spelling_eq formed
  refine ⟨?_, ?_⟩
  · have whole := completes
    rw [← List.append_nil lexemes] at whole
    obtain ⟨last, follows, ends⟩ := whole.exists_follows follows_start formed
    cases ends with
    | finish finished =>
        have all := (grows_finish finished).emptyLines_eq
        rw [List.append_nil, follows.recorded, emptyLines, List.reverse_reverse] at all
        exact all
  · intro before lexeme after split blank
    subst split
    obtain ⟨builder, follows, rest⟩ := completes.exists_follows follows_start
      fun other member => formed other (List.mem_append_left _ member)
    rw [List.nil_append] at follows
    obtain ⟨frames, back, same, whole, between⟩ := follows.exists_place blank rest
    have depth := congrArg Standing.depth follows.standing
    have front := follows.spells.1
    have joins := follows.spells.2
    rw [shape, between] at depth
    rw [TreeBuilder.spelling, between, Place.spelling, List.append_nil, ← same] at front
    rw [between] at joins
    refine ⟨frames, builder.siblings.reverse, back, whole, ?_, ?_, ?_, ?_⟩
    · rw [← depth, ← same, List.length_map]
    · rw [List.reverse_reverse, front]
    · rw [List.reverse_reverse, same, follows.recorded]
    · -- The empty line itself spells nothing, and neither does its token.
      have behind : Lexeme.essential false (before ++ lexeme :: after) =
          Lexeme.essential false before ++ Lexeme.essential false after := by
        rw [Lexeme.essential_append, ← Lexeme.joining, ← joins, Lexeme.essential]
        obtain ⟨kind, text⟩ := lexeme
        cases blank.1
        rfl
      rw [whole, Frame.spellingAll_fill, behind, front] at spelled
      exact List.append_cancel_left spelled

end TreeBuilder

/-- The tree of a text has its empty lines where the text has them, and no others. -/
theorem Text.recorded_parse {text : Text} {nodes : List Node} (parsed : text.parse = .ok nodes) :
    ∃ tokens, TokenStream.tokenize text = .ok tokens ∧
      Node.Records nodes (tokens.map Token.toLexeme) := by
  obtain ⟨lexemes, lexes, completes⟩ := Text.parse_eq_ok_iff.mp parsed
  obtain ⟨tokens, read, rfl⟩ := TokenStream.tokenize_iff_lexes.mpr lexes
  exact ⟨tokens, read, completes.records lexes.wellFormed⟩

/-- Line breaks in a header and behind comments, and empty lines with blanks in a block. -/
theorem Text.recorded_parse_block :
    ∃ nodes, Text.parse "a \x7b\n \r\n b\n\nc; // d\n\t\n\x7d".toList = .ok nodes ∧
      Node.emptyLinesAll nodes = ["\r\n".toList, "\n".toList] ∧
      ∃ tokens,
        TokenStream.tokenize "a \x7b\n \r\n b\n\nc; // d\n\t\n\x7d".toList = .ok tokens ∧
        Node.Records nodes (tokens.map Token.toLexeme) := by
  have parsed : Text.parse "a \x7b\n \r\n b\n\nc; // d\n\t\n\x7d".toList =
      .ok [.block { keyword := "a".toList }
        [.emptyLine "\r\n".toList,
          .leaf
            { keyword := "b".toList
              value := some (.other "c".toList)
              postComments := ["// d".toList] },
          .emptyLine "\n".toList]] := by
    cbv
  exact ⟨_, parsed, rfl, Text.recorded_parse parsed⟩

end YangFormatter
