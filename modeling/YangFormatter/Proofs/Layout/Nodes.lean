import YangFormatter.Proofs.Layout.Statement

/-! # Reading a laid out tree

The layout of a node is read back as the node, up to what the layout changes
(`Node.Ready.readsBack`), whatever stands before it and behind it. So the layout of a
tree whose statements are ready for it is read back as that tree
(`Layout.parse_tree`).
-/

namespace YangFormatter

open TreeBuilder

/-- All statements within a node are ready to be laid out, and its comments are
comments. -/
def Node.Ready : Node → Prop :=
  Node.Every Header.Ready fun text => Lexeme.WellFormed ⟨.comment, text⟩

open Relayout

namespace Layout

/-- The layout of a node is read back as what the layout makes of it. An empty line is
one only behind a line break. -/
def ReadsBack (style : Style) (depth : Int) (given : Node) : Prop :=
  ∀ {blocks : List OpenBlock} {siblings tree : List Node} {rest : Text} {afterBreak : Bool},
    (given.isEmptyLine = true → afterBreak = true) →
    Reads ⟨blocks, (reindentAll style depth
      (regroup (given.mapComments Comment.settled))).reverse ++ siblings, .between true, 0⟩
      rest tree →
    Reads ⟨blocks, siblings, .between afterBreak, 0⟩ (node style depth given ++ rest) tree

private theorem reindentAll_append (style : Style) (depth : Int) (first second : List Node) :
    reindentAll style depth (first ++ second) =
      reindentAll style depth first ++ reindentAll style depth second := by
  simp only [reindentAll_eq_map, List.map_append]

private theorem reindentAll_comments (style : Style) (depth : Int) (texts : List Text) :
    reindentAll style depth (texts.map .comment) = texts.map .comment := by
  rw [reindentAll_eq_map, List.map_map]
  rfl

/-- Nodes are read back from their layout if each of them is. -/
theorem reads_nodes {style : Style} {depth : Int} {forest : List Node}
    (each : ∀ given ∈ forest, ReadsBack style depth given) {blocks : List OpenBlock}
    {siblings tree : List Node} {rest : Text}
    (reads : Reads ⟨blocks, (reindentAll style depth
      (regroupAll (Node.mapAllComments Comment.settled forest))).reverse ++ siblings,
      .between true, 0⟩ rest tree) :
    Reads ⟨blocks, siblings, .between true, 0⟩ (nodes style depth forest ++ rest) tree := by
  induction forest generalizing siblings with
  | nil => exact reads
  | cons first others ih =>
      rw [Node.mapAllComments, regroupAll, reindentAll_append, List.reverse_append,
        List.append_assoc] at reads
      rw [nodes, List.append_assoc]
      apply each first List.mem_cons_self fun _ => rfl
      exact ih (fun given member => each given (List.mem_cons_of_mem _ member)) reads

/-- Comments on lines of their own become nodes. -/
private theorem collectsLines_between (blocks : List OpenBlock) (siblings : List Node) :
    CollectsLines fun comments =>
      ⟨blocks, (comments.map .comment).reverse ++ siblings, .between true, 0⟩ := by
  refine ⟨fun _ _ => rfl, ?_⟩
  intro comments comment
  refine ⟨_, rfl, fun text => ?_⟩
  simp only [List.map_append, List.reverse_append]
  rfl

/-- What stands behind a terminator on the same line belongs to the statement. -/
private theorem reads_afterHeader {style : Style} {depth : Int} {head : Header} {opens : Bool}
    (formed : ∀ comment ∈ head.postComments, Lexeme.WellFormed ⟨.comment, comment⟩)
    {blocks : List OpenBlock} {siblings tree : List Node} {rest : Text} {next : TreeBuilder}
    (breaks : ∀ text, read ⟨blocks, siblings,
      .afterHeader (Relayout.header style depth head) opens, 0⟩ ⟨.lineBreak, text⟩ = .ok next)
    (reads : Reads next rest tree) :
    Reads ⟨blocks, siblings,
      .afterHeader { Relayout.header style depth head with postComments := [] } opens, 0⟩
      (spaced (kept head.postComments) ++ '\n' :: rest) tree := by
  have collects : Collects fun comments =>
      ⟨blocks, siblings, .afterHeader
        { Relayout.header style depth head with postComments := comments } opens, 0⟩ :=
    ⟨fun _ _ => rfl, fun _ _ => rfl⟩
  have whole : { Relayout.header style depth head with
      postComments := (kept head.postComments).map Comment.settled } =
        Relayout.header style depth head := by
    rw [← kept_map_settled]
    rfl
  rw [← whole] at breaks
  exact collects.line formed breaks reads

end Layout

open Layout

/-- A node that is ready to be laid out is read back from its layout. -/
theorem Node.Ready.readsBack {given : Node} (ready : given.Ready) (style : Style) (depth : Int) :
    ReadsBack style depth given := by
  induction ready generalizing depth with
  | @leaf head own =>
      intro blocks siblings tree rest afterBreak _ reads
      have texts := own.made.postComments
      have further := fun comment member => texts comment (mem_of_mem_overflow member)
      have breaks : ∀ text, read ⟨blocks, siblings,
          .afterHeader (Relayout.header style depth head) false, 0⟩ ⟨.lineBreak, text⟩ =
            .ok ⟨blocks, .leaf (Relayout.header style depth head) :: siblings, .between true, 0⟩ :=
        fun _ => rfl
      rw [Node.mapComments, regroup, reindentAll, reindentAll_comments, reindent,
        Header.mapComments, overflow_map_settled, List.reverse_cons, List.append_assoc] at reads
      rw [node_leaf]
      apply Reads.header own
      apply reads_afterHeader texts breaks
      exact (collectsLines_between blocks _).lines style depth further [] reads
  | @block head children own _ ih =>
      intro blocks siblings tree rest afterBreak _ reads
      have texts := own.made.postComments
      have further := fun comment member => texts comment (mem_of_mem_overflow member)
      have breaks : ∀ text, read ⟨blocks, siblings,
          .afterHeader (Relayout.header style depth head) true, 0⟩ ⟨.lineBreak, text⟩ =
            .ok ⟨⟨Relayout.header style depth head, siblings⟩ :: blocks, [], .between true, 0⟩ :=
        fun _ => rfl
      -- the builder keeps what it has read newest first, the overflowing comments last
      have within : ((reindentAll style (depth + 1)
          (regroupAll (Node.mapAllComments Comment.settled children))).reverse ++
            ((((overflow head.postComments).map Comment.settled).map
              Node.comment).reverse ++ [])).reverse =
          reindentAll style (depth + 1) ((overflow (head.postComments.map Comment.settled)).map
            .comment ++ regroupAll (Node.mapAllComments Comment.settled children)) := by
        rw [List.append_nil, ← List.reverse_append, List.reverse_reverse, overflow_map_settled,
          reindentAll_append, reindentAll_comments]
      have closes : ∀ inside, read
          ⟨⟨Relayout.header style depth head, siblings⟩ :: blocks, inside, .between true, 0⟩
            ⟨.closeBlock, ['}']⟩ = .ok ⟨blocks,
              .block (Relayout.header style depth head) inside.reverse :: siblings,
              .between false, 0⟩ :=
        fun _ => rfl
      have brace : Lexeme.WellFormed ⟨.closeBlock, ['}']⟩ := rfl
      rw [node_block]
      apply Reads.header own
      apply reads_afterHeader texts breaks
      apply (collectsLines_between _ []).lines style (depth + 1) further []
      apply reads_nodes fun child member => ih child member (depth + 1)
      apply Reads.indent fun _ => rfl
      refine Reads.token brace trivial (closes _) (Reads.newline rfl ?_)
      rw [List.nil_append, within]
      exact reads
  | @comment text own =>
      intro blocks siblings tree rest afterBreak _ reads
      have formed : Lexeme.WellFormed ⟨.comment, text⟩ := own
      rw [node, List.append_assoc, List.append_assoc]
      apply Reads.indent fun _ => rfl
      exact Reads.comment formed rfl (fun _ => rfl) reads
  | emptyLine =>
      intro blocks siblings tree rest afterBreak start reads
      obtain rfl := start rfl
      exact Reads.newline rfl reads

/-- The layout of a tree that is ready for it is read back as that tree. -/
theorem Layout.parse_tree {forest : List Node} (ready : ∀ given ∈ forest, given.Ready)
    (start : ∀ first ∈ forest.head?, first.isEmptyLine = false) (style : Style) :
    (Layout.tree style forest).parse =
      .ok (Relayout.tree style (Node.mapAllComments Comment.settled forest)) := by
  apply Text.parse_of_reads
  have finished : ∀ tree, Reads ⟨[], tree.reverse ++ [], .between true, 0⟩ [] tree := by
    intro tree
    refine ⟨[], .nil, .finish ?_⟩
    rw [List.append_nil]
    exact congrArg Except.ok tree.reverse_reverse
  cases forest with
  | nil => exact ⟨[], .nil, .finish rfl⟩
  | cons first others =>
      have whole := finished
        (Relayout.tree style (Node.mapAllComments Comment.settled (first :: others)))
      have each : ∀ given ∈ first :: others, ReadsBack style 0 given := fun given member =>
        (ready given member).readsBack style 0
      rw [Layout.tree, nodes]
      refine each first List.mem_cons_self (fun empty => ?_) ?_
      · rw [start first rfl] at empty
        cases empty
      · rw [← List.append_nil (nodes style 0 others)]
        apply reads_nodes fun given member => each given (List.mem_cons_of_mem _ member)
        rwa [← List.append_assoc, ← List.reverse_append, ← reindentAll_append]

end YangFormatter
