import YangFormatter.Proofs.Format.Comments
import YangFormatter.Proofs.Tidy.Flaws

/-! # What tidying keeps

Apart from empty lines, tidied nodes correspond one by one to the nodes they are made
from (`Node.Corresponds`): keywords, blocks and the kinds of values stay, and the comments
inside a statement move behind its terminator. Only the blocks that a style sorts change
the order of their nodes (`Tidy.within_corresponds`).
-/

namespace YangFormatter

/-! ## Statements -/

/-- A value and what tidying makes of it. A string may change, but it stays a string; of a
concatenation, only the last string loses its comments. -/
inductive Value.Corresponds : Value → Value → Prop where
  | quoted (before after : Text) : Corresponds (.quoted before) (.quoted after)
  | number (text : Text) : Corresponds (.number text) (.number text)
  | date (text : Text) : Corresponds (.date text) (.date text)
  | other (text : Text) : Corresponds (.other text) (.other text)
  | concatenation {before after : List Fragment} (length : after.length = before.length)
      (kept : after.dropLast.map Fragment.comments = before.dropLast.map Fragment.comments)
      (last : ∀ fragment ∈ after.getLast?, fragment.comments = []) :
      Corresponds (.concatenation before) (.concatenation after)

/-- A statement and what tidying makes of it. -/
structure Header.Corresponds (before after : Header) : Prop where
  keyword : after.keyword = before.keyword
  value : Option.Rel Value.Corresponds before.value after.value
  keywordComments : after.keywordComments = []
  valueComments : after.valueComments = []
  postComments : after.postComments = before.keywordComments ++ before.valueComments
    ++ before.value.elim [] Value.lastComments ++ before.postComments

/-- All strings but the last keep their comments when those of the last are dropped. -/
theorem Fragment.map_comments_dropLastComments (fragments : List Fragment) :
    (dropLastComments fragments).dropLast.map Fragment.comments =
      fragments.dropLast.map Fragment.comments := by
  fun_induction dropLastComments fragments with
  | case1 => rfl
  | case2 last => rfl
  | case3 first second rest ih =>
      have more : dropLastComments (second :: rest) ≠ [] := by
        intro empty
        have many := length_dropLastComments (second :: rest)
        rw [empty] at many
        cases many
      rw [List.dropLast_cons_of_ne_nil more, List.map_cons, ih]
      rfl

/-- A tidied value corresponds to the value. -/
theorem Value.corresponds_tidied (value : Value) : value.Corresponds value.tidied := by
  cases value with
  | quoted text => exact .quoted _ _
  | number text => exact .number text
  | date text => exact .date text
  | other text => exact .other text
  | concatenation fragments =>
      refine .concatenation ?_ ?_ ?_
      · rw [Fragment.length_dropLastComments, List.length_map]
      · rw [Fragment.map_comments_dropLastComments, ← List.map_dropLast, List.map_map]
        rfl
      · intro last member
        have bare := Fragment.getLast?_dropLastComments (fragments.map Fragment.doubleQuoted)
        rwa [Option.mem_def.mp member] at bare

/-- A tidied header corresponds to the header. -/
theorem Header.corresponds_tidied (header : Header) : header.Corresponds header.tidied := by
  rw [Header.tidied_eq]
  refine ⟨rfl, ?_, rfl, rfl, rfl⟩
  cases header.value with
  | none => exact .none
  | some value => exact .some value.corresponds_tidied

/-! ## Trees -/

namespace Node

/-- All nodes but the empty lines. -/
def visible (nodes : List Node) : List Node :=
  nodes.filter (!·.isEmptyLine)

/-- A change that keeps empty lines is one of the other nodes. -/
theorem visible_map {change : Node → Node}
    (keeps : ∀ node, (change node).isEmptyLine = node.isEmptyLine) (nodes : List Node) :
    visible (nodes.map change) = (visible nodes).map change := by
  rw [visible, List.filter_map, visible]
  refine congrArg _ (List.filter_congr fun node _ => ?_)
  rw [Function.comp_apply, keeps]

/-- Nodes that stand in the block of a keyword, or in none, have been put into another
order, if that block is sorted at all. -/
def Reordered (sorts : Bool) (parent : Option Text) (before after : List Node) : Prop :=
  after = before ∨ sorts = true ∧
    (parent = some "leaf".toList ∨ parent = some "leaf-list".toList) ∧ after.Perm before

/-- A node and what tidying makes of it. -/
inductive Corresponds (sorts : Bool) : Node → Node → Prop where
  | leaf {before after : Header} (own : before.Corresponds after) :
      Corresponds sorts (.leaf before) (.leaf after)
  | block {before after : Header} {children tidied within : List Node}
      (own : before.Corresponds after)
      (each : List.Forall₂ (Corresponds sorts) (visible children) tidied)
      (order : Reordered sorts (some before.keyword) tidied (visible within)) :
      Corresponds sorts (.block before children) (.block after within)
  | comment (text : Text) : Corresponds sorts (.comment text) (.comment text)

/-- Nodes that stand in the block of a keyword, or in none, and what tidying makes of
them. -/
def CorrespondWithin (sorts : Bool) (parent : Option Text) (before after : List Node) : Prop :=
  ∃ tidied, List.Forall₂ (Corresponds sorts) (visible before) tidied ∧
    Reordered sorts parent tidied (visible after)

end Node

namespace Tidy

/-- A node by itself, tidied with all that lies within it. -/
def tidiedNode (style : Style) (node : Node) : Node :=
  mapBlock (arrange style) (mapHeader Header.tidied node)

/-- Tidying nodes is tidying each and arranging them. -/
theorem within_eq (style : Style) (parent : Option Text) (nodes : List Node) :
    within style parent nodes = arrange style parent (nodes.map (tidiedNode style)) := by
  rw [within, mapBlocks, mapEachBlock_eq_map, mapHeaders_eq_map, List.map_map]
  rfl

theorem tidiedNode_block (style : Style) (header : Header) (children : List Node) :
    tidiedNode style (.block header children) =
      .block header.tidied (within style (some header.keyword) children) := by
  have same : header.tidied.keyword = header.keyword := by rw [Header.tidied_eq]
  rw [tidiedNode, mapHeader, mapBlock, same]
  rfl

/-- Tidying makes no empty line and loses none. -/
theorem isEmptyLine_tidiedNode (style : Style) (node : Node) :
    (tidiedNode style node).isEmptyLine = node.isEmptyLine := by
  cases node <;> rfl

/-- Arranging puts statements in another order only where the style and the block ask for it. -/
private theorem reordered_arrange (style : Style) (parent : Option Text) (nodes : List Node) :
    Node.Reordered style.canonicalOrder parent (Node.visible nodes)
      (Node.visible (arrange style parent nodes)) := by
  rcases filter_arrange style parent nodes with same | ⟨canonical, asked, permuted⟩
  · exact .inl same
  · refine .inr ⟨canonical, ?_, permuted⟩
    cases parent with
    | none => cases asked
    | some keyword =>
        have sorted : (Ranking.ofParent? keyword).isSome = true := asked
        rw [Ranking.ofParent?] at sorted
        split at sorted
        next leafs => exact leafs.imp (congrArg some) (congrArg some)
        next => cases sorted

/-- Nodes correspond to what tidying makes of them if each of them does. -/
private theorem correspondWithin_of_forall {style : Style} {nodes : List Node}
    (each : ∀ node ∈ nodes, node.isEmptyLine = false →
      Node.Corresponds style.canonicalOrder node (tidiedNode style node)) (parent : Option Text) :
    Node.CorrespondWithin style.canonicalOrder parent nodes (within style parent nodes) := by
  refine ⟨(Node.visible nodes).map (tidiedNode style), ?_, ?_⟩
  · rw [List.forall₂_map_right_iff, List.forall₂_same]
    intro node member
    obtain ⟨own, shown⟩ := List.mem_filter.mp member
    exact each node own (by simpa using shown)
  · rw [within_eq, ← Node.visible_map (isEmptyLine_tidiedNode style)]
    exact reordered_arrange style parent _

/-- A tidied node corresponds to the node. -/
theorem corresponds_tidiedNode (style : Style) (node : Node)
    (shown : node.isEmptyLine = false) :
    Node.Corresponds style.canonicalOrder node (tidiedNode style node) := by
  induction node using Node.induction with
  | leaf header => exact .leaf header.corresponds_tidied
  | block header children ih =>
      obtain ⟨tidied, each, order⟩ := correspondWithin_of_forall ih (some header.keyword)
      rw [tidiedNode_block]
      exact .block header.corresponds_tidied each order
  | comment text => exact .comment text
  | emptyLine text => cases shown

/-- Tidying the tree of a text, which every machine does that has calls for its blocks, keeps all
comments, and keeps all nodes but empty lines as far as `Node.Corresponds` says, in the same order
unless their block is sorted. -/
theorem within_corresponds {text : Text} {nodes : List Node} (parsed : text.parse = .ok nodes)
    (style : Style) (parent : Option Text) :
    ∃ tidied,
      (∀ machine, attemptWithin machine style parent nodes = ⟨tidied, none⟩ ↔
        machine.carries (Node.nesting nodes + 1) = true) ∧
      (Node.commentsAll tidied).Perm (Node.commentsAll nodes) ∧
      Node.CorrespondWithin style.canonicalOrder parent nodes tidied :=
  ⟨_, fun _ => attemptWithin_eq_iff parent (Text.wellFormed_of_parse parsed),
    comments_within style parent nodes,
    correspondWithin_of_forall (fun node _ => corresponds_tidiedNode style node) parent⟩

/-- A concatenation with comments everywhere, in a block that is sorted. -/
theorem within_corresponds_leaf :
    ∃ nodes tidied,
      Text.parse
          "leaf /*k*/ 'a' /*1*/ + 'b' /*2*/ \x7b //p\n\nstatus x;\n//c\ntype y; \x7d".toList =
        .ok nodes ∧
      attemptWithin {} { canonicalOrder := true } none nodes = ⟨tidied, none⟩ ∧
      (Node.commentsAll tidied).Perm (Node.commentsAll nodes) ∧
      Node.CorrespondWithin true none nodes tidied := by
  have parsed : Text.parse
      "leaf /*k*/ 'a' /*1*/ + 'b' /*2*/ \x7b //p\n\nstatus x;\n//c\ntype y; \x7d".toList =
        .ok [.block
          { keyword := "leaf".toList
            keywordComments := ["/*k*/".toList]
            value := some (.concatenation
              [⟨"'a'".toList, ["/*1*/".toList]⟩, ⟨"'b'".toList, ["/*2*/".toList]⟩])
            postComments := ["//p".toList] }
          [.emptyLine "\n".toList,
            .leaf { keyword := "status".toList, value := some (.other "x".toList) },
            .comment "//c".toList,
            .leaf { keyword := "type".toList, value := some (.other "y".toList) }]] := by
    cbv
  obtain ⟨tidied, done, conclusion⟩ := within_corresponds parsed { canonicalOrder := true } none
  exact ⟨_, tidied, parsed, (done {}).mpr rfl, conclusion⟩

end Tidy

end YangFormatter
