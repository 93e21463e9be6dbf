import YangFormatter.Proofs.Tidy.Arrangement
import YangFormatter.Proofs.Tidy.Quotation

/-! # Tidied trees

A tidied tree holds the tidied statements of the tree it is made from
(`Tidy.every_tree_iff`), and every block of it is arranged (`Tidy.ordered_within`).
-/

namespace YangFormatter

namespace Tidy

theorem mapHeaders_eq_map (change : Header → Header) (nodes : List Node) :
    mapHeaders change nodes = nodes.map (mapHeader change) := by
  induction nodes with
  | nil => rfl
  | cons node rest ih => rw [mapHeaders, ih, List.map_cons]

theorem mapEachBlock_eq_map (change : Option Text → List Node → List Node) (nodes : List Node) :
    mapEachBlock change nodes = nodes.map (mapBlock change) := by
  induction nodes with
  | nil => rfl
  | cons node rest ih => rw [mapEachBlock, ih, List.map_cons]

/-! ## Statements -/

variable {header : Header → Prop} {comment : Text → Prop}

/-- A property of all changed headers is one of all headers. -/
private theorem every_mapHeader_iff (change : Header → Header) (node : Node) :
    (mapHeader change node).Every header comment ↔
      node.Every (fun head => header (change head)) comment := by
  induction node using Node.induction with
  | leaf head => rw [mapHeader, Node.every_leaf_iff, Node.every_leaf_iff]
  | block head children ih =>
      rw [mapHeader, Node.every_block_iff, Node.every_block_iff, mapHeaders_eq_map,
        List.forall_mem_map]
      exact and_congr_right fun _ => forall₂_congr ih
  | comment text => exact Node.every_comment_iff.trans Node.every_comment_iff.symm
  | emptyLine text => exact ⟨fun _ => .emptyLine, fun _ => .emptyLine⟩

/-- Arranging nodes changes no header. -/
private theorem every_arrange_iff (style : Style) (parent : Option Text) (nodes : List Node) :
    (∀ node ∈ arrange style parent nodes, node.Every header comment) ↔
      ∀ node ∈ nodes, node.Every header comment :=
  forall_mem_arrange_iff fun _ => .emptyLine

/-- Arranging blocks changes no header. -/
private theorem every_mapBlock_iff (style : Style) (node : Node) :
    (mapBlock (arrange style) node).Every header comment ↔ node.Every header comment := by
  induction node using Node.induction with
  | leaf head => rfl
  | block head children ih =>
      rw [mapBlock, Node.every_block_iff, Node.every_block_iff, every_arrange_iff,
        mapEachBlock_eq_map, List.forall_mem_map]
      exact and_congr_right fun _ => forall₂_congr ih
  | comment text => rfl
  | emptyLine text => rfl

/-- The statements of a tidied tree are the tidied statements of the tree. -/
theorem every_tree_iff (style : Style) (nodes : List Node) :
    (∀ node ∈ tree style nodes, node.Every header comment) ↔
      ∀ node ∈ nodes, node.Every (fun head => header head.tidied) comment := by
  rw [tree, within, mapBlocks, every_arrange_iff, mapEachBlock_eq_map, mapHeaders_eq_map,
    List.map_map, List.forall_mem_map]
  apply forall₂_congr
  intro node _
  rw [Function.comp_apply, every_mapBlock_iff, every_mapHeader_iff]

/-! ## Blocks -/

/-- Every block within a node is arranged. -/
inductive Ordered (style : Style) : Node → Prop where
  | leaf {head : Header} : Ordered style (.leaf head)
  | block {head : Header} {children : List Node}
      (own : Arranged style (some head.keyword) children)
      (within : ∀ child ∈ children, Ordered style child) : Ordered style (.block head children)
  | comment {text : Text} : Ordered style (.comment text)
  | emptyLine {text : Text} : Ordered style (.emptyLine text)

variable {style : Style}

/-- An ordered node has nothing to arrange. -/
theorem Ordered.mapBlock_eq {node : Node} (ordered : Ordered style node) :
    mapBlock (arrange style) node = node := by
  induction ordered with
  | leaf | comment | emptyLine => rfl
  | @block head children own _ ih =>
      have same : mapEachBlock (arrange style) children = children := by
        rw [mapEachBlock_eq_map, map_eq_self ih]
      rw [mapBlock, same, own.eq_self]

/-- Nodes all of whose blocks are arranged stay as they are. -/
theorem mapBlocks_eq_self {parent : Option Text} {nodes : List Node}
    (arranged : Arranged style parent nodes) (ordered : ∀ node ∈ nodes, Ordered style node) :
    mapBlocks (arrange style) parent nodes = nodes := by
  have same : mapEachBlock (arrange style) nodes = nodes := by
    rw [mapEachBlock_eq_map, map_eq_self fun node member => (ordered node member).mapBlock_eq]
  rw [mapBlocks, same, arranged.eq_self]

/-- Arranging ordered nodes keeps them ordered. -/
private theorem ordered_arrange {parent : Option Text} {nodes : List Node}
    (ordered : ∀ node ∈ nodes, Ordered style node) :
    ∀ node ∈ arrange style parent nodes, Ordered style node :=
  (forall_mem_arrange_iff fun _ => .emptyLine).mpr ordered

/-- A node is ordered when its blocks are arranged. -/
private theorem ordered_mapBlock (style : Style) (node : Node) :
    Ordered style (mapBlock (arrange style) node) := by
  induction node using Node.induction with
  | leaf head => exact .leaf
  | block head children ih =>
      refine .block (arranged_arrange style _ _) (ordered_arrange ?_)
      rw [mapEachBlock_eq_map, List.forall_mem_map]
      exact ih
  | comment text => exact .comment
  | emptyLine text => exact .emptyLine

/-- Tidied nodes are arranged, and so are all blocks within them. -/
theorem ordered_within (style : Style) (parent : Option Text) (nodes : List Node) :
    Arranged style parent (within style parent nodes) ∧
      ∀ node ∈ within style parent nodes, Ordered style node := by
  refine ⟨arranged_arrange style parent _, ordered_arrange ?_⟩
  rw [mapEachBlock_eq_map, List.forall_mem_map]
  exact fun node _ => ordered_mapBlock style node

/-- A tidied tree is arranged and its nodes are ordered. -/
theorem ordered_tree (style : Style) (nodes : List Node) :
    Arranged style none (tree style nodes) ∧ ∀ node ∈ tree style nodes, Ordered style node :=
  ordered_within style none nodes

/-- Of a style, only whether it sorts matters for a tidied tree. -/
theorem tree_congr {other : Style} (same : style.canonicalOrder = other.canonicalOrder)
    (nodes : List Node) : tree style nodes = tree other nodes := by
  have arranges : arrange style = arrange other := by
    funext parent nodes
    rw [arrange, arrange, same]
  rw [tree, tree, within, within, arranges]

end Tidy

end YangFormatter
