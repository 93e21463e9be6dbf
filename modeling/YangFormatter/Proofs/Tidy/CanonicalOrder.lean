import Mathlib.Tactic
import YangFormatter.Proofs.Tidy.Flaws
import YangFormatter.Proofs.Tidy.Tree

/-! # Canonical order as a last step

A sort is stable and keeps what is no statement in its place (`Ranking.StableSort`), for
every ranking (`Ranking.sort_stable`). Removing empty lines looks only at where they are, so it
does not matter whether the blocks within have been sorted before (`Tidy.mapBlocks_comp`).
Tidying with a style that sorts is therefore tidying with one that does not, and sorting the
blocks of leaves at the end (`Tidy.within_canonicalOrder`).
-/

namespace YangFormatter

/-- A node that keeps its place when statements are sorted; nothing for a statement. -/
def Node.fixed? : Node → Option Node
  | .leaf _ | .block _ _ => none
  | .comment text => some (.comment text)
  | .emptyLine text => some (.emptyLine text)

namespace Ranking

/-- Nodes with their statements sorted: what is no statement stays in its place, statements
are in order, and those of each rank stand in the order they had. -/
structure StableSort (ranking : Ranking) (before after : List Node) : Prop where
  places : after.map Node.fixed? = before.map Node.fixed?
  sorted : ranking.isSorted after = true
  stable : ∀ rank, (after.filter Node.isStatement).filter (ranking.ofNode · == rank) =
    (before.filter Node.isStatement).filter (ranking.ofNode · == rank)

/-- Nodes in the block of a keyword with their statements sorted, in the block of a leaf or of
a leaf-list; in other blocks they are as they were. -/
def SortsWithin (parent : Option Text) (before after : List Node) : Prop :=
  if parent = some "leaf".toList ∨ parent = some "leaf-list".toList then
    leaf.StableSort before after
  else
    after = before

/-- A node with the statements sorted in all blocks within it, innermost first. -/
inductive Sorts : Node → Node → Prop where
  | leaf {header : Header} : Sorts (.leaf header) (.leaf header)
  | block {header : Header} {children inner sorted : List Node}
      (each : List.Forall₂ Sorts children inner)
      (own : SortsWithin (some header.keyword) inner sorted) :
      Sorts (.block header children) (.block header sorted)
  | comment {text : Text} : Sorts (.comment text) (.comment text)
  | emptyLine {text : Text} : Sorts (.emptyLine text) (.emptyLine text)

/-- Nodes in the block of a keyword with the statements sorted in all blocks within them, and
then among themselves. -/
def SortsBlocks (parent : Option Text) (before after : List Node) : Prop :=
  ∃ inner, List.Forall₂ Sorts before inner ∧ SortsWithin parent inner after

/-! ## Sorting -/

variable {ranking : Ranking}

/-- A statement is not fixed in its place. -/
private theorem fixed?_of_isStatement {node : Node} (statement : node.isStatement = true) :
    node.fixed? = none := by
  cases node with
  | leaf | block => rfl
  | comment | emptyLine => cases statement

/-- Putting statements back keeps what is none in its place. -/
theorem map_fixed?_refill (nodes : List Node) {statements : List Node}
    (each : ∀ node ∈ statements, node.isStatement = true) :
    (refill nodes statements).map Node.fixed? = nodes.map Node.fixed? := by
  fun_induction refill nodes statements with
  | case1 => rfl
  | case2 node rest own first others ih =>
      obtain ⟨taken, further⟩ := List.forall_mem_cons.mp each
      rw [List.map_cons, List.map_cons, ih further, fixed?_of_isStatement own,
        fixed?_of_isStatement taken]
  | case3 node rest own ih => rw [List.map_cons, List.map_cons, ih each]
  | case4 node rest statements other ih => rw [List.map_cons, List.map_cons, ih each]

/-- Statements in order are in order one after the other. -/
theorem isChain_of_pairwise {statements : List Node}
    (sorted : statements.Pairwise (ranking.le · ·)) : ranking.isChain statements = true := by
  fun_induction isChain ranking statements with
  | case1 first second rest ih =>
      obtain ⟨before, others⟩ := List.pairwise_cons.mp sorted
      rw [before second List.mem_cons_self, ih others]
      rfl
  | case2 => rfl

/-- Statements of one rank keep their order when all are sorted. -/
theorem filter_mergeSort (statements : List Node) (rank : Int) :
    (statements.mergeSort ranking.le).filter (ranking.ofNode · == rank) =
      statements.filter (ranking.ofNode · == rank) := by
  have ranked : (statements.filter (ranking.ofNode · == rank)).Pairwise (ranking.le · ·) := by
    apply List.pairwise_of_forall_mem_list
    intro first member second member'
    have own := (List.mem_filter.mp member).2
    have own' := (List.mem_filter.mp member').2
    simp only [beq_iff_eq] at own own'
    simp [le, own, own']
  have kept := (List.sublist_mergeSort le_trans le_total ranked List.filter_sublist).filter
    (ranking.ofNode · == rank)
  rw [List.filter_filter] at kept
  simp only [Bool.and_self] at kept
  exact (kept.eq_of_length ((List.mergeSort_perm _ _).filter _).length_eq.symm).symm

/-- Sorting by a ranking is a stable sort. -/
theorem stableSort_sort (ranking : Ranking) (nodes : List Node) :
    ranking.StableSort nodes (ranking.sort nodes) where
  places := map_fixed?_refill nodes isStatement_of_mem_mergeSort
  sorted := isChain_of_pairwise (pairwise_sort nodes)
  stable rank := by rw [filter_sort, filter_mergeSort]

/-- Statements that are in order one after the other are in order. -/
theorem pairwise_of_isChain {statements : List Node}
    (chained : ranking.isChain statements = true) : statements.Pairwise (ranking.le · ·) := by
  fun_induction isChain ranking statements with
  | case1 first second rest ih =>
      obtain ⟨before, others⟩ := Bool.and_eq_true_iff.mp chained
      have sorted := ih others
      refine List.pairwise_cons.mpr ⟨?_, sorted⟩
      intro third member
      rcases List.mem_cons.mp member with rfl | further
      · exact before
      · exact le_trans _ _ _ before ((List.pairwise_cons.mp sorted).1 third further)
  | case2 statements short =>
      cases statements with
      | nil => exact .nil
      | cons first rest =>
          cases rest with
          | nil => exact List.pairwise_singleton _ _
          | cons second others => exact (short first second others rfl).elim

/-- The ranks of sorted statements do not fall. -/
theorem ordered_sort (nodes : List Node) :
    ((ranking.sort nodes).filter Node.isStatement).Pairwise
      (ranking.ofNode · ≤ ranking.ofNode ·) :=
  (pairwise_sort nodes).imp of_decide_eq_true

/-- The statements among sorted nodes are the statements there were, none of them twice or
missing. -/
theorem filter_sort_perm (nodes : List Node) :
    ((ranking.sort nodes).filter Node.isStatement).Perm (nodes.filter Node.isStatement) := by
  rw [filter_sort]
  exact List.mergeSort_perm _ _

/-- Sorting twice is sorting once. -/
theorem sort_sort (nodes : List Node) :
    ranking.sort (ranking.sort nodes) = ranking.sort nodes :=
  sort_eq_self (pairwise_sort nodes)

/-- Nodes are sorted exactly if sorting changes nothing. -/
theorem isSorted_iff_sort_eq {nodes : List Node} :
    ranking.isSorted nodes = true ↔ ranking.sort nodes = nodes := by
  constructor
  · intro sorted
    exact sort_eq_self (pairwise_of_isChain sorted)
  · intro same
    rw [← same]
    exact (stableSort_sort ranking nodes).sorted

/-- Whatever the ranks are, sorting keeps comments and empty lines in their places and puts
the statements into the other places, in order of rank and with those of equal rank in the
order they had. Nodes that are sorted stay as they are, and they are the only ones. -/
theorem sort_stable (ranking : Ranking) (nodes : List Node) :
    ranking.StableSort nodes (ranking.sort nodes) ∧
      ((ranking.sort nodes).filter Node.isStatement).Perm (nodes.filter Node.isStatement) ∧
      ((ranking.sort nodes).filter Node.isStatement).Pairwise
        (ranking.ofNode · ≤ ranking.ofNode ·) ∧
      ranking.sort (ranking.sort nodes) = ranking.sort nodes ∧
      (ranking.isSorted nodes = true ↔ ranking.sort nodes = nodes) :=
  ⟨stableSort_sort ranking nodes, filter_sort_perm nodes, ordered_sort nodes, sort_sort nodes,
    isSorted_iff_sort_eq⟩

/-- A keyword may rank above those that a ranking does not mention. -/
example :
    isSorted [("last".toList, 300)]
      [.leaf { keyword := "x".toList }, .comment "//".toList, .leaf { keyword := "last".toList }] =
        true := by
  decide

/-- Sorting within a block sorts stably by the ranking of the block, if it has one. -/
theorem sortsWithin_sortWithin (parent : Option Text) (nodes : List Node) :
    SortsWithin parent nodes (sortWithin parent nodes) := by
  unfold SortsWithin sortWithin
  cases parent with
  | none => rfl
  | some keyword =>
      simp only [Option.some.injEq, Option.bind_some, ofParent?]
      split
      · exact stableSort_sort leaf nodes
      · rfl

/-- Sorting all blocks within a node, innermost first, sorts them as their keywords say. -/
theorem sorts_mapBlock (node : Node) : Sorts node (Tidy.mapBlock sortWithin node) := by
  induction node using Node.induction with
  | leaf header => exact .leaf
  | block header children ih =>
      rw [Tidy.mapBlock, Tidy.mapEachBlock_eq_map]
      exact .block (List.forall₂_map_right_iff.mpr (List.forall₂_same.mpr ih))
        (sortsWithin_sortWithin _ _)
  | comment text => exact .comment
  | emptyLine text => exact .emptyLine

/-- Sorting within every block sorts each of them stably. -/
theorem sortsBlocks_mapBlocks (parent : Option Text) (nodes : List Node) :
    SortsBlocks parent nodes (Tidy.mapBlocks sortWithin parent nodes) := by
  rw [Tidy.mapBlocks, Tidy.mapEachBlock_eq_map]
  refine ⟨_, ?_, sortsWithin_sortWithin parent _⟩
  exact List.forall₂_map_right_iff.mpr (List.forall₂_same.mpr fun node _ => sorts_mapBlock node)

end Ranking

namespace Tidy

/-! ## Blocks -/

variable {first second : Option Text → List Node → List Node}

/-- Two changes of blocks can be made one after the other if they can be in each node. -/
private theorem mapBlocks_comp_of_forall
    (commutes : ∀ parent nodes, first parent (nodes.map (mapBlock second)) =
      (first parent nodes).map (mapBlock second)) {nodes : List Node}
    (each : ∀ node ∈ nodes, mapBlock (fun parent nodes => second parent (first parent nodes)) node =
      mapBlock second (mapBlock first node)) (parent : Option Text) :
    mapBlocks (fun parent nodes => second parent (first parent nodes)) parent nodes =
      mapBlocks second parent (mapBlocks first parent nodes) := by
  simp only [mapBlocks, mapEachBlock_eq_map]
  rw [← commutes, List.map_map]
  exact congrArg (second parent ∘ first parent) (List.map_congr_left each)

/-- Two changes made to each block, one after the other, can be made to all blocks one after
the other, if the first does not look into the nodes. -/
theorem mapBlocks_comp
    (commutes : ∀ parent nodes, first parent (nodes.map (mapBlock second)) =
      (first parent nodes).map (mapBlock second)) (parent : Option Text) (nodes : List Node) :
    mapBlocks (fun parent nodes => second parent (first parent nodes)) parent nodes =
      mapBlocks second parent (mapBlocks first parent nodes) := by
  have single : ∀ node, mapBlock (fun parent nodes => second parent (first parent nodes)) node =
      mapBlock second (mapBlock first node) := by
    intro node
    induction node using Node.induction with
    | leaf | comment | emptyLine => rfl
    | block header children ih =>
        exact congrArg (Node.block header) (mapBlocks_comp_of_forall commutes ih _)
  exact mapBlocks_comp_of_forall commutes (fun node _ => single node) parent

/-- Arranging does not look at the blocks within nodes. -/
theorem unseen_mapBlock : Unseen (mapBlock second) where
  isEmptyLine node := by cases node <;> rfl
  header? node := by cases node <;> rfl

/-- Sorting can wait until all else is done. -/
theorem within_eq_mapBlocks (style : Style) (parent : Option Text) (nodes : List Node) :
    within { style with canonicalOrder := true } parent nodes =
      mapBlocks Ranking.sortWithin parent
        (within { style with canonicalOrder := false } parent nodes) := by
  rw [within, within, ← mapBlocks_comp fun _ _ => arrange_map unseen_mapBlock _]
  rfl

/-- Tidying a tree that has been read, with a style that sorts, is tidying it without sorting
and then sorting the statements, stably and by their ranks, in the blocks of leaves and
leaf-lists and in no others. Every machine does both that has calls for the blocks of the tree. -/
theorem within_canonicalOrder {text : Text} {nodes : List Node} (parsed : text.parse = .ok nodes)
    (style : Style) (parent : Option Text) :
    ∃ plain sorted,
      (∀ machine,
        (attemptWithin machine { style with canonicalOrder := false } parent nodes =
          ⟨plain, none⟩ ↔ machine.carries (Node.nesting nodes + 1) = true) ∧
        (attemptWithin machine { style with canonicalOrder := true } parent nodes =
          ⟨sorted, none⟩ ↔ machine.carries (Node.nesting nodes + 1) = true)) ∧
      sorted = mapBlocks Ranking.sortWithin parent plain ∧
      Ranking.SortsBlocks parent plain sorted := by
  have made := Text.madeOf_of_parse parsed fun _ lexes => lexes.wellFormed
  have last := within_eq_mapBlocks style parent nodes
  refine ⟨_, _, fun _ => ⟨attemptWithin_eq_iff parent made, attemptWithin_eq_iff parent made⟩,
    last, ?_⟩
  rw [last]
  exact Ranking.sortsBlocks_mapBlocks parent _

/-- A leaf with its type behind its status and a comment between them, within a list. -/
theorem within_canonicalOrder_leaf :
    ∃ nodes plain sorted,
      Text.parse "list a \x7b leaf b \x7b status x;\n//c\ntype y; \x7d key k; \x7d".toList =
        .ok nodes ∧
      attemptWithin {} { canonicalOrder := false } none nodes = ⟨plain, none⟩ ∧
      attemptWithin {} { canonicalOrder := true } none nodes = ⟨sorted, none⟩ ∧
      sorted = mapBlocks Ranking.sortWithin none plain ∧
      Ranking.SortsBlocks none plain sorted := by
  have parsed : Text.parse
      "list a \x7b leaf b \x7b status x;\n//c\ntype y; \x7d key k; \x7d".toList =
        .ok [.block { keyword := "list".toList, value := some (.other "a".toList) }
          [.block { keyword := "leaf".toList, value := some (.other "b".toList) }
            [.leaf { keyword := "status".toList, value := some (.other "x".toList) },
              .comment "//c".toList,
              .leaf { keyword := "type".toList, value := some (.other "y".toList) }],
            .leaf { keyword := "key".toList, value := some (.other "k".toList) }]] := by
    cbv
  obtain ⟨plain, sorted, done, conclusion⟩ := within_canonicalOrder parsed {} none
  exact ⟨_, plain, sorted, parsed, (done {}).1.mpr rfl, (done {}).2.mpr rfl, conclusion⟩

end Tidy

end YangFormatter
