import YangFormatter.Tree.Basic

/-! # Canonical order

Statements are sorted by the ranks of their keywords, among the places that
statements have: comments and empty lines stay where they are. Only short blocks
are sorted, those of leaves and leaf-lists, so that a line that is being edited
does not jump out of sight.
-/

namespace YangFormatter

/-- The ranks of keywords. -/
abbrev Ranking := List (Text × Int)

namespace Ranking

/-- The rank of what a ranking does not mention. -/
def unknown : Int := 255

/-- The rank of a keyword. -/
def ofKeyword (ranking : Ranking) (keyword : Text) : Int :=
  (ranking.lookup keyword).getD unknown

/-- The rank of a node; what is no statement has no place in a ranking. -/
def ofNode (ranking : Ranking) (node : Node) : Int :=
  match node.header? with
  | some header => ranking.ofKeyword header.keyword
  | none => unknown

/-- Whether the first node need not come after the second. -/
def le (ranking : Ranking) (first second : Node) : Bool :=
  ranking.ofNode first ≤ ranking.ofNode second

/-- Whether each node ranks no higher than the next. -/
def isChain (ranking : Ranking) : List Node → Bool
  | first :: second :: rest => ranking.le first second && ranking.isChain (second :: rest)
  | _ => true

/-- Whether the statements among some nodes are in order. -/
def isSorted (ranking : Ranking) (nodes : List Node) : Bool :=
  ranking.isChain (nodes.filter Node.isStatement)

/-- Puts statements, one after the other, into the places of the statements among
some nodes. -/
def refill : List Node → List Node → List Node
  | [], _ => []
  | node :: rest, statements =>
      if node.isStatement then
        match statements with
        | statement :: others => statement :: refill rest others
        | [] => node :: refill rest []
      else
        node :: refill rest statements

/-- Sorts the statements among some nodes; those of equal rank keep their order. -/
def sort (ranking : Ranking) (nodes : List Node) : List Node :=
  refill nodes ((nodes.filter Node.isStatement).mergeSort ranking.le)

/-- The canonical order of the statements in a leaf. -/
def leaf : Ranking :=
  [("when".toList, 1), ("if-feature".toList, 2), ("type".toList, 3), ("units".toList, 4),
    ("must".toList, 5), ("default".toList, 6), ("config".toList, 7), ("min-elements".toList, 8),
    ("max-elements".toList, 9), ("ordered-by".toList, 10), ("mandatory".toList, 11),
    ("status".toList, 12), ("description".toList, 13), ("reference".toList, 14)]

/-- The order of the statements in the block of a keyword, where they have one. -/
def ofParent? (keyword : Text) : Option Ranking :=
  if keyword = "leaf".toList ∨ keyword = "leaf-list".toList then some leaf else none

/-- Sorts the nodes of a block if the keyword of the block asks for it. -/
def sortWithin (parent : Option Text) (nodes : List Node) : List Node :=
  match parent.bind ofParent? with
  | some ranking => ranking.sort nodes
  | none => nodes

end Ranking

end YangFormatter
