import YangFormatter.Tree.Basic

/-! # Empty lines

Nodes side by side neither begin nor end with an empty line, and no two empty
lines stand together.
-/

namespace YangFormatter.EmptyLines

/-- The nodes without the empty lines at both ends. -/
def trim (nodes : List Node) : List Node :=
  ((nodes.dropWhile Node.isEmptyLine).reverse.dropWhile Node.isEmptyLine).reverse

/-- The nodes without each empty line that follows another one; `afterEmpty` says
whether an empty line stands before them. -/
def squashAfter (afterEmpty : Bool) : List Node → List Node
  | [] => []
  | node :: rest =>
      if node.isEmptyLine && afterEmpty then squashAfter true rest
      else node :: squashAfter node.isEmptyLine rest

/-- The nodes with the first empty line only of each run of them. -/
def squash (nodes : List Node) : List Node :=
  squashAfter false nodes

end YangFormatter.EmptyLines
