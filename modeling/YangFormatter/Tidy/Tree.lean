import YangFormatter.Style
import YangFormatter.Tidy.EmptyLines
import YangFormatter.Tidy.Header
import YangFormatter.Tidy.Order

/-! # Tidying a tree

All that formatting does before the tree is written: each statement is tidied, and
in each block superfluous empty lines go and statements are put in order if the
style asks for it.
-/

namespace YangFormatter.Tidy

mutual

/-- Applies a function to the header of a statement and those within it. -/
def mapHeader (change : Header → Header) : Node → Node
  | .leaf header => .leaf (change header)
  | .block header children => .block (change header) (mapHeaders change children)
  | node => node

/-- Applies a function to the headers of all statements. -/
def mapHeaders (change : Header → Header) : List Node → List Node
  | [] => []
  | node :: rest => mapHeader change node :: mapHeaders change rest

end

mutual

/-- Applies a function to the blocks of a node, innermost first. The function is
told the keyword of the block. -/
def mapBlock (change : Option Text → List Node → List Node) : Node → Node
  | .block header children =>
      .block header (change (some header.keyword) (mapEachBlock change children))
  | node => node

/-- Applies a function to the blocks of each of some nodes. -/
def mapEachBlock (change : Option Text → List Node → List Node) : List Node → List Node
  | [] => []
  | node :: rest => mapBlock change node :: mapEachBlock change rest

end

/-- Applies a function to some nodes side by side and to all blocks within them,
innermost first. -/
def mapBlocks (change : Option Text → List Node → List Node) (parent : Option Text)
    (nodes : List Node) : List Node :=
  change parent (mapEachBlock change nodes)

/-- Removes superfluous empty lines from nodes side by side, and sorts them if the
style asks for it. -/
def arrange (style : Style) (parent : Option Text) (nodes : List Node) : List Node :=
  let spaced := EmptyLines.squash (EmptyLines.trim nodes)
  if style.canonicalOrder then Ranking.sortWithin parent spaced else spaced

/-- Tidies nodes that stand in the block of a keyword, or in none. -/
def within (style : Style) (parent : Option Text) (nodes : List Node) : List Node :=
  mapBlocks (arrange style) parent (mapHeaders Header.tidied nodes)

/-- Tidies a whole tree. -/
def tree (style : Style) (nodes : List Node) : List Node :=
  within style none nodes

end YangFormatter.Tidy
