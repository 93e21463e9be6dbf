import YangFormatter.Format
import YangFormatter.Machine

/-! # What cannot be laid out

A tree made by hand may hold a concatenation of no strings, a style may ask for
indentations beyond all bounds, and blocks may be nested deeper than a machine has calls.
Laying out a tree by attempt meets the first such obstacle in the order in which the text is
written. Where it meets none, the text is that of the layout (`Layout.node`).
-/

namespace YangFormatter

/-- Why something cannot be laid out. -/
inductive Obstacle where
  /-- A concatenation has no strings. -/
  | noFragment
  /-- The columns of an indentation cannot be counted in 64 bits. -/
  | uncountable
  /-- An indentation takes up more memory than there is. -/
  | noMemory
  /-- Blocks are nested deeper than calls can wait for one another. -/
  | tooDeep
deriving DecidableEq, Repr

/-- Makes calls until so many wait for one another. -/
def Machine.call (machine : Machine) (calls : Nat) : Except Obstacle Unit :=
  if machine.carries calls then .ok () else .error .tooDeep

/-- The indentation at a depth, if its columns can be counted and there is memory for it. -/
def Style.indent? (style : Style) (machine : Machine) (depth : Int) : Except Obstacle Text :=
  let columns := style.indentWidth * depth
  if columns < -(Nat.pow 2 63 : Nat) ∨ (Nat.pow 2 63 : Nat) ≤ columns then .error .uncountable
  else if machine.stores columns then .ok (style.indent depth)
  else .error .noMemory

/-- The indentation that a machine makes is that of the style. -/
theorem Style.eq_indent_of_indent? {style : Style} {machine : Machine} {depth : Int} {own : Text}
    (made : style.indent? machine depth = .ok own) : own = style.indent depth := by
  dsimp only [indent?] at made
  split at made
  next => cases made
  next =>
    split at made
    next => exact (Except.ok.inj made).symm
    next => cases made

namespace Layout

/-- A statement that stands in so many blocks, up to its terminator. It takes two calls, one for
the node and one for the statement, as each statement around it does. The indentation below it is
made for every value, whether the value goes there or not. -/
def header? (machine : Machine) (style : Style) (blocks : Nat) (depth : Int) (head : Header) :
    Except Obstacle Text := do
  machine.call (2 * (blocks + 1))
  let own ← style.indent? machine depth
  let line := own ++ head.keyword ++ spaced head.keywordComments
  match head.value with
  | none => return line
  | some given =>
      let _ ← style.indent? machine (depth + 1)
      if given = .concatenation [] then throw .noFragment
      return line ++ (value style depth head.keyword line.length given
        ++ comments style (depth + 1) head.valueComments)

mutual

/-- A node at a depth that stands in so many blocks. -/
def node? (machine : Machine) (style : Style) (blocks : Nat) (depth : Int) :
    Node → Except Obstacle Text
  | .leaf head => do
      let line ← header? machine style blocks depth head
      return line ++ ';' :: comments style depth head.postComments ++ ['\n']
  | .block head children => do
      let line ← header? machine style blocks depth head
      let _ ← style.indent? machine (depth + 1)
      let inner ← nodes? machine style (blocks + 1) (depth + 1) children
      return line ++ ' ' :: '{'
        :: comments style (depth + 1) head.postComments ++ '\n'
        :: inner ++ style.indent depth ++ ['}', '\n']
  | .comment text => do
      let own ← style.indent? machine depth
      return own ++ text ++ ['\n']
  | .emptyLine _ => return ['\n']

/-- Nodes one after the other. -/
def nodes? (machine : Machine) (style : Style) (blocks : Nat) (depth : Int) :
    List Node → Except Obstacle Text
  | [] => return []
  | first :: rest => do
      let text ← node? machine style blocks depth first
      let others ← nodes? machine style blocks depth rest
      return text ++ others

end

/-- A whole tree. -/
def tree? (machine : Machine) (style : Style) (forest : List Node) : Except Obstacle Text :=
  nodes? machine style 0 0 forest

end Layout

end YangFormatter
