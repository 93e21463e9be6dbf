import YangFormatter.Layout
import YangFormatter.Proofs.Tidy.Indentation
import YangFormatter.Proofs.Tree.Pieces
import YangFormatter.Tidy.Header

/-! # Trees as they are read again

A tree that is written and read again is the same up to its layout
(`Relayout.tree`): comments are grouped so that a line comment ends its line, those
that do not fit on the line of a statement become nodes of their own
(`Relayout.regroup`), and strings of several lines stand where the layout has put them
(`Relayout.reindent`).
-/

namespace YangFormatter

/-- A comment as it is read again: the layout ends a line comment with a line feed,
which takes a carriage return at the end of the comment with it. -/
def Comment.settled (text : Text) : Text :=
  if Layout.isLineComment text then Quotation.dropReturn text else text

namespace Comment

/-- A comment that goes to the end of its line is laid out as one. -/
theorem IsLine.isLineComment {text : Text} (line : IsLine text) :
    Layout.isLineComment text = true := by
  obtain ⟨_, rfl, _⟩ := line
  rfl

/-- A comment between marks is not laid out as one that goes to the end of its line. -/
theorem IsBlock.isLineComment {text : Text} (block : IsBlock text) :
    Layout.isLineComment text = false := by
  obtain ⟨_, rfl, _⟩ := block
  rfl

theorem settled_of_block {text : Text} (block : Layout.isLineComment text = false) :
    settled text = text := by
  rw [settled, block]
  rfl

/-- A settled comment is of the kind that it was. -/
@[simp]
theorem isLineComment_settled (text : Text) :
    Layout.isLineComment (settled text) = Layout.isLineComment text := by
  cases line : Layout.isLineComment text with
  | false => rw [settled_of_block line, line]
  | true =>
      rw [settled, if_pos line]
      obtain ⟨last, ends, whole⟩ := Quotation.dropReturn_append text
      generalize Quotation.dropReturn text = shorter at whole
      subst whole
      -- the slashes are not part of the carriage return that is dropped
      match shorter with
      | [] | [_] => rcases ends with rfl | rfl <;> simp_all [Layout.isLineComment]
      | first :: second :: others =>
          unfold Layout.isLineComment at line
          split at line
          next same =>
            cases same
            rfl
          next => cases line

end Comment

/-- Applies a function to the comments after a string. -/
def Fragment.mapComments (change : Text → Text) (fragment : Fragment) : Fragment :=
  { fragment with comments := fragment.comments.map change }

/-- Applies a function to the comments within a value. -/
def Value.mapComments (change : Text → Text) : Value → Value
  | .concatenation fragments => .concatenation (fragments.map (Fragment.mapComments change))
  | value => value

/-- Applies a function to all comments of a statement. -/
def Header.mapComments (change : Text → Text) (header : Header) : Header :=
  { header with
    keywordComments := header.keywordComments.map change
    value := header.value.map (Value.mapComments change)
    valueComments := header.valueComments.map change
    postComments := header.postComments.map change }

mutual

/-- Applies a function to all comments within a node. -/
def Node.mapComments (change : Text → Text) : Node → Node
  | .leaf header => .leaf (header.mapComments change)
  | .block header children =>
      .block (header.mapComments change) (Node.mapAllComments change children)
  | .comment text => .comment (change text)
  | .emptyLine text => .emptyLine text

/-- Applies a function to all comments of some nodes. -/
def Node.mapAllComments (change : Text → Text) : List Node → List Node
  | [] => []
  | node :: rest => node.mapComments change :: Node.mapAllComments change rest

end

theorem Node.mapAllComments_eq_map (change : Text → Text) (nodes : List Node) :
    Node.mapAllComments change nodes = nodes.map (Node.mapComments change) := by
  induction nodes with
  | nil => rfl
  | cons node rest ih => rw [Node.mapAllComments, ih, List.map_cons]

namespace Relayout

/-- The comments that end within their line, and then those that run to its end. -/
def grouped (comments : List Text) : List Text :=
  comments.filter (!Layout.isLineComment ·) ++ comments.filter Layout.isLineComment

/-- The comments that have room on one line: all that end within it, and one that
runs to its end. -/
def kept (comments : List Text) : List Text :=
  comments.filter (!Layout.isLineComment ·) ++ (comments.filter Layout.isLineComment).take 1

/-- The comments that need lines of their own. -/
def overflow (comments : List Text) : List Text :=
  (comments.filter Layout.isLineComment).drop 1

/-- A string with the comments after it grouped. -/
def regroupFragment (fragment : Fragment) : Fragment :=
  { fragment with comments := grouped fragment.comments }

/-- A value with the comments within it grouped. -/
def regroupValue : Value → Value
  | .concatenation fragments => .concatenation (fragments.map regroupFragment)
  | value => value

/-- A header with the comments that have room on its line. -/
def regroupHeader (header : Header) : Header :=
  { header with
    value := header.value.map regroupValue
    postComments := kept header.postComments }

mutual

/-- A node with its comments grouped. Those that overflow the line of a leaf follow
it, and those that overflow the line of a block come first within it. Empty lines are
line feeds. -/
def regroup : Node → List Node
  | .leaf header =>
      .leaf (regroupHeader header) :: (overflow header.postComments).map .comment
  | .block header children =>
      [.block (regroupHeader header)
        ((overflow header.postComments).map .comment ++ regroupAll children)]
  | .comment text => [.comment text]
  | .emptyLine _ => [.emptyLine ['\n']]

/-- Nodes with their comments grouped. -/
def regroupAll : List Node → List Node
  | [] => []
  | node :: rest => regroup node ++ regroupAll rest

end

/-- The margin of the further lines of a string at a depth. -/
def margin (style : Style) (depth : Int) : Text :=
  style.indent (depth + 1) ++ [' ']

/-- A string with its further lines behind a margin. -/
def reindentValue (margin : Text) : Value → Value :=
  Value.mapQuoted (Quotation.reindented margin)

/-- A header whose string has its further lines behind a margin. -/
def reindentHeader (margin : Text) (header : Header) : Header :=
  header.mapValue (reindentValue margin)

/-- A header at a depth as it is read again. -/
def header (style : Style) (depth : Int) (header : Header) : Header :=
  reindentHeader (margin style depth) (regroupHeader (header.mapComments Comment.settled))

mutual

/-- A node at a depth, with strings where the layout puts them. -/
def reindent (style : Style) (depth : Int) : Node → Node
  | .leaf header => .leaf (reindentHeader (margin style depth) header)
  | .block header children =>
      .block (reindentHeader (margin style depth) header) (reindentAll style (depth + 1) children)
  | node => node

/-- Nodes at a depth, with strings where the layout puts them. -/
def reindentAll (style : Style) (depth : Int) : List Node → List Node
  | [] => []
  | node :: rest => reindent style depth node :: reindentAll style depth rest

end

/-- A tree as it is read again from its layout. -/
def tree (style : Style) (nodes : List Node) : List Node :=
  reindentAll style 0 (regroupAll nodes)

theorem regroupAll_eq_flatMap (nodes : List Node) : regroupAll nodes = nodes.flatMap regroup := by
  induction nodes with
  | nil => rfl
  | cons node rest ih => rw [regroupAll, ih, List.flatMap_cons]

theorem reindentAll_eq_map (style : Style) (depth : Int) (nodes : List Node) :
    reindentAll style depth nodes = nodes.map (reindent style depth) := by
  induction nodes with
  | nil => rfl
  | cons node rest ih => rw [reindentAll, ih, List.map_cons]

/-- The margin of a string consists of spaces and tabs. -/
theorem isEmptyLine_margin (style : Style) (depth : Int) :
    Margin.isEmptyLine (margin style depth) = true := by
  unfold margin Style.indent
  simp [Margin.isEmptyLine, isIndent]

/-! ## Statements of a tree that is read again -/

section

variable {header : Header → Prop} {comment : Text → Prop}

/-- A property of all headers with changed comments is one of all headers. -/
theorem every_mapComments_iff (change : Text → Text) (node : Node) :
    (node.mapComments change).Every header comment ↔
      node.Every (fun head => header (head.mapComments change))
        fun text => comment (change text) := by
  induction node using Node.induction with
  | leaf head => rw [Node.mapComments, Node.every_leaf_iff, Node.every_leaf_iff]
  | block head children ih =>
      rw [Node.mapComments, Node.every_block_iff, Node.every_block_iff,
        Node.mapAllComments_eq_map, List.forall_mem_map]
      exact and_congr_right fun _ => forall₂_congr ih
  | comment text => rw [Node.mapComments, Node.every_comment_iff, Node.every_comment_iff]
  | emptyLine text => exact ⟨fun _ => .emptyLine, fun _ => .emptyLine⟩

/-- A property of all headers in what a node is regrouped to is one of its regrouped headers. -/
theorem every_regroup_iff (node : Node) :
    (∀ part ∈ regroup node, part.Every header fun _ => True) ↔
      node.Every (fun head => header (regroupHeader head)) fun _ => True := by
  have comments : ∀ texts : List Text, ∀ part ∈ texts.map Node.comment,
      part.Every header fun _ => True := by
    intro texts
    rw [List.forall_mem_map]
    exact fun text _ => .comment trivial
  induction node using Node.induction with
  | leaf head =>
      rw [regroup, List.forall_mem_cons, Node.every_leaf_iff, Node.every_leaf_iff]
      exact and_iff_left (comments _)
  | block head children ih =>
      rw [regroup, List.forall_mem_singleton, Node.every_block_iff, Node.every_block_iff,
        List.forall_mem_append, regroupAll_eq_flatMap, List.forall_mem_flatMap]
      exact and_congr_right fun _ => (and_iff_right (comments _)).trans (forall₂_congr ih)
  | comment text => exact ⟨fun _ => .comment trivial, fun _ => comments [text]⟩
  | emptyLine text =>
      refine ⟨fun _ => .emptyLine, fun _ => ?_⟩
      rw [regroup, List.forall_mem_singleton]
      exact .emptyLine

/-- A property of all headers that were indented anew comes back to the headers before. -/
theorem every_of_every_reindent {header' : Header → Prop}
    (back : ∀ margin head, Margin.isEmptyLine margin = true →
      header (reindentHeader margin head) → header' head) {style : Style} {depth : Int}
    {node : Node} (every : (reindent style depth node).Every header comment) :
    node.Every header' comment := by
  induction node using Node.induction generalizing depth with
  | leaf head =>
      rw [reindent, Node.every_leaf_iff] at every
      exact .leaf (back _ _ (isEmptyLine_margin style depth) every)
  | block head children ih =>
      rw [reindent, Node.every_block_iff, reindentAll_eq_map, List.forall_mem_map] at every
      exact .block (back _ _ (isEmptyLine_margin style depth) every.1) fun child member =>
        ih child member (every.2 child member)
  | comment text => exact .comment (Node.every_comment_iff.mp every)
  | emptyLine text => exact .emptyLine

end

/-! ## Grouped comments -/

/-- Grouping does not change which comments stay on a line. -/
theorem kept_grouped (texts : List Text) : kept (grouped texts) = kept texts := by
  simp [kept, grouped]

/-- Grouping does not change which comments go to lines of their own. -/
theorem overflow_grouped (texts : List Text) : overflow (grouped texts) = overflow texts := by
  simp [overflow, grouped]

/-- All block comments stay on a line, and at most one comment that goes to its end. -/
private theorem filter_kept (texts : List Text) :
    (kept texts).filter (!Layout.isLineComment ·) = texts.filter (!Layout.isLineComment ·) ∧
      (kept texts).filter Layout.isLineComment = (texts.filter Layout.isLineComment).take 1 := by
  have lines : ∀ text ∈ (texts.filter Layout.isLineComment).take 1,
      Layout.isLineComment text = true := by
    intro text member
    exact (List.mem_filter.mp (List.mem_of_mem_take member)).2
  constructor
  · rw [kept, List.filter_append, List.filter_filter]
    simpa using lines
  · rw [kept, List.filter_append, List.filter_eq_self.mpr lines]
    simp

/-- Of the comments that stay on a line all stay there again. -/
theorem kept_kept (texts : List Text) : kept (kept texts) = kept texts := by
  rw [kept, (filter_kept texts).1, (filter_kept texts).2, List.take_take, Nat.min_self, kept]

/-- None of the comments that stay on a line goes to one of its own. -/
theorem overflow_kept (texts : List Text) : overflow (kept texts) = [] := by
  rw [overflow, (filter_kept texts).2, List.drop_take_self]

/-- The comments that stay and those that go are the grouped comments. -/
theorem kept_append_overflow (texts : List Text) :
    kept texts ++ overflow texts = grouped texts := by
  rw [kept, overflow, List.append_assoc, List.take_append_drop, grouped]

theorem mem_of_mem_overflow {texts : List Text} {text : Text} (member : text ∈ overflow texts) :
    text ∈ texts :=
  List.mem_of_mem_filter (List.mem_of_mem_drop member)

/-- Settling comments does not change of which kind they are. -/
private theorem filter_map_settled (texts : List Text) :
    (texts.map Comment.settled).filter Layout.isLineComment =
        (texts.filter Layout.isLineComment).map Comment.settled ∧
      (texts.map Comment.settled).filter (!Layout.isLineComment ·) =
        (texts.filter (!Layout.isLineComment ·)).map Comment.settled := by
  constructor <;> simp [List.filter_map, Function.comp_def]

/-- Comments may be settled before or after they are grouped. -/
theorem grouped_map_settled (texts : List Text) :
    grouped (texts.map Comment.settled) = (grouped texts).map Comment.settled := by
  rw [grouped, grouped, (filter_map_settled texts).1, (filter_map_settled texts).2, List.map_append]

/-- Comments may be settled before or after those that stay are picked out. -/
theorem kept_map_settled (texts : List Text) :
    kept (texts.map Comment.settled) = (kept texts).map Comment.settled := by
  rw [kept, kept, (filter_map_settled texts).1, (filter_map_settled texts).2, List.map_append,
    List.map_take]

/-- Comments may be settled before or after those that go are picked out. -/
theorem overflow_map_settled (texts : List Text) :
    overflow (texts.map Comment.settled) = (overflow texts).map Comment.settled := by
  rw [overflow, overflow, (filter_map_settled texts).1, List.map_drop]

end Relayout

namespace Layout

open Relayout

theorem spaced_cons (first : Text) (others : List Text) :
    spaced (first :: others) = ' ' :: (first ++ spaced others) := rfl

theorem spaced_append (first second : List Text) :
    spaced (first ++ second) = spaced first ++ spaced second :=
  List.flatMap_append

theorem nodes_append (style : Style) (depth : Int) (first second : List Node) :
    nodes style depth (first ++ second) = nodes style depth first ++ nodes style depth second := by
  induction first with
  | nil => rfl
  | cons node rest ih => rw [List.cons_append, nodes, nodes, ih, List.append_assoc]

/-- Comments on a line are those that stay, set off by spaces, and the others on lines of their own.
-/
theorem comments_eq (style : Style) (depth : Int) (texts : List Text) :
    comments style depth texts =
      spaced (kept texts) ++ onLines (style.indent depth) (overflow texts) := by
  rw [comments, kept, overflow]
  cases (texts.filter isLineComment).drop 1 <;> rfl

/-- Comments that overflow a line stand below it as comments of their own do. -/
theorem comments_newline (style : Style) (depth : Int) (texts : List Text) (rest : Text) :
    comments style depth texts ++ '\n' :: rest =
      spaced (kept texts) ++
        '\n' :: (nodes style depth ((overflow texts).map .comment) ++ rest) := by
  have below : ∀ lines : List Text, onLines (style.indent depth) lines ++ '\n' :: rest =
      '\n' :: (nodes style depth (lines.map .comment) ++ rest) := by
    intro lines
    induction lines with
    | nil => rfl
    | cons line others ih =>
        rw [onLines, List.flatMap_cons, ← onLines, List.append_assoc, ih, List.map_cons, nodes,
          node]
        simp
  rw [comments_eq, List.append_assoc, below]

/-- The terminator of a header. -/
def terminator (opens : Bool) : Text :=
  if opens then [' ', '{'] else [';']

/-- A leaf is laid out as its header, a semicolon, comments on the same line, and comments on lines
of their own. -/
theorem node_leaf (style : Style) (depth : Int) (head : Header) (rest : Text) :
    node style depth (.leaf head) ++ rest = header style depth head ++ (terminator false ++
      (spaced (kept head.postComments) ++
        '\n' :: (nodes style depth ((overflow head.postComments).map .comment) ++ rest))) := by
  rw [node, terminator]
  simp only [List.append_assoc, List.cons_append, List.nil_append, comments_newline]
  rfl

/-- A block is laid out as its header, an opening brace, comments, its nodes one level deeper, and a
closing brace. -/
theorem node_block (style : Style) (depth : Int) (head : Header) (children : List Node)
    (rest : Text) :
    node style depth (.block head children) ++ rest = header style depth head ++ (terminator true ++
      (spaced (kept head.postComments) ++
        '\n' :: (nodes style (depth + 1) ((overflow head.postComments).map .comment) ++
          (nodes style (depth + 1) children ++ (style.indent depth ++ '}' :: '\n' :: rest))))) := by
  rw [node, terminator]
  simp only [List.append_assoc, List.cons_append, List.nil_append, comments_newline]
  rfl

/-- Comments are laid out in the same way when they are grouped. -/
private theorem comments_grouped (style : Style) (depth : Int) (texts : List Text) :
    comments style depth (grouped texts) = comments style depth texts := by
  rw [comments_eq, comments_eq, kept_grouped, overflow_grouped]

/-- A value is laid out in the same way when its comments are grouped. -/
private theorem value_regroupValue (style : Style) (depth : Int) (keyword : Text) (column : Nat)
    (given : Value) :
    value style depth keyword column (regroupValue given) =
      value style depth keyword column given := by
  cases given with
  | concatenation fragments =>
      have further : ∀ rest : List Fragment,
          (rest.map regroupFragment).flatMap (joined style depth keyword) =
            rest.flatMap (joined style depth keyword) := by
        intro rest
        rw [List.flatMap_map]
        refine List.flatMap_congr ?_
        intro fragment _
        rw [joined, joined, regroupFragment, comments_grouped]
      cases fragments with
      | nil => rfl
      | cons first rest =>
          rw [regroupValue, value, value, List.map_cons, concatenation, concatenation, further,
            regroupFragment, comments_grouped]
  | quoted text | number text | date text | other text => rfl

/-- A header is laid out in the same way when its comments are grouped. -/
private theorem header_regroupHeader (style : Style) (depth : Int) (head : Header) :
    header style depth (regroupHeader head) = header style depth head := by
  obtain ⟨keyword, keywordComments, given, valueComments, postComments⟩ := head
  cases given with
  | none => rfl
  | some given =>
      simp only [header, regroupHeader, opening, Option.map_some, value_regroupValue]

/-- Grouping the comments does not change the layout. -/
theorem nodes_regroup (style : Style) (depth : Int) (given : Node) :
    nodes style depth (regroup given) = node style depth given := by
  induction given using Node.induction generalizing depth with
  | leaf head =>
      rw [← List.append_nil (node _ _ _), regroup, nodes, node_leaf, node_leaf,
        header_regroupHeader, regroupHeader]
      simp only [kept_kept, overflow_kept]
      simp [nodes]
  | block head children ih =>
      have within : nodes style (depth + 1) (regroupAll children) =
          nodes style (depth + 1) children := by
        rw [regroupAll_eq_flatMap]
        clear head
        induction children with
        | nil => rfl
        | cons child rest others =>
            rw [List.flatMap_cons, nodes_append, nodes, ih child List.mem_cons_self,
              others fun node member => ih node (List.mem_cons_of_mem _ member)]
      rw [← List.append_nil (node _ _ _), regroup, nodes, nodes, node_block, node_block,
        header_regroupHeader, regroupHeader]
      simp only [kept_kept, overflow_kept, nodes_append, within, List.append_assoc]
      rfl
  | comment text => rw [regroup, nodes, nodes, List.append_nil]
  | emptyLine text => rfl

/-- Nodes are laid out in the same way when their comments are regrouped. -/
theorem nodes_regroupAll (style : Style) (depth : Int) (forest : List Node) :
    nodes style depth (regroupAll forest) = nodes style depth forest := by
  induction forest with
  | nil => rfl
  | cons first rest ih => rw [regroupAll, nodes_append, nodes_regroup, nodes, ih]

end Layout

end YangFormatter
