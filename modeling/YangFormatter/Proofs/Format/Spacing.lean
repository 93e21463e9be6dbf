import YangFormatter.Proofs.Format.Attempt
import YangFormatter.Proofs.Reading.Spacing
import YangFormatter.Proofs.Tidy.Tree

/-! # Formatting does not look at spacing

Tidying and layout look at where empty lines are and not at how they are spelled
(`Style.formatTree_unifyBreaks`). So texts that have the same tokens, apart from white space, the
spelling of line breaks and line breaks in headers, are formatted alike or are refused for the
same cause (`Style.sameResult_of_tokenize`).
-/

namespace YangFormatter

open Node

/-! ## Tidying -/

namespace Tidy

theorem unseen_unifyBreaks : Unseen unifyBreaks where
  isEmptyLine node := by cases node <;> rfl
  header? node := by cases node <;> rfl

/-- Tidying headers does not see how line breaks are spelled. -/
theorem mapHeader_unifyBreaks (change : Header → Header) (node : Node) :
    mapHeader change node.unifyBreaks = (mapHeader change node).unifyBreaks := by
  induction node using Node.induction with
  | leaf | comment | emptyLine => rfl
  | block header children ih =>
      rw [unifyBreaks, mapHeader, mapHeader, unifyBreaks]
      simp only [unifyAllBreaks_eq_map, mapHeaders_eq_map, List.map_map]
      exact congrArg _ (List.map_congr_left ih)

/-- Arranging a block does not see how line breaks are spelled. -/
theorem mapBlock_unifyBreaks (style : Style) (node : Node) :
    mapBlock (arrange style) node.unifyBreaks = (mapBlock (arrange style) node).unifyBreaks := by
  induction node using Node.induction with
  | leaf | comment | emptyLine => rfl
  | block header children ih =>
      rw [unifyBreaks, mapBlock, mapBlock, unifyBreaks]
      simp only [unifyAllBreaks_eq_map, mapEachBlock_eq_map]
      rw [← arrange_map unseen_unifyBreaks, List.map_map, List.map_map]
      exact congrArg _ (congrArg _ (List.map_congr_left ih))

/-- Tidying a tree does not see how line breaks are spelled. -/
theorem tree_unifyBreaks (style : Style) (nodes : List Node) :
    tree style (nodes.map unifyBreaks) = (tree style nodes).map unifyBreaks := by
  simp only [tree, within, mapBlocks, mapHeaders_eq_map, mapEachBlock_eq_map]
  rw [← arrange_map unseen_unifyBreaks]
  simp only [List.map_map]
  refine congrArg _ (List.map_congr_left fun node _ => ?_)
  rw [Function.comp_apply, Function.comp_apply, mapHeader_unifyBreaks, mapBlock_unifyBreaks]
  rfl

end Tidy

/-! ## Layout -/

/-- The height of a node does not depend on how line breaks are spelled. -/
theorem Node.height_unifyBreaks (own : Header → Nat) (node : Node) :
    node.unifyBreaks.height own = node.height own := by
  induction node using Node.induction with
  | leaf | comment | emptyLine => rfl
  | block head children ih =>
      rw [unifyBreaks, height, height, unifyAllBreaks_eq_map, heightAll_map ih]

namespace Layout

variable {style : Style} {forest : List Node}

/-- Nodes are laid out alike if each of them is. -/
private theorem nodes_map_unifyBreaks
    (each : ∀ given ∈ forest, ∀ depth, node style depth given.unifyBreaks = node style depth given)
    (depth : Int) : nodes style depth (forest.map unifyBreaks) = nodes style depth forest := by
  induction forest with
  | nil => rfl
  | cons first rest ih =>
      obtain ⟨own, others⟩ := List.forall_mem_cons.mp each
      rw [List.map_cons, nodes, nodes, own, ih others]

/-- An empty line is laid out as a line feed, however it was spelled. -/
theorem node_unifyBreaks (style : Style) (depth : Int) (given : Node) :
    node style depth given.unifyBreaks = node style depth given := by
  induction given using Node.induction generalizing depth with
  | leaf | comment | emptyLine => rfl
  | block head children ih =>
      rw [unifyBreaks, unifyAllBreaks_eq_map, node, nodes_map_unifyBreaks ih, node]

/-- Empty lines among nodes are laid out as line feeds, however they were spelled. -/
theorem nodes_unifyBreaks (style : Style) (depth : Int) (forest : List Node) :
    nodes style depth (forest.map unifyBreaks) = nodes style depth forest :=
  nodes_map_unifyBreaks (fun given _ depth => node_unifyBreaks style depth given) depth

/-- Nodes are laid out alike by attempt if each of them is. -/
private theorem nodes?_map_unifyBreaks {machine : Machine}
    (each : ∀ given ∈ forest, ∀ blocks depth,
      node? machine style blocks depth given.unifyBreaks = node? machine style blocks depth given)
    (blocks : Nat) (depth : Int) :
    nodes? machine style blocks depth (forest.map unifyBreaks) =
      nodes? machine style blocks depth forest := by
  induction forest with
  | nil => rfl
  | cons first rest ih =>
      obtain ⟨own, others⟩ := List.forall_mem_cons.mp each
      rw [List.map_cons, nodes?, nodes?, own, ih others]

/-- A node is laid out alike by attempt, however its empty lines were spelled. -/
theorem node?_unifyBreaks (machine : Machine) (style : Style) (blocks : Nat) (depth : Int)
    (given : Node) :
    node? machine style blocks depth given.unifyBreaks =
      node? machine style blocks depth given := by
  induction given using Node.induction generalizing blocks depth with
  | leaf | comment | emptyLine => rfl
  | block head children ih =>
      rw [unifyBreaks, unifyAllBreaks_eq_map, node?, nodes?_map_unifyBreaks ih, node?]

/-- A tree is laid out alike by attempt, however its empty lines were spelled. -/
theorem tree?_unifyBreaks (machine : Machine) (style : Style) (forest : List Node) :
    tree? machine style (forest.map unifyBreaks) = tree? machine style forest := by
  rw [tree?, tree?, nodes?_map_unifyBreaks fun given _ blocks depth =>
    node?_unifyBreaks machine style blocks depth given]

end Layout

namespace Style

/-- A tree is formatted alike, however its empty lines were spelled. -/
theorem formatTree_unifyBreaks (style : Style) (nodes : List Node) :
    style.formatTree (nodes.map unifyBreaks) = style.formatTree nodes := by
  rw [formatTree, Tidy.tree_unifyBreaks, Layout.tree, Layout.nodes_unifyBreaks, formatTree,
    Layout.tree]

/-- Formatting two sources comes to the same on every machine: to the same text, to the same
lack of room or to problems with the same cause. Both have a tree, and one formatted text, or
neither has. -/
structure SameResult (style : Style) (first second : Source) : Prop where
  attempt : ∀ machine, style.attemptFormat machine first = style.attemptFormat machine second ∨
    ∃ problem other, style.attemptFormat machine first = .error (.problem problem) ∧
      style.attemptFormat machine second = .error (.problem other) ∧ problem.cause = other.cause
  result : (∃ nodes others, first.parse = .ok nodes ∧ second.parse = .ok others ∧
      style.formatTree nodes = style.formatTree others) ∨
    ∃ problem other, first.parse = .error problem ∧ second.parse = .error other ∧
      problem.cause = other.cause

/-- A tree that is read is formatted by where its empty lines are, not by how they are spelled. -/
theorem attemptTree_of_unifyBreaks {nodes others : List Node}
    (made : ∀ node ∈ nodes, node.MadeOf Lexeme.WellFormed)
    (made' : ∀ node ∈ others, node.MadeOf Lexeme.WellFormed)
    (alike : nodes.map unifyBreaks = others.map unifyBreaks) (style : Style) (machine : Machine) :
    style.attemptTree machine nodes = style.attemptTree machine others := by
  have nested : ∀ forest, nesting (forest.map unifyBreaks) = nesting forest := fun forest =>
    heightAll_map fun node _ => node.height_unifyBreaks _
  have laidOut : ∀ forest, Layout.tree? machine style (Tidy.tree style (forest.map unifyBreaks)) =
      Layout.tree? machine style (Tidy.tree style forest) := by
    intro forest
    rw [Tidy.tree_unifyBreaks, Layout.tree?_unifyBreaks]
  rw [attemptTree_eq made, attemptTree_eq made', ← nested nodes, ← nested others,
    ← laidOut nodes, ← laidOut others, alike]

/-- Sources that are read alike are formatted alike. -/
theorem sameResult_of_parse {first second : Source}
    (alike : (first.parse.mapError Problem.cause).map (List.map unifyBreaks) =
      (second.parse.mapError Problem.cause).map (List.map unifyBreaks)) (style : Style) :
    style.SameResult first second := by
  cases parsed : first.parse with
  | ok nodes =>
      cases parsed' : second.parse with
      | ok others =>
          rw [parsed, parsed'] at alike
          have same : nodes.map unifyBreaks = others.map unifyBreaks := Except.ok.inj alike
          refine ⟨fun machine => .inl ?_, .inl ⟨nodes, others, parsed, parsed', ?_⟩⟩
          · rw [attemptFormat, attemptFormat, parsed, parsed']
            exact attemptTree_of_unifyBreaks (first.wellFormed_of_parse parsed)
              (second.wellFormed_of_parse parsed') same style machine
          · rw [← formatTree_unifyBreaks, same, formatTree_unifyBreaks]
      | error problem =>
          rw [parsed, parsed'] at alike
          cases alike
  | error problem =>
      cases parsed' : second.parse with
      | ok others =>
          rw [parsed, parsed'] at alike
          cases alike
      | error other =>
          rw [parsed, parsed'] at alike
          have same : problem.cause = other.cause := Except.error.inj alike
          exact
            { attempt := fun machine => .inr ⟨problem, other,
                attemptFormat_of_error parsed style machine,
                attemptFormat_of_error parsed' style machine, same⟩
              result := .inr ⟨problem, other, parsed, parsed', same⟩ }

/-- Formatting does not depend on white space, on the spelling of line breaks, or on the line
breaks between a keyword and its terminator. -/
theorem sameResult_of_tokenize {first second : Text} {tokens others : List Token}
    (scanned : TokenStream.tokenize first = .ok tokens)
    (scanned' : TokenStream.tokenize second = .ok others) (style : Style) :
    (Lexeme.unspaced (tokens.map Token.toLexeme) = Lexeme.unspaced (others.map Token.toLexeme) →
        style.SameResult (.text first) (.text second)) ∧
      (Lexeme.joinHeaders .between (Lexeme.unspaced (tokens.map Token.toLexeme)) =
          Lexeme.joinHeaders .between (Lexeme.unspaced (others.map Token.toLexeme)) →
        style.SameResult (.text first) (.text second)) := by
  have joined : Lexeme.joinHeaders .between (Lexeme.unspaced (tokens.map Token.toLexeme)) =
      Lexeme.joinHeaders .between (Lexeme.unspaced (others.map Token.toLexeme)) →
        style.SameResult (.text first) (.text second) := by
    intro same
    apply sameResult_of_parse
    change (first.parse.mapError _).map _ = (second.parse.mapError _).map _
    rw [Text.cause_parse_unspaced scanned, Text.cause_parse_unspaced scanned', same]
  exact ⟨fun same => joined (congrArg _ same), joined⟩

/-- A leaf, and the same leaf with other line breaks in and between headers. -/
theorem sameResult_of_tokenize_block :
    SameResult { canonicalOrder := true }
      (.text "leaf\n a \x7b // x\r\n\r\n \r\n\ttype 'b';\x7d".toList)
      (.text "leaf a\x7b// x\n\n\ntype\n\n'b' ; \x7d".toList) := by
  have scanned : TokenStream.tokenize
      "leaf\n a \x7b // x\r\n\r\n \r\n\ttype 'b';\x7d".toList = .ok _ :=
    TokenStream.tokenize_eq_ok_iff.mpr (Prod.ext rfl (by cbv))
  have scanned' : TokenStream.tokenize "leaf a\x7b// x\n\n\ntype\n\n'b' ; \x7d".toList = .ok _ :=
    TokenStream.tokenize_eq_ok_iff.mpr (Prod.ext rfl (by cbv))
  exact (sameResult_of_tokenize scanned scanned' _).2 (by cbv)

end Style

end YangFormatter
