import YangFormatter.Format
import YangFormatter.Proofs.Layout.Levels
import YangFormatter.Proofs.Layout.Nodes
import YangFormatter.Proofs.Tidy.Header
import YangFormatter.Proofs.Tidy.Tree

/-! # Formatted text is read back

The formatted text of a tree has the tidied tree again, up to its layout
(`Style.parse_formatTree`), unless tidying strands a backslash before the closing quote
of a string. A text whose carriage returns are paired has no such string
(`Header.MadeOf.not_strands`), so what a machine lays out of it is read back
(`Tidy.parse_layout_tree`).
-/

namespace YangFormatter

open Quotation

/-- The value of a statement is a string that tidying leaves without its end. -/
def Header.Strands (header : Header) : Prop :=
  ∃ text, header.value = some (.quoted text) ∧ Quotation.Strands (inner text)

/-- Tidying leaves every string within a node with its end. -/
def Node.Whole : Node → Prop :=
  Node.Every (fun head => ¬ head.Strands) fun _ => True

/-- The tree of a text is made of well-formed tokens. -/
theorem Text.wellFormed_of_parse {text : Text} {nodes : List Node}
    (parsed : text.parse = .ok nodes) : ∀ node ∈ nodes, node.MadeOf Lexeme.WellFormed :=
  Text.madeOf_of_parse parsed fun _ lexes => lexes.wellFormed

/-- A source with a tree is text, and the tree is that of the text. -/
theorem Source.exists_text_of_parse {source : Source} {nodes : List Node}
    (parsed : source.parse = .ok nodes) :
    ∃ text, source.decode = .ok text ∧ text.parse = .ok nodes := by
  rw [Source.parse] at parsed
  cases decoded : source.decode with
  | error problem =>
      rw [decoded] at parsed
      cases parsed
  | ok text =>
      rw [decoded] at parsed
      exact ⟨text, rfl, parsed⟩

/-- The tree of a source is made of well-formed tokens. -/
theorem Source.wellFormed_of_parse {source : Source} {nodes : List Node}
    (parsed : source.parse = .ok nodes) : ∀ node ∈ nodes, node.MadeOf Lexeme.WellFormed := by
  obtain ⟨_, _, accepted⟩ := source.exists_text_of_parse parsed
  exact Text.wellFormed_of_parse accepted

/-- A string in a header that is made of tokens is a well-formed string. -/
theorem Header.MadeOf.isString {header : Header} (own : header.MadeOf Lexeme.WellFormed)
    {text : Text} (quoted : header.value = some (.quoted text)) : IsString text :=
  Value.madeOf_quoted (own.value _ quoted)

/-- A tidied statement is ready to be laid out. -/
theorem Header.ready_tidied {header : Header} (own : header.MadeOf Lexeme.WellFormed)
    (whole : ¬ header.Strands) : header.tidied.Ready := by
  have made : header.tidied.MadeOf Lexeme.WellFormed := by
    apply own.tidied
    · intro text isString
      rw [Lexeme.wellFormed_string] at isString ⊢
      exact isString_doubleQuoted isString
    intro text quoted
    rw [Lexeme.wellFormed_string, isString_tidied_iff (own.isString quoted)]
    exact fun strands => whole ⟨text, quoted, strands⟩
  rw [Header.tidied_eq] at made ⊢
  refine ⟨made, rfl, rfl, ?_⟩
  cases header.value with
  | none => rfl
  | some value => exact value.lastComments_tidied

/-- A tidied tree is ready to be laid out. -/
theorem Tidy.ready_tree {nodes : List Node} (made : ∀ node ∈ nodes, node.MadeOf Lexeme.WellFormed)
    (whole : ∀ node ∈ nodes, node.Whole) (style : Style) :
    ∀ node ∈ Tidy.tree style nodes, node.Ready := by
  apply (Tidy.every_tree_iff style nodes).mpr
  intro node member
  exact ((made node member).and (whole node member)).imp
    (fun head both => Header.ready_tidied both.1 both.2) fun text both => both.1

/-- The formatted text of a tree has the tidied tree again, up to its layout. -/
theorem Style.parse_formatTree {nodes : List Node}
    (made : ∀ node ∈ nodes, node.MadeOf Lexeme.WellFormed) (whole : ∀ node ∈ nodes, node.Whole)
    (style : Style) :
    (style.formatTree nodes).parse =
      .ok (Relayout.tree style (Node.mapAllComments Comment.settled (Tidy.tree style nodes))) :=
  Layout.parse_tree (Tidy.ready_tree made whole style)
    (Tidy.ordered_tree style nodes).1.spaced.first style

/-! ## Paired carriage returns -/

/-- A token of the grammar with paired carriage returns. -/
def Lexeme.Clean (lexeme : Lexeme) : Prop :=
  lexeme.WellFormed ∧ lexeme.ReturnsPaired

/-- In the tree of a text no carriage return ends a comment or a string, if line feeds follow them.
-/
theorem Text.clean_of_parse {text : Text} {nodes : List Node} (parsed : text.parse = .ok nodes)
    (paired : text.returnsPaired = true) : ∀ node ∈ nodes, node.MadeOf Lexeme.Clean :=
  Text.madeOf_of_parse parsed fun _ lexes lexeme member =>
    ⟨lexes.wellFormed lexeme member, Lexeme.returnsPaired_of_lexes lexes paired lexeme member⟩

/-- Without lone carriage returns no backslash is stranded. -/
theorem Header.MadeOf.not_strands {header : Header} (own : header.MadeOf Lexeme.Clean) :
    ¬ header.Strands := by
  rintro ⟨text, quoted, strands⟩
  obtain ⟨isString, paired⟩ := Value.madeOf_quoted (own.value _ quoted)
  exact IsString.not_strands isString paired strands

private theorem wellFormed_of_clean {nodes : List Node}
    (clean : ∀ node ∈ nodes, node.MadeOf Lexeme.Clean) :
    ∀ node ∈ nodes, node.MadeOf Lexeme.WellFormed := fun node member =>
  (clean node member).mono fun _ both => both.1

private theorem whole_of_clean {nodes : List Node}
    (clean : ∀ node ∈ nodes, node.MadeOf Lexeme.Clean) : ∀ node ∈ nodes, node.Whole :=
  fun node member =>
    Node.Every.imp (fun _ own => own.not_strands) (fun _ _ => trivial) (clean node member)

/-- A clean comment is settled. -/
theorem Lexeme.Clean.settled {text : Text} (clean : Lexeme.Clean ⟨.comment, text⟩) :
    Comment.settled text = text := by
  have kinds : Comment.IsLine text ∨ Comment.IsBlock text := clean.1
  rcases kinds with line | block
  · rw [Comment.settled, if_pos line.isLineComment, dropReturn_eq_self (clean.2 line)]
  · exact Comment.settled_of_block block.isLineComment

/-- A statement stays as it is where all of its comments do. -/
private theorem Header.MadeOf.mapComments_eq {change : Text → Text} {header : Header}
    (own : header.MadeOf fun lexeme => lexeme.kind = .comment → change lexeme.text = lexeme.text) :
    header.mapComments change = header := by
  have each : ∀ comments : List Text,
      (∀ comment ∈ comments, TokenKind.comment = .comment → change comment = comment) →
        comments.map change = comments := by
    intro comments fixed
    exact map_eq_self fun comment member => fixed comment member rfl
  have value : header.value.map (Value.mapComments change) = header.value := by
    cases present : header.value with
    | none => rfl
    | some value =>
        cases value with
        | concatenation fragments =>
            obtain ⟨_, made⟩ := Value.madeOf_concatenation (own.value _ present)
            have fixed : ∀ fragment ∈ fragments, fragment.mapComments change = fragment := by
              intro fragment member
              rw [Fragment.mapComments, each _ (made fragment member).comments]
            rw [Option.map_some, Value.mapComments, map_eq_self fixed]
        | quoted | number | date | other => rfl
  rw [Header.mapComments, each _ own.keywordComments, each _ own.valueComments,
    each _ own.postComments, value]

/-- The comments of a tidied header are settled if its tokens are clean. -/
private theorem Header.MadeOf.settled_tidied {header : Header} (own : header.MadeOf Lexeme.Clean) :
    header.tidied.mapComments Comment.settled = header.tidied := by
  have comments : header.MadeOf fun lexeme =>
      lexeme.kind = .comment → Comment.settled lexeme.text = lexeme.text := by
    refine own.mono ?_
    rintro ⟨kind, text⟩ clean rfl
    exact clean.settled
  exact (comments.tidied (fun _ _ => nofun) fun _ _ => nofun).mapComments_eq

/-- Changing comments that stay the same changes no node. -/
private theorem mapComments_eq_self {change : Text → Text} {node : Node}
    (every : node.Every (fun head => head.mapComments change = head)
      fun text => change text = text) : node.mapComments change = node := by
  induction every with
  | leaf own => rw [Node.mapComments, own]
  | block own _ ih =>
      rw [Node.mapComments, own, Node.mapAllComments_eq_map, map_eq_self ih]
  | comment own => rw [Node.mapComments, own]
  | emptyLine => rfl

/-- Without lone carriage returns the formatted text of a tree has the tidied tree again,
and all of its comments. -/
theorem Style.parse_formatTree_of_clean {nodes : List Node}
    (clean : ∀ node ∈ nodes, node.MadeOf Lexeme.Clean) (style : Style) :
    (style.formatTree nodes).parse = .ok (Relayout.tree style (Tidy.tree style nodes)) := by
  have made := wellFormed_of_clean clean
  have whole := whole_of_clean clean
  have settled : Node.mapAllComments Comment.settled (Tidy.tree style nodes) =
      Tidy.tree style nodes := by
    have each : ∀ node ∈ Tidy.tree style nodes,
        node.Every (fun head => head.mapComments Comment.settled = head)
          fun text => Comment.settled text = text := by
      apply (Tidy.every_tree_iff style nodes).mpr
      intro node member
      exact Node.Every.imp (fun _ own => Header.MadeOf.settled_tidied own)
        (fun _ own => Lexeme.Clean.settled own) (clean node member)
    rw [Node.mapAllComments_eq_map]
    exact map_eq_self fun node member => mapComments_eq_self (each node member)
  have again := Style.parse_formatTree made whole style
  rwa [settled] at again

end YangFormatter
