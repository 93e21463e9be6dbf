import Mathlib.Tactic
import YangFormatter.Proofs.Format.Attempt

/-! # Where values are put

A value of one line stands beside its keyword or below it. The column that decides
leaves room for a terminator of one character, so a line may be one character too long
where it opens a block (`Style.format_beside_iff`).
-/

namespace YangFormatter

/-- The text of a value that is written on one line. -/
def Value.word? : Value → Option Text
  | .quoted text => if Quotation.isMultiline text then none else some text
  | .number text | .date text | .other text => some text
  | .concatenation _ => none

namespace Node

/-- Whether a node has a block. -/
def isBlock : Node → Bool
  | .block _ _ => true
  | .leaf _ | .comment _ | .emptyLine _ => false

/-- A node is one of some nodes side by side, or lies within as many blocks as its depth
says. -/
inductive StandsIn (node : Node) : Nat → List Node → Prop where
  | here {nodes : List Node} (member : node ∈ nodes) : StandsIn node 0 nodes
  | within {depth : Nat} {header : Header} {children nodes : List Node}
      (member : .block header children ∈ nodes) (inside : StandsIn node depth children) :
      StandsIn node (depth + 1) nodes

/-- A property of every header within some nodes is one of those within a node that stands in them.
-/
theorem StandsIn.every {node : Node} {depth : Nat} {nodes : List Node}
    (stands : node.StandsIn depth nodes) {header : Header → Prop} {comment : Text → Prop}
    (every : ∀ other ∈ nodes, other.Every header comment) : node.Every header comment := by
  induction stands with
  | here member => exact every node member
  | within member _ ih => exact ih (every_block_iff.mp (every _ member)).2

end Node

/-- What follows a text starts a line. -/
def Text.EndsLine (text : Text) : Prop :=
  ∀ last ∈ text.getLast?, last = '\n'

/-- Texts that end their lines do so together. -/
theorem Text.EndsLine.append {first second : Text} (before : first.EndsLine)
    (after : second.EndsLine) : Text.EndsLine (first ++ second) := by
  intro last member
  rw [List.getLast?_append, Option.mem_def, Option.or_eq_some_iff] at member
  rcases member with own | ⟨_, earlier⟩
  · exact after last own
  · exact before last earlier

/-- A line feed ends its line. -/
theorem Text.endsLine_concat (text : Text) : Text.EndsLine (text ++ ['\n']) := by
  intro last member
  simpa using member.symm

namespace Layout

/-! ## Lines of a layout -/

/-- A node is laid out as whole lines. -/
theorem endsLine_node (style : Style) (depth : Int) (given : Node) :
    (node style depth given).EndsLine := by
  cases given with
  | leaf | comment => exact Text.endsLine_concat _
  | block head children =>
      have split : node style depth (.block head children) =
          header style depth head ++ ' ' :: '{' :: comments style (depth + 1) head.postComments
            ++ '\n' :: nodes style (depth + 1) children ++ style.indent depth ++ ['}']
            ++ ['\n'] := by
        simp [node]
      rw [split]
      exact Text.endsLine_concat _
  | emptyLine => exact Text.endsLine_concat []

/-- Nodes are laid out as whole lines. -/
theorem endsLine_nodes (style : Style) (depth : Int) (forest : List Node) :
    (nodes style depth forest).EndsLine := by
  induction forest with
  | nil => exact nofun
  | cons first rest ih => exact (endsLine_node style depth first).append ih

/-- The layout of nodes has that of every node within them, on lines of its own. -/
theorem exists_node_of_standsIn {given : Node} {depth : Nat} {forest : List Node}
    (stands : given.StandsIn depth forest) (style : Style) (base : Int) :
    ∃ before after, nodes style base forest = before ++ node style (base + depth) given ++ after ∧
      before.EndsLine := by
  induction stands generalizing base with
  | @here forest member =>
      obtain ⟨front, back, rfl⟩ := List.append_of_mem member
      refine ⟨nodes style base front, nodes style base back, ?_, endsLine_nodes style base front⟩
      rw [nodes_append, nodes, Int.natCast_zero, Int.add_zero, List.append_assoc]
  | @within depth head children forest member _ ih =>
      obtain ⟨front, back, rfl⟩ := List.append_of_mem member
      obtain ⟨before, after, inner, starts⟩ := ih (base + 1)
      have deeper : base + 1 + depth = base + (depth + 1 : Nat) := by omega
      refine ⟨nodes style base front ++ (header style base head ++ ' ' :: '{'
        :: comments style (base + 1) head.postComments ++ ['\n']) ++ before,
        after ++ style.indent base ++ ['}', '\n'] ++ nodes style base back, ?_,
        ((endsLine_nodes style base front).append (Text.endsLine_concat _)).append starts⟩
      rw [nodes_append, nodes, node, inner, deeper]
      simp only [List.append_assoc, List.cons_append, List.nil_append]

/-! ## Lines of a statement -/

/-- The line of a statement with its value beside the keyword. -/
def besideKeyword (style : Style) (depth : Int) (keyword word : Text) (opens : Bool) : Text :=
  style.indent depth ++ keyword ++ ' ' :: word ++ terminator opens

/-- The lines of a statement with its value below the keyword. -/
def belowKeyword (style : Style) (depth : Int) (keyword word : Text) (opens : Bool) : Text :=
  style.indent depth ++ keyword ++ '\n' :: style.indent (depth + 1) ++ word ++ terminator opens

/-- A value that is one word is laid out on one line. -/
theorem value_of_word {given : Value} {word : Text} (short : given.word? = some word)
    (style : Style) (depth : Int) (keyword : Text) (column : Nat) :
    value style depth keyword column given = oneLine style depth column word := by
  cases given with
  | quoted text =>
      rw [Value.word?] at short
      split at short
      next => cases short
      next single =>
        cases short
        rw [value, if_neg single]
  | number | date | other =>
      cases short
      rfl
  | concatenation => cases short

/-- The layout of a statement begins with its header and terminator. -/
theorem header_append_terminator {given : Node} {head : Header} (own : given.header? = some head)
    (style : Style) (depth : Int) :
    header style depth head ++ terminator given.isBlock <+: node style depth given := by
  rw [← List.append_nil (node _ _ _)]
  cases given with
  | leaf =>
      cases own
      rw [node_leaf, ← List.append_assoc]
      exact List.prefix_append _ _
  | block =>
      cases own
      rw [node_block, ← List.append_assoc]
      exact List.prefix_append _ _
  | comment | emptyLine => cases own

/-- The value of a statement fits if the line is no longer than it may be, where a
terminator counts as one character. -/
theorem fits_iff (style : Style) (depth : Int) (keyword word : Text) (opens : Bool) :
    fits style (style.indent depth ++ keyword).length word = true ↔
      (besideKeyword style depth keyword word opens).length ≤ style.maxWidth ∨
        opens = true ∧
          (besideKeyword style depth keyword word opens).length = style.maxWidth + 1 := by
  rw [fits, decide_eq_true_eq]
  cases opens with
  | false =>
      simp only [besideKeyword, terminator, List.length_append, List.length_cons, List.length_nil,
        Bool.false_eq_true, false_and, or_false, if_false]
      omega
  | true =>
      simp only [besideKeyword, terminator, List.length_append, List.length_cons, List.length_nil,
        true_and, if_true]
      omega

/-- A value of one line is written beside the keyword if it fits, and below it otherwise. -/
theorem node_of_word {given : Node} {head : Header} (own : given.header? = some head)
    (bare : head.keywordComments = [] ∧ head.valueComments = []) {value : Value}
    (present : head.value = some value) {word : Text} (short : value.word? = some word)
    (style : Style) (depth : Int) :
    (if fits style (style.indent depth ++ head.keyword).length word then
      besideKeyword style depth head.keyword word given.isBlock
    else
      belowKeyword style depth head.keyword word given.isBlock) <+: node style depth given := by
  have line : opening style depth head = style.indent depth ++ head.keyword := by
    rw [opening, bare.1, spaced, List.flatMap_nil, List.append_nil]
  have whole : header style depth head = style.indent depth ++ head.keyword
      ++ oneLine style depth (style.indent depth ++ head.keyword).length word := by
    simp only [header, line, present, value_of_word short, bare.2]
    exact congrArg _ (List.append_nil _)
  have starts := header_append_terminator own style depth
  rw [whole, oneLine] at starts
  split
  next fit => rwa [if_pos fit] at starts
  next wrap =>
    rw [if_neg wrap] at starts
    rwa [belowKeyword, List.append_assoc _ _ word]

/-- A text does not start in both ways. -/
theorem not_besideKeyword_and_belowKeyword {style : Style} {depth : Int} {keyword word : Text}
    {opens : Bool} {text : Text} (beside : besideKeyword style depth keyword word opens <+: text)
    (below : belowKeyword style depth keyword word opens <+: text) : False := by
  obtain ⟨first, rfl⟩ := beside
  obtain ⟨second, same⟩ := below
  simp [besideKeyword, belowKeyword] at same

end Layout

/-! ## Statements of a formatted text -/

/-- A statement as it is laid out: all comments stand behind the terminator, and neither
the keyword nor a value of one line has a line feed. -/
structure Header.Plain (header : Header) : Prop where
  keywordComments : header.keywordComments = []
  valueComments : header.valueComments = []
  keyword : '\n' ∉ header.keyword
  word : ∀ value ∈ header.value, ∀ word ∈ value.word?, '\n' ∉ word

/-- A plain word is on one line. -/
theorem Word.IsPlain.not_lineFeed {text : Text} (plain : Word.IsPlain text) : '\n' ∉ text := by
  cases text with
  | nil => exact plain.elim
  | cons head tail =>
      intro member
      cases plain.1 _ member

/-- A tidied value that is one word is on one line. -/
theorem Value.MadeOf.not_lineFeed {value : Value} (own : value.MadeOf Lexeme.WellFormed)
    {word : Text} (short : value.tidied.word? = some word) : '\n' ∉ word := by
  cases own with
  | @single lexeme content goesOn formed =>
      obtain ⟨kind, text⟩ := lexeme
      cases kind with
      | string =>
          have line : (Value.quoted (Quotation.tidied text)).word? = some word := short
          rw [Value.word?] at line
          split at line
          next => cases line
          next single =>
            cases line
            simpa [Quotation.isMultiline] using single
      | number | date | other =>
          cases short
          exact formed.1.not_lineFeed
      | plus | closeBlock =>
          obtain rfl := formed
          cases short
          decide
      | whitespace | lineBreak | comment => cases content
      | semicolon | openBlock => cases goesOn
  | concatenation => cases short

/-- A tidied header that is made of tokens is plain. -/
theorem Header.MadeOf.plain_tidied {header : Header} (own : header.MadeOf Lexeme.WellFormed) :
    header.tidied.Plain := by
  rw [Header.tidied_eq]
  refine ⟨rfl, rfl, own.keyword.1.not_lineFeed, ?_⟩
  intro value member word short
  obtain ⟨given, present, rfl⟩ := Option.map_eq_some_iff.mp member
  exact (own.value given present).not_lineFeed short

/-- An indentation is on one line. -/
theorem Style.not_lineFeed_indent (style : Style) (depth : Int) : '\n' ∉ style.indent depth := by
  rw [Style.indent, List.mem_replicate]
  exact fun both => by cases both.2

/-- In a formatted text, which is what formatting comes to on every machine that affords the
tree, the value of a statement stands beside the keyword exactly if that line is no longer than
it may be, or opens a block and is one character longer. Otherwise it stands on the next line. -/
theorem Style.format_beside_iff {source : Source} {nodes : List Node}
    (parsed : source.parse = .ok nodes) (style : Style) {depth : Nat} {node : Node}
    (stands : node.StandsIn depth (Tidy.tree style nodes)) {header : Header}
    (own : node.header? = some header) {value : Value} (present : header.value = some value)
    {word : Text} (short : value.word? = some word) :
    ∃ before after,
      (∀ machine text, style.attemptFormat machine source = .ok text ↔
        machine.Affords style nodes ∧ style.formatTree nodes = text) ∧
      style.formatTree nodes = before ++ Layout.node style depth node ++ after ∧
      before.EndsLine ∧
      let line := Layout.besideKeyword style depth header.keyword word node.isBlock
      '\n' ∉ line ∧
      (line <+: Layout.node style depth node ↔
        line.length ≤ style.maxWidth ∨
          node.isBlock = true ∧ line.length = style.maxWidth + 1) ∧
      (Layout.belowKeyword style depth header.keyword word node.isBlock <+:
          Layout.node style depth node ↔
        ¬ line <+: Layout.node style depth node) := by
  have plain : header.Plain := by
    have every : ∀ other ∈ Tidy.tree style nodes, other.Every Header.Plain fun _ => True := by
      apply (Tidy.every_tree_iff style nodes).mpr
      intro other member
      exact Node.Every.imp (fun _ own => own.plain_tidied) (fun _ _ => trivial)
        (Source.wellFormed_of_parse parsed other member)
    cases stands.every every with
    | leaf plain | block plain =>
        cases own
        exact plain
    | comment | emptyLine => cases own
  obtain ⟨before, after, split, starts⟩ := Layout.exists_node_of_standsIn stands style 0
  rw [Int.zero_add] at split
  have written := Layout.node_of_word own ⟨plain.keywordComments, plain.valueComments⟩ present
    short style depth
  have decides := Layout.fits_iff style depth header.keyword word node.isBlock
  refine ⟨before, after, fun _ _ => attemptFormat_eq_ok_iff parsed, split, starts, ?_, ?_, ?_⟩
  · have word := plain.word value present word short
    cases node.isBlock <;>
      simp [Layout.besideKeyword, Layout.terminator, style.not_lineFeed_indent, plain.keyword, word]
  · rw [← decides]
    split at written
    next fit => exact iff_of_true written fit
    next wrap =>
      exact iff_of_false (fun beside => Layout.not_besideKeyword_and_belowKeyword beside written)
        wrap
  · split at written
    next fit =>
      refine iff_of_false (fun below => ?_) (fun other => other written)
      exact Layout.not_besideKeyword_and_belowKeyword written below
    next wrap =>
      refine iff_of_true written fun beside => ?_
      exact Layout.not_besideKeyword_and_belowKeyword beside written

/-- A line of five characters where four are allowed, since it opens a block. -/
theorem Style.format_overlong :
    ∃ formatted before rest,
      Style.attemptFormat { maxWidth := 4 } {} (.text "a b \x7b\x7d".toList) = .ok formatted ∧
      formatted = before ++ "a b \x7b".toList ++ rest ∧ before.EndsLine ∧
      4 < "a b \x7b".toList.length := by
  have parsed : Source.parse (.text "a b \x7b\x7d".toList) =
      .ok [.block { keyword := "a".toList, value := some (.other "b".toList) } []] := by
    cbv
  obtain ⟨before, after, formats, split, starts, _, beside, _⟩ :=
    Style.format_beside_iff parsed { maxWidth := 4 } (.here List.mem_cons_self) rfl rfl rfl
  obtain ⟨rest, same⟩ := beside.mpr (.inr ⟨rfl, by decide⟩)
  refine ⟨_, before, rest ++ after, (formats {} _).mpr ⟨by decide, rfl⟩, ?_, starts, by decide⟩
  rw [split, ← same, List.append_assoc, List.append_assoc, List.append_assoc]
  rfl

end YangFormatter
