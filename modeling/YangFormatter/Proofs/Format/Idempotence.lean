import YangFormatter.Proofs.Format.Attempt

/-! # Formatting again

Tidying a tree that has been read again from its layout gives the tree that was laid out,
with its comments grouped (`Tidy.tree_relayout`), and grouping does not show in a layout.
So formatting a formatted text is formatting the text (`Style.format_format`), whatever
the widths of the two styles are, on every machine that has the room for it.
-/

namespace YangFormatter

open Quotation Relayout

/-! ## Statements -/

/-- Tidying takes a statement back from every margin. -/
def Header.Stable (header : Header) : Prop :=
  ∀ margin, Margin.isEmptyLine margin = true → (reindentHeader margin header).tidied = header

/-- Grouping puts no comment behind the last string. -/
private theorem lastComments_regroupValue {value : Value} (bare : value.lastComments = []) :
    (regroupValue value).lastComments = [] := by
  cases value with
  | concatenation fragments =>
      rw [Value.lastComments] at bare
      rw [regroupValue, Value.lastComments, List.getLast?_map]
      cases ends : fragments.getLast? with
      | none => rfl
      | some last =>
          have uncommented : last.comments = [] := by rwa [ends] at bare
          rw [Option.map_some, Option.elim_some, regroupFragment, uncommented]
          rfl
  | quoted | number | date | other => rfl

/-- Indenting strings anew changes no comment behind them. -/
private theorem lastComments_reindentValue (margin : Text) (value : Value) :
    (reindentValue margin value).lastComments = value.lastComments := by
  cases value <;> rfl

/-- The strings of a tidied concatenation have their quotes. -/
private theorem doubleQuoted_of_mem {fragments : List Fragment} {fragment : Fragment}
    (member : fragment ∈ (Fragment.dropLastComments (fragments.map Fragment.doubleQuoted)).map
      regroupFragment) : fragment.doubleQuoted = fragment := by
  obtain ⟨tidied, own, rfl⟩ := List.mem_map.mp member
  have text : tidied.text ∈ (fragments.map Fragment.doubleQuoted).map Fragment.text := by
    rw [← Fragment.map_text_dropLastComments]
    exact List.mem_map_of_mem own
  rw [List.map_map] at text
  obtain ⟨original, _, same⟩ := List.mem_map.mp text
  have quotes : doubleQuoted tidied.text = tidied.text := by
    rw [← same]
    exact doubleQuoted_doubleQuoted original.text
  rw [regroupFragment, Fragment.doubleQuoted, quotes]

/-- A tidied value that is laid out and read again is tidied back to itself. -/
private theorem Value.tidied_regroup {value : Value} (own : value.MadeOf Lexeme.Clean)
    {margin : Text} (indents : Margin.isEmptyLine margin = true) :
    (reindentValue margin (regroupValue value.tidied)).tidied = regroupValue value.tidied := by
  cases value with
  | quoted text =>
      obtain ⟨isString, paired⟩ := Value.madeOf_quoted own
      exact congrArg Value.quoted (tidied_reindented isString paired indents)
  | concatenation fragments =>
      have bare := lastComments_regroupValue (Value.lastComments_tidied (.concatenation fragments))
      rw [Value.tidied, regroupValue] at bare ⊢
      have quotes : ((Fragment.dropLastComments (fragments.map Fragment.doubleQuoted)).map
          regroupFragment).map Fragment.doubleQuoted =
            (Fragment.dropLastComments (fragments.map Fragment.doubleQuoted)).map
              regroupFragment :=
        map_eq_self fun _ member => doubleQuoted_of_mem member
      rw [reindentValue, Value.mapQuoted, Value.tidied, quotes,
        Fragment.dropLastComments_eq_self bare]
      exact fun _ same => by cases same
  | number | date | other => rfl

/-- A tidied header that is made of clean tokens is stable. -/
private theorem Header.MadeOf.stable {header : Header} (own : header.MadeOf Lexeme.Clean) :
    (regroupHeader header.tidied).Stable := by
  intro margin indents
  rw [Header.tidied_eq header, Header.tidied_eq]
  cases present : header.value with
  | none => rfl
  | some value =>
      have given : (reindentValue margin (regroupValue value.tidied)).tidied =
          regroupValue value.tidied :=
        Value.tidied_regroup (own.value value present) indents
      have bare : (reindentValue margin (regroupValue value.tidied)).lastComments = [] := by
        rw [lastComments_reindentValue, lastComments_regroupValue value.lastComments_tidied]
      change ({
        keyword := header.keyword
        value := some (reindentValue margin (regroupValue value.tidied)).tidied
        postComments := (reindentValue margin (regroupValue value.tidied)).lastComments
          ++ kept (header.keywordComments ++ header.valueComments ++ value.lastComments
            ++ header.postComments) } : Header) = _
      rw [given, bare]
      rfl

/-- A tree of stable statements is tidied wherever its strings have been put. -/
private theorem mapHeaders_reindentAll {style : Style} {depth : Int} {forest : List Node}
    (stable : ∀ node ∈ forest, node.Every Header.Stable fun _ => True) :
    Tidy.mapHeaders Header.tidied (reindentAll style depth forest) = forest := by
  have single : ∀ node : Node, (node.Every Header.Stable fun _ => True) → ∀ depth,
      Tidy.mapHeader Header.tidied (reindent style depth node) = node := by
    intro node every
    induction every with
    | leaf own =>
        intro depth
        rw [reindent, Tidy.mapHeader, own _ (isEmptyLine_margin style depth)]
    | block own _ ih =>
        intro depth
        have within := map_eq_self fun child member => ih child member (depth + 1)
        rw [reindent, Tidy.mapHeader, own _ (isEmptyLine_margin style depth), reindentAll_eq_map,
          Tidy.mapHeaders_eq_map, List.map_map]
        exact congrArg (Node.block _) within
    | comment own => exact fun _ => rfl
    | emptyLine => exact fun _ => rfl
  rw [reindentAll_eq_map, Tidy.mapHeaders_eq_map, List.map_map]
  exact map_eq_self fun node member => single node (stable node member) depth

/-! ## Blocks -/

/-- Regrouping makes no empty line and loses none. -/
private theorem isEmptyLine_of_mem_regroup {node part : Node} (member : part ∈ regroup node) :
    part.isEmptyLine = node.isEmptyLine := by
  cases node with
  | leaf head =>
      rcases List.mem_cons.mp member with rfl | comment
      · rfl
      · obtain ⟨text, _, rfl⟩ := List.mem_map.mp comment
        rfl
  | block | comment | emptyLine => rw [List.mem_singleton.mp member] <;> rfl

private theorem regroup_ne_nil (node : Node) : regroup node ≠ [] := by
  cases node <;> exact List.cons_ne_nil _ _

/-- Where there is no empty line no two of them stand together. -/
private theorem isChain_of_visible {nodes : List Node}
    (visible : ∀ node ∈ nodes, node.isEmptyLine = false) : nodes.IsChain EmptyLines.Apart := by
  induction nodes with
  | nil => exact .nil
  | cons first rest ih =>
      refine List.isChain_cons.mpr ⟨fun _ _ => .inl (visible first List.mem_cons_self), ?_⟩
      exact ih fun node member => visible node (List.mem_cons_of_mem _ member)

/-- Regrouping a node puts no empty lines together. -/
private theorem isChain_regroup (node : Node) : (regroup node).IsChain EmptyLines.Apart := by
  cases empty : node.isEmptyLine with
  | false =>
      apply isChain_of_visible
      intro part member
      rw [isEmptyLine_of_mem_regroup member, empty]
  | true =>
      cases node with
      | emptyLine text => exact .singleton _
      | leaf | block | comment => cases empty

/-- Regrouped nodes begin with an empty line only if one came first. -/
private theorem head?_regroupAll {nodes : List Node} {part : Node}
    (first : part ∈ (regroupAll nodes).head?) :
    ∃ node ∈ nodes.head?, part.isEmptyLine = node.isEmptyLine := by
  cases nodes with
  | nil => cases first
  | cons node rest =>
      refine ⟨node, rfl, ?_⟩
      rw [regroupAll, List.head?_append_of_ne_nil _ (regroup_ne_nil node)] at first
      exact isEmptyLine_of_mem_regroup (List.mem_of_mem_head? first)

/-- Regrouped nodes end with an empty line only if one came last. -/
private theorem getLast?_regroupAll {nodes : List Node} {part : Node}
    (last : part ∈ (regroupAll nodes).getLast?) :
    ∃ node ∈ nodes.getLast?, part.isEmptyLine = node.isEmptyLine := by
  rcases nodes.eq_nil_or_concat with rfl | ⟨before, node, rfl⟩
  · cases last
  · refine ⟨node, by simp, ?_⟩
    rw [regroupAll_eq_flatMap, List.concat_eq_append, List.flatMap_append, List.flatMap_singleton,
      List.getLast?_append_of_ne_nil _ (regroup_ne_nil node)] at last
    exact isEmptyLine_of_mem_regroup (List.mem_of_getLast? last)

/-- Regrouping nodes puts no empty lines together. -/
private theorem isChain_regroupAll {nodes : List Node} (apart : nodes.IsChain EmptyLines.Apart) :
    (regroupAll nodes).IsChain EmptyLines.Apart := by
  induction nodes with
  | nil => exact .nil
  | cons node rest ih =>
      obtain ⟨next, others⟩ := List.isChain_cons.mp apart
      refine List.isChain_append.mpr ⟨isChain_regroup node, ih others, ?_⟩
      intro last ends first starts
      obtain ⟨second, own, same⟩ := head?_regroupAll starts
      rw [EmptyLines.Apart, isEmptyLine_of_mem_regroup (List.mem_of_getLast? ends), same]
      exact next second own

/-- Grouped nodes are spaced as the nodes were, also behind comments. -/
private theorem spaced_regroupAll {nodes : List Node} (spaced : EmptyLines.Spaced nodes)
    (comments : List Text) :
    EmptyLines.Spaced (comments.map .comment ++ regroupAll nodes) := by
  have visible : ∀ node ∈ comments.map Node.comment, node.isEmptyLine = false := by
    rw [List.forall_mem_map]
    exact fun _ _ => rfl
  have first : ∀ part ∈ (regroupAll nodes).head?, part.isEmptyLine = false := by
    intro part member
    obtain ⟨node, own, same⟩ := head?_regroupAll member
    rw [same, spaced.first node own]
  have last : ∀ part ∈ (regroupAll nodes).getLast?, part.isEmptyLine = false := by
    intro part member
    obtain ⟨node, own, same⟩ := getLast?_regroupAll member
    rw [same, spaced.last node own]
  refine ⟨?_, ?_, ?_⟩
  · intro part member
    rw [List.head?_append, Option.mem_def, Option.or_eq_some_iff] at member
    rcases member with before | ⟨_, behind⟩
    · exact visible part (List.mem_of_mem_head? before)
    · exact first part behind
  · intro part member
    rw [List.getLast?_append, Option.mem_def, Option.or_eq_some_iff] at member
    rcases member with behind | ⟨_, before⟩
    · exact last part behind
    · exact visible part (List.mem_of_getLast? before)
  · refine List.isChain_append.mpr
      ⟨isChain_of_visible visible, isChain_regroupAll spaced.apart, ?_⟩
    exact fun _ ends _ _ => .inl (visible _ (List.mem_of_getLast? ends))

private theorem filter_isStatement_comments (texts : List Text) :
    (texts.map Node.comment).filter Node.isStatement = [] := by
  rw [List.filter_eq_nil_iff, List.forall_mem_map]
  exact fun _ _ => nofun

/-- Grouped statements have the ranks of the statements. -/
private theorem map_ofNode_regroupAll (ranking : Ranking) (nodes : List Node) :
    ((regroupAll nodes).filter Node.isStatement).map ranking.ofNode =
      (nodes.filter Node.isStatement).map ranking.ofNode := by
  induction nodes with
  | nil => rfl
  | cons node rest ih =>
      rw [regroupAll, List.filter_append, List.map_append, ih]
      cases node with
      | leaf head =>
          rw [regroup, List.filter_cons_of_pos rfl, filter_isStatement_comments,
            List.filter_cons_of_pos rfl]
          rfl
      | block | comment | emptyLine => rfl

/-- Arranged nodes stay arranged when they are regrouped, with comments before them. -/
private theorem arranged_regroupAll {style : Style} {parent : Option Text} {nodes : List Node}
    (arranged : Tidy.Arranged style parent nodes) (comments : List Text) :
    Tidy.Arranged style parent (comments.map .comment ++ regroupAll nodes) := by
  refine ⟨spaced_regroupAll arranged.spaced comments, ?_⟩
  intro canonical ranking asked
  have ranks : ∀ list : List Node, list.Pairwise (ranking.le · ·) ↔
      (list.map ranking.ofNode).Pairwise (· ≤ ·) := by
    intro list
    rw [List.pairwise_map]
    simp [Ranking.le]
  rw [List.filter_append, filter_isStatement_comments, List.nil_append, ranks,
    map_ofNode_regroupAll, ← ranks]
  exact arranged.sorted canonical ranking asked

/-- Grouping the comments keeps every block arranged. -/
private theorem ordered_regroup {style : Style} {node : Node} (ordered : Tidy.Ordered style node) :
    ∀ part ∈ regroup node, Tidy.Ordered style part := by
  have comments : ∀ texts : List Text,
      ∀ part ∈ texts.map Node.comment, Tidy.Ordered style part := by
    intro texts
    rw [List.forall_mem_map]
    exact fun _ _ => .comment
  induction ordered with
  | leaf => exact List.forall_mem_cons.mpr ⟨.leaf, comments _⟩
  | block own _ ih =>
      refine List.forall_mem_singleton.mpr (.block (arranged_regroupAll own _) ?_)
      rw [regroupAll_eq_flatMap, List.forall_mem_append, List.forall_mem_flatMap]
      exact ⟨comments _, ih⟩
  | comment => exact List.forall_mem_singleton.mpr .comment
  | emptyLine => exact List.forall_mem_singleton.mpr .emptyLine

/-- Tidying a tree that has been read again from its layout gives the tree, with its
comments grouped. -/
theorem Tidy.tree_relayout {nodes : List Node} (clean : ∀ node ∈ nodes, node.MadeOf Lexeme.Clean)
    (style : Style) :
    Tidy.tree style (Relayout.tree style (Tidy.tree style nodes)) =
      regroupAll (Tidy.tree style nodes) := by
  have stable : ∀ node ∈ regroupAll (Tidy.tree style nodes),
      node.Every Header.Stable fun _ => True := by
    rw [regroupAll_eq_flatMap, List.forall_mem_flatMap]
    have each : ∀ node ∈ Tidy.tree style nodes,
        node.Every (fun head => (regroupHeader head).Stable) fun _ => True := by
      apply (Tidy.every_tree_iff style nodes).mpr
      intro node member
      exact Node.Every.imp (fun _ own => Header.MadeOf.stable own) (fun _ _ => trivial)
        (clean node member)
    exact fun node member => (every_regroup_iff node).mpr (each node member)
  obtain ⟨arranged, ordered⟩ := Tidy.ordered_tree style nodes
  have grouped : Tidy.Arranged style none (regroupAll (Tidy.tree style nodes)) :=
    arranged_regroupAll arranged []
  rw [Tidy.tree, Tidy.within, Relayout.tree, mapHeaders_reindentAll stable]
  apply Tidy.mapBlocks_eq_self grouped
  rw [regroupAll_eq_flatMap, List.forall_mem_flatMap]
  exact fun node member => ordered_regroup (ordered node member)

/-- A formatted text is laid out as the text is, for styles that agree in whether they sort. -/
theorem Style.formatTree_relayout {nodes : List Node}
    (clean : ∀ node ∈ nodes, node.MadeOf Lexeme.Clean) {first second : Style}
    (same : first.canonicalOrder = second.canonicalOrder) :
    second.formatTree (Relayout.tree first (Tidy.tree first nodes)) = second.formatTree nodes := by
  have tidied : Tidy.tree second (Relayout.tree first (Tidy.tree first nodes)) =
      regroupAll (Tidy.tree second nodes) := by
    rw [Tidy.tree_congr same.symm, Tidy.tree_relayout clean first, Tidy.tree_congr same]
  rw [formatTree, formatTree, tidied]
  exact Layout.nodes_regroupAll second 0 _

end YangFormatter
