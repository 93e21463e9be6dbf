import Mathlib.Data.List.Chain
import YangFormatter.Proofs.Tree.Pieces
import YangFormatter.Tidy.Tree

/-! # Arranged nodes

Arranging nodes spaces them (`EmptyLines.Spaced`) and puts their statements in order, and
changes nothing where that is so (`Tidy.Arranged.eq_self`). Nothing but empty lines is
lost (`Tidy.filter_arrange`). Of the nodes, only their headers and which of them are empty
lines matter (`Tidy.arrange_map`).
-/

namespace YangFormatter

namespace EmptyLines

/-- Two nodes are not both empty lines. -/
def Apart (first second : Node) : Prop :=
  first.isEmptyLine = false ∨ second.isEmptyLine = false

/-- Nodes neither begin nor end with an empty line, and no two empty lines stand
together. -/
structure Spaced (nodes : List Node) : Prop where
  first : ∀ node ∈ nodes.head?, node.isEmptyLine = false
  last : ∀ node ∈ nodes.getLast?, node.isEmptyLine = false
  apart : nodes.IsChain Apart

private theorem dropWhile_eq_self {nodes : List Node}
    (first : ∀ node ∈ nodes.head?, node.isEmptyLine = false) :
    nodes.dropWhile Node.isEmptyLine = nodes := by
  cases nodes with
  | nil => rfl
  | cons node rest => simp [first node rfl]

private theorem head?_dropWhile (nodes : List Node) :
    ∀ node ∈ (nodes.dropWhile Node.isEmptyLine).head?, node.isEmptyLine = false := by
  intro node member
  have stopped := List.head?_dropWhile_not Node.isEmptyLine nodes
  rw [Option.mem_def.mp member] at stopped
  exact stopped

/-- Spaced nodes have no empty line to trim. -/
theorem Spaced.trim_eq {nodes : List Node} (spaced : Spaced nodes) : trim nodes = nodes := by
  have reversed : nodes.reverse.dropWhile Node.isEmptyLine = nodes.reverse := by
    apply dropWhile_eq_self
    rw [List.head?_reverse]
    exact spaced.last
  rw [trim, dropWhile_eq_self spaced.first, reversed, List.reverse_reverse]

/-- Where no two empty lines stand together there is none to squash. -/
private theorem squashAfter_eq_self {nodes : List Node} (apart : nodes.IsChain Apart)
    {afterEmpty : Bool}
    (first : afterEmpty = true → ∀ node ∈ nodes.head?, node.isEmptyLine = false) :
    squashAfter afterEmpty nodes = nodes := by
  induction nodes generalizing afterEmpty with
  | nil => rfl
  | cons node rest ih =>
      obtain ⟨next, others⟩ := List.isChain_cons.mp apart
      have kept : ¬ (node.isEmptyLine && afterEmpty) = true := by
        intro both
        obtain ⟨empty, after⟩ := Bool.and_eq_true_iff.mp both
        rw [first after node rfl] at empty
        cases empty
      rw [squashAfter, if_neg kept, ih others]
      intro empty second member
      exact (next second member).resolve_left (by simp [empty])

/-- Spaced nodes have no empty line to squash. -/
theorem Spaced.squash_eq {nodes : List Node} (spaced : Spaced nodes) : squash nodes = nodes :=
  squashAfter_eq_self spaced.apart fun empty => by cases empty

/-- Behind an empty line no other one comes first. -/
private theorem head?_squashAfter {nodes : List Node} :
    ∀ node ∈ (squashAfter true nodes).head?, node.isEmptyLine = false := by
  induction nodes with
  | nil => exact fun _ member => by cases member
  | cons node rest ih =>
      rw [squashAfter]
      cases empty : node.isEmptyLine with
      | true => exact ih
      | false =>
          rintro _ ⟨⟩
          exact empty

/-- Squashing leaves no two empty lines together. -/
private theorem isChain_squashAfter (afterEmpty : Bool) (nodes : List Node) :
    (squashAfter afterEmpty nodes).IsChain Apart := by
  induction nodes generalizing afterEmpty with
  | nil => exact .nil
  | cons node rest ih =>
      rw [squashAfter]
      split
      · exact ih true
      · refine List.isChain_cons.mpr ⟨?_, ih _⟩
        intro second member
        cases empty : node.isEmptyLine with
        | false => exact .inl empty
        | true =>
            rw [empty] at member
            exact .inr (head?_squashAfter second member)

/-- A node at the end that is no empty line stays at the end. -/
private theorem squashAfter_concat (afterEmpty : Bool) (before : List Node) {last : Node}
    (visible : last.isEmptyLine = false) :
    squashAfter afterEmpty (before ++ [last]) = squashAfter afterEmpty before ++ [last] := by
  induction before generalizing afterEmpty with
  | nil => simp [squashAfter, visible]
  | cons node rest ih =>
      rw [List.cons_append, squashAfter, squashAfter]
      split
      · exact ih true
      · rw [ih, List.cons_append]

/-- No empty line comes first in trimmed nodes. -/
private theorem head?_trim (nodes : List Node) :
    ∀ node ∈ (trim nodes).head?, node.isEmptyLine = false := by
  intro node member
  obtain ⟨tail, whole⟩ := List.reverse_prefix.mpr
    (List.dropWhile_suffix Node.isEmptyLine (l := (nodes.dropWhile Node.isEmptyLine).reverse))
  apply head?_dropWhile nodes node
  rw [List.reverse_reverse, ← trim] at whole
  rw [← whole, List.head?_append, Option.mem_def.mp member]
  rfl

/-- No empty line comes last in trimmed nodes. -/
private theorem getLast?_trim (nodes : List Node) :
    ∀ node ∈ (trim nodes).getLast?, node.isEmptyLine = false := by
  rw [trim, List.getLast?_reverse]
  exact head?_dropWhile _

/-- Superfluous empty lines are removed. -/
theorem spaced_squash_trim (nodes : List Node) : Spaced (squash (trim nodes)) := by
  have first := head?_trim nodes
  have last := getLast?_trim nodes
  generalize trim nodes = trimmed at first last
  refine ⟨?_, ?_, isChain_squashAfter false trimmed⟩
  · cases trimmed with
    | nil => exact first
    | cons node rest =>
        have visible := first node rfl
        rw [squash, squashAfter, visible]
        rintro _ ⟨⟩
        exact visible
  · cases ends : trimmed.getLast? with
    | none =>
        rw [List.getLast?_eq_none_iff.mp ends]
        exact fun _ member => by cases member
    | some final =>
        obtain ⟨before, rfl⟩ := List.getLast?_eq_some_iff.mp ends
        rw [squash, squashAfter_concat false before (last final ends), List.getLast?_concat]
        rintro _ ⟨⟩
        exact last final ends

/-- Only where the empty lines are matters. -/
theorem Spaced.of_map_eq {nodes others : List Node} (spaced : Spaced nodes)
    (same : others.map Node.isEmptyLine = nodes.map Node.isEmptyLine) : Spaced others := by
  refine ⟨?_, ?_, ?_⟩
  · intro node member
    have moved := congrArg List.head? same
    rw [List.head?_map, List.head?_map, Option.mem_def.mp member] at moved
    obtain ⟨old, own, flag⟩ := Option.map_eq_some_iff.mp moved.symm
    rw [← flag]
    exact spaced.first old own
  · intro node member
    have moved := congrArg List.getLast? same
    rw [List.getLast?_map, List.getLast?_map, Option.mem_def.mp member] at moved
    obtain ⟨old, own, flag⟩ := Option.map_eq_some_iff.mp moved.symm
    rw [← flag]
    exact spaced.last old own
  · have flags : (nodes.map Node.isEmptyLine).IsChain
        fun first second => first = false ∨ second = false :=
      (List.isChain_map Node.isEmptyLine).mpr spaced.apart
    rw [← same, List.isChain_map] at flags
    exact flags

/-- Dropping empty lines at the start keeps everything else. -/
private theorem filter_dropWhile (nodes : List Node) :
    (nodes.dropWhile Node.isEmptyLine).filter (!·.isEmptyLine) = nodes.filter (!·.isEmptyLine) := by
  induction nodes with
  | nil => rfl
  | cons node rest ih =>
      rw [List.dropWhile_cons]
      split
      next empty => rw [ih, List.filter_cons_of_neg (by simp [empty])]
      next => rfl

/-- Squashing empty lines keeps everything else. -/
theorem filter_squashAfter (afterEmpty : Bool) (nodes : List Node) :
    (squashAfter afterEmpty nodes).filter (!·.isEmptyLine) = nodes.filter (!·.isEmptyLine) := by
  induction nodes generalizing afterEmpty with
  | nil => rfl
  | cons node rest ih =>
      rw [squashAfter]
      split
      next both =>
        have empty := (Bool.and_eq_true_iff.mp both).1
        rw [ih, List.filter_cons_of_neg (by simp [empty])]
      next => rw [List.filter_cons, List.filter_cons, ih]

/-- Nothing but empty lines is removed, and what is left keeps its order. -/
theorem filter_squash_trim (nodes : List Node) :
    (squash (trim nodes)).filter (!·.isEmptyLine) = nodes.filter (!·.isEmptyLine) := by
  rw [squash, filter_squashAfter, trim, List.filter_reverse, filter_dropWhile, List.filter_reverse,
    List.reverse_reverse, filter_dropWhile]

section Map

variable {change : Node → Node}

/-- Empty lines may be trimmed before or after a change that keeps them. -/
theorem trim_map (keeps : ∀ node, (change node).isEmptyLine = node.isEmptyLine)
    (nodes : List Node) : trim (nodes.map change) = (trim nodes).map change := by
  have same : Node.isEmptyLine ∘ change = Node.isEmptyLine := funext keeps
  rw [trim, List.dropWhile_map, same, ← List.map_reverse, List.dropWhile_map, same,
    ← List.map_reverse, trim]

/-- Squashing sees only which nodes are empty lines. -/
private theorem squashAfter_map (keeps : ∀ node, (change node).isEmptyLine = node.isEmptyLine)
    (afterEmpty : Bool) (nodes : List Node) :
    squashAfter afterEmpty (nodes.map change) = (squashAfter afterEmpty nodes).map change := by
  induction nodes generalizing afterEmpty with
  | nil => rfl
  | cons node rest ih =>
      rw [List.map_cons, squashAfter, squashAfter, keeps]
      split
      · exact ih true
      · rw [ih, List.map_cons]

/-- Empty lines may be squashed before or after a change that keeps them. -/
theorem squash_map (keeps : ∀ node, (change node).isEmptyLine = node.isEmptyLine)
    (nodes : List Node) : squash (nodes.map change) = (squash nodes).map change :=
  squashAfter_map keeps false nodes

end Map

end EmptyLines

theorem Node.isStatement_eq (node : Node) : node.isStatement = node.header?.isSome := by
  cases node <;> rfl

namespace Ranking

variable {ranking : Ranking}

/-- Putting the statements back where they were changes nothing. -/
theorem refill_eq_self {nodes statements : List Node}
    (own : statements = nodes.filter Node.isStatement) : refill nodes statements = nodes := by
  fun_induction refill nodes statements with
  | case1 => rfl
  | case2 node rest statement first others ih =>
      rw [List.filter_cons_of_pos statement] at own
      cases own
      rw [ih rfl]
  | case3 node rest statement ih =>
      rw [List.filter_cons_of_pos statement] at own
      cases own
  | case4 node rest statements other ih =>
      rw [List.filter_cons_of_neg other] at own
      rw [ih own]

private theorem isEmptyLine_of_isStatement {node : Node} (statement : node.isStatement = true) :
    node.isEmptyLine = false := by
  cases node with
  | leaf | block | comment => rfl
  | emptyLine => cases statement

/-- Statements take the places of statements, so that empty lines stay where they are. -/
theorem map_isEmptyLine_refill (nodes : List Node) {statements : List Node}
    (each : ∀ node ∈ statements, node.isStatement = true) :
    (refill nodes statements).map Node.isEmptyLine = nodes.map Node.isEmptyLine := by
  fun_induction refill nodes statements with
  | case1 => rfl
  | case2 node rest own first others ih =>
      rw [List.map_cons, List.map_cons,
        ih fun other member => each other (List.mem_cons_of_mem _ member),
        isEmptyLine_of_isStatement own, isEmptyLine_of_isStatement (each first List.mem_cons_self)]
  | case3 node rest own ih => rw [List.map_cons, List.map_cons, ih each]
  | case4 node rest statements other ih => rw [List.map_cons, List.map_cons, ih each]

/-- Statements that take the places of as many others are the statements then. -/
theorem filter_refill {nodes statements : List Node}
    (each : ∀ node ∈ statements, node.isStatement = true)
    (many : statements.length = (nodes.filter Node.isStatement).length) :
    (refill nodes statements).filter Node.isStatement = statements := by
  fun_induction refill nodes statements with
  | case1 => exact (List.eq_nil_of_length_eq_zero many).symm
  | case2 node rest own first others ih =>
      rw [List.filter_cons_of_pos own] at many
      rw [List.filter_cons_of_pos (each first List.mem_cons_self),
        ih (fun other member => each other (List.mem_cons_of_mem _ member))
          (Nat.succ_injective many)]
  | case3 node rest own ih =>
      rw [List.filter_cons_of_pos own] at many
      cases many
  | case4 node rest statements other ih =>
      rw [List.filter_cons_of_neg other] at many
      rw [List.filter_cons_of_neg other, ih each many]

/-- What is no statement stays where it is. -/
theorem filter_not_refill {nodes statements : List Node}
    (each : ∀ node ∈ statements, node.isStatement = true) :
    (refill nodes statements).filter (!·.isStatement) = nodes.filter (!·.isStatement) := by
  fun_induction refill nodes statements with
  | case1 => rfl
  | case2 node rest own first others ih =>
      have taken := each first List.mem_cons_self
      rw [List.filter_cons_of_neg (by simp [taken]), List.filter_cons_of_neg (by simp [own]),
        ih fun other member => each other (List.mem_cons_of_mem _ member)]
  | case3 node rest own ih =>
      rw [List.filter_cons_of_neg (by simp [own]), List.filter_cons_of_neg (by simp [own]), ih each]
  | case4 node rest statements other ih =>
      rw [List.filter_cons_of_pos (by simp [other]), List.filter_cons_of_pos (by simp [other]),
        ih each]

/-- Sorting leaves statements alone that are in order. -/
theorem sort_eq_self {nodes : List Node}
    (sorted : (nodes.filter Node.isStatement).Pairwise (ranking.le · ·)) :
    ranking.sort nodes = nodes := by
  rw [sort, List.mergeSort_of_pairwise sorted, refill_eq_self rfl]

/-- Among sorted statements there are only statements. -/
theorem isStatement_of_mem_mergeSort {nodes : List Node} :
    ∀ node ∈ (nodes.filter Node.isStatement).mergeSort ranking.le, node.isStatement = true := by
  intro node member
  rw [List.mem_mergeSort] at member
  exact (List.mem_filter.mp member).2

/-- The statements of sorted nodes are sorted. -/
theorem filter_sort (nodes : List Node) :
    (ranking.sort nodes).filter Node.isStatement =
      (nodes.filter Node.isStatement).mergeSort ranking.le :=
  filter_refill isStatement_of_mem_mergeSort (List.length_mergeSort _)

theorem le_trans (first second third : Node) (before : ranking.le first second = true)
    (after : ranking.le second third = true) : ranking.le first third = true := by
  simp only [le, decide_eq_true_eq] at before after ⊢
  omega

theorem le_total (first second : Node) :
    (ranking.le first second || ranking.le second first) = true := by
  simp only [le, Bool.or_eq_true, decide_eq_true_eq]
  omega

/-- Sorted statements are in order. -/
theorem pairwise_sort (nodes : List Node) :
    ((ranking.sort nodes).filter Node.isStatement).Pairwise (ranking.le · ·) := by
  rw [filter_sort]
  exact List.pairwise_mergeSort le_trans le_total _

/-- Sorting leaves empty lines where they are. -/
theorem map_isEmptyLine_sort (ranking : Ranking) (nodes : List Node) :
    (ranking.sort nodes).map Node.isEmptyLine = nodes.map Node.isEmptyLine :=
  map_isEmptyLine_refill nodes isStatement_of_mem_mergeSort

/-- Sorting adds no node and loses none. -/
theorem sort_perm (nodes : List Node) : (ranking.sort nodes).Perm nodes := by
  have parts : ∀ list : List Node,
      (list.filter Node.isStatement ++ list.filter (!·.isStatement)).Perm list :=
    fun list => List.filter_append_perm _ list
  refine (parts _).symm.trans (List.Perm.trans ?_ (parts nodes))
  rw [filter_sort, sort, filter_not_refill isStatement_of_mem_mergeSort]
  exact (List.mergeSort_perm _ _).append_right _

/-- Statements may be put back before or after a change that keeps what is one. -/
theorem refill_map {change : Node → Node}
    (keeps : ∀ node, (change node).isStatement = node.isStatement) (nodes statements : List Node) :
    refill (nodes.map change) (statements.map change) = (refill nodes statements).map change := by
  fun_induction refill nodes statements with
  | case1 => rfl
  | case2 node rest own first others ih =>
      rw [List.map_cons, List.map_cons, refill, keeps, if_pos own, ih, List.map_cons]
  | case3 node rest own ih =>
      rw [List.map_cons, List.map_nil, refill, keeps, if_pos own, List.map_cons]
      exact congrArg _ ih
  | case4 node rest statements other ih =>
      rw [← keeps] at other
      rw [List.map_cons, refill.eq_def]
      exact (if_neg other).trans (congrArg _ ih)

/-- Nodes may be sorted before or after a change that keeps their headers. -/
theorem sort_map {change : Node → Node} (keeps : ∀ node, (change node).header? = node.header?)
    (nodes : List Node) : ranking.sort (nodes.map change) = (ranking.sort nodes).map change := by
  have statements : ∀ node, (change node).isStatement = node.isStatement := by
    intro node
    rw [Node.isStatement_eq, keeps, ← Node.isStatement_eq]
  have same : Node.isStatement ∘ change = Node.isStatement := funext statements
  have ranks : ∀ node, ranking.ofNode (change node) = ranking.ofNode node := by
    intro node
    rw [ofNode, keeps, ofNode]
  have ordered : ∀ first second,
      ranking.le first second = ranking.le (change first) (change second) := by
    intro first second
    rw [le, le, ranks, ranks]
  have sorted := List.map_mergeSort (l := nodes.filter Node.isStatement)
    fun first _ second _ => ordered first second
  rw [sort, List.filter_map, same, ← sorted, refill_map statements, sort]

end Ranking

namespace Tidy

variable {style : Style} {parent : Option Text}

/-- Nodes that are spaced, and in order if the style and the block ask for it. -/
structure Arranged (style : Style) (parent : Option Text) (nodes : List Node) : Prop where
  spaced : EmptyLines.Spaced nodes
  sorted : style.canonicalOrder = true → ∀ ranking ∈ parent.bind Ranking.ofParent?,
    (nodes.filter Node.isStatement).Pairwise (ranking.le · ·)

/-- Arranged nodes are left as they are. -/
theorem Arranged.eq_self {nodes : List Node} (arranged : Arranged style parent nodes) :
    arrange style parent nodes = nodes := by
  obtain ⟨spaced, sorted⟩ := arranged
  rw [arrange, spaced.trim_eq, spaced.squash_eq]
  split
  next canonical =>
    rw [Ranking.sortWithin]
    split
    next ranking asked => exact Ranking.sort_eq_self (sorted canonical ranking asked)
    next => rfl
  next => rfl

/-- Arranging once is enough. -/
theorem arranged_arrange (style : Style) (parent : Option Text) (nodes : List Node) :
    Arranged style parent (arrange style parent nodes) := by
  have spaced := EmptyLines.spaced_squash_trim nodes
  rw [arrange]
  generalize EmptyLines.squash (EmptyLines.trim nodes) = kept at spaced
  split
  next canonical =>
    rw [Ranking.sortWithin]
    split
    next ranking asked =>
      refine ⟨spaced.of_map_eq (Ranking.map_isEmptyLine_sort ranking kept), ?_⟩
      intro _ other same
      rw [asked] at same
      cases same
      exact Ranking.pairwise_sort kept
    next none =>
      refine ⟨spaced, fun _ ranking asked => ?_⟩
      rw [none] at asked
      cases asked
  next free => exact ⟨spaced, fun canonical => (free canonical).elim⟩

/-- Arranging keeps all but empty lines, and keeps them in order except in the blocks
that the style sorts. -/
theorem filter_arrange (style : Style) (parent : Option Text) (nodes : List Node) :
    (arrange style parent nodes).filter (!·.isEmptyLine) = nodes.filter (!·.isEmptyLine) ∨
      style.canonicalOrder = true ∧ (parent.bind Ranking.ofParent?).isSome = true ∧
        ((arrange style parent nodes).filter (!·.isEmptyLine)).Perm
          (nodes.filter (!·.isEmptyLine)) := by
  have kept := EmptyLines.filter_squash_trim nodes
  rw [arrange]
  split
  next canonical =>
    rw [Ranking.sortWithin]
    split
    next ranking asked =>
      refine .inr ⟨canonical, by rw [asked]; rfl, ?_⟩
      rw [← kept]
      exact (Ranking.sort_perm _).filter _
    next => exact .inl kept
  next => exact .inl kept

/-- Arranging adds and loses nothing but empty lines. -/
theorem mem_arrange_iff {nodes : List Node} {node : Node} (visible : node.isEmptyLine = false) :
    node ∈ arrange style parent nodes ↔ node ∈ nodes := by
  have same : node ∈ (arrange style parent nodes).filter (!·.isEmptyLine) ↔
      node ∈ nodes.filter (!·.isEmptyLine) := by
    rcases filter_arrange style parent nodes with same | ⟨_, _, permuted⟩
    · rw [same]
    · exact permuted.mem_iff
  simpa [visible] using same

/-- Empty lines come and go, but what holds of them and of all other nodes keeps holding. -/
theorem forall_mem_arrange_iff {property : Node → Prop}
    (blank : ∀ text, property (.emptyLine text)) {nodes : List Node} :
    (∀ node ∈ arrange style parent nodes, property node) ↔ ∀ node ∈ nodes, property node := by
  have visible : ∀ node : Node, (node.isEmptyLine = false → property node) → property node := by
    intro node own
    cases node with
    | emptyLine text => exact blank text
    | leaf | block | comment => exact own rfl
  constructor
  · intro each node member
    exact visible node fun shown => each node ((mem_arrange_iff shown).mpr member)
  · intro each node member
    exact visible node fun shown => each node ((mem_arrange_iff shown).mp member)

/-- A change to nodes that shows neither in their headers nor in where empty lines are. -/
structure Unseen (change : Node → Node) : Prop where
  isEmptyLine : ∀ node, (change node).isEmptyLine = node.isEmptyLine
  header? : ∀ node, (change node).header? = node.header?

/-- Arranging looks at nothing else. -/
theorem arrange_map {change : Node → Node} (unseen : Unseen change) (nodes : List Node) :
    arrange style parent (nodes.map change) = (arrange style parent nodes).map change := by
  rw [arrange, EmptyLines.trim_map unseen.isEmptyLine, EmptyLines.squash_map unseen.isEmptyLine,
    arrange]
  split
  next =>
    rw [Ranking.sortWithin, Ranking.sortWithin]
    split
    next => exact Ranking.sort_map unseen.header? _
    next => rfl
  next => rfl

end Tidy

end YangFormatter
