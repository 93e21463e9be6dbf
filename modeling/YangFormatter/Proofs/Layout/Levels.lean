import Mathlib.Tactic
import YangFormatter.Layout.Obstacle
import YangFormatter.Proofs.Layout.Relayout
import YangFormatter.Proofs.Tidy.Flaws
import YangFormatter.Proofs.Tidy.Header
import YangFormatter.Proofs.Tidy.Tree

/-! # What a layout takes

How far a tree is indented and how many of its statements stand in one another are heights of
the tree (`Node.levels`, `Node.tiers`), and tidying does not change heights
(`Tidy.heightAll_tree`).
A tree whose statements have something to lay out is laid out by attempt exactly if the machine
has room for both (`Layout.tree?_eq_ok_iff`), and the text is that of its layout.
-/

namespace YangFormatter

/-! ## Heights -/

/-- How many levels below its own a statement without a block is indented to. Its value may go
to a line of its own below its keyword. -/
def Header.levels (head : Header) : Nat :=
  if head.value.isSome then 1 else 0

/-- How many levels below their own nodes are indented to. -/
def Node.levels (nodes : List Node) : Nat :=
  Node.heightAll Header.levels nodes

/-- A statement whose value is a concatenation has strings to lay out. -/
def Header.Complete (head : Header) : Prop :=
  head.value ≠ some (.concatenation [])

/-- A header that can be tidied has something to lay out then. -/
theorem Header.complete_tidied {head : Header} (sound : ∀ value ∈ head.value, value.Flawless) :
    head.tidied.Complete := by
  rw [Complete, Header.tidied_eq]
  intro nothing
  obtain ⟨value, given, tidied⟩ := Option.map_eq_some_iff.mp nothing
  cases value with
  | concatenation fragments =>
      have empty := congrArg List.length (Value.concatenation.inj tidied)
      rw [Fragment.length_dropLastComments, List.length_map] at empty
      exact (sound _ given).1 (List.length_eq_zero_iff.mp empty)
  | quoted | number | date | other => cases tidied

/-- Tidying a header does not change how far its value is indented. -/
theorem Header.levels_tidied (head : Header) : head.tidied.levels = head.levels := by
  rw [levels, levels, Header.tidied_eq, Option.isSome_map]

namespace Node

variable {own : Header → Nat}

/-- Some nodes are as high as the highest of them. -/
theorem heightAll_le_iff {forest : List Node} {bound : Nat} :
    heightAll own forest ≤ bound ↔ ∀ node ∈ forest, node.height own ≤ bound := by
  induction forest with
  | nil => simp [heightAll]
  | cons first rest ih => rw [heightAll, max_le_iff, ih, List.forall_mem_cons]

/-- Nodes one by one as high as others are as high as these. -/
theorem heightAll_map {change : Node → Node} {forest : List Node}
    (same : ∀ node ∈ forest, (change node).height own = node.height own) :
    heightAll own (forest.map change) = heightAll own forest := by
  induction forest with
  | nil => rfl
  | cons first rest ih =>
      obtain ⟨highest, others⟩ := List.forall_mem_cons.mp same
      rw [List.map_cons, heightAll, heightAll, highest, ih others]

/-- Nodes side by side are as high as the higher ones. -/
theorem heightAll_append (own : Header → Nat) (front back : List Node) :
    heightAll own (front ++ back) = max (heightAll own front) (heightAll own back) := by
  induction front with
  | nil => exact (Nat.zero_max _).symm
  | cons first rest ih => rw [List.cons_append, heightAll, heightAll, ih, max_assoc]

/-- Comments do not add to a height. -/
theorem heightAll_comments (own : Header → Nat) (texts : List Text) :
    heightAll own (texts.map .comment) = 0 := by
  rw [← Nat.le_zero, heightAll_le_iff, List.forall_mem_map]
  exact fun _ _ => Nat.le_refl 0

end Node

namespace Tidy

variable {own : Header → Nat}

/-- Tidying the header of a node does not change its height. -/
private theorem height_mapHeader (same : ∀ head : Header, own head.tidied = own head)
    (node : Node) : (mapHeader Header.tidied node).height own = node.height own := by
  induction node using Node.induction with
  | leaf head => rw [mapHeader, Node.height, Node.height, same]
  | block head children ih =>
      rw [mapHeader, Node.height, Node.height, mapHeaders_eq_map, Node.heightAll_map ih]
  | comment text => rfl
  | emptyLine text => rfl

/-- Arranging nodes does not change their height. -/
private theorem heightAll_arrange (style : Style) (parent : Option Text) (nodes : List Node) :
    Node.heightAll own (arrange style parent nodes) = Node.heightAll own nodes := by
  apply eq_of_forall_ge_iff
  intro bound
  rw [Node.heightAll_le_iff, Node.heightAll_le_iff]
  exact forall_mem_arrange_iff fun _ => Nat.zero_le bound

/-- Arranging the nodes of a block does not change its height. -/
private theorem height_mapBlock (style : Style) (node : Node) :
    (mapBlock (arrange style) node).height own = node.height own := by
  induction node using Node.induction with
  | leaf head => rfl
  | block head children ih =>
      rw [mapBlock, Node.height, Node.height, heightAll_arrange, mapEachBlock_eq_map,
        Node.heightAll_map ih]
  | comment text => rfl
  | emptyLine text => rfl

/-- A tidied tree is as high as the tree. -/
theorem heightAll_tree (same : ∀ head : Header, own head.tidied = own head) (style : Style)
    (nodes : List Node) : Node.heightAll own (tree style nodes) = Node.heightAll own nodes := by
  rw [tree, within, mapBlocks, heightAll_arrange, mapEachBlock_eq_map, mapHeaders_eq_map,
    Node.heightAll_map fun node _ => height_mapBlock style node,
    Node.heightAll_map fun node _ => height_mapHeader same node]

/-- The statements of a tidied tree have strings to lay out. -/
theorem complete_tree {nodes : List Node} (made : ∀ node ∈ nodes, node.MadeOf Lexeme.WellFormed)
    (style : Style) : ∀ node ∈ tree style nodes, node.Every Header.Complete fun _ => True := by
  apply (every_tree_iff style nodes).mpr
  intro node member
  refine Node.Every.imp (fun head own => ?_) (fun _ _ => trivial) (made node member)
  exact Header.complete_tidied fun value given => (own.value value given).flawless

end Tidy

namespace Relayout

variable {own : Header → Nat}

/-- Comments that move to lines of their own stand no deeper than what they moved from. -/
private theorem heightAll_regroup (same : ∀ head, own (regroupHeader head) = own head)
    (node : Node) : Node.heightAll own (regroup node) = node.height own := by
  induction node using Node.induction with
  | leaf head =>
      rw [regroup, Node.heightAll, Node.heightAll_comments, Node.height, Node.height, same,
        Nat.max_zero]
  | block head children ih =>
      have inner : Node.heightAll own (regroupAll children) = Node.heightAll own children := by
        induction children with
        | nil => rfl
        | cons first rest others =>
            obtain ⟨here, there⟩ := List.forall_mem_cons.mp ih
            rw [regroupAll, Node.heightAll_append, here, others there, Node.heightAll]
      rw [regroup, Node.heightAll, Node.height, Node.heightAll_append, Node.heightAll_comments,
        Nat.zero_max, inner, Node.heightAll, Nat.max_zero, Node.height]
  | comment text => rfl
  | emptyLine text => rfl

/-- Indenting strings anew does not change the height of a node. -/
private theorem height_reindent (moved : ∀ margin head, own (reindentHeader margin head) = own head)
    (style : Style) (depth : Int) (node : Node) :
    (reindent style depth node).height own = node.height own := by
  induction node using Node.induction generalizing depth with
  | leaf head => rw [reindent, Node.height, Node.height, moved]
  | block head children ih =>
      rw [reindent, reindentAll_eq_map, Node.height, Node.height,
        Node.heightAll_map fun child member => ih child member _]
  | comment text => rfl
  | emptyLine text => rfl

/-- A tree that is read again from its layout is as high as it was. -/
theorem heightAll_tree (same : ∀ head, own (regroupHeader head) = own head)
    (moved : ∀ margin head, own (reindentHeader margin head) = own head) (style : Style)
    (nodes : List Node) : Node.heightAll own (tree style nodes) = Node.heightAll own nodes := by
  rw [tree, reindentAll_eq_map, Node.heightAll_map fun node _ => height_reindent moved style 0 node]
  induction nodes with
  | nil => rfl
  | cons first rest ih =>
      rw [regroupAll, Node.heightAll_append, heightAll_regroup same, ih, Node.heightAll]

/-- Grouping comments does not change how far a value is indented. -/
theorem levels_regroupHeader (head : Header) : (regroupHeader head).levels = head.levels := by
  rw [Header.levels, Header.levels, regroupHeader, Option.isSome_map]

/-- Indenting a string anew does not change how far it is indented. -/
theorem levels_reindentHeader (margin : Text) (head : Header) :
    (reindentHeader margin head).levels = head.levels := by
  rw [Header.levels, Header.levels, reindentHeader, Header.mapValue, Option.isSome_map]

end Relayout

/-! ## Room -/

/-- A machine has room for indentations down to a level, and for the calls that lay out so many
statements that stand in one another. -/
structure Machine.Reaches (machine : Machine) (style : Style) (level statements : Nat) : Prop where
  countable : style.indentWidth * level < 2 ^ 63
  stored : machine.stores (style.indentWidth * level : Nat) = true
  called : machine.carries (2 * statements) = true

/-- A machine has room for formatting nodes in a style: for the calls that tidy the blocks that
stand in one another, and for what the layout takes. -/
structure Machine.Affords (machine : Machine) (style : Style) (nodes : List Node) : Prop where
  tidies : machine.carries (Node.nesting nodes + 1) = true
  reaches : machine.Reaches style (Node.levels nodes) (Node.tiers nodes)

namespace Machine

variable {machine : Machine} {style : Style} {level statements : Nat} {nodes : List Node}

/-- The three things that a level and statements need. -/
theorem reaches_iff : machine.Reaches style level statements ↔
    style.indentWidth * level < 2 ^ 63 ∧
      machine.stores (style.indentWidth * level : Nat) = true ∧
        machine.carries (2 * statements) = true :=
  ⟨fun reaches => ⟨reaches.countable, reaches.stored, reaches.called⟩,
    fun ⟨countable, stored, called⟩ => ⟨countable, stored, called⟩⟩

/-- There is room for formatting exactly if there is room for both of its steps. -/
theorem affords_iff : machine.Affords style nodes ↔
    machine.carries (Node.nesting nodes + 1) = true ∧
      machine.Reaches style (Node.levels nodes) (Node.tiers nodes) :=
  ⟨fun affords => ⟨affords.tidies, affords.reaches⟩, fun ⟨tidies, reaches⟩ => ⟨tidies, reaches⟩⟩

instance (machine : Machine) (style : Style) (level statements : Nat) :
    Decidable (machine.Reaches style level statements) :=
  decidable_of_iff' _ reaches_iff

instance (machine : Machine) (style : Style) (nodes : List Node) :
    Decidable (machine.Affords style nodes) :=
  decidable_of_iff' _ affords_iff

/-- There is always room for nothing. -/
theorem reaches_zero (machine : Machine) (style : Style) : machine.Reaches style 0 0 where
  countable := by rw [Nat.mul_zero]; decide
  stored := by
    rw [Nat.mul_zero, stores_iff]
    exact fun bound _ => Int.natCast_nonneg bound
  called := carries_iff.mpr fun bound _ => Nat.zero_le bound

/-- Where there is room, there is room for less. -/
theorem Reaches.of_le {further more : Nat} (reaches : machine.Reaches style further more)
    (above : level ≤ further) (fewer : statements ≤ more) :
    machine.Reaches style level statements := by
  have narrower := Nat.mul_le_mul_left style.indentWidth above
  exact
    { countable := lt_of_le_of_lt narrower reaches.countable
      stored := stores_of_le reaches.stored (Int.ofNat_le.mpr narrower)
      called := carries_of_le reaches.called (Nat.mul_le_mul_left 2 fewer) }

/-- There is room for the further of two levels and for the more of two numbers of statements
exactly if there is room for both. -/
theorem reaches_max_iff {other others : Nat} :
    machine.Reaches style (max level other) (max statements others) ↔
      machine.Reaches style level statements ∧ machine.Reaches style other others := by
  refine ⟨fun both => ⟨both.of_le (le_max_left _ _) (le_max_left _ _),
    both.of_le (le_max_right _ _) (le_max_right _ _)⟩, fun ⟨first, second⟩ => ⟨?_, ?_, ?_⟩⟩
  · rcases max_choice level other with same | same <;> rw [same]
    exacts [first.countable, second.countable]
  · rcases max_choice level other with same | same <;> rw [same]
    exacts [first.stored, second.stored]
  · rcases max_choice statements others with same | same <;> rw [same]
    exacts [first.called, second.called]

/-- The layout of a tidied tree takes as much room as that of the tree would. -/
theorem reaches_tree_iff {other : Style} :
    machine.Reaches style (Node.levels (Tidy.tree other nodes))
        (Node.tiers (Tidy.tree other nodes)) ↔
      machine.Reaches style (Node.levels nodes) (Node.tiers nodes) := by
  rw [Node.levels, Node.levels, Node.tiers, Node.tiers,
    Tidy.heightAll_tree Header.levels_tidied, Tidy.heightAll_tree fun _ => rfl]

/-- A tidied tree takes as much room as the tree. -/
theorem affords_tree_iff {other : Style} :
    machine.Affords style (Tidy.tree other nodes) ↔ machine.Affords style nodes := by
  rw [affords_iff, affords_iff, reaches_tree_iff, Node.nesting, Node.nesting,
    Tidy.heightAll_tree fun _ => rfl]

/-- A tree that is read again from its layout takes as much room as the tree. -/
theorem affords_relayout_iff {other : Style} :
    machine.Affords style (Relayout.tree other nodes) ↔ machine.Affords style nodes := by
  rw [affords_iff, affords_iff, Node.levels, Node.levels, Node.tiers, Node.tiers, Node.nesting,
    Node.nesting, Relayout.heightAll_tree Relayout.levels_regroupHeader
      Relayout.levels_reindentHeader,
    Relayout.heightAll_tree (fun _ => rfl) fun _ _ => rfl,
    Relayout.heightAll_tree (fun _ => rfl) fun _ _ => rfl]

end Machine

namespace Layout

variable {machine : Machine} {style : Style} {level : Nat}

private theorem bind_eq_ok_iff {α β : Type} {first : Except Obstacle α}
    {next : α → Except Obstacle β} {result : β} :
    (first >>= next) = .ok result ↔ ∃ value, first = .ok value ∧ next value = .ok result := by
  cases first <;> simp [bind, Except.bind]

/-- A call is made exactly if the machine carries it. -/
theorem call_eq_ok_iff {calls : Nat} {done : Unit} :
    machine.call calls = .ok done ↔ machine.carries calls = true := by
  rw [Machine.call]
  split <;> simp_all

/-- An indentation is made exactly if its columns can be counted and there is memory for them. -/
theorem indent?_eq_ok_iff {text : Text} :
    style.indent? machine level = .ok text ↔
      (style.indentWidth * level < 2 ^ 63 ∧
        machine.stores (style.indentWidth * level : Nat) = true) ∧ style.indent level = text := by
  have counted : (Nat.pow 2 63 : Nat) = 2 ^ 63 := rfl
  have positive : ¬ ((style.indentWidth * level : Nat) : Int) < -(2 ^ 63 : Nat) := by omega
  simp only [Style.indent?, counted, ← Nat.cast_mul, positive, false_or, Nat.cast_le]
  split_ifs with wide stored
  · exact iff_of_false nofun fun room => not_lt.mpr wide room.1.1
  · exact ⟨fun same => ⟨⟨not_le.mp wide, stored⟩, Except.ok.inj same⟩,
      fun room => congrArg Except.ok room.2⟩
  · exact iff_of_false nofun fun room => stored room.1.2

/-- A statement has the indentation below it made for its value. -/
theorem header?_eq_ok_iff {blocks : Nat} {head : Header} (complete : head.Complete)
    (room : machine.Reaches style level blocks) {text : Text} :
    header? machine style blocks level head = .ok text ↔
      machine.Reaches style (level + head.levels) (blocks + 1) ∧
        header style level head = text := by
  have own : style.indent? machine level = .ok (style.indent level) :=
    indent?_eq_ok_iff.mpr ⟨⟨room.countable, room.stored⟩, rfl⟩
  obtain ⟨keyword, keywordComments, given, valueComments, postComments⟩ := head
  rw [header?, bind_eq_ok_iff, header, opening]
  simp only [call_eq_ok_iff, own, bind_eq_ok_iff, Except.ok.injEq, exists_eq_left']
  cases given with
  | none =>
      rw [List.append_nil]
      constructor
      · rintro ⟨_, called, same⟩
        exact ⟨⟨room.countable, room.stored, called⟩, Except.ok.inj same⟩
      · rintro ⟨reaches, same⟩
        exact ⟨(), reaches.called, congrArg Except.ok same⟩
  | some value =>
      have strings : value ≠ .concatenation [] := fun empty => complete (congrArg some empty)
      simp only [if_neg strings, bind_eq_ok_iff]
      change _ ↔ machine.Reaches style (level + 1) (blocks + 1) ∧ _
      constructor
      · rintro ⟨_, called, _, made, same⟩
        rw [← Nat.cast_succ] at made
        obtain ⟨⟨countable, stored⟩, _⟩ := indent?_eq_ok_iff.mp made
        exact ⟨⟨countable, stored, called⟩, Except.ok.inj same⟩
      · rintro ⟨reaches, same⟩
        have made : style.indent? machine (level + 1 : Nat) = .ok _ :=
          indent?_eq_ok_iff.mpr ⟨⟨reaches.countable, reaches.stored⟩, rfl⟩
        exact ⟨(), reaches.called, _, made, congrArg Except.ok same⟩

/-- Nodes side by side are laid out exactly if there is room for each of them. -/
theorem nodes?_eq_ok_iff_of_each {forest : List Node} (room : machine.Reaches style level level)
    (each : ∀ given ∈ forest, ∀ {text : Text},
      node? machine style level level given = .ok text ↔
        machine.Reaches style (level + given.height Header.levels)
          (level + given.height fun _ => 1) ∧ node style level given = text) {text : Text} :
    nodes? machine style level level forest = .ok text ↔
      machine.Reaches style (level + Node.levels forest) (level + Node.tiers forest) ∧
        nodes style level forest = text := by
  induction forest generalizing text with
  | nil => exact ⟨fun same => ⟨room, Except.ok.inj same⟩, fun both => congrArg Except.ok both.2⟩
  | cons first rest ih =>
      obtain ⟨own, others⟩ := List.forall_mem_cons.mp each
      rw [nodes?, nodes, Node.levels, Node.tiers, Node.heightAll, Node.heightAll,
        ← Nat.add_max_add_left, ← Nat.add_max_add_left, Machine.reaches_max_iff]
      simp only [bind_eq_ok_iff, own, ih others, pure, Except.pure, Except.ok.injEq]
      constructor
      · rintro ⟨_, ⟨here, rfl⟩, _, ⟨there, rfl⟩, same⟩
        exact ⟨⟨here, there⟩, same⟩
      · rintro ⟨⟨here, there⟩, same⟩
        exact ⟨_, ⟨here, rfl⟩, _, ⟨there, rfl⟩, same⟩

/-- A node is laid out exactly if there is room for its lowest level and for the statements
that stand in one another. -/
theorem node?_eq_ok_iff {given : Node} (complete : given.Every Header.Complete fun _ => True)
    (room : machine.Reaches style level level) {text : Text} :
    node? machine style level level given = .ok text ↔
      machine.Reaches style (level + given.height Header.levels)
        (level + given.height fun _ => 1) ∧ node style level given = text := by
  induction complete generalizing level text with
  | @leaf head own =>
      rw [node?, node, Node.height, Node.height, bind_eq_ok_iff]
      simp only [header?_eq_ok_iff own room, pure, Except.pure, Except.ok.injEq]
      constructor
      · rintro ⟨_, ⟨reaches, rfl⟩, same⟩
        exact ⟨reaches, same⟩
      · rintro ⟨reaches, same⟩
        exact ⟨_, ⟨reaches, rfl⟩, same⟩
  | @block head children own _ ih =>
      rw [node?, node, Node.height, Node.height, ← Nat.cast_succ]
      simp only [bind_eq_ok_iff, header?_eq_ok_iff own room, indent?_eq_ok_iff,
        pure, Except.pure, Except.ok.injEq]
      have inner : machine.Reaches style (level + 1) (level + 1) → ∀ {text : Text},
          nodes? machine style (level + 1) (level + 1 : Nat) children = .ok text ↔
            machine.Reaches style (level + (Node.levels children + 1))
              (level + (Node.tiers children + 1)) ∧
            nodes style (level + 1 : Nat) children = text := by
        intro deeper text
        rw [← Nat.add_assoc, ← Nat.add_assoc, Nat.add_right_comm level (Node.levels children),
          Nat.add_right_comm level (Node.tiers children)]
        exact nodes?_eq_ok_iff_of_each deeper fun child member _ => ih child member deeper
      constructor
      · rintro ⟨_, ⟨value, rfl⟩, _, ⟨⟨countable, stored⟩, _⟩, _, made, same⟩
        obtain ⟨reaches, rfl⟩ := (inner ⟨countable, stored, value.called⟩).mp made
        exact ⟨reaches, same⟩
      · rintro ⟨reaches, same⟩
        have deeper : machine.Reaches style (level + 1) (level + 1) :=
          reaches.of_le (by omega) (by omega)
        have value : machine.Reaches style (level + head.levels) (level + 1) := by
          refine deeper.of_le ?_ (Nat.le_refl _)
          rw [Header.levels]
          split <;> omega
        exact ⟨_, ⟨value, rfl⟩, _, ⟨⟨deeper.countable, deeper.stored⟩, rfl⟩, _,
          (inner deeper).mpr ⟨reaches, rfl⟩, same⟩
  | comment =>
      rw [node?, node, bind_eq_ok_iff]
      simp only [indent?_eq_ok_iff, pure, Except.pure, Except.ok.injEq]
      constructor
      · rintro ⟨_, ⟨_, rfl⟩, same⟩
        exact ⟨room, same⟩
      · rintro ⟨_, same⟩
        exact ⟨_, ⟨⟨room.countable, room.stored⟩, rfl⟩, same⟩
  | emptyLine =>
      exact ⟨fun same => ⟨room, Except.ok.inj same⟩, fun both => congrArg Except.ok both.2⟩

/-- A tree is laid out exactly if the machine has room for its layout. -/
theorem tree?_eq_ok_iff {forest : List Node}
    (complete : ∀ node ∈ forest, node.Every Header.Complete fun _ => True) {text : Text} :
    tree? machine style forest = .ok text ↔
      machine.Reaches style (Node.levels forest) (Node.tiers forest) ∧
        tree style forest = text := by
  have room := machine.reaches_zero style
  have all : nodes? machine style 0 (0 : Nat) forest = .ok text ↔
      machine.Reaches style (0 + Node.levels forest) (0 + Node.tiers forest) ∧
        nodes style (0 : Nat) forest = text :=
    nodes?_eq_ok_iff_of_each room fun given member _ =>
      node?_eq_ok_iff (complete given member) room
  rwa [Nat.zero_add, Nat.zero_add] at all

/-- A tidied tree is laid out exactly if the machine has room for a layout of the tree. -/
theorem tree?_tidied_eq_ok_iff {nodes : List Node}
    (made : ∀ node ∈ nodes, node.MadeOf Lexeme.WellFormed) {text : Text} :
    tree? machine style (Tidy.tree style nodes) = .ok text ↔
      machine.Reaches style (Node.levels nodes) (Node.tiers nodes) ∧
        style.formatTree nodes = text := by
  rw [tree?_eq_ok_iff (Tidy.complete_tree made style), Machine.reaches_tree_iff, Style.formatTree]

/-! ## Obstacles -/

private theorem bind_ne_noFragment {α β : Type} {first : Except Obstacle α}
    {next : α → Except Obstacle β} (own : first ≠ .error .noFragment)
    (more : ∀ value, next value ≠ .error .noFragment) :
    (first >>= next) ≠ .error .noFragment := by
  cases first with
  | error obstacle => exact fun same => own (congrArg Except.error (Except.error.inj same))
  | ok value => exact more value

theorem indent?_ne_noFragment (depth : Int) : style.indent? machine depth ≠ .error .noFragment := by
  rw [Style.indent?]
  split_ifs <;> exact nofun

theorem call_ne_noFragment (calls : Nat) : machine.call calls ≠ .error .noFragment := by
  rw [Machine.call]
  split <;> exact nofun

/-- A complete header does not want a string. -/
theorem header?_ne_noFragment {head : Header} (complete : head.Complete) (blocks : Nat)
    (depth : Int) : header? machine style blocks depth head ≠ .error .noFragment := by
  obtain ⟨keyword, keywordComments, given, valueComments, postComments⟩ := head
  refine bind_ne_noFragment (call_ne_noFragment _) fun _ => ?_
  refine bind_ne_noFragment (indent?_ne_noFragment depth) fun own => ?_
  cases given with
  | none => exact nofun
  | some value =>
      have strings : value ≠ .concatenation [] := fun empty => complete (congrArg some empty)
      refine bind_ne_noFragment (indent?_ne_noFragment _) fun below => ?_
      rw [if_neg strings]
      exact nofun

/-- Nodes side by side want no string if none of them does. -/
theorem nodes?_ne_noFragment_of_each {blocks : Nat} {depth : Int} {forest : List Node}
    (each : ∀ given ∈ forest, node? machine style blocks depth given ≠ .error .noFragment) :
    nodes? machine style blocks depth forest ≠ .error .noFragment := by
  induction forest with
  | nil => exact nofun
  | cons first rest ih =>
      obtain ⟨own, others⟩ := List.forall_mem_cons.mp each
      rw [nodes?]
      exact bind_ne_noFragment own fun _ => bind_ne_noFragment (ih others) fun _ => nofun

/-- Where the statements within a node have something to lay out, only a lack of room can be
in its way. -/
theorem node?_ne_noFragment {given : Node} (complete : given.Every Header.Complete fun _ => True)
    (blocks : Nat) (depth : Int) : node? machine style blocks depth given ≠ .error .noFragment := by
  induction complete generalizing blocks depth with
  | leaf own =>
      rw [node?]
      exact bind_ne_noFragment (header?_ne_noFragment own blocks depth) fun _ => nofun
  | block own _ ih =>
      have inner := nodes?_ne_noFragment_of_each fun child member =>
        ih child member (blocks + 1) (depth + 1)
      rw [node?]
      refine bind_ne_noFragment (header?_ne_noFragment own blocks depth) fun _ => ?_
      refine bind_ne_noFragment (indent?_ne_noFragment _) fun _ => ?_
      exact bind_ne_noFragment inner fun _ => nofun
  | comment =>
      rw [node?]
      exact bind_ne_noFragment (indent?_ne_noFragment depth) fun _ => nofun
  | emptyLine =>
      rw [node?]
      exact nofun

/-- A tree of complete headers does not want a string. -/
theorem tree?_ne_noFragment {forest : List Node}
    (complete : ∀ node ∈ forest, node.Every Header.Complete fun _ => True) :
    tree? machine style forest ≠ .error .noFragment :=
  nodes?_ne_noFragment_of_each fun given member => node?_ne_noFragment (complete given member) _ _

end Layout

end YangFormatter
