import YangFormatter.Proofs.Tidy.Correspondence

/-! # Empty lines in a tidied tree

In a tidied tree the nodes of each block are spaced, at every depth. Where the style does
not sort, two neighbours are parted by an empty line exactly if they were parted by one or
more before (`EmptyLines.separates_squash_trim`), so that spacing a tree loses nothing but
the number of empty lines and those at both ends (`Tidy.within_spaced`).
-/

namespace YangFormatter

open Node (visible)

namespace EmptyLines

/-- An empty line stands behind `before` of the other nodes and in front of `behind` of
them. -/
def Separates (nodes : List Node) (before behind : Nat) : Prop :=
  ∃ front line back, nodes = front ++ line :: back ∧ line.isEmptyLine = true ∧
    (visible front).length = before ∧ (visible back).length = behind

variable {nodes rest : List Node} {node : Node} {before behind : Nat}

private theorem visible_cons_of_isEmptyLine (empty : node.isEmptyLine = true) (rest : List Node) :
    visible (node :: rest) = visible rest :=
  List.filter_cons_of_neg (by simp [empty])

private theorem visible_cons (shown : node.isEmptyLine = false) (rest : List Node) :
    visible (node :: rest) = node :: visible rest :=
  List.filter_cons_of_pos (by simp [shown])

/-- The nodes before and behind an empty line are all that are no empty lines. -/
theorem Separates.length_visible (separates : Separates nodes before behind) :
    (visible nodes).length = before + behind := by
  obtain ⟨front, line, back, rfl, empty, rfl, rfl⟩ := separates
  rw [visible, List.filter_append, List.length_append]
  exact congrArg _ (congrArg _ (visible_cons_of_isEmptyLine empty back))

theorem not_separates_nil : ¬ Separates [] before behind := by
  intro separates
  obtain ⟨front, line, back, whole, _⟩ := separates
  exact List.append_ne_nil_of_right_ne_nil front (List.cons_ne_nil line back) whole.symm

/-- An empty line at the front separates nothing from all, or another one separates. -/
theorem separates_cons_of_isEmptyLine (empty : node.isEmptyLine = true) :
    Separates (node :: rest) before behind ↔
      before = 0 ∧ (visible rest).length = behind ∨ Separates rest before behind := by
  constructor
  · intro separates
    obtain ⟨front, line, back, whole, blank, rfl, rfl⟩ := separates
    cases front with
    | nil =>
        cases whole
        exact .inl ⟨rfl, rfl⟩
    | cons first others =>
        cases whole
        rw [visible_cons_of_isEmptyLine empty]
        exact .inr ⟨others, line, back, rfl, blank, rfl, rfl⟩
  · intro either
    rcases either with ⟨rfl, many⟩ | ⟨front, line, back, rfl, blank, own, many⟩
    · exact ⟨[], node, rest, rfl, empty, rfl, many⟩
    · refine ⟨node :: front, line, back, rfl, blank, ?_, many⟩
      rw [visible_cons_of_isEmptyLine empty, own]

/-- Behind a node that is no empty line there is one fewer before an empty line. -/
theorem separates_cons (shown : node.isEmptyLine = false) :
    Separates (node :: rest) before behind ↔
      ∃ fewer, before = fewer + 1 ∧ Separates rest fewer behind := by
  constructor
  · intro separates
    obtain ⟨front, line, back, whole, blank, rfl, rfl⟩ := separates
    cases front with
    | nil =>
        cases whole
        rw [shown] at blank
        cases blank
    | cons first others =>
        cases whole
        rw [visible_cons shown]
        exact ⟨_, rfl, others, line, back, rfl, blank, rfl, rfl⟩
  · intro further
    obtain ⟨_, rfl, front, line, back, rfl, blank, rfl, many⟩ := further
    refine ⟨node :: front, line, back, rfl, blank, ?_, many⟩
    rw [visible_cons shown, List.length_cons]

/-- Seen from the end, what is before an empty line is behind it. -/
private theorem separates_of_reverse (separates : Separates nodes before behind) :
    Separates nodes.reverse behind before := by
  obtain ⟨front, line, back, rfl, blank, rfl, rfl⟩ := separates
  refine ⟨back.reverse, line, front.reverse, by simp, blank, ?_, ?_⟩
  · rw [visible, List.filter_reverse, List.length_reverse, visible]
  · rw [visible, List.filter_reverse, List.length_reverse, visible]

theorem separates_reverse :
    Separates nodes.reverse before behind ↔ Separates nodes behind before := by
  constructor
  · intro separates
    rw [← nodes.reverse_reverse]
    exact separates_of_reverse separates
  · exact separates_of_reverse

/-- A change that keeps empty lines keeps what they separate. -/
theorem separates_map {change : Node → Node}
    (keeps : ∀ node, (change node).isEmptyLine = node.isEmptyLine) :
    Separates (nodes.map change) before behind ↔ Separates nodes before behind := by
  induction nodes generalizing before with
  | nil => rfl
  | cons node rest ih =>
      have many : (visible (rest.map change)).length = (visible rest).length := by
        rw [Node.visible_map keeps, List.length_map]
      rw [List.map_cons]
      cases empty : node.isEmptyLine with
      | true =>
          rw [separates_cons_of_isEmptyLine ((keeps node).trans empty),
            separates_cons_of_isEmptyLine empty, ih, many]
      | false =>
          rw [separates_cons ((keeps node).trans empty), separates_cons empty]
          simp only [ih]

/-! ## Removing empty lines -/

/-- An empty line that is dropped at the start had no node before it. -/
private theorem separates_dropWhile (led : before ≠ 0) :
    Separates (nodes.dropWhile Node.isEmptyLine) before behind ↔
      Separates nodes before behind := by
  induction nodes with
  | nil => rfl
  | cons node rest ih =>
      rw [List.dropWhile_cons]
      split
      next empty =>
        rw [ih, separates_cons_of_isEmptyLine empty]
        exact ⟨.inr, fun either => either.resolve_left fun first => led first.1⟩
      next => rfl

/-- Trimming keeps the empty lines between nodes. -/
theorem separates_trim (led : before ≠ 0) (followed : behind ≠ 0) :
    Separates (trim nodes) before behind ↔ Separates nodes before behind := by
  rw [trim, separates_reverse, separates_dropWhile followed, separates_reverse,
    separates_dropWhile led]

/-- Squashing keeps an empty line wherever there was one. -/
private theorem separates_squashAfter (afterEmpty : Bool) :
    Separates (squashAfter afterEmpty nodes) before behind ↔
      Separates nodes before behind ∧ (afterEmpty = true → before ≠ 0) := by
  -- Behind an empty line, those that come next separate nothing new.
  induction nodes generalizing afterEmpty before with
  | nil => exact ⟨fun separates => (not_separates_nil separates).elim, And.left⟩
  | cons node rest ih =>
      have kept : visible (squashAfter true rest) = visible rest := filter_squashAfter true rest
      rw [squashAfter]
      cases empty : node.isEmptyLine with
      | false =>
          rw [Bool.false_and, if_neg Bool.false_ne_true, separates_cons empty,
            separates_cons empty]
          simp only [ih]
          grind
      | true =>
          rw [separates_cons_of_isEmptyLine empty]
          cases afterEmpty with
          | true =>
              rw [Bool.true_and, if_pos rfl, ih]
              grind
          | false =>
              rw [Bool.and_false, if_neg Bool.false_ne_true, separates_cons_of_isEmptyLine empty,
                kept, ih]
              constructor
              · intro either
                exact ⟨either.imp_right And.left, fun after => (Bool.false_ne_true after).elim⟩
              · intro both
                rcases both.1 with first | separates
                · exact .inl first
                · by_cases leads : before = 0
                  · refine .inl ⟨leads, ?_⟩
                    rw [separates.length_visible, leads, Nat.zero_add]
                  · exact .inr ⟨separates, fun _ => leads⟩

/-- Removing superfluous empty lines leaves one wherever there was one between two nodes. -/
theorem separates_squash_trim (led : before ≠ 0) (followed : behind ≠ 0) :
    Separates (squash (trim nodes)) before behind ↔ Separates nodes before behind := by
  rw [squash, separates_squashAfter, separates_trim led followed]
  exact and_iff_left fun after => (Bool.false_ne_true after).elim

end EmptyLines

/-! ## Trees -/

namespace Node

/-- The nodes in the block of a statement. -/
def children? : Node → Option (List Node)
  | .block _ children => some children
  | .leaf _ | .comment _ | .emptyLine _ => none

/-- The nodes in the block that a path leads to, at any depth. A step of the path is the number
of a node among all but the empty lines, so that removing these does not change it. -/
def siblingsAt? : List Nat → List Node → Option (List Node)
  | [], nodes => some nodes
  | index :: path, nodes => ((visible nodes)[index]?.bind children?).bind (siblingsAt? path)

/-- Nodes side by side and what tidying makes of them where it does not sort: they
correspond one by one, and an empty line stands between two neighbours exactly if there was
one or more between them. -/
structure Respaced (before after : List Node) : Prop where
  each : List.Forall₂ (Corresponds false) (visible before) (visible after)
  separates : ∀ front behind, front ≠ 0 → behind ≠ 0 →
    (EmptyLines.Separates after front behind ↔ EmptyLines.Separates before front behind)

end Node

namespace Tidy

variable {style : Style}

/-- Wherever a path leads within arranged nodes, the nodes there are spaced. -/
theorem spaced_siblingsAt? {parent : Option Text} {nodes siblings : List Node} {path : List Nat}
    (arranged : Arranged style parent nodes) (ordered : ∀ node ∈ nodes, Ordered style node)
    (found : Node.siblingsAt? path nodes = some siblings) : EmptyLines.Spaced siblings := by
  induction path generalizing parent nodes with
  | nil =>
      cases found
      exact arranged.spaced
  | cons index path ih =>
      obtain ⟨children, reached, further⟩ := Option.bind_eq_some_iff.mp found
      obtain ⟨node, own, block⟩ := Option.bind_eq_some_iff.mp reached
      have inside := (List.mem_filter.mp (List.mem_of_getElem? own)).1
      cases ordered node inside with
      | block arranged ordered =>
          cases block
          exact ih arranged ordered further
      | leaf | comment | emptyLine => cases block

/-- A style that does not sort tidies the nodes that are no empty lines one by one. -/
theorem visible_within (plain : style.canonicalOrder = false) (parent : Option Text)
    (nodes : List Node) :
    visible (within style parent nodes) = (visible nodes).map (tidiedNode style) := by
  rw [within_eq, arrange, plain, ← Node.visible_map (isEmptyLine_tidiedNode style)]
  exact EmptyLines.filter_squash_trim _

/-- A style that does not sort keeps an empty line between two nodes, and no other. -/
theorem respaced_within (plain : style.canonicalOrder = false) (parent : Option Text)
    (nodes : List Node) : Node.Respaced nodes (within style parent nodes) := by
  refine ⟨?_, fun front behind led followed => ?_⟩
  · rw [visible_within plain, List.forall₂_map_right_iff, List.forall₂_same, ← plain]
    intro node member
    obtain ⟨_, shown⟩ := List.mem_filter.mp member
    exact corresponds_tidiedNode style node (by simpa using shown)
  · rw [within_eq, arrange, plain, if_neg Bool.false_ne_true,
      EmptyLines.separates_squash_trim led followed,
      EmptyLines.separates_map (isEmptyLine_tidiedNode style)]

/-- The nodes of a tidied block are its nodes, tidied. -/
theorem children?_tidiedNode (style : Style) (node : Node) :
    (tidiedNode style node).children? =
      node.children?.map fun children =>
        within style (node.header?.map Header.keyword) children := by
  cases node with
  | block header children => exact congrArg Node.children? (tidiedNode_block style header children)
  | leaf | comment | emptyLine => rfl

/-- A path leads to corresponding blocks before and after tidying. -/
theorem respaced_siblingsAt? (plain : style.canonicalOrder = false) (path : List Nat)
    (parent : Option Text) (nodes : List Node) :
    Option.Rel Node.Respaced (Node.siblingsAt? path nodes)
      (Node.siblingsAt? path (within style parent nodes)) := by
  induction path generalizing parent nodes with
  | nil => exact .some (respaced_within plain parent nodes)
  | cons index path ih =>
      rw [Node.siblingsAt?, Node.siblingsAt?, visible_within plain, List.getElem?_map]
      cases (visible nodes)[index]? with
      | none => exact .none
      | some node =>
          rw [Option.map_some, Option.bind_some, Option.bind_some, children?_tidiedNode]
          cases node.children? with
          | none => exact .none
          | some children => exact ih _ children

/-- Tidying the tree of a text, which every machine does that has calls for its blocks, leaves no
empty line at the start or the end of a block and no two of them together. Where the style does
not sort, it leaves one between two neighbours exactly if there was one. -/
theorem within_spaced {text : Text} {nodes : List Node} (parsed : text.parse = .ok nodes)
    (style : Style) (parent : Option Text) :
    ∃ tidied,
      (∀ machine, attemptWithin machine style parent nodes = ⟨tidied, none⟩ ↔
        machine.carries (Node.nesting nodes + 1) = true) ∧
      (∀ path siblings, Node.siblingsAt? path tidied = some siblings →
        EmptyLines.Spaced siblings) ∧
      (style.canonicalOrder = false → ∀ path,
        Option.Rel Node.Respaced (Node.siblingsAt? path nodes) (Node.siblingsAt? path tidied)) := by
  obtain ⟨arranged, ordered⟩ := ordered_within style parent nodes
  exact ⟨_, fun _ => attemptWithin_eq_iff parent (Text.wellFormed_of_parse parsed),
    fun _ _ found => spaced_siblingsAt? arranged ordered found,
    fun plain path => respaced_siblingsAt? plain path parent nodes⟩

/-- A block with empty lines at both ends and two of them between its statements. -/
theorem within_spaced_block :
    ∃ nodes tidied,
      Text.parse "a \x7b\n\nb;\n\n\nc;\n\n\x7d".toList = .ok nodes ∧
      attemptWithin {} {} none nodes = ⟨tidied, none⟩ ∧
      (∀ path siblings, Node.siblingsAt? path tidied = some siblings →
        EmptyLines.Spaced siblings) ∧
      ∀ path,
        Option.Rel Node.Respaced (Node.siblingsAt? path nodes) (Node.siblingsAt? path tidied) := by
  have parsed : Text.parse "a \x7b\n\nb;\n\n\nc;\n\n\x7d".toList =
      .ok [.block { keyword := "a".toList }
        [.emptyLine "\n".toList, .leaf { keyword := "b".toList }, .emptyLine "\n".toList,
          .emptyLine "\n".toList, .leaf { keyword := "c".toList }, .emptyLine "\n".toList]] := by
    cbv
  obtain ⟨tidied, done, spaced, respaced⟩ := within_spaced parsed {} none
  exact ⟨_, tidied, parsed, (done {}).mpr rfl, spaced, respaced rfl⟩

end Tidy

end YangFormatter
