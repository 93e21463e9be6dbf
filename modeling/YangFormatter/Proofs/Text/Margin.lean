import Mathlib.Data.List.Forall2
import YangFormatter.Text.Margin

/-! # Margins

Removing the common margin of some lines leaves lines without one, and moving such
lines to the right by any indentation makes that indentation their margin
(`Margin.remove_of_shifted`). So it does not matter how far to the right some lines
stand together.
-/

namespace YangFormatter.Margin

/-- One line is another one, moved to the right; a line of nothing but indentation
may be any such line. -/
def Shifted (margin line moved : Text) : Prop :=
  (isEmptyLine line = true ∧ isEmptyLine moved = true) ∨
    (isEmptyLine line = false ∧ moved = margin ++ line)

/-- The longest text that all of some texts start with. -/
def sharedByAll : List Text → Text
  | [] => []
  | first :: others => others.foldl shared first

theorem common_eq (lines : List Text) : common lines = sharedByAll (indentations lines) := rfl

/-- Two texts share what is put before both of them. -/
theorem shared_append (margin first second : Text) :
    shared (margin ++ first) (margin ++ second) = margin ++ shared first second := by
  induction margin with
  | nil => rfl
  | cons character rest ih => simp [shared, ih]

/-- Both texts begin with what they share. -/
theorem shared_isPrefix (first second : Text) :
    shared first second <+: first ∧ shared first second <+: second := by
  induction first generalizing second with
  | nil => simp [shared]
  | cons character rest ih =>
      cases second with
      | nil => simp [shared]
      | cons other others =>
          rw [shared]
          split
          next same =>
            subst same
            obtain ⟨left, right⟩ := ih others
            exact ⟨List.cons_prefix_cons.mpr ⟨rfl, left⟩, List.cons_prefix_cons.mpr ⟨rfl, right⟩⟩
          next => exact ⟨List.nil_prefix, List.nil_prefix⟩

/-- All texts begin with what they share. -/
private theorem foldl_shared_isPrefix (others : List Text) (first : Text) :
    others.foldl shared first <+: first ∧
      ∀ text ∈ others, others.foldl shared first <+: text := by
  induction others generalizing first with
  | nil => simp
  | cons next rest ih =>
      obtain ⟨start, each⟩ := ih (shared first next)
      obtain ⟨left, right⟩ := shared_isPrefix first next
      refine ⟨start.trans left, ?_⟩
      intro text member
      rcases List.mem_cons.mp member with rfl | inside
      · exact start.trans right
      · exact each text inside

/-- Each of some texts begins with what they share. -/
theorem sharedByAll_isPrefix {texts : List Text} {text : Text} (member : text ∈ texts) :
    sharedByAll texts <+: text := by
  cases texts with
  | nil => exact (List.not_mem_nil member).elim
  | cons first others =>
      obtain ⟨start, each⟩ := foldl_shared_isPrefix others first
      rcases List.mem_cons.mp member with rfl | inside
      · exact start
      · exact each text inside

/-- All texts share what is put before each of them. -/
private theorem foldl_shared_append (margin : Text) (others : List Text) (first : Text) :
    (others.map (margin ++ ·)).foldl shared (margin ++ first) =
      margin ++ others.foldl shared first := by
  induction others generalizing first with
  | nil => rfl
  | cons next rest ih => rw [List.map_cons, List.foldl_cons, shared_append, ih, List.foldl_cons]

/-- Some texts share what is put before each of them. -/
theorem sharedByAll_append (margin : Text) {texts : List Text} (nonempty : texts ≠ []) :
    sharedByAll (texts.map (margin ++ ·)) = margin ++ sharedByAll texts := by
  cases texts with
  | nil => exact (nonempty rfl).elim
  | cons first others => exact foldl_shared_append margin others first

/-- Spaces and tabs before a line have no part in whether it is empty. -/
theorem isEmptyLine_append {margin line : Text} (indents : isEmptyLine margin = true) :
    isEmptyLine (margin ++ line) = isEmptyLine line := by
  rw [isEmptyLine] at indents ⊢
  rw [List.all_append, indents, Bool.true_and]
  rfl

/-- Spaces and tabs before a line belong to its indentation. -/
theorem indentation_append {margin line : Text} (indents : isEmptyLine margin = true) :
    indentation (margin ++ line) = margin ++ indentation line :=
  List.takeWhile_append_of_pos (List.all_eq_true.mp indents)

/-- Lines that are moved to the right together have their indentations moved. -/
theorem indentations_of_shifted {margin : Text} (indents : isEmptyLine margin = true)
    {lines moved : List Text} (shifted : List.Forall₂ (Shifted margin) lines moved) :
    indentations moved = (indentations lines).map (margin ++ ·) := by
  induction shifted with
  | nil => rfl
  | cons first _ ih =>
      simp only [indentations] at ih ⊢
      rcases first with ⟨empty, emptyToo⟩ | ⟨content, rfl⟩
      · rw [List.filter_cons_of_neg (by rw [emptyToo]; decide),
          List.filter_cons_of_neg (by rw [empty]; decide), ih]
      · rw [List.filter_cons_of_pos (by simp [isEmptyLine_append indents, content]),
          List.filter_cons_of_pos (by simp [content]), List.map_cons, List.map_cons, List.map_cons,
          ih, indentation_append indents]

/-- A line with content has an indentation to be counted. -/
private theorem indentations_ne_nil {lines : List Text} {line : Text} (member : line ∈ lines)
    (content : isEmptyLine line = false) : indentations lines ≠ [] := by
  intro empty
  have inside : line ∈ lines.filter (!isEmptyLine ·) :=
    List.mem_filter.mpr ⟨member, by rw [content]; rfl⟩
  rw [List.map_eq_nil_iff.mp empty] at inside
  exact List.not_mem_nil inside

/-- The indentation of a line with content begins with the common margin. -/
theorem common_isPrefix {lines : List Text} {line : Text} (member : line ∈ lines)
    (content : isEmptyLine line = false) : common lines <+: indentation line := by
  rw [common_eq]
  apply sharedByAll_isPrefix
  exact List.mem_map.mpr ⟨line, List.mem_filter.mpr ⟨member, by rw [content]; rfl⟩, rfl⟩

/-- A common margin consists of spaces and tabs. -/
theorem isEmptyLine_common (lines : List Text) : isEmptyLine (common lines) = true := by
  cases some : indentations lines with
  | nil =>
      rw [common_eq, some]
      rfl
  | cons first others =>
      have inside : first ∈ indentations lines := by
        rw [some]
        exact List.mem_cons_self
      obtain ⟨line, _, rfl⟩ := List.mem_map.mp inside
      have start := sharedByAll_isPrefix inside
      rw [← common_eq] at start
      apply List.all_eq_true.mpr
      intro character member
      exact List.all_eq_true.mp List.all_takeWhile character (start.subset member)

/-- A line with content is the margin and what removing the margin leaves. -/
theorem common_append_removeFrom {lines : List Text} {line : Text} (member : line ∈ lines)
    (content : isEmptyLine line = false) :
    common lines ++ removeFrom (common lines).length line = line := by
  have start : common lines <+: line :=
    (common_isPrefix member content).trans (List.takeWhile_prefix _)
  obtain ⟨rest, whole⟩ := start
  rw [removeFrom, content]
  simp only [Bool.false_eq_true, ↓reduceIte]
  rw [← congrArg (List.drop (common lines).length) whole, List.drop_left, whole]

/-- A line is its part without the margin, moved to the right by the margin. -/
theorem shifted_removeFrom {lines : List Text} {line : Text} (member : line ∈ lines) :
    Shifted (common lines) (removeFrom (common lines).length line) line := by
  cases content : isEmptyLine line with
  | true =>
      refine .inl ⟨?_, content⟩
      rw [removeFrom, if_pos content]
      rfl
  | false =>
      have whole := common_append_removeFrom member content
      refine .inr ⟨?_, whole.symm⟩
      rw [← content, ← congrArg isEmptyLine whole, isEmptyLine_append (isEmptyLine_common lines)]

/-- The lines without their margin, moved back to where they stood. -/
theorem shifted_remove (lines : List Text) :
    List.Forall₂ (Shifted (common lines)) (remove lines) lines := by
  rw [remove, List.forall₂_map_left_iff, List.forall₂_same]
  intro line member
  exact shifted_removeFrom member

/-- Lines without their margin have none left. -/
theorem common_remove (lines : List Text) : common (remove lines) = [] := by
  have moved := indentations_of_shifted (isEmptyLine_common lines) (shifted_remove lines)
  by_cases none : indentations (remove lines) = []
  · rw [common_eq, none]
    rfl
  · have whole := sharedByAll_append (common lines) none
    rw [← moved, ← common_eq, ← common_eq] at whole
    exact List.self_eq_append_right.mp whole

/-- A line without content is empty when the margin is removed. -/
theorem eq_nil_of_mem_remove {lines : List Text} {line : Text} (member : line ∈ remove lines)
    (empty : isEmptyLine line = true) : line = [] := by
  obtain ⟨original, inside, rfl⟩ := List.mem_map.mp member
  unfold removeFrom at empty ⊢
  split
  · rfl
  next content =>
    rw [if_neg content] at empty
    have kept : original.drop (common lines).length =
        removeFrom (common lines).length original := by
      simp [removeFrom, content]
    have whole := common_append_removeFrom inside (by simpa using content)
    rw [← kept] at whole
    rw [← whole, isEmptyLine_append (isEmptyLine_common lines), empty] at content
    exact (content rfl).elim

/-- Removing the margin undoes moving lines to the right. -/
private theorem map_removeFrom_of_shifted {margin : Text} (indents : isEmptyLine margin = true)
    {lines moved : List Text} (shifted : List.Forall₂ (Shifted margin) lines moved) {count : Nat}
    (width : ∀ line ∈ lines, isEmptyLine line = false → count = margin.length)
    (clean : ∀ line ∈ lines, isEmptyLine line = true → line = []) :
    moved.map (removeFrom count) = lines := by
  induction shifted with
  | nil => rfl
  | @cons line moved lines others first _ ih =>
      have rest := ih (fun line member => width line (List.mem_cons_of_mem _ member))
        (fun line member => clean line (List.mem_cons_of_mem _ member))
      rw [List.map_cons, rest, removeFrom]
      rcases first with ⟨empty, emptyToo⟩ | ⟨content, rfl⟩
      · rw [if_pos emptyToo, clean line List.mem_cons_self empty]
      · rw [isEmptyLine_append indents, content, width line List.mem_cons_self content]
        simp

/-- Removing the margin gives lines without a margin back, wherever they have been
moved together. -/
theorem remove_of_shifted {margin : Text} (indents : isEmptyLine margin = true)
    {lines moved : List Text} (shifted : List.Forall₂ (Shifted margin) lines moved)
    (bare : common lines = []) (clean : ∀ line ∈ lines, isEmptyLine line = true → line = []) :
    remove moved = lines := by
  apply map_removeFrom_of_shifted indents shifted _ clean
  intro line member content
  rw [common_eq, indentations_of_shifted indents shifted,
    sharedByAll_append margin (indentations_ne_nil member content), ← common_eq, bare,
    List.append_nil]

end YangFormatter.Margin
