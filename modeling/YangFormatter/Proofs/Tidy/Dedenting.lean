import YangFormatter.Proofs.Tidy.Quotation
import YangFormatter.Tidy.Attempt

/-! # Relative indentation

A string of several lines is moved to the left as a whole. Its lines after the first lose one
margin, the same for all of them, and no further indentation that they share is left
(`Margin.dedented_remove`). So they stand to each other as before, and nothing but a string of
several lines is changed (`Header.exists_dedented`).
-/

namespace YangFormatter

/-- A text of nothing but spaces and tabs. -/
def Text.Indents (text : Text) : Prop :=
  ∀ character ∈ text, character = ' ' ∨ character = '\t'

/-- A line as it stands in a text, and the line without one carriage return at its end. -/
def Text.EndsAs (given line : Text) : Prop :=
  given = line ++ ['\r'] ∨ (given = line ∧ line.getLast? ≠ some '\r')

/-- A line ends as it did but for a carriage return. -/
theorem Quotation.endsAs_dropReturn (line : Text) : line.EndsAs (dropReturn line) := by
  unfold dropReturn
  split
  next last =>
    obtain ⟨before, rfl⟩ := List.getLast?_eq_some_iff.mp last
    exact .inl (by rw [List.dropLast_concat])
  next plain => exact .inr ⟨rfl, plain⟩

namespace Margin

/-- Some lines, and what is left of them without a margin. Lines of nothing but spaces and tabs
become empty, all others stand behind the margin, and what is left of those begins with no
further spaces and tabs in common. -/
structure Dedented (margin : Text) (lines moved : List Text) : Prop where
  indents : margin.Indents
  each : List.Forall₂
    (fun line rest => (line.Indents ∧ rest = []) ∨ (¬ line.Indents ∧ line = margin ++ rest))
    lines moved
  furthest : (∃ rest ∈ moved, rest ≠ []) → ∀ indent : Text, indent.Indents →
    (∀ rest ∈ moved, rest ≠ [] → indent <+: rest) → indent = []

/-- A line is empty exactly if it is an indentation. -/
theorem isEmptyLine_iff {line : Text} : isEmptyLine line = true ↔ line.Indents := by
  rw [isEmptyLine, List.all_eq_true]
  refine forall₂_congr fun character _ => ?_
  rw [isIndent, Bool.or_eq_true, beq_iff_eq, beq_iff_eq]

/-- What two texts share is the longest text that both start with. -/
theorem isPrefix_shared {margin first second : Text} (left : margin <+: first)
    (right : margin <+: second) : margin <+: shared first second := by
  obtain ⟨rest, rfl⟩ := left
  obtain ⟨rest', rfl⟩ := right
  rw [shared_append]
  exact List.prefix_append margin _

/-- Texts share every text that all of them begin with. -/
theorem isPrefix_sharedByAll {margin : Text} {texts : List Text} (nonempty : texts ≠ [])
    (each : ∀ text ∈ texts, margin <+: text) : margin <+: sharedByAll texts := by
  obtain ⟨first, others, rfl⟩ := List.exists_cons_of_ne_nil nonempty
  obtain ⟨own, behind⟩ := List.forall_mem_cons.mp each
  clear each nonempty
  -- The margin starts what the texts so far share, from one text to the next.
  induction others generalizing first with
  | nil => exact own
  | cons next rest ih =>
      obtain ⟨second, others⟩ := List.forall_mem_cons.mp behind
      exact ih (shared first next) (isPrefix_shared own second) others

/-- Spaces and tabs that all lines with content start with are part of their margin. -/
theorem isPrefix_common {indent : Text} {lines : List Text} (indents : indent.Indents)
    (full : ∃ line ∈ lines, isEmptyLine line = false)
    (each : ∀ line ∈ lines, isEmptyLine line = false → indent <+: line) :
    indent <+: common lines := by
  have start : ∀ text ∈ indentations lines, indent <+: text := by
    intro text member
    obtain ⟨line, inside, rfl⟩ := List.mem_map.mp member
    obtain ⟨own, content⟩ := List.mem_filter.mp inside
    obtain ⟨rest, rfl⟩ := each line own (by simpa using content)
    rw [indentation_append (isEmptyLine_iff.mpr indents)]
    exact List.prefix_append indent _
  obtain ⟨line, member, content⟩ := full
  have several : indentations lines ≠ [] := by
    have inside : line ∈ lines.filter (!isEmptyLine ·) :=
      List.mem_filter.mpr ⟨member, by rw [content]; rfl⟩
    exact List.ne_nil_of_mem (List.mem_map_of_mem inside)
  rw [common_eq]
  exact isPrefix_sharedByAll several start

/-- Lines lose their common margin and nothing else. -/
theorem dedented_remove (lines : List Text) : Dedented (common lines) lines (remove lines) := by
  refine ⟨isEmptyLine_iff.mp (isEmptyLine_common lines), ?_, ?_⟩
  · rw [remove, List.forall₂_map_right_iff, List.forall₂_same]
    intro line member
    cases content : isEmptyLine line with
    | true => exact .inl ⟨isEmptyLine_iff.mp content, by rw [removeFrom, if_pos content]⟩
    | false =>
        have full : ¬ line.Indents := by
          rw [← isEmptyLine_iff, content]
          exact Bool.false_ne_true
        exact .inr ⟨full, (common_append_removeFrom member content).symm⟩
  · intro full indent indents each
    obtain ⟨rest, member, nonempty⟩ := full
    have content : ∀ rest ∈ remove lines, rest ≠ [] → isEmptyLine rest = false := by
      intro rest member nonempty
      rw [← Bool.not_eq_true]
      exact fun empty => nonempty (eq_nil_of_mem_remove member empty)
    have start : indent <+: common (remove lines) := by
      refine isPrefix_common indents ⟨rest, member, content rest member nonempty⟩ ?_
      intro rest member full
      refine each rest member fun empty => ?_
      rw [empty] at full
      cases full
    rw [common_remove] at start
    exact List.prefix_nil.mp start

example : remove ["  \ta".toList, "\t".toList, "  b".toList] = ["\ta".toList, [], "b".toList] := by
  decide

end Margin

namespace Value

/-- A value, and the value with the lines of a string moved to the left. A string is given by its
quote, what stands behind it, and its last character; its lines are what stands between line
feeds. -/
inductive Dedented : Value → Value → Prop where
  | lines {quote closing : Char} {content first margin : Text} {lines moved : List Text}
      (split : List.Forall₂ Text.EndsAs content.lines (first :: lines)) (several : lines ≠ [])
      (own : Margin.Dedented margin lines moved) :
      Dedented (.quoted (quote :: (content ++ [closing])))
        (.quoted (quote :: (Text.ofLines (first :: moved) ++ [quote])))
  | line {quote closing : Char} {content : Text} (single : '\n' ∉ content) :
      Dedented (.quoted (quote :: (content ++ [closing])))
        (.quoted (quote :: (content ++ [closing])))
  | short {text : Text} (short : text.length < 2) : Dedented (.quoted text) (.quoted text)
  | concatenation (fragments : List Fragment) :
      Dedented (.concatenation fragments) (.concatenation fragments)
  | number (text : Text) : Dedented (.number text) (.number text)
  | date (text : Text) : Dedented (.date text) (.date text)
  | other (text : Text) : Dedented (.other text) (.other text)

end Value

namespace Quotation

/-- A string of one line is not changed. -/
theorem dedented_of_line {text : Text} (single : '\n' ∉ inner text) : dedented text = text := by
  rw [dedented, Text.lines, List.splitOn_eq_singleton single]
  rfl

/-- Of a string of several lines those behind the first one lose their margin. -/
theorem dedented_of_lines {text first : Text} {rest : List Text}
    (split : (inner text).lines = first :: rest) (further : rest ≠ []) :
    dedented text =
      withInner text (.ofLines (dropReturn first :: Margin.remove (rest.map dropReturn))) := by
  have several : ¬ (inner text).lines.length < 2 := by
    have := List.length_pos_iff.mpr further
    rw [split, List.length_cons]
    omega
  rw [← dedentedInner_of_lines split further, dedented, dedentedInner, List.length_map,
    if_neg several, if_neg several]

/-- What stands between the first and the last character. -/
private theorem inner_of_ends (quote closing : Char) (content : Text) :
    inner (quote :: (content ++ [closing])) = content := by
  rw [inner, List.drop_one, List.tail_cons, List.dropLast_concat]

/-- Dedenting a string is what is asked of it. -/
theorem value_dedented (text : Text) : (Value.quoted text).Dedented (.quoted (dedented text)) := by
  rcases text with _ | ⟨quote, behind⟩
  · exact .short (by decide)
  rcases List.eq_nil_or_concat behind with rfl | ⟨content, closing, rfl⟩
  · exact .short (by simp)
  rw [List.concat_eq_append]
  have whole := inner_of_ends quote closing content
  by_cases several : '\n' ∈ content
  · obtain ⟨first, rest, split, _⟩ := Text.exists_lines content
    have further := (Text.newline_mem_iff split).mp several
    rw [dedented_of_lines (whole.symm ▸ split) further]
    have returns : List.Forall₂ Text.EndsAs (Text.lines content)
        (dropReturn first :: rest.map dropReturn) := by
      rw [← List.map_cons, split, List.forall₂_map_right_iff, List.forall₂_same]
      exact fun line _ => endsAs_dropReturn line
    exact .lines returns (List.map_eq_nil_iff.not.mpr further) (Margin.dedented_remove _)
  · rw [dedented_of_line (by rwa [whole])]
    exact .line several

end Quotation

/-- The lines of a string after the first are moved to the left together, as far as they go.
Every other value stays as it is, and so does the rest of a statement. -/
theorem Header.exists_dedented (header : Header) :
    ∃ value, Option.Rel Value.Dedented header.value value ∧
      header.attemptDedent = ⟨{ header with value }, none⟩ := by
  refine ⟨_, ?_, rfl⟩
  cases header.value with
  | none => exact .none
  | some value =>
      refine .some ?_
      cases value with
      | quoted text => exact Quotation.value_dedented text
      | concatenation fragments => exact .concatenation fragments
      | number text => exact .number text
      | date text => exact .date text
      | other text => exact .other text

end YangFormatter
