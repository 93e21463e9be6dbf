import YangFormatter.Text.Blank

/-! # Blanks and lines

Trimming removes blanks and nothing else, and a text is determined by its lines.
What is left of a text without its blanks (`Text.solid`) is what all changes of
layout keep.
-/

namespace YangFormatter

/-- A change that fixes all members of a list fixes the list. -/
theorem map_eq_self {α : Type} {change : α → α} {list : List α}
    (fixed : ∀ member ∈ list, change member = member) : list.map change = list := by
  rw [List.map_congr_left fixed, List.map_id']

namespace Text

/-- A text with all its blanks deleted. -/
def solid (text : Text) : Text :=
  text.filter (!isBlank ·)

@[simp]
theorem solid_append (first second : Text) :
    (first ++ second).solid = first.solid ++ second.solid :=
  List.filter_append _ _

/-- A text of spaces has nothing else. -/
theorem solid_eq_nil {text : Text} (blank : ∀ character ∈ text, isBlank character = true) :
    text.solid = [] := by
  apply List.filter_eq_nil_iff.mpr
  intro character member
  simp [blank character member]

@[simp]
theorem solid_cons_newline (text : Text) : solid ('\n' :: text) = text.solid := rfl

theorem mem_solid {text : Text} {character : Char} (solid : isBlank character = false) :
    character ∈ text.solid ↔ character ∈ text := by
  simp [Text.solid, solid]

/-- Trimming takes blanks from the start of a text. -/
theorem append_trimStart (text : Text) :
    text.takeWhile isBlank ++ text.trimStart = text :=
  List.takeWhile_append_dropWhile

theorem isBlank_of_mem_takeWhile {text : Text} :
    ∀ character ∈ text.takeWhile isBlank, isBlank character = true := by
  intro character member
  exact List.all_eq_true.mp List.all_takeWhile character member

/-- Trimming takes blanks from the end of a text. -/
theorem exists_trimEnd_append (text : Text) :
    ∃ blanks, (∀ character ∈ blanks, isBlank character = true) ∧ text.trimEnd ++ blanks = text := by
  refine ⟨(text.reverse.takeWhile isBlank).reverse, ?_, ?_⟩
  · intro character member
    exact isBlank_of_mem_takeWhile character (List.mem_reverse.mp member)
  · rw [trimEnd, ← List.reverse_append, List.takeWhile_append_dropWhile, List.reverse_reverse]

/-- Only spaces are trimmed at the start. -/
@[simp]
theorem solid_trimStart (text : Text) : text.trimStart.solid = text.solid := by
  rw [← append_trimStart text, solid_append, solid_eq_nil isBlank_of_mem_takeWhile,
    append_trimStart, List.nil_append]

/-- Only spaces are trimmed at the end. -/
@[simp]
theorem solid_trimEnd (text : Text) : text.trimEnd.solid = text.solid := by
  obtain ⟨blanks, blank, whole⟩ := exists_trimEnd_append text
  rw [← congrArg solid whole, solid_append, solid_eq_nil blank, List.append_nil]

theorem trimStart_eq_self {text : Text}
    (start : ∀ character ∈ text.head?, isBlank character = false) : text.trimStart = text := by
  cases text with
  | nil => rfl
  | cons first rest => simp [trimStart, start first rfl]

/-- No space comes first in a text that is trimmed at the start. -/
theorem head?_trimStart (text : Text) :
    ∀ character ∈ text.trimStart.head?, isBlank character = false := by
  intro character first
  have stopped := List.head?_dropWhile_not isBlank text
  rw [trimStart] at first
  rw [Option.mem_def.mp first] at stopped
  simpa using stopped

theorem trimEnd_eq_self {text : Text}
    (stop : ∀ character ∈ text.getLast?, isBlank character = false) : text.trimEnd = text := by
  have reversed := trimStart_eq_self (fun character first =>
    stop character (by rwa [List.head?_reverse] at first))
  rw [trimStart] at reversed
  rw [trimEnd, reversed, List.reverse_reverse]

/-- No space comes last in a text that is trimmed at the end. -/
theorem getLast?_trimEnd (text : Text) :
    ∀ character ∈ text.trimEnd.getLast?, isBlank character = false := by
  intro character last
  rw [trimEnd, List.getLast?_reverse] at last
  exact head?_trimStart text.reverse character last

/-- A trimmed text ends in the last character that is not blank. -/
theorem getLast?_trim (text : Text) : text.trim.getLast? = text.solid.getLast? := by
  have kept : text.trim.solid = text.solid := by rw [trim, solid_trimEnd, solid_trimStart]
  rw [← kept, solid, List.getLast?_filter]
  cases last : text.trim.getLast? with
  | none =>
      rw [List.getLast?_eq_none_iff.mp last]
      rfl
  | some character =>
      have visible := getLast?_trimEnd text.trimStart character last
      obtain ⟨before, whole⟩ := List.getLast?_eq_some_iff.mp last
      rw [whole]
      simp [visible]

theorem ofLines_cons_cons (first next : Text) (rest : List Text) :
    ofLines (first :: next :: rest) = first ++ '\n' :: ofLines (next :: rest) := by
  rw [ofLines, List.intercalate_cons_cons, List.append_assoc, List.singleton_append, ofLines]

@[simp]
theorem ofLines_singleton (line : Text) : ofLines [line] = line :=
  List.intercalate_singleton

/-- A line has no line feed in it. -/
theorem newline_not_mem_of_mem_lines {text line : Text} (member : line ∈ text.lines) :
    '\n' ∉ line := by
  induction text generalizing line with
  | nil =>
      rw [List.mem_singleton.mp member]
      exact List.not_mem_nil
  | cons first rest ih =>
      rw [lines, List.splitOn_cons_eq_if_modifyHead] at member
      split at member
      next newline =>
        rcases List.mem_cons.mp member with rfl | inside
        · exact List.not_mem_nil
        · exact ih inside
      next other =>
        obtain ⟨head, others, split⟩ := List.exists_cons_of_ne_nil (lines_ne_nil rest)
        rw [lines] at split
        rw [split, List.modifyHead_cons] at member
        rcases List.mem_cons.mp member with rfl | inside
        · have free : '\n' ∉ head := ih (by rw [lines, split]; exact List.mem_cons_self)
          intro within
          rcases List.mem_cons.mp within with same | inner
          · exact other (beq_iff_eq.mpr same.symm)
          · exact free inner
        · exact ih (by rw [lines, split]; exact List.mem_cons_of_mem _ inside)

/-- Lines without line feeds are found again in the text that they make up. -/
theorem lines_ofLines {lines : List Text} (nonempty : lines ≠ [])
    (free : ∀ line ∈ lines, '\n' ∉ line) : (ofLines lines).lines = lines :=
  List.splitOn_intercalate '\n' free nonempty

/-- A text has a first line, perhaps more lines, and is made up of them. -/
theorem exists_lines (text : Text) :
    ∃ first rest, text.lines = first :: rest ∧ text = ofLines (first :: rest) := by
  obtain ⟨first, rest, split⟩ := List.exists_cons_of_ne_nil (lines_ne_nil text)
  exact ⟨first, rest, split, by rw [← split, ofLines_lines]⟩

/-- A text has a line feed exactly if it has several lines. -/
theorem newline_mem_iff {text first : Text} {rest : List Text}
    (split : text.lines = first :: rest) : '\n' ∈ text ↔ rest ≠ [] := by
  have whole : text = ofLines (first :: rest) := by rw [← split, ofLines_lines]
  cases rest with
  | nil =>
      have free : '\n' ∉ first := newline_not_mem_of_mem_lines (by rw [split]; simp)
      simpa [whole] using free
  | cons next others => simp [whole, ofLines_cons_cons]

/-- What is no space in a text is so in each of its lines. -/
@[simp]
theorem solid_ofLines (lines : List Text) : (ofLines lines).solid = (lines.map solid).flatten := by
  induction lines with
  | nil => rfl
  | cons first rest ih =>
      cases rest with
      | nil => simp
      | cons next others => simp [ofLines_cons_cons, ih]

/-- A character other than a line feed is in a text exactly if it is in one of its lines. -/
theorem mem_ofLines_iff {lines : List Text} {character : Char} (other : character ≠ '\n') :
    character ∈ ofLines lines ↔ ∃ line ∈ lines, character ∈ line := by
  induction lines with
  | nil => simp [ofLines]
  | cons first rest ih =>
      cases rest with
      | nil => simp
      | cons next others =>
          rw [ofLines_cons_cons, List.mem_append, List.mem_cons, ih]
          simp [other]

theorem ofLines_append_singleton (earlier : List Text) (last : Text) (several : earlier ≠ []) :
    ofLines (earlier ++ [last]) = ofLines earlier ++ '\n' :: last := by
  induction earlier with
  | nil => exact (several rfl).elim
  | cons first rest ih =>
      cases rest with
      | nil => rw [List.singleton_append, ofLines_cons_cons, ofLines_singleton, ofLines_singleton]
      | cons next others =>
          have behind := ih (List.cons_ne_nil _ _)
          rw [List.cons_append] at behind
          rw [List.cons_append, List.cons_append, ofLines_cons_cons, behind, ofLines_cons_cons,
            List.append_assoc, List.cons_append]

/-- The last character of a text is that of its last line, if this has one. -/
theorem getLast?_ofLines (earlier : List Text) (last : Text) (several : earlier ≠ []) :
    (ofLines (earlier ++ [last])).getLast? = last.getLast?.or (some '\n') := by
  rw [ofLines_append_singleton earlier last several, List.getLast?_append, List.getLast?_cons]
  cases last.getLast? <;> rfl

end Text

end YangFormatter
