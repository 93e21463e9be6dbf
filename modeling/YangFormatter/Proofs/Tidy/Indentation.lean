import YangFormatter.Proofs.Tidy.Quotation
import YangFormatter.Proofs.Token.Returns

/-! # Strings moved to the right

The layout of a string moves its lines after the first to the right
(`Quotation.reindented`). Tidying the string moves them back: a tidied string is the
same after any number of rounds (`Quotation.tidied_reindented`).
-/

namespace YangFormatter.Quotation

open Text

/-- A string whose lines after the first stand behind a margin, but for those that
are empty. The closing quote is part of the last line. -/
def reindented (margin text : Text) : Text :=
  match text.lines with
  | [] => []
  | first :: rest =>
      .ofLines (first :: rest.map fun line => if line.isEmpty then [] else margin ++ line)

/-- Lines behind a margin, but for those that are empty and not the last. -/
def indentLines (margin : Text) : List Text → List Text
  | [] => []
  | [last] => [margin ++ last]
  | line :: next :: rest =>
      (if line.isEmpty then [] else margin ++ line) :: indentLines margin (next :: rest)

/-- A text between quotes whose lines after the first stand behind a margin. -/
def reindentedInner (margin content : Text) : Text :=
  match content.lines with
  | [] => []
  | first :: rest => .ofLines (first :: indentLines margin rest)

/-- Lines with a quote behind the last of them. -/
private def closeLast (quote : Char) : List Text → List Text
  | [] => []
  | [last] => [last ++ [quote]]
  | line :: next :: rest => line :: closeLast quote (next :: rest)

private theorem closeLast_ne_nil (quote : Char) {lines : List Text} (nonempty : lines ≠ []) :
    closeLast quote lines ≠ [] := by
  cases lines with
  | nil => exact (nonempty rfl).elim
  | cons line rest => cases rest <;> exact List.cons_ne_nil _ _

/-- A quote behind the last line is a quote behind the text of the lines. -/
private theorem ofLines_closeLast (quote : Char) {lines : List Text} (nonempty : lines ≠ []) :
    ofLines (closeLast quote lines) = ofLines lines ++ [quote] := by
  induction lines with
  | nil => exact (nonempty rfl).elim
  | cons line rest ih =>
      cases rest with
      | nil => simp [closeLast]
      | cons next others =>
          have behind := ih (List.cons_ne_nil _ _)
          obtain ⟨head, tail, split⟩ :=
            List.exists_cons_of_ne_nil (closeLast_ne_nil quote (List.cons_ne_nil next others))
          rw [closeLast, split, ofLines_cons_cons, ← split, behind, ofLines_cons_cons,
            List.append_assoc, List.cons_append]

/-- A quote behind the last line adds no line feed. -/
private theorem newline_not_mem_closeLast {quote : Char} (isQuote : IsQuote quote)
    {lines : List Text} (free : ∀ line ∈ lines, '\n' ∉ line) :
    ∀ line ∈ closeLast quote lines, '\n' ∉ line := by
  have other : '\n' ≠ quote := by rcases isQuote with rfl | rfl <;> decide
  induction lines with
  | nil => exact free
  | cons first rest ih =>
      cases rest with
      | nil =>
          intro line member
          rw [List.mem_singleton.mp member]
          simpa [other] using free first List.mem_cons_self
      | cons next others =>
          intro line member
          rcases List.mem_cons.mp member with rfl | inside
          · exact free line List.mem_cons_self
          · exact ih (fun line within => free line (List.mem_cons_of_mem _ within)) line inside

/-- Lines are indented with the quote behind the last one as they are without it. -/
private theorem map_closeLast (quote : Char) (margin : Text) (lines : List Text) :
    (closeLast quote lines).map (fun line => if line.isEmpty then [] else margin ++ line) =
      closeLast quote (indentLines margin lines) := by
  induction lines with
  | nil => rfl
  | cons line rest ih =>
      cases rest with
      | nil => simp [closeLast, indentLines]
      | cons next others =>
          rw [closeLast, List.map_cons, ih, indentLines]
          cases others <;> rfl

private theorem closeLast_cons (quote : Char) (line : Text) {rest : List Text}
    (nonempty : rest ≠ []) :
    closeLast quote (line :: rest) = line :: closeLast quote rest := by
  cases rest with
  | nil => exact (nonempty rfl).elim
  | cons next others => rfl

theorem indentLines_ne_nil (margin : Text) {lines : List Text} (nonempty : lines ≠ []) :
    indentLines margin lines ≠ [] := by
  cases lines with
  | nil => exact (nonempty rfl).elim
  | cons line rest => cases rest <;> exact List.cons_ne_nil _ _

/-- The lines between quotes are those of the content, with a quote before the first and one behind
the last. -/
private theorem lines_enclose {quote : Char} (isQuote : IsQuote quote) {content first : Text}
    {rest : List Text} (split : content.lines = first :: rest) :
    (enclose quote content).lines = closeLast quote ((quote :: first) :: rest) := by
  have free : ∀ line ∈ (quote :: first) :: rest, '\n' ∉ line := by
    have other : '\n' ≠ quote := by rcases isQuote with rfl | rfl <;> decide
    intro line member
    rcases List.mem_cons.mp member with rfl | inside
    · have own : '\n' ∉ first := newline_not_mem_of_mem_lines (by rw [split]; simp)
      simpa [other] using own
    · exact newline_not_mem_of_mem_lines (by rw [split]; exact List.mem_cons_of_mem _ inside)
  have whole : enclose quote content = ofLines (closeLast quote ((quote :: first) :: rest)) := by
    rw [ofLines_closeLast quote (List.cons_ne_nil _ _), ofLines, List.intercalate_cons_cons_left,
      ← ofLines, ← split, ofLines_lines, enclose]
  rw [whole]
  exact lines_ofLines (closeLast_ne_nil quote (List.cons_ne_nil _ _))
    (newline_not_mem_closeLast isQuote free)

/-- A string is moved to the right by moving what stands between its quotes. -/
theorem reindented_enclose {quote : Char} (isQuote : IsQuote quote) (margin content : Text) :
    reindented margin (enclose quote content) =
      enclose quote (reindentedInner margin content) := by
  obtain ⟨first, rest, split, whole⟩ := exists_lines content
  rw [reindented, lines_enclose isQuote split, reindentedInner, split]
  by_cases further : rest = []
  · subst further
    simp [closeLast, indentLines, enclose]
  · rw [closeLast_cons quote _ further]
    simp only
    rw [map_closeLast, ← closeLast_cons quote _ (indentLines_ne_nil margin further),
      ofLines_closeLast quote (List.cons_ne_nil _ _), ofLines, List.intercalate_cons_cons_left,
      ← ofLines, enclose]

/-! ## What moving keeps -/

/-- Indented lines are lines moved to the right, and empty ones become empty. -/
theorem shifted_indentLines {margin : Text} (indents : Margin.isEmptyLine margin = true)
    (lines : List Text) :
    List.Forall₂ (Margin.Shifted margin) lines (indentLines margin lines) := by
  have moved : ∀ line, Margin.Shifted margin line (margin ++ line) := by
    intro line
    cases content : Margin.isEmptyLine line with
    | true => exact .inl ⟨content, by rw [Margin.isEmptyLine_append indents, content]⟩
    | false => exact .inr ⟨content, rfl⟩
  induction lines with
  | nil => exact .nil
  | cons line rest ih =>
      cases rest with
      | nil => exact .cons (moved line) .nil
      | cons next others =>
          refine .cons ?_ ih
          cases line with
          | nil => exact .inl ⟨rfl, rfl⟩
          | cons character more => exact moved _

/-- The last line is indented even if it is empty, so that the quote behind it is. -/
theorem indentLines_concat (margin : Text) (earlier : List Text) (last : Text) :
    ∃ others, indentLines margin (earlier ++ [last]) = others ++ [margin ++ last] := by
  induction earlier with
  | nil => exact ⟨[], rfl⟩
  | cons line rest ih =>
      obtain ⟨others, behind⟩ := ih
      cases rest with
      | nil => exact ⟨[_], rfl⟩
      | cons next more =>
          refine ⟨(if line.isEmpty then [] else margin ++ line) :: others, ?_⟩
          rw [List.cons_append, List.cons_append, indentLines, ← List.cons_append, behind]
          rfl

/-- Indenting adds only spaces and tabs. -/
private theorem not_mem_indentLines {margin : Text} (indents : Margin.isEmptyLine margin = true)
    {character : Char} (other : isIndent character = false) {lines : List Text}
    (free : ∀ line ∈ lines, character ∉ line) :
    ∀ line ∈ indentLines margin lines, character ∉ line := by
  have moved : ∀ line, character ∉ line → character ∉ margin ++ line := by
    intro line absent member
    rcases List.mem_append.mp member with before | inside
    · rw [List.all_eq_true.mp indents character before] at other
      cases other
    · exact absent inside
  induction lines with
  | nil => exact free
  | cons first rest ih =>
      have own := free first List.mem_cons_self
      cases rest with
      | nil =>
          intro line member
          rw [List.mem_singleton.mp member]
          exact moved first own
      | cons next others =>
          intro line member
          rcases List.mem_cons.mp member with rfl | inside
          · split
            · exact List.not_mem_nil
            · exact moved first own
          · exact ih (fun line within => free line (List.mem_cons_of_mem _ within)) line inside

/-- Of what is between quotes, the lines behind the first one are indented. -/
theorem lines_reindentedInner {margin : Text} (indents : Margin.isEmptyLine margin = true)
    {content first : Text} {rest : List Text} (split : content.lines = first :: rest) :
    (reindentedInner margin content).lines = first :: indentLines margin rest := by
  have free : ∀ line ∈ first :: rest, '\n' ∉ line := by
    intro line member
    exact newline_not_mem_of_mem_lines (by rwa [split])
  rw [reindentedInner, split]
  apply lines_ofLines (List.cons_ne_nil _ _)
  intro line member
  rcases List.mem_cons.mp member with rfl | inside
  · exact free line List.mem_cons_self
  · exact not_mem_indentLines indents rfl
      (fun line within => free line (List.mem_cons_of_mem _ within)) line inside

/-- Moving a text to the right changes only its blanks. -/
theorem solid_reindentedInner {margin : Text} (indents : Margin.isEmptyLine margin = true)
    (content : Text) : (reindentedInner margin content).solid = content.solid := by
  obtain ⟨first, rest, split, whole⟩ := exists_lines content
  rw [reindentedInner, split]
  simp only [solid_ofLines, List.map_cons]
  rw [map_solid_of_shifted indents (shifted_indentLines indents rest), ← List.map_cons,
    ← solid_ofLines, ← whole]

/-- Indenting what is between quotes has no part in what it shields. -/
theorem shields_reindentedInner {quote : Char} (isQuote : IsQuote quote) {margin : Text}
    (indents : Margin.isEmptyLine margin = true) (content : Text) :
    shields quote false (reindentedInner margin content) = shields quote false content := by
  obtain ⟨first, rest, split, whole⟩ := exists_lines content
  have moved : reindentedInner margin content = ofLines (first :: indentLines margin rest) := by
    rw [reindentedInner, split]
  rw [moved, whole, shields_ofLines isQuote, shields_ofLines isQuote, List.all_cons, List.all_cons,
    all_shields_of_shifted isQuote indents (shifted_indentLines indents rest)]

/-- Moving a text between quotes to the right neither ends it earlier nor later. -/
theorem encloses_reindentedInner_iff {quote : Char} (isQuote : IsQuote quote) {margin : Text}
    (indents : Margin.isEmptyLine margin = true) (content : Text) :
    Encloses quote (reindentedInner margin content) ↔ Encloses quote content := by
  obtain ⟨first, rest, split, whole⟩ := exists_lines content
  have noEscape : margin.getLast? ≠ some '\\' := by
    intro last
    cases List.all_eq_true.mp indents '\\' (List.mem_of_getLast? last)
  have moved : reindentedInner margin content = ofLines (first :: indentLines margin rest) := by
    rw [reindentedInner, split]
  have last : (reindentedInner margin content).getLast? = some '\\' ↔
      content.getLast? = some '\\' := by
    rw [moved, whole]
    by_cases further : rest = []
    · rw [further]
      rfl
    · obtain ⟨middle, final, rfl⟩ : ∃ middle final, rest = middle ++ [final] :=
        ⟨_, _, (List.dropLast_concat_getLast further).symm⟩
      obtain ⟨others, behind⟩ := indentLines_concat margin middle final
      rw [behind, ← List.cons_append, ← List.cons_append,
        getLast?_ofLines _ _ (List.cons_ne_nil _ _), getLast?_ofLines _ _ (List.cons_ne_nil _ _),
        List.getLast?_append]
      cases final.getLast? with
      | none => cases edge : margin.getLast? <;> simp_all
      | some character => rfl
  rw [Encloses, Encloses, shields_reindentedInner isQuote indents, ne_eq, ne_eq, last]

/-- A text that tidying leaves as it is, wherever its further lines stand. -/
structure Settled (content : Text) : Prop where
  start : ∀ character ∈ content.head?, isBlank character = false
  stop : content.solid.getLast? = some '\\' ∨
    ∀ character ∈ content.getLast?, isBlank character = false
  noReturn : '\n' ∈ content → '\r' ∉ content
  bare : ∀ first rest, content.lines = first :: rest → Margin.common rest = []
  clean : ∀ first rest, content.lines = first :: rest →
    ∀ line ∈ rest, Margin.isEmptyLine line = true → line = []

/-- There is nothing to strip where no space comes first or last, or a backslash keeps the last
ones. -/
theorem strippedInner_eq_self {content : Text}
    (start : ∀ character ∈ content.head?, isBlank character = false)
    (stop : content.solid.getLast? = some '\\' ∨
      ∀ character ∈ content.getLast?, isBlank character = false) :
    strippedInner content = content := by
  unfold strippedInner
  rw [getLast?_trim]
  split
  · exact trimStart_eq_self start
  next bare =>
    rcases stop with escape | visible
    · exact (bare escape).elim
    · rw [trim, trimStart_eq_self start, trimEnd_eq_self visible]

theorem dropReturn_eq_self {line : Text} (free : '\r' ∉ line) : dropReturn line = line := by
  rw [dropReturn, if_neg fun last => free (List.mem_of_getLast? last)]

/-- A text begins as its first line does. -/
private theorem head?_ofLines {first : Text} (rest : List Text) (nonempty : first ≠ []) :
    (ofLines (first :: rest)).head? = first.head? := by
  obtain ⟨character, more, rfl⟩ := List.exists_cons_of_ne_nil nonempty
  rw [ofLines, List.intercalate_cons_cons_left]
  rfl

/-- A text of several lines that does not begin with a space has something on its first line. -/
private theorem first_ne_nil {first : Text} {rest : List Text} (further : rest ≠ [])
    (start : ∀ character ∈ (ofLines (first :: rest)).head?, isBlank character = false) :
    first ≠ [] := by
  rintro rfl
  obtain ⟨next, others, rfl⟩ := List.exists_cons_of_ne_nil further
  rw [ofLines_cons_cons] at start
  cases start '\n' rfl

/-- Indenting leaves no space at the end where there was none. -/
private theorem getLast?_reindentedInner (margin : Text) {content : Text}
    (visible : ∀ character ∈ content.getLast?, isBlank character = false) :
    ∀ character ∈ (reindentedInner margin content).getLast?, isBlank character = false := by
  obtain ⟨first, rest, split, whole⟩ := exists_lines content
  rw [reindentedInner, split]
  by_cases further : rest = []
  · subst further
    rwa [whole] at visible
  · obtain ⟨middle, final, rfl⟩ : ∃ middle final, rest = middle ++ [final] :=
      ⟨_, _, (List.dropLast_concat_getLast further).symm⟩
    obtain ⟨others, moved⟩ := indentLines_concat margin middle final
    simp only [moved]
    rw [whole, ← List.cons_append, getLast?_ofLines _ _ (List.cons_ne_nil _ _)] at visible
    rw [← List.cons_append, getLast?_ofLines _ _ (List.cons_ne_nil _ _), List.getLast?_append]
    cases ends : final.getLast? with
    | none =>
        rw [ends] at visible
        cases visible '\n' rfl
    | some character =>
        rw [ends] at visible
        exact visible

private theorem dropReturn_map_eq_self {lines : List Text} (free : ∀ line ∈ lines, '\r' ∉ line) :
    lines.map dropReturn = lines :=
  map_eq_self fun line member => dropReturn_eq_self (free line member)

/-- Tidying takes a text back from wherever its further lines have been moved to. -/
theorem Settled.tidiedInner_reindentedInner {content : Text} (settled : Settled content)
    {margin : Text} (indents : Margin.isEmptyLine margin = true) :
    tidiedInner (reindentedInner margin content) = content := by
  obtain ⟨first, rest, split, whole⟩ := exists_lines content
  obtain ⟨start, stop, noReturn, bare, clean⟩ := settled
  by_cases further : rest = []
  · have single : '\n' ∉ content := fun several =>
      (newline_mem_iff split).mp several further
    have same : reindentedInner margin content = content := by
      rw [reindentedInner, split]
      simp only [further, indentLines]
      rw [whole, further]
    rw [same, tidiedInner, strippedInner_eq_self start stop, dedentedInner_of_line single]
  · have free : ∀ line ∈ first :: rest, '\r' ∉ line := by
      intro line member inside
      apply noReturn ((newline_mem_iff split).mpr further)
      rw [whole, mem_ofLines_iff (by decide)]
      exact ⟨line, member, inside⟩
    have moved : reindentedInner margin content = ofLines (first :: indentLines margin rest) := by
      rw [reindentedInner, split]
    have unchanged : strippedInner (reindentedInner margin content) =
        reindentedInner margin content := by
      apply strippedInner_eq_self
      · rw [whole] at start
        have nonempty := first_ne_nil further start
        rw [moved, head?_ofLines _ nonempty]
        rwa [head?_ofLines _ nonempty] at start
      · rw [solid_reindentedInner indents]
        exact stop.imp id (getLast?_reindentedInner margin)
    -- the settled lines have no margin in common, so all of it is the one put before them
    rw [tidiedInner, unchanged, dedentedInner_of_lines (lines_reindentedInner indents split)
      (indentLines_ne_nil margin further), dropReturn_eq_self (free first List.mem_cons_self),
      dropReturn_map_eq_self (not_mem_indentLines indents rfl fun line member =>
        free line (List.mem_cons_of_mem _ member)),
      Margin.remove_of_shifted indents (shifted_indentLines indents rest) (bare first rest split)
        (clean first rest split), ← whole]

/-! ## Tidied texts are settled -/

/-- No space comes first in what is stripped. -/
theorem start_strippedInner (content : Text) :
    ∀ character ∈ (strippedInner content).head?, isBlank character = false := by
  intro character first
  unfold strippedInner at first
  split at first
  · exact head?_trimStart content character first
  · obtain ⟨blanks, _, whole⟩ := exists_trimEnd_append content.trimStart
    apply head?_trimStart content character
    rw [← whole, List.head?_append]
    rw [trim] at first
    rw [Option.mem_def.mp first]
    rfl

/-- No space comes last in what is stripped, unless a backslash stands before it. -/
theorem stop_strippedInner (content : Text) :
    (strippedInner content).solid.getLast? = some '\\' ∨
      ∀ character ∈ (strippedInner content).getLast?, isBlank character = false := by
  rw [solid_strippedInner, ← getLast?_trim]
  by_cases escape : content.trim.getLast? = some '\\'
  · exact .inl escape
  · rw [strippedInner, if_neg escape]
    exact .inr (getLast?_trimEnd _)

/-- Stripping separates no carriage return from its line feed. -/
theorem returnsPaired_strippedInner {content : Text} (paired : content.returnsPaired = true) :
    (strippedInner content).returnsPaired = true := by
  rw [← append_trimStart content] at paired
  have started := returnsPaired_of_append_left paired
  unfold strippedInner
  split
  · exact started
  · obtain ⟨blanks, _, whole⟩ := exists_trimEnd_append content.trimStart
    rw [← whole] at started
    apply returnsPaired_of_append_right started
    intro carriage
    cases getLast?_trimEnd content.trimStart '\r' carriage

/-- The lines of a text in which line feeds follow carriage returns have these at their ends. -/
private theorem return_not_mem_lines {lines : List Text} (free : ∀ line ∈ lines, '\n' ∉ line)
    (paired : (ofLines lines).returnsPaired = true) :
    ∀ line ∈ lines, '\r' ∉ dropReturn line := by
  induction lines with
  | nil => exact fun _ member => (List.not_mem_nil member).elim
  | cons first rest ih =>
      cases rest with
      | nil =>
          intro line member
          rw [List.mem_singleton.mp member]
          rw [ofLines_singleton, ← List.append_nil first] at paired
          exact return_not_mem_dropReturn paired (free first List.mem_cons_self)
      | cons next others =>
          rw [ofLines_cons_cons] at paired
          intro line member
          rcases List.mem_cons.mp member with rfl | inside
          · exact return_not_mem_dropReturn paired (free line List.mem_cons_self)
          · rw [← List.singleton_append, ← List.append_assoc] at paired
            exact ih (fun line within => free line (List.mem_cons_of_mem _ within))
              (returnsPaired_of_append_left paired) line inside

/-- Lines without their margin have no character that they did not have. -/
private theorem not_mem_remove {character : Char} {lines : List Text}
    (free : ∀ line ∈ lines, character ∉ line) :
    ∀ line ∈ Margin.remove lines, character ∉ line := by
  intro line member inside
  obtain ⟨original, within, rfl⟩ := List.mem_map.mp member
  unfold Margin.removeFrom at inside
  split at inside
  · exact List.not_mem_nil inside
  · exact free original within (List.mem_of_mem_drop inside)

/-- Dedented lines are the first one and the others without their margin. -/
theorem lines_dedentedInner {content first : Text} {rest : List Text}
    (split : content.lines = first :: rest) (further : rest ≠ []) :
    (dedentedInner content).lines =
      dropReturn first :: Margin.remove (rest.map dropReturn) := by
  have free : ∀ line ∈ first :: rest, '\n' ∉ dropReturn line := by
    intro line member inside
    obtain ⟨tail, _, whole⟩ := dropReturn_append line
    have absent : '\n' ∉ line := newline_not_mem_of_mem_lines (by rwa [split])
    rw [← whole] at absent
    exact absent (List.mem_append_left _ inside)
  rw [dedentedInner_of_lines split further]
  apply lines_ofLines (List.cons_ne_nil _ _)
  intro line member
  rcases List.mem_cons.mp member with rfl | inside
  · exact free first List.mem_cons_self
  · refine not_mem_remove ?_ line inside
    intro other within
    obtain ⟨original, own, rfl⟩ := List.mem_map.mp within
    exact free original (List.mem_cons_of_mem _ own)

/-- A line that does not begin with a space begins as it did when a carriage return is dropped. -/
private theorem head?_dropReturn {line : Text} (full : line ≠ [])
    (start : ∀ character ∈ line.head?, isBlank character = false) :
    dropReturn line ≠ [] ∧ (dropReturn line).head? = line.head? := by
  obtain ⟨tail, rest, whole⟩ := dropReturn_append line
  have nonempty : dropReturn line ≠ [] := by
    intro empty
    rw [empty, List.nil_append] at whole
    rcases rest with rfl | rfl
    · exact full whole.symm
    · cases start '\r' (by rw [← whole]; rfl)
  refine ⟨nonempty, ?_⟩
  conv_rhs => rw [← whole]
  exact (List.head?_append_of_ne_nil _ nonempty).symm

/-- Dedenting leaves no space at the end where there was none. -/
private theorem visible_dedentedInner {content first : Text} {rest : List Text}
    (split : content.lines = first :: rest) (further : rest ≠ [])
    (visible : ∀ character ∈ content.getLast?, isBlank character = false) :
    ∀ character ∈ (dedentedInner content).getLast?, isBlank character = false := by
  have whole : content = ofLines (first :: rest) := by rw [← split, ofLines_lines]
  obtain ⟨middle, final, rfl⟩ : ∃ middle final, rest = middle ++ [final] :=
    ⟨_, _, (List.dropLast_concat_getLast further).symm⟩
  rw [whole, ← List.cons_append, getLast?_ofLines _ _ (List.cons_ne_nil _ _)] at visible
  cases ends : final.getLast? with
  | none =>
      -- an empty last line would leave a line feed at the end
      rw [ends] at visible
      cases visible '\n' rfl
  | some last =>
      rw [ends] at visible
      have solid := visible last rfl
      have kept : dropReturn final = final := by
        rw [dropReturn, if_neg]
        rw [ends]
        rintro ⟨⟩
        cases solid
      have member : final ∈ (middle ++ [final]).map dropReturn :=
        List.mem_map.mpr ⟨final, by simp, kept⟩
      have same : (Margin.removeFrom (Margin.common ((middle ++ [final]).map dropReturn)).length
          final).getLast? = some last := by
        rcases Margin.shifted_removeFrom member with ⟨_, empty⟩ | ⟨full, moved⟩
        · have indent := List.all_eq_true.mp empty last (List.mem_of_getLast? ends)
          rw [isBlank_of_isIndent indent] at solid
          cases solid
        · rw [moved, List.getLast?_append] at ends
          cases behind : (Margin.removeFrom (Margin.common
              ((middle ++ [final]).map dropReturn)).length final).getLast? with
          | none =>
              rw [List.getLast?_eq_none_iff.mp behind] at full
              cases full
          | some other =>
              rw [behind] at ends
              exact ends
      rw [dedentedInner_of_lines split further, Margin.remove, List.map_append, List.map_append,
        List.map_singleton, List.map_singleton, ← List.cons_append,
        getLast?_ofLines _ _ (List.cons_ne_nil _ _), ← List.map_singleton, ← List.map_append, kept,
        same]
      exact visible

/-- A tidied text is settled, if its carriage returns are paired. -/
theorem settled_tidiedInner {content : Text} (paired : content.returnsPaired = true) :
    Settled (tidiedInner content) := by
  have start := start_strippedInner content
  have stop := stop_strippedInner content
  have paired := returnsPaired_strippedInner paired
  unfold tidiedInner
  generalize strippedInner content = text at start stop paired
  obtain ⟨first, rest, split, whole⟩ := exists_lines text
  by_cases further : rest = []
  · have single : '\n' ∉ text := fun several => (newline_mem_iff split).mp several further
    rw [dedentedInner_of_line single]
    refine ⟨start, stop, fun several => (single several).elim, ?_, ?_⟩
    · intro _ others same
      rw [split, further] at same
      cases same
      rfl
    · intro _ others same line member
      rw [split, further] at same
      cases same
      exact (List.not_mem_nil member).elim
  · have lines := lines_dedentedInner split further
    have free : ∀ line ∈ first :: rest, '\r' ∉ dropReturn line := by
      rw [whole] at paired
      exact return_not_mem_lines
        (fun line member => newline_not_mem_of_mem_lines (by rwa [split])) paired
    refine ⟨?_, ?_, ?_, ?_, ?_⟩
    · rw [whole] at start
      have nonempty := first_ne_nil further start
      rw [head?_ofLines _ nonempty] at start
      obtain ⟨kept, same⟩ := head?_dropReturn nonempty start
      rw [dedentedInner_of_lines split further, head?_ofLines _ kept, same]
      exact start
    · rw [solid_dedentedInner]
      exact stop.imp id (visible_dedentedInner split further)
    · intro _ member
      rw [dedentedInner_of_lines split further, mem_ofLines_iff (by decide)] at member
      obtain ⟨line, own, inside⟩ := member
      rcases List.mem_cons.mp own with rfl | within
      · exact free first List.mem_cons_self inside
      · refine not_mem_remove ?_ line within inside
        intro other among
        obtain ⟨original, own, rfl⟩ := List.mem_map.mp among
        exact free original (List.mem_cons_of_mem _ own)
    · intro _ others same
      rw [lines] at same
      cases same
      exact Margin.common_remove _
    · intro _ others same line member
      rw [lines] at same
      cases same
      exact Margin.eq_nil_of_mem_remove member

/-- Taking the quotes away separates no carriage return from its line feed. -/
theorem returnsPaired_inner {quote : Char} {content : Text} (isQuote : IsQuote quote)
    (paired : (enclose quote content).returnsPaired = true) : content.returnsPaired = true := by
  have behind : (content ++ [quote]).returnsPaired = true := by
    have whole : [quote] ++ (content ++ [quote]) = enclose quote content := rfl
    rw [← whole] at paired
    exact returnsPaired_of_append_left paired
  apply returnsPaired_of_append_right behind
  intro carriage
  obtain ⟨before, rfl⟩ := List.getLast?_eq_some_iff.mp carriage
  rw [List.append_assoc] at behind
  have feed := head?_of_return behind
  rcases isQuote with rfl | rfl <;> cases feed

/-- Where carriage returns are paired, none of them keeps a backslash from the closing quote. -/
theorem IsString.not_strands {text : Text} (isString : IsString text)
    (paired : text.returnsPaired = true) : ¬ Strands (inner text) := by
  obtain ⟨quote, content, isQuote, _, rfl⟩ := isString
  rw [inner_enclose]
  rintro ⟨_, before, rfl⟩
  have inside := returnsPaired_inner isQuote paired
  rw [List.append_cons] at inside
  cases head?_of_return inside

/-- Which quotes are preferred depends only on what is no space. -/
theorem tidiedQuote_of_solid {quote : Char} {content other : Text}
    (same : other.solid = content.solid) :
    tidiedQuote (tidiedQuote quote content) other = tidiedQuote quote content := by
  have present : '"' ∈ other ↔ '"' ∈ content := by
    rw [← mem_solid (by rfl), same, mem_solid (by rfl)]
  unfold tidiedQuote
  by_cases single : quote = '\'' ∧ '"' ∉ content
  · simp [single]
  · rw [if_neg single, if_neg]
    rwa [present]

/-- Tidying takes a tidied string back from wherever it has been moved to. -/
theorem tidied_reindented {text margin : Text} (isString : IsString text)
    (paired : text.returnsPaired = true) (indents : Margin.isEmptyLine margin = true) :
    tidied (reindented margin (tidied text)) = tidied text := by
  obtain ⟨quote, content, isQuote, _, rfl⟩ := isString
  have settled := settled_tidiedInner (returnsPaired_inner isQuote paired)
  have same : (reindentedInner margin (tidiedInner content)).solid = content.solid := by
    rw [solid_reindentedInner indents, solid_tidiedInner]
  rw [tidied_enclose, reindented_enclose (isQuote_tidiedQuote isQuote content), tidied_enclose,
    tidiedQuote_of_solid same, settled.tidiedInner_reindentedInner indents]

end YangFormatter.Quotation
