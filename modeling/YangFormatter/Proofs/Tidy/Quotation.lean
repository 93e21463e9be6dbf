import YangFormatter.Proofs.Text.Lines
import YangFormatter.Proofs.Text.Margin
import YangFormatter.Proofs.Token.Grammar
import YangFormatter.Tidy.Quotation

/-! # Tidied strings

Tidying a string changes its quotes and its blanks and nothing else
(`Quotation.solid_tidiedInner`). The result is again a string, unless a carriage
return is all that keeps a backslash from the closing quote of a string of several
lines (`Quotation.encloses_tidiedInner_iff`).
-/

namespace YangFormatter.Quotation

open Text

/-- What stands between quotes is found again. -/
@[simp]
theorem inner_enclose (quote : Char) (content : Text) :
    inner (enclose quote content) = content := by
  simp [inner, enclose]

/-- What stands between quotes can be replaced. -/
@[simp]
theorem withInner_enclose (quote : Char) (content other : Text) :
    withInner (enclose quote content) other = enclose quote other := rfl

/-- The quotes that a string gets. -/
def tidiedQuote (quote : Char) (content : Text) : Char :=
  if quote = '\'' ∧ '"' ∉ content then '"' else quote

/-- A string is put in double quotes or keeps its quotes. -/
theorem isQuote_tidiedQuote {quote : Char} (isQuote : IsQuote quote) (content : Text) :
    IsQuote (tidiedQuote quote content) := by
  unfold tidiedQuote
  split
  · exact .inl rfl
  · exact isQuote

/-- Preferring double quotes changes the quotes of a string and not what is between them. -/
theorem doubleQuoted_enclose (quote : Char) (content : Text) :
    doubleQuoted (enclose quote content) = enclose (tidiedQuote quote content) content := by
  have head : (enclose quote content).head? = some quote := rfl
  rw [doubleQuoted, tidiedQuote, inner_enclose, head]
  simp only [Option.some.injEq]
  split <;> rfl

/-- Stripping changes what is between the quotes of a string. -/
theorem stripped_enclose (quote : Char) (content : Text) :
    stripped (enclose quote content) = enclose quote (strippedInner content) := by
  rw [stripped, inner_enclose, withInner_enclose]

/-- The lines of a text with the margin of all but the first removed. -/
def dedentedInner (content : Text) : Text :=
  if content.lines.length < 2 then content
  else .ofLines (dedentLines (content.lines.map dropReturn))

/-- Dedenting changes what is between the quotes of a string. -/
theorem dedented_enclose (quote : Char) (content : Text) :
    dedented (enclose quote content) = enclose quote (dedentedInner content) := by
  unfold dedented dedentedInner
  simp only [inner_enclose, List.length_map, withInner_enclose]
  split <;> rfl

/-- Dedenting works on the lines behind the first one. -/
theorem dedentedInner_of_lines {content first : Text} {rest : List Text}
    (split : content.lines = first :: rest) (further : rest ≠ []) :
    dedentedInner content = .ofLines (dropReturn first :: Margin.remove (rest.map dropReturn)) := by
  have several : ¬ content.lines.length < 2 := by
    have := List.length_pos_iff.mpr further
    rw [split, List.length_cons]
    omega
  rw [dedentedInner, if_neg several, split, List.map_cons, dedentLines]

/-- Dedenting leaves a string of one line as it is. -/
theorem dedentedInner_of_line {content : Text} (single : '\n' ∉ content) :
    dedentedInner content = content := by
  rw [dedentedInner, Text.lines, List.splitOn_eq_singleton single, if_pos (by simp)]

/-- What tidying makes of the text between the quotes. -/
def tidiedInner (content : Text) : Text :=
  dedentedInner (strippedInner content)

/-- All that tidying does to a string. -/
def tidied (text : Text) : Text :=
  dedented (stripped (doubleQuoted text))

/-- A string is tidied by choosing its quotes and tidying what stands between them. -/
theorem tidied_enclose (quote : Char) (content : Text) :
    tidied (enclose quote content) =
      enclose (tidiedQuote quote content) (tidiedInner content) := by
  rw [tidied, doubleQuoted_enclose, stripped_enclose, dedented_enclose, tidiedInner]

/-! ## Only blanks change -/

/-- Stripping removes spaces only. -/
theorem solid_strippedInner (content : Text) : (strippedInner content).solid = content.solid := by
  unfold strippedInner
  split
  · exact solid_trimStart content
  · rw [trim, solid_trimEnd, solid_trimStart]

/-- A line loses a carriage return at its end and nothing else. -/
theorem dropReturn_append (line : Text) : ∃ tail : Text,
    (tail = [] ∨ tail = ['\r']) ∧ dropReturn line ++ tail = line := by
  unfold dropReturn
  split
  next last =>
    obtain ⟨before, rfl⟩ := List.getLast?_eq_some_iff.mp last
    exact ⟨['\r'], .inr rfl, by simp⟩
  next => exact ⟨[], .inl rfl, List.append_nil line⟩

/-- A carriage return at the end of a line counts as a space. -/
theorem solid_dropReturn (line : Text) : (dropReturn line).solid = line.solid := by
  obtain ⟨tail, rfl | rfl, whole⟩ := dropReturn_append line
  · rw [← congrArg solid whole, List.append_nil]
  · rw [← congrArg solid whole, solid_append]
    simp [solid, isBlank]

/-- An empty line has nothing but spaces. -/
private theorem isBlank_of_isEmptyLine {line : Text} (empty : Margin.isEmptyLine line = true) :
    ∀ character ∈ line, isBlank character = true := by
  intro character member
  exact isBlank_of_isIndent (List.all_eq_true.mp empty character member)

/-- Moving a line to the right adds or removes spaces only. -/
private theorem solid_of_shifted {margin line moved : Text}
    (indents : Margin.isEmptyLine margin = true) (shifted : Margin.Shifted margin line moved) :
    moved.solid = line.solid := by
  rcases shifted with ⟨empty, emptyToo⟩ | ⟨_, rfl⟩
  · rw [solid_eq_nil (isBlank_of_isEmptyLine empty), solid_eq_nil (isBlank_of_isEmptyLine emptyToo)]
  · rw [solid_append, solid_eq_nil (isBlank_of_isEmptyLine indents), List.nil_append]

theorem map_solid_of_shifted {margin : Text} (indents : Margin.isEmptyLine margin = true)
    {lines moved : List Text} (shifted : List.Forall₂ (Margin.Shifted margin) lines moved) :
    moved.map solid = lines.map solid := by
  induction shifted with
  | nil => rfl
  | cons first _ ih => rw [List.map_cons, List.map_cons, solid_of_shifted indents first, ih]

/-- Dedenting removes spaces only. -/
theorem solid_dedentedInner (content : Text) : (dedentedInner content).solid = content.solid := by
  obtain ⟨first, rest, split, whole⟩ := exists_lines content
  by_cases several : '\n' ∈ content
  · have moved := map_solid_of_shifted (Margin.isEmptyLine_common _)
      (Margin.shifted_remove (rest.map dropReturn))
    have kept : (rest.map dropReturn).map solid = rest.map solid := by
      rw [List.map_map]
      exact List.map_congr_left fun line _ => solid_dropReturn line
    rw [dedentedInner_of_lines split ((newline_mem_iff split).mp several), solid_ofLines,
      List.map_cons, ← moved, kept, solid_dropReturn, ← List.map_cons, ← solid_ofLines, ← whole]
  · rw [dedentedInner_of_line several]

/-- Tidying the text between quotes changes only blanks. -/
theorem solid_tidiedInner (content : Text) : (tidiedInner content).solid = content.solid := by
  rw [tidiedInner, solid_dedentedInner, solid_strippedInner]

/-! ## Strings stay strings -/

/-- A quote is no space. -/
private theorem not_isBlank_of_isQuote {quote : Char} (isQuote : IsQuote quote) :
    isBlank quote = false := by
  rcases isQuote with rfl | rfl <;> rfl

/-- A line feed separates what is shielded before it from what is shielded behind it. -/
private theorem shields_append_newline {quote : Char} (isQuote : IsQuote quote) (escaped : Bool)
    (first second : Text) :
    shields quote escaped (first ++ '\n' :: second) =
      (shields quote escaped first && shields quote false second) := by
  have other : ('\n' != quote) = true := by rcases isQuote with rfl | rfl <;> rfl
  induction first generalizing escaped with
  | nil => simp [shields, other]
  | cons character rest ih => rw [List.cons_append, shields, shields, ih, Bool.and_assoc]

/-- A text shields its quotes exactly if each of its lines does. -/
theorem shields_ofLines {quote : Char} (isQuote : IsQuote quote) (lines : List Text) :
    shields quote false (.ofLines lines) = lines.all (shields quote false) := by
  induction lines with
  | nil => rfl
  | cons first rest ih =>
      cases rest with
      | nil => simp
      | cons next others =>
          rw [ofLines_cons_cons, shields_append_newline isQuote, ih]
          rfl

/-- What begins a text that shields its quotes shields its own. -/
private theorem shields_of_append {quote : Char} {escaped : Bool} {first second : Text}
    (whole : shields quote escaped (first ++ second) = true) :
    shields quote escaped first = true := by
  induction first generalizing escaped with
  | nil => rfl
  | cons character rest ih =>
      rw [List.cons_append, shields, Bool.and_eq_true] at whole
      rw [shields, Bool.and_eq_true]
      exact ⟨whole.1, ih whole.2⟩

/-- Spaces at the start of a text have no part in what it shields. -/
private theorem shields_blank_append {quote : Char} (isQuote : IsQuote quote) {blanks text : Text}
    (blank : ∀ character ∈ blanks, isBlank character = true) :
    shields quote false (blanks ++ text) = shields quote false text := by
  induction blanks with
  | nil => rfl
  | cons character rest ih =>
      have own := blank character List.mem_cons_self
      have noQuote : character ≠ quote := by
        rintro rfl
        rw [not_isBlank_of_isQuote isQuote] at own
        cases own
      have noEscape : (character == '\\') = false := by
        apply beq_eq_false_iff_ne.mpr
        rintro rfl
        cases own
      rw [List.cons_append, shields, noEscape,
        ih fun other member => blank other (List.mem_cons_of_mem _ member)]
      simp [noQuote]

/-- Spaces have no quote to shield. -/
theorem shields_of_blank {quote : Char} (isQuote : IsQuote quote) {blanks : Text}
    (blank : ∀ character ∈ blanks, isBlank character = true) :
    shields quote false blanks = true := by
  have alone : shields quote false (blanks ++ []) = shields quote false [] :=
    shields_blank_append isQuote blank
  rwa [List.append_nil] at alone

/-- Moving a line to the right has no part in what it shields. -/
private theorem shields_of_shifted {quote : Char} (isQuote : IsQuote quote)
    {margin line moved : Text} (indents : Margin.isEmptyLine margin = true)
    (shifted : Margin.Shifted margin line moved) :
    shields quote false moved = shields quote false line := by
  rcases shifted with ⟨empty, emptyToo⟩ | ⟨_, rfl⟩
  · rw [shields_of_blank isQuote (isBlank_of_isEmptyLine empty),
      shields_of_blank isQuote (isBlank_of_isEmptyLine emptyToo)]
  · exact shields_blank_append isQuote (isBlank_of_isEmptyLine indents)

/-- Moving lines to the right has no part in what they shield. -/
theorem all_shields_of_shifted {quote : Char} (isQuote : IsQuote quote) {margin : Text}
    (indents : Margin.isEmptyLine margin = true) {lines moved : List Text}
    (shifted : List.Forall₂ (Margin.Shifted margin) lines moved) :
    moved.all (shields quote false) = lines.all (shields quote false) := by
  induction shifted with
  | nil => rfl
  | cons first _ ih =>
      rw [List.all_cons, List.all_cons, shields_of_shifted isQuote indents first, ih]

/-- A text between quotes can be stripped between them. -/
theorem Encloses.strippedInner {quote : Char} {content : Text} (encloses : Encloses quote content)
    (isQuote : IsQuote quote) : Encloses quote (strippedInner content) := by
  obtain ⟨shielded, last⟩ := encloses
  rw [← append_trimStart content, shields_blank_append isQuote isBlank_of_mem_takeWhile] at shielded
  unfold Quotation.strippedInner
  split
  next kept =>
    refine ⟨shielded, ?_⟩
    intro escape
    rw [← append_trimStart content, List.getLast?_append, escape] at last
    exact last rfl
  next bare =>
    refine ⟨?_, bare⟩
    obtain ⟨blanks, _, whole⟩ := exists_trimEnd_append content.trimStart
    rw [← whole] at shielded
    exact shields_of_append shielded

/-- A line that is moved to the right ends with a backslash exactly if it did before. -/
private theorem getLast?_of_shifted {margin line moved : Text}
    (shifted : Margin.Shifted margin line moved) :
    line.getLast? = some '\\' ↔ moved.getLast? = some '\\' := by
  have indented : ∀ text, Margin.isEmptyLine text = true → text.getLast? ≠ some '\\' := by
    intro text empty last
    have indent := List.all_eq_true.mp empty '\\' (List.mem_of_getLast? last)
    cases indent
  rcases shifted with ⟨empty, emptyToo⟩ | ⟨content, rfl⟩
  · exact ⟨fun last => (indented _ empty last).elim, fun last => (indented _ emptyToo last).elim⟩
  · cases line with
    | nil => cases content
    | cons first rest => rw [List.getLast?_append, List.getLast?_cons]; simp

/-- The carriage return at the end of a text of several lines is that of its last line. -/
private theorem dropReturn_ofLines (earlier : List Text) (last : Text) (several : earlier ≠ []) :
    dropReturn (.ofLines (earlier ++ [last])) = .ofLines (earlier ++ [dropReturn last]) := by
  have ends := getLast?_ofLines earlier last several
  unfold dropReturn
  cases final : last.getLast? with
  | none =>
      rw [final] at ends
      rw [if_neg (by rw [ends]; decide), if_neg (by decide)]
  | some character =>
      obtain ⟨before, rfl⟩ := List.getLast?_eq_some_iff.mp final
      rw [final] at ends
      rw [ends, Option.some_or]
      split
      · rw [ofLines_append_singleton _ _ several, ofLines_append_singleton _ _ several,
          ← List.cons_append, ← List.append_assoc, List.dropLast_concat, List.dropLast_concat]
      · rfl

/-- The tidied lines of a text end in a backslash exactly if the text does without
its last carriage return. -/
private theorem getLast?_dedentedInner {content : Text} (several : '\n' ∈ content) :
    (dedentedInner content).getLast? = some '\\' ↔ (dropReturn content).getLast? = some '\\' := by
  obtain ⟨first, rest, split, whole⟩ := exists_lines content
  have further := (newline_mem_iff split).mp several
  obtain ⟨middle, last, rfl⟩ : ∃ middle last, rest = middle ++ [last] :=
    ⟨_, _, (List.dropLast_concat_getLast further).symm⟩
  have member : dropReturn last ∈ (middle ++ [last]).map dropReturn :=
    List.mem_map.mpr ⟨last, by simp, rfl⟩
  rw [dedentedInner_of_lines split further, Margin.remove, List.map_append, List.map_append,
    List.map_singleton, List.map_singleton, ← List.cons_append,
    getLast?_ofLines _ _ (List.cons_ne_nil _ _), whole, ← List.cons_append,
    dropReturn_ofLines _ _ (List.cons_ne_nil _ _), getLast?_ofLines _ _ (List.cons_ne_nil _ _)]
  have same := getLast?_of_shifted (Margin.shifted_removeFrom member)
  rw [List.map_append, List.map_singleton] at same
  have ends : ∀ text : Text, text.getLast?.or (some '\n') = some '\\' ↔
      text.getLast? = some '\\' := by
    intro text
    cases text.getLast? <;> simp
  rw [ends, ends, same]

/-- Dedenting uncovers no quote. -/
private theorem shields_dedentedInner {quote : Char} {content : Text} (isQuote : IsQuote quote)
    (shielded : shields quote false content = true) :
    shields quote false (dedentedInner content) = true := by
  by_cases several : '\n' ∈ content
  · obtain ⟨first, rest, split, whole⟩ := exists_lines content
    rw [whole, shields_ofLines isQuote] at shielded
    have each : ∀ line ∈ first :: rest, shields quote false (dropReturn line) = true := by
      intro line member
      obtain ⟨tail, _, same⟩ := dropReturn_append line
      have own := List.all_eq_true.mp shielded line member
      rw [← same] at own
      exact shields_of_append own
    rw [dedentedInner_of_lines split ((newline_mem_iff split).mp several),
      shields_ofLines isQuote, List.all_cons, Bool.and_eq_true,
      ← all_shields_of_shifted isQuote (Margin.isEmptyLine_common _) (Margin.shifted_remove _)]
    refine ⟨each first List.mem_cons_self, ?_⟩
    rw [List.all_map]
    exact List.all_eq_true.mpr fun line member => each line (List.mem_cons_of_mem _ member)
  · rwa [dedentedInner_of_line several]

/-- What is dedented can stand between its quotes unless the last of several lines is left with a
backslash at its end. -/
private theorem encloses_dedentedInner_iff {quote : Char} {content : Text}
    (encloses : Encloses quote content) (isQuote : IsQuote quote) :
    Encloses quote (dedentedInner content) ↔
      ¬ ('\n' ∈ content ∧ (dropReturn content).getLast? = some '\\') := by
  by_cases several : '\n' ∈ content
  · have shielded := shields_dedentedInner isQuote encloses.1
    have last := getLast?_dedentedInner several
    constructor
    · rintro kept ⟨_, escape⟩
      exact kept.2 (last.mpr escape)
    · intro kept
      exact ⟨shielded, fun escape => kept ⟨several, last.mp escape⟩⟩
  · rw [dedentedInner_of_line several]
    exact ⟨fun _ both => several both.1, fun _ => encloses⟩

/-- Tidying uncovers no quote within a text. -/
theorem Encloses.shields_tidiedInner {quote : Char} {content : Text}
    (encloses : Encloses quote content) (isQuote : IsQuote quote) :
    shields quote false (tidiedInner content) = true :=
  shields_dedentedInner isQuote (encloses.strippedInner isQuote).1

/-- Only a carriage return keeps a backslash from the closing quote of a text of
several lines. -/
def Strands (content : Text) : Prop :=
  '\n' ∈ content.trimStart ∧ ['\\', '\r'] <:+ content

instance (content : Text) : Decidable (Strands content) :=
  inferInstanceAs (Decidable (_ ∧ _))

/-- A backslash comes last when a carriage return is dropped exactly if the return stands behind a
backslash. -/
private theorem dropReturn_getLast?_iff {content : Text} (last : content.getLast? ≠ some '\\') :
    (dropReturn content).getLast? = some '\\' ↔ ['\\', '\r'] <:+ content := by
  constructor
  · intro escape
    obtain ⟨tail, rfl | rfl, whole⟩ := dropReturn_append content
    · rw [List.append_nil] at whole
      rw [whole] at escape
      exact (last escape).elim
    · obtain ⟨before, same⟩ := List.getLast?_eq_some_iff.mp escape
      refine ⟨before, ?_⟩
      rw [← whole, same, List.append_assoc]
      rfl
  · rintro ⟨before, rfl⟩
    have ends : (before ++ ['\\', '\r']).getLast? = some '\r' := by simp
    rw [dropReturn, if_pos ends]
    simp

/-- A backslash is stranded exactly if a return behind it ends the last of several lines. -/
private theorem strands_iff {content : Text} (last : content.getLast? ≠ some '\\') :
    Strands content ↔
      '\n' ∈ strippedInner content ∧ ['\\', '\r'] <:+ strippedInner content := by
  constructor
  · rintro ⟨several, before, rfl⟩
    have kept : (trim (before ++ ['\\', '\r'])).getLast? = some '\\' := by
      rw [getLast?_trim, solid_append]
      simp [solid, isBlank]
    rw [strippedInner, if_pos kept]
    refine ⟨several, ?_⟩
    rw [trimStart, List.dropWhile_append]
    split
    · exact List.suffix_rfl
    · exact List.suffix_append _ _
  · rintro ⟨several, suffix⟩
    have kept : content.trim.getLast? = some '\\' := by
      by_contra bare
      rw [strippedInner, if_neg bare] at suffix
      obtain ⟨before, same⟩ := suffix
      have blank := getLast?_trimEnd content.trimStart '\r' (by
        rw [← trim, ← same]
        simp)
      cases blank
    rw [strippedInner, if_pos kept] at several suffix
    exact ⟨several, suffix.trans (List.dropWhile_suffix _)⟩

/-- What is tidied can stand between its quotes exactly if no backslash is stranded. -/
theorem encloses_tidiedInner_iff {quote : Char} {content : Text}
    (encloses : Encloses quote content) (isQuote : IsQuote quote) :
    Encloses quote (tidiedInner content) ↔ ¬ Strands content := by
  have stripped := encloses.strippedInner isQuote
  rw [tidiedInner, encloses_dedentedInner_iff stripped isQuote, strands_iff encloses.2,
    dropReturn_getLast?_iff stripped.2]

/-- A text without a quote has none to shield. -/
theorem shields_of_not_mem {quote : Char} {escaped : Bool} {content : Text}
    (free : quote ∉ content) : shields quote escaped content = true := by
  induction content generalizing escaped with
  | nil => rfl
  | cons character rest ih =>
      have other : character ≠ quote := by
        rintro rfl
        exact free List.mem_cons_self
      rw [shields, ih fun member => free (List.mem_cons_of_mem _ member)]
      simp [other]

/-- What can stand between its quotes can stand between double quotes if they are preferred. -/
theorem Encloses.tidiedQuote {quote : Char} {content : Text} (encloses : Encloses quote content) :
    Encloses (tidiedQuote quote content) content := by
  unfold Quotation.tidiedQuote
  split
  next free => exact ⟨shields_of_not_mem free.2, encloses.2⟩
  next => exact encloses

/-- A text between quotes is a string exactly if it can stand between them. -/
theorem isString_enclose {quote : Char} {content : Text} :
    IsString (enclose quote content) ↔ IsQuote quote ∧ Encloses quote content := by
  constructor
  · rintro ⟨other, inside, isQuote, encloses, same⟩
    have quotes : quote = other := (List.cons.inj same).1
    subst quotes
    have contents := congrArg inner same
    rw [inner_enclose, inner_enclose] at contents
    subst contents
    exact ⟨isQuote, encloses⟩
  · rintro ⟨isQuote, encloses⟩
    exact ⟨quote, content, isQuote, encloses, rfl⟩

/-- A tidied string is a string exactly where no backslash is stranded. -/
theorem isString_tidied_iff {text : Text} (isString : IsString text) :
    IsString (tidied text) ↔ ¬ Strands (inner text) := by
  obtain ⟨quote, content, isQuote, encloses, rfl⟩ := isString
  have isQuote' := isQuote_tidiedQuote isQuote content
  rw [tidied_enclose, isString_enclose, inner_enclose,
    ← encloses_tidiedInner_iff encloses.tidiedQuote isQuote']
  exact ⟨fun both => both.2, fun kept => ⟨isQuote', kept⟩⟩

end YangFormatter.Quotation
