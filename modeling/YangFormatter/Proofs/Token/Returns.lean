import YangFormatter.Proofs.Text.Lines
import YangFormatter.Proofs.Token.Grammar
import YangFormatter.Tidy.Quotation

/-! # Paired carriage returns

In files with either kind of line break every carriage return stands directly before
a line feed (`Text.returnsPaired`). Then the returns within a token are paired too,
and there are none in a line comment (`Lexeme.returnsPaired_of_lexes`).
-/

namespace YangFormatter

namespace Text

/-- Whether every carriage return stands directly before a line feed. -/
def returnsPaired : Text → Bool
  | [] => true
  | character :: rest =>
      (character != '\r' || rest.head? == some '\n') && returnsPaired rest

/-- Line feeds follow carriage returns in what ends such a text. -/
theorem returnsPaired_of_append_left {before text : Text}
    (paired : returnsPaired (before ++ text) = true) : returnsPaired text = true := by
  induction before with
  | nil => exact paired
  | cons character rest ih =>
      rw [List.cons_append, returnsPaired, Bool.and_eq_true] at paired
      exact ih paired.2

/-- Line feeds follow carriage returns in what begins such a text, if no return ends it. -/
theorem returnsPaired_of_append_right {text behind : Text}
    (paired : returnsPaired (text ++ behind) = true) (last : text.getLast? ≠ some '\r') :
    returnsPaired text = true := by
  induction text with
  | nil => rfl
  | cons character rest ih =>
      rw [List.cons_append, returnsPaired, Bool.and_eq_true] at paired
      rw [returnsPaired, Bool.and_eq_true]
      cases rest with
      | nil =>
          refine ⟨?_, rfl⟩
          have other : character ≠ '\r' := by
            rintro rfl
            exact last rfl
          simp [other]
      | cons second others =>
          exact ⟨paired.1, ih paired.2 (by simpa [List.getLast?_cons] using last)⟩

/-- A line feed follows a carriage return in such a text. -/
theorem head?_of_return {before rest : Text}
    (paired : returnsPaired (before ++ '\r' :: rest) = true) : rest.head? = some '\n' := by
  have own := returnsPaired_of_append_left paired
  rw [returnsPaired, Bool.and_eq_true] at own
  simpa using own.1

/-- A carriage return within a line of a text stands at its end. -/
theorem return_not_mem_dropReturn {line behind : Text}
    (paired : returnsPaired (line ++ behind) = true) (free : '\n' ∉ line) :
    '\r' ∉ Quotation.dropReturn line := by
  by_cases member : '\r' ∈ line
  · obtain ⟨before, after, rfl, noReturn⟩ := List.eq_append_cons_of_mem member
    rw [List.append_assoc, List.cons_append] at paired
    have feed := head?_of_return paired
    cases after with
    | nil =>
        rw [Quotation.dropReturn, if_pos (by simp), List.dropLast_concat]
        exact noReturn
    | cons next others =>
        have same : next = '\n' := by simpa using feed
        exact (free (by simp [same])).elim
  · unfold Quotation.dropReturn
    split
    · exact fun inside => member (List.dropLast_subset _ inside)
    · exact member

/-- A line with no text behind it has no carriage return. -/
theorem return_not_mem_of_paired {line : Text} (paired : returnsPaired line = true)
    (free : '\n' ∉ line) : '\r' ∉ line := by
  intro member
  obtain ⟨before, after, rfl⟩ := List.append_of_mem member
  have feed := List.mem_of_mem_head? (head?_of_return paired)
  exact free (by simp [feed])

end Text

open Text

/-- The carriage returns of a token are paired, and a line comment has none. -/
def Lexeme.ReturnsPaired (lexeme : Lexeme) : Prop :=
  match lexeme.kind with
  | .string => lexeme.text.returnsPaired = true
  | .comment => Comment.IsLine lexeme.text → '\r' ∉ lexeme.text
  | _ => True

/-- Line feeds follow carriage returns in the first token of such a text, unless it goes to the end
of its line. -/
private theorem returnsPaired_first {lexeme : Lexeme} {rest : Text} (formed : lexeme.WellFormed)
    (ends : lexeme.Ends rest) (paired : returnsPaired (lexeme.text ++ rest) = true) :
    lexeme.ReturnsPaired := by
  obtain ⟨kind, text⟩ := lexeme
  cases kind with
  | string =>
      obtain ⟨quote, content, isQuote, _, rfl⟩ := formed
      apply returnsPaired_of_append_right paired
      rcases isQuote with rfl | rfl <;> simp [Quotation.enclose, List.getLast?_cons]
  | comment =>
      intro line
      have last : text.getLast? ≠ some '\r' := by
        intro carriage
        obtain ⟨before, same⟩ := List.getLast?_eq_some_iff.mp carriage
        rw [same, List.append_assoc] at paired
        have feed := head?_of_return paired
        rcases ends line with rfl | ⟨_, rfl⟩ | ⟨_, rfl, other⟩
        · cases feed
        · cases feed
        · exact other carriage
      obtain ⟨body, rfl, free⟩ := line
      apply return_not_mem_of_paired (returnsPaired_of_append_right paired last)
      simpa using free
  | whitespace | lineBreak | number | date | other | semicolon | plus | openBlock | closeBlock =>
      trivial

/-- The tokens of a text with paired carriage returns have paired returns. -/
theorem Lexeme.returnsPaired_of_lexes {text : Text} {lexemes : List Lexeme}
    (lexes : Lexes text lexemes) (paired : text.returnsPaired = true) :
    ∀ lexeme ∈ lexemes, lexeme.ReturnsPaired := by
  induction lexes with
  | nil => exact fun _ member => (List.not_mem_nil member).elim
  | cons formed ends _ ih =>
      intro lexeme member
      rcases List.mem_cons.mp member with rfl | inside
      · exact returnsPaired_first formed ends paired
      · exact ih (returnsPaired_of_append_left paired) lexeme inside

end YangFormatter
