import YangFormatter.Layout.Obstacle
import YangFormatter.Proofs.Layout.Statement
import YangFormatter.Proofs.Tidy.Requoting

/-! # Strings of several lines

A tidied string of several lines is laid out below its keyword, with its lines after the first
behind a margin. What is printed is one token, and tidying it removes the margin again
(`Header.attemptStrings_multiline`).
-/

namespace YangFormatter

/-- A string that tidying makes of a token is a token, if its carriage returns are paired. -/
theorem Quotation.isToken_tidied {text : Text} (token : IsToken text)
    (paired : text.returnsPaired = true) : IsToken (tidied text) := by
  have isString := isToken_iff.mp token
  exact isToken_iff.mpr ((isString_tidied_iff isString).mpr (isString.not_strands paired))

namespace Header

open Quotation

/-- All that tidying does to the strings of a statement: the quotes first, then the blanks at
the ends of a string that is the whole value, and last the margin of its lines. -/
def attemptStrings (header : Header) : Attempt Header :=
  header.attemptRequote.andThen attemptDedent

/-- Nothing goes wrong with a string that is a token. -/
theorem attemptStrings_of_token (header : Header) {text : Text} (token : IsToken text) :
    attemptStrings { header with value := some (.quoted text) } =
      ⟨{ header with value := some (.quoted (Quotation.tidied text)) }, none⟩ := by
  have tokens : ∀ value ∈ some (Value.quoted text), ∀ string ∈ value.strings, IsToken string := by
    intro value same string member
    cases same
    rwa [List.mem_singleton.mp member]
  rw [attemptStrings, attemptRequote_of_tokens tokens]
  rfl

/-- The layout of a string of several lines is undone by tidying: behind the line break and the
indentation stands one token, and the string is what becomes of it. The indentation is the one
that every machine makes which can make it. -/
theorem attemptStrings_multiline (header : Header) {text : Text} (token : IsToken text)
    (paired : text.returnsPaired = true) :
    ∃ string, attemptStrings { header with value := some (.quoted text) } =
        ⟨{ header with value := some (.quoted string) }, none⟩ ∧
      ('\n' ∈ string → ∀ (style : Style) (depth : Int), ∃ printed,
        (∀ machine own, style.indent? machine (depth + 1) = .ok own →
          own = style.indent (depth + 1)) ∧
        (∀ column, Layout.value style depth header.keyword column (.quoted string) =
          Layout.multiline (style.indent (depth + 1)) string) ∧
        Layout.multiline (style.indent (depth + 1)) string =
          '\n' :: (style.indent (depth + 1) ++ printed) ∧
        IsToken printed ∧
        attemptStrings { header with value := some (.quoted printed) } =
          ⟨{ header with value := some (.quoted string) }, none⟩) := by
  refine ⟨Quotation.tidied text, attemptStrings_of_token header token, ?_⟩
  intro several style depth
  have indents := Relayout.isEmptyLine_margin style depth
  have isString := isToken_iff.mp (isToken_tidied token paired)
  have moved : IsToken (reindented (Relayout.margin style depth) (Quotation.tidied text)) :=
    isToken_iff.mpr (isString_reindented isString indents)
  refine ⟨reindented (Relayout.margin style depth) (Quotation.tidied text),
    fun _ _ => Style.eq_indent_of_indent?, fun column => ?_, Layout.multiline_eq _ _, moved, ?_⟩
  · rw [Layout.value, if_pos]
    rwa [isMultiline, List.contains_iff_mem]
  · rw [attemptStrings_of_token header moved,
      tidied_reindented (isToken_iff.mp token) paired indents]

/-- Lines behind a tab and a space, and a blank that a backslash keeps at the end. -/
theorem attemptStrings_multiline_backslash :
    let header : Header := { keyword := "a".toList }
    let string := "\"x\n y\n\n\tz\\ \"".toList
    let printed := "\"x\n    y\n\n   \tz\\ \"".toList
    attemptStrings { header with value := some (.quoted "' x\r\n\t y\r\n\r\n\t\tz\\ '".toList) } =
        ⟨{ header with value := some (.quoted string) }, none⟩ ∧
      Layout.multiline (Style.indent {} 1) string = '\n' :: (Style.indent {} 1 ++ printed) ∧
      IsToken printed ∧
      attemptStrings { header with value := some (.quoted printed) } =
        ⟨{ header with value := some (.quoted string) }, none⟩ := by
  intro header string printed
  have token : IsToken "' x\r\n\t y\r\n\r\n\t\tz\\ '".toList :=
    isToken_iff.mpr
      ⟨'\'', " x\r\n\t y\r\n\r\n\t\tz\\ ".toList, .inr rfl, ⟨by decide, by decide⟩, rfl⟩
  obtain ⟨other, tidies, back⟩ := attemptStrings_multiline header token (by decide)
  have same : other = string := by
    have done : attemptStrings { header with
        value := some (.quoted "' x\r\n\t y\r\n\r\n\t\tz\\ '".toList) } =
          ⟨{ header with value := some (.quoted string) }, none⟩ := by decide
    rw [tidies] at done
    cases done
    rfl
  subst same
  obtain ⟨behind, _, _, lays, isToken, again⟩ := back (by decide) {} 0
  have same : behind = printed := by
    have laid : Layout.multiline (Style.indent {} (0 + 1)) string =
        '\n' :: (Style.indent {} (0 + 1) ++ printed) := by decide
    rw [lays] at laid
    exact List.append_cancel_left (List.cons.inj laid).2
  subst same
  exact ⟨tidies, lays, isToken, again⟩

end Header

end YangFormatter
