import YangFormatter.Proofs.Tidy.Quotation
import YangFormatter.Proofs.Tree.Pieces
import YangFormatter.Tidy.Header

/-! # Tidied statements

A tidied statement is made of the tokens of the statement, but for its strings
(`Header.MadeOf.tidied`): its comments all stand behind the terminator, and its value
has none at the end (`Value.lastComments_tidied`).
-/

namespace YangFormatter

namespace Quotation

/-- Putting a string in double quotes twice is doing it once. -/
theorem doubleQuoted_doubleQuoted (text : Text) :
    doubleQuoted (doubleQuoted text) = doubleQuoted text := by
  by_cases single : text.head? = some '\'' ∧ '"' ∉ inner text
  · have double : doubleQuoted text = '"' :: inner text ++ ['"'] := by
      rw [doubleQuoted, if_pos single]
    rw [double, doubleQuoted, if_neg (by simp)]
  · rw [doubleQuoted, doubleQuoted, if_neg single, if_neg single]

/-- A string in other quotes is a string. -/
theorem isString_doubleQuoted {text : Text} (isString : IsString text) :
    IsString (doubleQuoted text) := by
  obtain ⟨quote, content, isQuote, encloses, rfl⟩ := isString
  rw [doubleQuoted_enclose, isString_enclose]
  exact ⟨isQuote_tidiedQuote isQuote content, encloses.tidiedQuote⟩

end Quotation

namespace Fragment

/-- Dropping comments keeps the strings. -/
theorem map_text_dropLastComments (fragments : List Fragment) :
    (dropLastComments fragments).map Fragment.text = fragments.map Fragment.text := by
  fun_induction dropLastComments fragments with
  | case1 => rfl
  | case2 last => rfl
  | case3 first second rest ih => exact congrArg (first.text :: ·) ih

/-- Dropping comments drops no string. -/
theorem length_dropLastComments (fragments : List Fragment) :
    (dropLastComments fragments).length = fragments.length := by
  have same := congrArg List.length (map_text_dropLastComments fragments)
  rwa [List.length_map, List.length_map] at same

/-- A string stays as it is, or it loses its comments. -/
theorem mem_dropLastComments {fragments : List Fragment} {fragment : Fragment}
    (member : fragment ∈ dropLastComments fragments) :
    fragment ∈ fragments ∨ ∃ last ∈ fragments, fragment = { last with comments := [] } := by
  fun_induction dropLastComments fragments with
  | case1 => exact .inl member
  | case2 last => exact .inr ⟨last, List.mem_cons_self, List.mem_singleton.mp member⟩
  | case3 first second rest ih =>
      rcases List.mem_cons.mp member with rfl | inside
      · exact .inl List.mem_cons_self
      · rcases ih inside with kept | ⟨last, own, same⟩
        · exact .inl (List.mem_cons_of_mem _ kept)
        · exact .inr ⟨last, List.mem_cons_of_mem _ own, same⟩

/-- The last string has no comments when they are dropped. -/
theorem getLast?_dropLastComments (fragments : List Fragment) :
    (dropLastComments fragments).getLast?.elim [] Fragment.comments = [] := by
  fun_induction dropLastComments fragments with
  | case1 => rfl
  | case2 last => rfl
  | case3 first second rest ih =>
      rw [List.getLast?_cons]
      cases ends : (dropLastComments (second :: rest)).getLast? with
      | none =>
          have many := length_dropLastComments (second :: rest)
          rw [List.getLast?_eq_none_iff.mp ends] at many
          cases many
      | some last =>
          rw [ends] at ih
          exact ih

/-- Without comments at the end there is nothing to drop. -/
theorem dropLastComments_eq_self {fragments : List Fragment}
    (bare : fragments.getLast?.elim [] Fragment.comments = []) :
    dropLastComments fragments = fragments := by
  fun_induction dropLastComments fragments with
  | case1 => rfl
  | case2 last =>
      obtain ⟨text, comments⟩ := last
      obtain rfl : comments = [] := bare
      rfl
  | case3 first second rest ih => rw [ih (by rwa [List.getLast?_cons_cons] at bare)]

end Fragment

namespace Value

/-- All that tidying does to a value. -/
def tidied : Value → Value
  | .quoted text => .quoted (Quotation.tidied text)
  | .concatenation fragments =>
      .concatenation (Fragment.dropLastComments (fragments.map Fragment.doubleQuoted))
  | value => value

/-- A tidied value has no comments behind its last string. -/
theorem lastComments_tidied (value : Value) : value.tidied.lastComments = [] := by
  cases value with
  | concatenation fragments => exact Fragment.getLast?_dropLastComments _
  | quoted | number | date | other => rfl

end Value

/-- A tidied statement, with what stands where. -/
theorem Header.tidied_eq (header : Header) :
    header.tidied =
      { keyword := header.keyword
        value := header.value.map Value.tidied
        postComments := header.keywordComments ++ header.valueComments
          ++ header.value.elim [] Value.lastComments ++ header.postComments } := by
  obtain ⟨keyword, keywordComments, given, valueComments, postComments⟩ := header
  cases given with
  | none => rfl
  | some given =>
      cases given with
      | concatenation fragments =>
          have last : (fragments.map Fragment.doubleQuoted).getLast?.elim [] Fragment.comments =
              fragments.getLast?.elim [] Fragment.comments := by
            rw [List.getLast?_map]
            cases fragments.getLast? <;> rfl
          change ({
            keyword
            value := some (Value.concatenation fragments).tidied
            postComments := keywordComments ++ valueComments
              ++ (fragments.map Fragment.doubleQuoted).getLast?.elim [] Fragment.comments
              ++ postComments } : Header) = _
          rw [last]
          rfl
      | quoted | number | date | other => rfl

variable {made : Lexeme → Prop}

/-- The comments behind the last string are tokens that a value is made of. -/
theorem Value.MadeOf.lastComments {value : Value} (own : value.MadeOf made) :
    ∀ comment ∈ value.lastComments, made ⟨.comment, comment⟩ := by
  intro comment member
  cases value with
  | concatenation fragments =>
      obtain ⟨_, each⟩ := Value.madeOf_concatenation own
      rw [Value.lastComments] at member
      cases ends : fragments.getLast? with
      | none =>
          rw [ends] at member
          cases member
      | some last =>
          rw [ends] at member
          exact (each last (List.mem_of_getLast? ends)).comments comment member
  | quoted | number | date | other => cases member

/-- A tidied value is made of tokens, if those of its strings stay so. -/
theorem Value.MadeOf.tidied {value : Value} (own : value.MadeOf made)
    (strings : ∀ text, made ⟨.string, text⟩ → made ⟨.string, Quotation.doubleQuoted text⟩)
    (quoted : ∀ text, value = .quoted text → made ⟨.string, Quotation.tidied text⟩) :
    value.tidied.MadeOf made := by
  cases own with
  | @single lexeme content goesOn formed =>
      obtain ⟨kind, text⟩ := lexeme
      cases kind with
      | string => exact .quoted (quoted text rfl)
      | number | date | other | plus | closeBlock => exact .single content goesOn formed
      | whitespace | lineBreak | comment => cases content
      | semicolon | openBlock => cases goesOn
  | @concatenation fragments several each =>
      have double : ∀ fragment ∈ fragments.map Fragment.doubleQuoted, fragment.MadeOf made := by
        rw [List.forall_mem_map]
        intro fragment member
        exact ⟨strings _ (each fragment member).text, (each fragment member).comments⟩
      refine .concatenation ?_ ?_
      · rwa [Fragment.length_dropLastComments, List.length_map]
      · intro fragment member
        rcases Fragment.mem_dropLastComments member with kept | ⟨last, inside, rfl⟩
        · exact double fragment kept
        · exact ⟨(double last inside).text, fun _ member => (List.not_mem_nil member).elim⟩

/-- A tidied statement is made of the tokens of the statement, and of tidied strings. -/
theorem Header.MadeOf.tidied {header : Header} (own : header.MadeOf made)
    (strings : ∀ text, made ⟨.string, text⟩ → made ⟨.string, Quotation.doubleQuoted text⟩)
    (quoted : ∀ text, header.value = some (.quoted text) → made ⟨.string, Quotation.tidied text⟩) :
    header.tidied.MadeOf made := by
  rw [Header.tidied_eq]
  refine ⟨own.keyword, by simp, ?_, by simp, ?_⟩
  · intro value member
    obtain ⟨given, present, rfl⟩ := Option.map_eq_some_iff.mp member
    refine (own.value given present).tidied strings ?_
    rintro text rfl
    exact quoted text present
  · have last : ∀ comment ∈ header.value.elim [] Value.lastComments, made ⟨.comment, comment⟩ := by
      cases present : header.value with
      | none => exact fun _ member => (List.not_mem_nil member).elim
      | some given => exact (own.value given present).lastComments
    intro comment member
    rcases List.mem_append.mp member with before | behind
    · rcases List.mem_append.mp before with inside | final
      · rcases List.mem_append.mp inside with first | second
        · exact own.keywordComments comment first
        · exact own.valueComments comment second
      · exact last comment final
    · exact own.postComments comment behind

end YangFormatter
