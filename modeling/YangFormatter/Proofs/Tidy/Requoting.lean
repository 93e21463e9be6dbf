import YangFormatter.Proofs.Tidy.Flaws
import YangFormatter.Proofs.Tidy.Header
import YangFormatter.Proofs.Tidy.Indentation
import YangFormatter.Proofs.Token.LexicalGrammar

/-! # Quotes and blanks of strings

The first two things that tidying does to a statement concern its strings one by one: they
get double quotes where that needs no escape, and a string that is the whole value loses the
blanks at both ends. What was one token is one token then, and doing it again changes nothing
(`Header.exists_requoted`).
-/

namespace YangFormatter

/-- A text and what is left of it without the blanks at both ends. Those at the end are kept
where the rest ends in a backslash. -/
def Text.Stripped (before after : Text) : Prop :=
  ∃ leading core trailing : Text, before = leading ++ core ++ trailing ∧
    (∀ character ∈ leading, isBlank character = true) ∧
    (∀ character ∈ trailing, isBlank character = true) ∧
    (∀ character ∈ core.head?, isBlank character = false) ∧
    (∀ character ∈ core.getLast?, isBlank character = false) ∧
    after = if core.getLast? = some '\\' then core ++ trailing else core

namespace Quotation

/-- A text is one string token, from its first character to its last. -/
def IsToken (text : Text) : Prop :=
  TokenStream.tokenize text = .ok [TokenStream.place 0 ⟨.string, text⟩]

/-- A string and what it becomes with other quotes: one token, in double quotes unless the
string has single quotes and a double quote between them. -/
structure Requoted (before after : Text) : Prop where
  token : IsToken after
  quote : after.head? =
    some (if before.head? = some '\'' ∧ '"' ∈ before then '\'' else '"')

/-- A text is that of a string token exactly if it is a well-formed string. -/
theorem isToken_iff {text : Text} : IsToken text ↔ IsString text := by
  rw [IsToken, TokenStream.tokenize_eq_ok_iff]
  constructor
  · intro scanned
    have lexes := TokenStream.lexes_of_scan 0 text (congrArg Prod.snd scanned)
    rw [scanned] at lexes
    exact Lexeme.wellFormed_string.mp (lexes.wellFormed _ List.mem_cons_self)
  · intro isString
    have formed := Lexeme.wellFormed_string.mpr isString
    obtain ⟨head, tail, rfl⟩ := List.exists_cons_of_ne_nil formed.text_ne_nil
    have read := Lexeme.first_eq_ok_iff.mpr
      ⟨List.append_nil (head :: tail), formed, LexicalGrammar.ends_nil _⟩
    rw [TokenStream.scan_cons_of_read read, TokenStream.scan_nil]

theorem IsToken.text_ne_nil {text : Text} (token : IsToken text) : text ≠ [] :=
  (Lexeme.wellFormed_string.mpr (isToken_iff.mp token)).text_ne_nil

/-- A string keeps its single quotes exactly if a double quote stands between them. -/
theorem tidiedQuote_eq {quote : Char} (isQuote : IsQuote quote) (content : Text) :
    tidiedQuote quote content =
      if (enclose quote content).head? = some '\'' ∧ '"' ∈ enclose quote content then '\''
      else '"' := by
  have head : (enclose quote content).head? = some quote := rfl
  rw [tidiedQuote, head, enclose]
  rcases isQuote with rfl | rfl
  · simp
  · by_cases double : '"' ∈ content <;> simp [double]

/-- Stripping twice is stripping once. -/
theorem strippedInner_strippedInner (content : Text) :
    strippedInner (strippedInner content) = strippedInner content :=
  strippedInner_eq_self (start_strippedInner content) (stop_strippedInner content)

/-- What is stripped loses spaces at its start and end, and keeps those that a backslash needs. -/
theorem stripped_strippedInner (content : Text) :
    Text.Stripped content (strippedInner content) := by
  obtain ⟨trailing, blank, whole⟩ := Text.exists_trimEnd_append content.trimStart
  rw [← Text.trim] at whole
  refine ⟨content.takeWhile isBlank, content.trim, trailing, ?_, Text.isBlank_of_mem_takeWhile,
    blank, ?_, Text.getLast?_trimEnd _, ?_⟩
  · rw [List.append_assoc, whole, Text.append_trimStart]
  · intro character first
    apply Text.head?_trimStart content character
    rw [← whole, List.head?_append, Option.mem_def.mp first]
    rfl
  · rw [whole, strippedInner]

/-- A string in other quotes is one token, and the text between them is the same. -/
theorem requoted_doubleQuoted {text : Text} (token : IsToken text) :
    Requoted text (doubleQuoted text) ∧ inner (doubleQuoted text) = inner text := by
  obtain ⟨quote, content, isQuote, encloses, rfl⟩ := isToken_iff.mp token
  refine ⟨⟨isToken_iff.mpr (isString_doubleQuoted (isToken_iff.mp token)), ?_⟩, ?_⟩
  · rw [doubleQuoted_enclose, ← tidiedQuote_eq isQuote]
    rfl
  · rw [doubleQuoted_enclose, inner_enclose, inner_enclose]

/-- A string that is put in double quotes and stripped is requoted. -/
theorem requoted_stripped {text : Text} (token : IsToken text) :
    Requoted text (stripped (doubleQuoted text)) ∧
      Text.Stripped (inner text) (inner (stripped (doubleQuoted text))) := by
  obtain ⟨quote, content, isQuote, encloses, rfl⟩ := isToken_iff.mp token
  rw [doubleQuoted_enclose, stripped_enclose, inner_enclose, inner_enclose]
  have isQuote' := isQuote_tidiedQuote isQuote content
  refine ⟨⟨?_, ?_⟩, stripped_strippedInner content⟩
  · rw [isToken_iff, isString_enclose]
    exact ⟨isQuote', encloses.tidiedQuote.strippedInner isQuote'⟩
  · rw [← tidiedQuote_eq isQuote]
    rfl

/-- Putting a string in double quotes and stripping it changes nothing the second time. -/
theorem stripped_doubleQuoted_twice {text : Text} (token : IsToken text) :
    stripped (doubleQuoted (stripped (doubleQuoted text))) = stripped (doubleQuoted text) := by
  obtain ⟨quote, content, _, _, rfl⟩ := isToken_iff.mp token
  rw [doubleQuoted_enclose, stripped_enclose, doubleQuoted_enclose, stripped_enclose,
    strippedInner_strippedInner, tidiedQuote_of_solid (solid_strippedInner content)]

end Quotation

open Quotation

namespace Value

/-- A value and what it becomes with other quotes and without blanks. The strings of a
concatenation keep their blanks. -/
inductive Requoted : Value → Value → Prop where
  | quoted {before after : Text} (string : Quotation.Requoted before after)
      (stripped : Text.Stripped (Quotation.inner before) (Quotation.inner after)) :
      Requoted (.quoted before) (.quoted after)
  | concatenation {before after : List Fragment}
      (each : List.Forall₂
        (fun old new => Quotation.Requoted old.text new.text ∧
          Quotation.inner new.text = Quotation.inner old.text ∧ new.comments = old.comments)
        before after) :
      Requoted (.concatenation before) (.concatenation after)
  | number (text : Text) : Requoted (.number text) (.number text)
  | date (text : Text) : Requoted (.date text) (.date text)
  | other (text : Text) : Requoted (.other text) (.other text)

/-- A value with other quotes and without blanks. -/
def requoted (value : Value) : Value :=
  value.doubleQuoted.mapQuoted Quotation.stripped

variable {value : Value}

/-- The strings of a value are requoted if they are tokens. -/
theorem requoted_of_tokens (tokens : ∀ text ∈ value.strings, IsToken text) :
    value.Requoted value.requoted := by
  cases value with
  | quoted text =>
      obtain ⟨string, stripped⟩ := requoted_stripped (tokens text List.mem_cons_self)
      exact .quoted string stripped
  | concatenation fragments =>
      refine .concatenation (List.forall₂_map_right_iff.mpr (List.forall₂_same.mpr ?_))
      intro fragment member
      obtain ⟨string, same⟩ := requoted_doubleQuoted (tokens _ (List.mem_map_of_mem member))
      exact ⟨string, same, rfl⟩
  | number text => exact .number text
  | date text => exact .date text
  | other text => exact .other text

/-- Requoted strings are tokens again. -/
theorem tokens_requoted (tokens : ∀ text ∈ value.strings, IsToken text) :
    ∀ text ∈ value.requoted.strings, IsToken text := by
  cases value with
  | quoted text =>
      have string := (requoted_stripped (tokens text List.mem_cons_self)).1
      exact List.forall_mem_singleton.mpr string.token
  | concatenation fragments =>
      refine List.forall_mem_map.mpr (List.forall_mem_map.mpr ?_)
      intro fragment member
      exact (requoted_doubleQuoted (tokens _ (List.mem_map_of_mem member))).1.token
  | number | date | other => exact tokens

/-- Requoting a value twice is requoting it once. -/
theorem requoted_requoted (tokens : ∀ text ∈ value.strings, IsToken text) :
    value.requoted.requoted = value.requoted := by
  cases value with
  | quoted text =>
      exact congrArg Value.quoted (stripped_doubleQuoted_twice (tokens text List.mem_cons_self))
  | concatenation fragments =>
      refine congrArg Value.concatenation (map_eq_self (List.forall_mem_map.mpr ?_))
      intro fragment _
      exact congrArg (Fragment.mk · fragment.comments) (doubleQuoted_doubleQuoted fragment.text)
  | number | date | other => rfl

end Value

namespace Header

/-- Gives the strings of a statement double quotes, and then strips a string that is the whole
value. -/
def attemptRequote (header : Header) : Attempt Header :=
  header.attemptDoubleQuotes.andThen attemptStrip

/-- Nothing goes wrong when strings that are tokens are requoted. -/
theorem attemptRequote_of_tokens {header : Header}
    (tokens : ∀ value ∈ header.value, ∀ text ∈ value.strings, IsToken text) :
    header.attemptRequote = ⟨{ header with value := header.value.map Value.requoted }, none⟩ := by
  obtain ⟨keyword, keywordComments, given, valueComments, postComments⟩ := header
  cases given with
  | none => rfl
  | some value =>
      have quotes : ∀ text ∈ value.strings, text ≠ [] :=
        fun text member => (tokens value rfl text member).text_ne_nil
      have string := Value.doubleQuoted_ne_quoted_nil quotes
      simp [attemptRequote, attemptDoubleQuotes, Value.attemptDoubleQuotes_of_strings quotes,
        Attempt.map, Attempt.andThen, attemptStrip, string, stripped, mapValue, Value.requoted]

/-- The strings of a statement get double quotes, and a string that is the whole value loses the
blanks at its ends. Each stays one token, and nothing changes when it is done again. -/
theorem exists_requoted {header : Header}
    (tokens : ∀ value ∈ header.value, ∀ text ∈ value.strings, IsToken text) :
    ∃ value, Option.Rel Value.Requoted header.value value ∧
      header.attemptRequote = ⟨{ header with value }, none⟩ ∧
      (∀ fragments, header.value = some (.concatenation fragments) →
        header.attemptDoubleQuotes = ⟨{ header with value }, none⟩) ∧
      attemptRequote { header with value } = ⟨{ header with value }, none⟩ := by
  have requotes := attemptRequote_of_tokens tokens
  obtain ⟨keyword, keywordComments, given, valueComments, postComments⟩ := header
  cases given with
  | none => exact ⟨none, .none, requotes, nofun, rfl⟩
  | some value =>
      have own := tokens value rfl
      refine ⟨some value.requoted, .some (Value.requoted_of_tokens own), requotes, ?_, ?_⟩
      · intro fragments same
        cases same
        have quotes := Value.attemptDoubleQuotes_of_strings fun text member =>
          (own text member).text_ne_nil
        simp only [attemptDoubleQuotes, quotes, Attempt.map]
        rfl
      · rw [attemptRequote_of_tokens]
        · rw [Option.map_some, Value.requoted_requoted own]
        · intro other same
          cases same
          exact Value.tokens_requoted own

/-- A string in single quotes that ends in a backslash, but for blanks. -/
theorem exists_requoted_backslash :
    IsToken "' x\\ '".toList ∧
      ∃ value, Option.Rel Value.Requoted (some (.quoted "' x\\ '".toList)) value ∧
        attemptRequote { keyword := "a".toList, value := some (.quoted "' x\\ '".toList) } =
          ⟨{ keyword := "a".toList, value }, none⟩ ∧
        attemptRequote { keyword := "a".toList, value } =
          ⟨{ keyword := "a".toList, value }, none⟩ := by
  have token : IsToken "' x\\ '".toList :=
    isToken_iff.mpr ⟨'\'', " x\\ ".toList, .inr rfl, ⟨by decide, by decide⟩, rfl⟩
  have given : ∀ value ∈ some (Value.quoted "' x\\ '".toList), ∀ text ∈ value.strings,
      IsToken text := by
    intro value same text member
    cases same
    cases List.mem_singleton.mp member
    exact token
  obtain ⟨value, requoted, done, _, again⟩ :=
    @exists_requoted { keyword := "a".toList, value := some _ } given
  exact ⟨token, value, requoted, done, again⟩

end Header

end YangFormatter
