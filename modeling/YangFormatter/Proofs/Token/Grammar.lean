import Mathlib.Data.List.TakeWhile
import YangFormatter.Token.Stream

/-! # The lexical grammar

Which texts a token of each kind may have (`Lexeme.WellFormed`), and what may stand
directly behind it so that it goes no further (`Lexeme.Ends`). The lexer reads a
token exactly where the grammar allows it (`Lexeme.first_eq_ok_iff`), so that a text
which is put together from tokens can be taken apart again.
-/

namespace YangFormatter

namespace Quotation

/-- Whether every `quote` in a text stands behind a backslash; `escaped` says
whether one stands before the text. -/
def shields (quote : Char) (escaped : Bool) : Text → Bool
  | [] => true
  | character :: rest =>
      (character != quote || escaped) && shields quote (character == '\\') rest

/-- Whether a `quote` behind a text is the first to end a string. -/
def closes (quote : Char) (escaped : Bool) : Text → Bool
  | [] => !escaped
  | character :: rest =>
      (character != quote || escaped) && closes quote (character == '\\') rest

/-- A text that can stand between two quotes. -/
def Encloses (quote : Char) (content : Text) : Prop :=
  shields quote false content = true ∧ content.getLast? ≠ some '\\'

/-- A text between quotes. -/
def enclose (quote : Char) (content : Text) : Text :=
  quote :: content ++ [quote]

/-- The quotes of strings. -/
def IsQuote (quote : Char) : Prop :=
  quote = '"' ∨ quote = '\''

/-- A text that is one string with its quotes. -/
def IsString (text : Text) : Prop :=
  ∃ quote content, IsQuote quote ∧ Encloses quote content ∧ text = enclose quote content

theorem elim_getLast?_cons (escaped : Bool) (character : Char) (rest : Text) :
    (character :: rest).getLast?.elim escaped (· == '\\') =
      rest.getLast?.elim (character == '\\') (· == '\\') := by
  cases rest with
  | nil => rfl
  | cons second others => simp [List.getLast?_cons]

/-- A quote closes a text that shields its own quotes and does not end with a backslash. -/
theorem closes_eq (quote : Char) (escaped : Bool) (content : Text) :
    closes quote escaped content =
      (shields quote escaped content && !content.getLast?.elim escaped (· == '\\')) := by
  induction content generalizing escaped with
  | nil => rfl
  | cons character rest ih =>
      rw [closes, shields, ih, elim_getLast?_cons, Bool.and_assoc]

/-- A quote closes exactly the texts that can stand between two of them. -/
theorem closes_iff_encloses {quote : Char} {content : Text} :
    closes quote false content = true ↔ Encloses quote content := by
  rw [closes_eq, Bool.and_eq_true, Encloses]
  cases content.getLast? <;> simp

end Quotation

open Quotation

namespace Lexer

/-- A string is read through the first quote that closes what is before it. -/
theorem throughQuote_eq_some_iff {quote : Char} {escaped : Bool} {text taken rest : Text} :
    throughQuote quote escaped text = some (taken, rest) ↔
      ∃ content, closes quote escaped content = true ∧ taken = content ++ [quote] ∧
        text = content ++ quote :: rest := by
  induction text generalizing escaped taken with
  | nil => simp [throughQuote]
  | cons character others ih =>
      unfold throughQuote
      split
      next ends =>
        obtain ⟨rfl, rfl⟩ := ends
        constructor
        · intro same
          cases same
          exact ⟨[], rfl, rfl, rfl⟩
        · rintro ⟨content, closed, rfl, same⟩
          cases content with
          | nil =>
              cases same
              rfl
          | cons first more =>
              cases same
              simp [closes] at closed
      next goesOn =>
        rw [Option.map_eq_some_iff]
        constructor
        · rintro ⟨⟨inner, after⟩, found, same⟩
          cases same
          obtain ⟨content, closed, rfl, rfl⟩ := ih.mp found
          refine ⟨character :: content, ?_, rfl, rfl⟩
          rw [closes, closed, Bool.and_true]
          by_cases own : character = quote
          · simp_all
          · simp [own]
        · rintro ⟨content, closed, rfl, same⟩
          cases content with
          | nil =>
              cases same
              simp [closes] at closed
              exact (goesOn ⟨rfl, closed⟩).elim
          | cons first more =>
              cases same
              rw [closes, Bool.and_eq_true] at closed
              exact ⟨(more ++ [quote], rest), ih.mpr ⟨more, closed.2, rfl, rfl⟩, rfl⟩

/-- Where every quote is shielded no end of a string is found. -/
theorem throughQuote_of_shields {quote : Char} {escaped : Bool} {text : Text}
    (shielded : shields quote escaped text = true) : throughQuote quote escaped text = none := by
  induction text generalizing escaped with
  | nil => rfl
  | cons character rest ih =>
      rw [shields, Bool.and_eq_true] at shielded
      have goesOn : ¬ (character = quote ∧ escaped = false) := by
        rintro ⟨rfl, rfl⟩
        simp at shielded
      rw [throughQuote, if_neg goesOn, ih shielded.2]
      rfl

/-- What stands behind a line that ends there: nothing, or a line break of which
the line does not already hold the carriage return. -/
def LineEnds (line rest : Text) : Prop :=
  rest = [] ∨ (∃ others, rest = '\r' :: '\n' :: others) ∨
    ∃ others, rest = '\n' :: others ∧ line.getLast? ≠ some '\r'

/-- A line is read up to its end and no further. -/
theorem toLineEnd_spec (text : Text) :
    '\n' ∉ (toLineEnd text).1 ∧ LineEnds (toLineEnd text).1 (toLineEnd text).2 := by
  fun_induction toLineEnd text with
  | case1 => exact ⟨List.not_mem_nil, .inl rfl⟩
  | case2 rest => exact ⟨List.not_mem_nil, .inr (.inr ⟨rest, rfl, by simp⟩)⟩
  | case3 rest => exact ⟨List.not_mem_nil, .inr (.inl ⟨rest, rfl⟩)⟩
  | case4 character rest noFeed noBreak taken remaining split ih =>
      rw [split] at ih
      obtain ⟨free, ends⟩ := ih
      constructor
      · intro member
        rcases List.mem_cons.mp member with same | inside
        · exact noFeed same.symm
        · exact free inside
      · rcases ends with ended | breaks | ⟨others, feed, last⟩
        · exact .inl ended
        · exact .inr (.inl breaks)
        · refine .inr (.inr ⟨others, feed, ?_⟩)
          cases taken with
          | nil =>
              -- the line break would have been met one character earlier
              have whole := toLineEnd_append rest
              rw [split, feed] at whole
              intro return_
              simp only [List.getLast?_singleton, Option.some.injEq] at return_
              exact noBreak others return_ whole.symm
          | cons second more => simpa [List.getLast?_cons] using last

/-- A line is read whatever stands behind its end. -/
theorem toLineEnd_append_of_ends {line rest : Text} (free : '\n' ∉ line)
    (ends : LineEnds line rest) : toLineEnd (line ++ rest) = (line, rest) := by
  induction line with
  | nil =>
      rcases ends with rfl | ⟨others, rfl⟩ | ⟨others, rfl, _⟩ <;> simp [toLineEnd]
  | cons character more ih =>
      have noFeed : character ≠ '\n' := by
        rintro rfl
        exact free List.mem_cons_self
      have moreEnds : LineEnds more rest := by
        rcases ends with ended | breaks | ⟨others, feed, last⟩
        · exact .inl ended
        · exact .inr (.inl breaks)
        · refine .inr (.inr ⟨others, feed, ?_⟩)
          cases more with
          | nil => simp
          | cons second others => simpa [List.getLast?_cons] using last
      have noBreak : ∀ others, character = '\r' → more ++ rest = '\n' :: others → False := by
        rintro others rfl split
        cases more with
        | nil =>
            rcases ends with rfl | ⟨_, rfl⟩ | ⟨_, rfl, last⟩
            · cases split
            · cases split
            · exact last rfl
        | cons second more =>
            cases split
            exact free (by simp)
      have rest' := ih (fun member => free (List.mem_cons_of_mem _ member)) moreEnds
      rw [List.cons_append, toLineEnd]
      · rw [rest']
      · exact noFeed
      · exact noBreak

/-- What is read as the rest of a comment is one by itself. -/
theorem throughCommentEnd_taken {text taken rest : Text}
    (split : throughCommentEnd text = some (taken, rest)) :
    throughCommentEnd taken = some (taken, []) := by
  fun_induction throughCommentEnd text generalizing taken with
  | case1 => cases split
  | case2 rest =>
      cases split
      rfl
  | case3 character others noEnd ih =>
      obtain ⟨⟨inner, after⟩, found, same⟩ := Option.map_eq_some_iff.mp split
      cases same
      have whole := throughCommentEnd_append found
      rw [throughCommentEnd]
      · rw [ih found]
        rfl
      · rintro more rfl rfl
        exact noEnd (more ++ rest) rfl whole.symm

/-- The rest of a comment is read whatever stands behind it. -/
theorem throughCommentEnd_append_of_taken {taken rest : Text}
    (whole : throughCommentEnd taken = some (taken, [])) :
    throughCommentEnd (taken ++ rest) = some (taken, rest) := by
  fun_induction throughCommentEnd taken with
  | case1 => cases whole
  | case2 others =>
      cases whole
      rfl
  | case3 character others noEnd ih =>
      obtain ⟨⟨inner, after⟩, found, same⟩ := Option.map_eq_some_iff.mp whole
      cases same
      rw [List.cons_append, throughCommentEnd]
      · rw [ih found]
        rfl
      · rintro more rfl split
        cases others with
        | nil => cases found
        | cons second others =>
            cases split
            exact noEnd others rfl rfl

end Lexer

open Lexer

/-- A run of characters that begins neither a string nor a comment. -/
def Word.IsPlain : Text → Prop
  | [] => False
  | head :: tail =>
      (∀ character ∈ head :: tail, isDelimiter character = false) ∧ head ≠ '+' ∧ ¬ IsQuote head ∧
        (head = '/' → tail.head? ≠ some '/' ∧ tail.head? ≠ some '*')

namespace Comment

/-- A comment that runs to the end of its line. -/
def IsLine (text : Text) : Prop :=
  ∃ line, text = '/' :: '/' :: line ∧ '\n' ∉ line

/-- A comment that ends at the first mark for its end. -/
def IsBlock (text : Text) : Prop :=
  ∃ body, text = '/' :: '*' :: body ∧ throughCommentEnd body = some (body, [])

end Comment

namespace Lexeme

/-- The text of a token is one that its kind allows. -/
def WellFormed (lexeme : Lexeme) : Prop :=
  match lexeme.kind with
  | .whitespace => lexeme.text ≠ [] ∧ ∀ character ∈ lexeme.text, isIndent character = true
  | .lineBreak => lexeme.text = ['\n'] ∨ lexeme.text = ['\r', '\n']
  | .comment => Comment.IsLine lexeme.text ∨ Comment.IsBlock lexeme.text
  | .string => IsString lexeme.text
  | .number | .date | .other => Word.IsPlain lexeme.text ∧ Word.kind lexeme.text = lexeme.kind
  | .semicolon => lexeme.text = [';']
  | .plus => lexeme.text = ['+']
  | .openBlock => lexeme.text = ['{']
  | .closeBlock => lexeme.text = ['}']

/-- A token does not go on into what stands behind it. -/
def Ends (lexeme : Lexeme) (rest : Text) : Prop :=
  match lexeme.kind with
  | .whitespace => ∀ character ∈ rest.head?, isIndent character = false
  | .comment => Comment.IsLine lexeme.text → LineEnds lexeme.text rest
  | .number | .date | .other => ∀ character ∈ rest.head?, isDelimiter character = true
  | _ => True

theorem wellFormed_string {text : Text} : WellFormed ⟨.string, text⟩ ↔ IsString text :=
  Iff.rfl

private theorem kind_word (text : Text) :
    Word.kind text = .number ∨ Word.kind text = .date ∨ Word.kind text = .other := by
  unfold Word.kind
  split
  · exact .inl rfl
  · split
    · exact .inr (.inl rfl)
    · exact .inr (.inr rfl)

/-- A word is a well-formed token of its kind. -/
theorem wellFormed_word {text : Text} :
    WellFormed ⟨Word.kind text, text⟩ ↔ Word.IsPlain text := by
  rcases kind_word text with kind | kind | kind <;> simp [WellFormed, kind]

/-- A word ends where a delimiter or nothing is next. -/
theorem ends_word {text rest : Text} :
    Ends ⟨Word.kind text, text⟩ rest ↔ ∀ character ∈ rest.head?, isDelimiter character = true := by
  rcases kind_word text with kind | kind | kind <;> simp [Ends, kind]

/-- The mark of a comment has no part in where its line ends. -/
private theorem lineEnds_slashes {line rest : Text} :
    LineEnds ('/' :: '/' :: line) rest ↔ LineEnds line rest := by
  have last : ('/' :: '/' :: line).getLast? = some '\r' ↔ line.getLast? = some '\r' := by
    cases line with
    | nil => decide
    | cons first others => simp [List.getLast?_cons]
  simp only [LineEnds, ne_eq, last]

/-- What was not dropped begins with a character that stops the dropping. -/
private theorem ends_of_dropWhile (stops : Char → Bool) (text : Text) :
    ∀ character ∈ (text.dropWhile (!stops ·)).head?, stops character = true := by
  intro character first
  have stopped := List.head?_dropWhile_not (!stops ·) text
  rw [Option.mem_def.mp first] at stopped
  simpa using stopped

private theorem head?_takeWhile_ne {keeps : Char → Bool} {tail : Text} {character : Char}
    (other : ∀ rest, tail ≠ character :: rest) :
    (tail.takeWhile keeps).head? ≠ some character := by
  cases tail with
  | nil => simp
  | cons first rest =>
      rw [List.takeWhile_cons]
      split
      · rintro same
        cases same
        exact other rest rfl
      · simp

/-- A token that has been read is one of the grammar, and ends where it must. -/
theorem wellFormed_of_first {head : Char} {tail rest : Text} {lexeme : Lexeme}
    (read : first head tail = .ok (lexeme, rest)) : lexeme.WellFormed ∧ lexeme.Ends rest := by
  unfold first at read
  split at read
  next kind punctuation =>
    cases read
    unfold TokenKind.ofPunctuation? at punctuation
    split_ifs at punctuation <;> cases punctuation <;> simp_all [WellFormed, Ends]
  rename_i noPunctuation
  split at read
  next indents =>
    cases read
    refine ⟨⟨List.cons_ne_nil _ _, ?_⟩, ?_⟩
    · intro character member
      rcases List.mem_cons.mp member with rfl | inside
      · exact indents
      · exact List.mem_takeWhile_imp inside
    · simpa [Ends] using ends_of_dropWhile (!isIndent ·) tail
  rename_i noIndent
  split at read
  next feed =>
    cases read
    exact ⟨.inl (by rw [feed]), trivial⟩
  rename_i noFeed
  split at read
  next carriage =>
    split at read
    · cases read
      exact ⟨.inr (by rw [carriage]), trivial⟩
    · cases read
  rename_i noCarriage
  split at read
  next quote =>
    split at read
    next taken others found =>
      cases read
      obtain ⟨content, closed, rfl, rfl⟩ := throughQuote_eq_some_iff.mp found
      exact ⟨⟨head, content, quote, closes_iff_encloses.mp closed, rfl⟩, trivial⟩
    next => cases read
  rename_i noQuote
  split at read
  next line =>
    cases read
    obtain ⟨free, ends⟩ := toLineEnd_spec line
    exact ⟨.inl ⟨_, rfl, free⟩, fun _ => lineEnds_slashes.mpr ends⟩
  next body =>
    split at read
    next taken others found =>
      cases read
      refine ⟨.inr ⟨taken, rfl, throughCommentEnd_taken found⟩, ?_⟩
      rintro ⟨line, same, _⟩
      cases same
    next => cases read
  next noLine noBlock =>
    cases read
    refine ⟨wellFormed_word.mpr ⟨?_, ?_, noQuote, ?_⟩, ?_⟩
    · intro character member
      rcases List.mem_cons.mp member with rfl | inside
      · unfold TokenKind.ofPunctuation? at noPunctuation
        split_ifs at noPunctuation
        simp_all [isDelimiter]
      · simpa using List.mem_takeWhile_imp inside
    · rintro rfl
      cases noPunctuation
    · intro slash
      exact ⟨head?_takeWhile_ne fun line => noLine line slash,
        head?_takeWhile_ne fun body => noBlock body slash⟩
    · exact ends_word.mpr (ends_of_dropWhile isDelimiter tail)

/-- A character that is no delimiter is none of them. -/
private theorem not_isDelimiter {character : Char} (plain : isDelimiter character = false) :
    isIndent character = false ∧ character ≠ '\r' ∧ character ≠ '\n' ∧ character ≠ ';' ∧
      character ≠ '{' ∧ character ≠ '}' := by
  simpa [isDelimiter, and_assoc] using plain

/-- A word is read up to a delimiter. -/
private theorem first_word {head : Char} {tail rest : Text} (plain : Word.IsPlain (head :: tail))
    (ends : ∀ character ∈ rest.head?, isDelimiter character = true) :
    first head (tail ++ rest) = .ok (⟨Word.kind (head :: tail), head :: tail⟩, rest) := by
  obtain ⟨run, noPlus, noQuote, noComment⟩ := plain
  obtain ⟨noIndent, noReturn, noFeed, noSemicolon, noOpen, noClose⟩ :=
    not_isDelimiter (run head List.mem_cons_self)
  have within : ∀ character ∈ tail, (!isDelimiter character) = true := fun character member => by
    rw [run character (List.mem_cons_of_mem _ member), Bool.not_false]
  have outside : rest.takeWhile (!isDelimiter ·) = [] ∧ rest.dropWhile (!isDelimiter ·) = rest := by
    cases rest with
    | nil => exact ⟨rfl, rfl⟩
    | cons next others =>
        have stops := ends next rfl
        simp [stops]
  have punctuation : TokenKind.ofPunctuation? head = none := by
    simp [TokenKind.ofPunctuation?, noSemicolon, noPlus, noOpen, noClose]
  have word : head :: (tail ++ rest).takeWhile (!isDelimiter ·) = head :: tail := by
    rw [List.takeWhile_append_of_pos within, outside.1, List.append_nil]
  have behind : (tail ++ rest).dropWhile (!isDelimiter ·) = rest := by
    rw [List.dropWhile_append_of_pos within, outside.2]
  have quote : ¬ (head = '"' ∨ head = '\'') := noQuote
  have mark : ∀ character others, isDelimiter character = false →
      tail.head? ≠ some character → tail ++ rest ≠ character :: others := by
    intro character others plain other same
    cases tail with
    | nil =>
        rw [List.nil_append] at same
        have stops := ends character (by rw [same]; rfl)
        rw [plain] at stops
        cases stops
    | cons second more =>
        cases same
        exact other rfl
  unfold first
  simp only [punctuation, noIndent, noFeed, noReturn, quote, Bool.false_eq_true, ↓reduceIte]
  split
  next same => exact (mark '/' _ rfl (noComment rfl).1 same).elim
  next same => exact (mark '*' _ rfl (noComment rfl).2 same).elim
  next => rw [word, behind]

/-- White space is read up to what is none. -/
private theorem first_whitespace {head : Char} {tail rest : Text}
    (indents : ∀ character ∈ head :: tail, isIndent character = true)
    (ends : ∀ character ∈ rest.head?, isIndent character = false) :
    first head (tail ++ rest) = .ok (⟨.whitespace, head :: tail⟩, rest) := by
  have own := indents head List.mem_cons_self
  have within : ∀ character ∈ tail, isIndent character = true := fun character member =>
    indents character (List.mem_cons_of_mem _ member)
  have punctuation : TokenKind.ofPunctuation? head = none := by
    simp only [isIndent, Bool.or_eq_true, beq_iff_eq] at own
    rcases own with rfl | rfl <;> rfl
  have outside : rest.takeWhile isIndent = [] ∧ rest.dropWhile isIndent = rest := by
    cases rest with
    | nil => exact ⟨rfl, rfl⟩
    | cons next others =>
        have stops := ends next rfl
        simp [stops]
  unfold first
  simp only [punctuation, own, ↓reduceIte]
  rw [List.takeWhile_append_of_pos within, outside.1, List.append_nil,
    List.dropWhile_append_of_pos within, outside.2]

/-- A comment that goes to the end of its line is read up to there. -/
private theorem first_lineComment {line rest : Text} (free : '\n' ∉ line)
    (ends : LineEnds line rest) :
    first '/' ('/' :: line ++ rest) = .ok (⟨.comment, '/' :: '/' :: line⟩, rest) := by
  have read : first '/' ('/' :: (line ++ rest)) =
      .ok (⟨.comment, '/' :: '/' :: (toLineEnd (line ++ rest)).1⟩, (toLineEnd (line ++ rest)).2) :=
    rfl
  rw [List.cons_append, read, toLineEnd_append_of_ends free ends]

/-- A comment is read up to the mark of its end. -/
private theorem first_blockComment {body rest : Text}
    (closed : throughCommentEnd body = some (body, [])) :
    first '/' ('*' :: body ++ rest) = .ok (⟨.comment, '/' :: '*' :: body⟩, rest) := by
  have found := @throughCommentEnd_append_of_taken body rest closed
  unfold first
  simp only [List.cons_append, TokenKind.ofPunctuation?, isIndent, found]
  rfl

/-- A string is read up to the quote that closes it. -/
private theorem first_string {quote : Char} {content rest : Text} (isQuote : IsQuote quote)
    (encloses : Encloses quote content) :
    first quote (content ++ ([quote] ++ rest)) = .ok (⟨.string, enclose quote content⟩, rest) := by
  have found : throughQuote quote false (content ++ ([quote] ++ rest)) =
      some (content ++ [quote], rest) :=
    throughQuote_eq_some_iff.mpr ⟨content, closes_iff_encloses.mpr encloses, rfl, rfl⟩
  rcases isQuote with rfl | rfl
  all_goals
    unfold first
    simp only [TokenKind.ofPunctuation?, isIndent, found]
    rfl

/-- The lexer reads a token exactly where the grammar allows one. -/
theorem first_eq_ok_iff {head : Char} {tail rest : Text} {lexeme : Lexeme} :
    first head tail = .ok (lexeme, rest) ↔
      lexeme.text ++ rest = head :: tail ∧ lexeme.WellFormed ∧ lexeme.Ends rest := by
  constructor
  · intro read
    exact ⟨(first_text read).1, wellFormed_of_first read⟩
  · rintro ⟨whole, formed, ends⟩
    obtain ⟨kind, text⟩ := lexeme
    cases kind with
    | whitespace =>
        obtain ⟨nonempty, indents⟩ := formed
        cases text with
        | nil => exact (nonempty rfl).elim
        | cons first others =>
            cases whole
            exact first_whitespace indents ends
    | lineBreak =>
        rcases formed with rfl | rfl <;> cases whole <;> rfl
    | comment =>
        rcases formed with ⟨line, rfl, free⟩ | ⟨body, rfl, closed⟩
        · cases whole
          exact first_lineComment free (lineEnds_slashes.mp (ends ⟨line, rfl, free⟩))
        · cases whole
          exact first_blockComment closed
    | string =>
        obtain ⟨quote, content, isQuote, encloses, rfl⟩ := formed
        rw [enclose, List.append_assoc] at whole
        cases whole
        exact first_string isQuote encloses
    | number | date | other =>
        obtain ⟨plain, kind⟩ := formed
        cases text with
        | nil => exact plain.elim
        | cons first others =>
            cases whole
            have read := first_word plain ends
            rwa [kind] at read
    | semicolon | plus | openBlock | closeBlock =>
        cases formed
        cases whole
        rfl

/-- No token is empty. -/
theorem WellFormed.text_ne_nil {lexeme : Lexeme} (formed : lexeme.WellFormed) :
    lexeme.text ≠ [] := by
  obtain ⟨kind, text⟩ := lexeme
  rintro (rfl : text = [])
  cases kind with
  | whitespace => exact formed.1 rfl
  | lineBreak => rcases formed with same | same <;> cases same
  | comment => rcases formed with ⟨_, same, _⟩ | ⟨_, same, _⟩ <;> cases same
  | string =>
      obtain ⟨_, _, _, _, same⟩ := formed
      cases same
  | number | date | other => exact formed.1
  | semicolon | plus | openBlock | closeBlock => cases formed

/-- A token that begins with a space or a tab is white space. -/
theorem WellFormed.kind_of_indent {lexeme : Lexeme} (formed : lexeme.WellFormed) {head : Char}
    {tail : Text} (start : lexeme.text = head :: tail) (indent : isIndent head = true) :
    lexeme.kind = .whitespace := by
  obtain ⟨kind, text⟩ := lexeme
  obtain rfl : text = head :: tail := start
  cases kind with
  | whitespace => rfl
  | lineBreak => rcases formed with same | same <;> cases same <;> cases indent
  | comment => rcases formed with ⟨_, same, _⟩ | ⟨_, same, _⟩ <;> cases same <;> cases indent
  | string =>
      obtain ⟨quote, _, isQuote, _, same⟩ := formed
      cases same
      rcases isQuote with rfl | rfl <;> cases indent
  | number | date | other =>
      have plain := formed.1.1 head List.mem_cons_self
      rw [isDelimiter, indent] at plain
      cases plain
  | semicolon | plus | openBlock | closeBlock =>
      cases formed
      cases indent

end Lexeme

/-- A text is put together from tokens of the grammar, none of which goes on into
the next. -/
inductive Lexes : Text → List Lexeme → Prop where
  | nil : Lexes [] []
  | cons {lexeme : Lexeme} {rest : Text} {lexemes : List Lexeme} (formed : lexeme.WellFormed)
      (ends : lexeme.Ends rest) (others : Lexes rest lexemes) :
      Lexes (lexeme.text ++ rest) (lexeme :: lexemes)

/-- What a text is put together from are well-formed tokens. -/
theorem Lexes.wellFormed {text : Text} {lexemes : List Lexeme} (lexes : Lexes text lexemes) :
    ∀ lexeme ∈ lexemes, lexeme.WellFormed := by
  induction lexes with
  | nil => exact fun _ member => (List.not_mem_nil member).elim
  | cons formed _ _ ih => exact List.forall_mem_cons.mpr ⟨formed, ih⟩

/-- What stands behind the first token of a text consists of tokens too. -/
theorem Lexes.behind {lexeme : Lexeme} {rest : Text} {lexemes : List Lexeme}
    (lexes : Lexes (lexeme.text ++ rest) lexemes) (formed : lexeme.WellFormed)
    (ends : lexeme.Ends rest) : ∃ others, Lexes rest others := by
  obtain ⟨head, tail, start⟩ := List.exists_cons_of_ne_nil formed.text_ne_nil
  have whole : lexeme.text ++ rest = head :: (tail ++ rest) := by rw [start, List.cons_append]
  have read := Lexeme.first_eq_ok_iff.mpr ⟨whole, formed, ends⟩
  rw [whole] at lexes
  generalize text : head :: (tail ++ rest) = given at lexes
  cases lexes with
  | nil => cases text
  | cons formed' ends' others =>
      rw [Lexeme.first_eq_ok_iff.mpr ⟨text.symm, formed', ends'⟩] at read
      cases read
      exact ⟨_, others⟩

/-- A string that never ends is no token. -/
theorem not_lexes_of_shields {quote : Char} {text : Text} (isQuote : IsQuote quote)
    (shielded : shields quote false text = true) (lexemes : List Lexeme) :
    ¬ Lexes (quote :: text) lexemes := by
  have endless : throughQuote quote false text = none := throughQuote_of_shields shielded
  have refused : Lexeme.first quote text = .error .unterminatedString := by
    rcases isQuote with rfl | rfl
    all_goals
      unfold Lexeme.first
      simp only [TokenKind.ofPunctuation?, isIndent, endless]
      rfl
  intro lexes
  generalize given : quote :: text = whole at lexes
  cases lexes with
  | nil => cases given
  | cons formed ends others =>
      rw [Lexeme.first_eq_ok_iff.mpr ⟨given.symm, formed, ends⟩] at refused
      cases refused

namespace TokenStream

/-- A text that is scanned without a fault is put together from the tokens. -/
theorem lexes_of_scan (offset : Nat) (text : Text) (sound : (scan offset text).2 = none) :
    Lexes text ((scan offset text).1.map Token.toLexeme) := by
  match text with
  | [] =>
      rw [scan_nil]
      exact .nil
  | head :: tail =>
      cases read : Lexeme.first head tail with
      | error cause =>
          rw [scan_cons_of_fault read] at sound
          cases sound
      | ok pair =>
          obtain ⟨lexeme, rest⟩ := pair
          obtain ⟨whole, formed, ends⟩ := Lexeme.first_eq_ok_iff.mp read
          have shorter : rest.length < (head :: tail).length := by
            have := List.length_pos_iff.mpr formed.text_ne_nil
            rw [← whole, List.length_append]
            omega
          rw [scan_cons_of_read read] at sound ⊢
          rw [← whole]
          exact .cons formed ends (lexes_of_scan _ rest sound)
termination_by text.length
decreasing_by exact shorter

/-- A text that is put together from tokens is scanned into them without a fault. -/
theorem scan_of_lexes {text : Text} {lexemes : List Lexeme} (lexes : Lexes text lexemes)
    (offset : Nat) :
    (scan offset text).2 = none ∧ (scan offset text).1.map Token.toLexeme = lexemes := by
  induction lexes generalizing offset with
  | nil =>
      rw [scan_nil]
      exact ⟨rfl, rfl⟩
  | @cons lexeme rest lexemes formed ends others ih =>
      cases whole : lexeme.text ++ rest with
      | nil => exact (formed.text_ne_nil (List.append_eq_nil_iff.mp whole).1).elim
      | cons head tail =>
          rw [scan_cons_of_read (Lexeme.first_eq_ok_iff.mpr ⟨whole, formed, ends⟩)]
          obtain ⟨sound, same⟩ := ih (offset + Utf8.length lexeme.text)
          refine ⟨sound, ?_⟩
          rw [List.map_cons, same]
          rfl

/-- Scanning a text yields exactly the tokens that it is put together from. -/
theorem scan_iff_lexes {offset : Nat} {text : Text} {lexemes : List Lexeme} :
    ((scan offset text).2 = none ∧ (scan offset text).1.map Token.toLexeme = lexemes) ↔
      Lexes text lexemes := by
  constructor
  · rintro ⟨sound, rfl⟩
    exact lexes_of_scan offset text sound
  · intro lexes
    exact scan_of_lexes lexes offset

end TokenStream

end YangFormatter
