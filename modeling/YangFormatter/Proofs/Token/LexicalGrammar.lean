import Mathlib.Data.List.Chain
import YangFormatter.Proofs.Token.Grammar

/-! # The lexical grammar of token lists

Which texts each kind of token may have (`LexicalGrammar.Allows`), and which tokens may
stand side by side (`LexicalGrammar.MayPrecede`), said without splitting a text. A text
is split into some tokens exactly if they spell it and the grammar derives them
(`TokenStream.tokenize_iff_derives`), so no text can be split in two ways.
-/

namespace YangFormatter

open Quotation Lexer

namespace LexicalGrammar

/-! ## Texts of tokens -/

/-- One or more decimal digits. -/
def Digits (text : Text) : Prop :=
  text ≠ [] ∧ ∀ character ∈ text, character.isDigit = true

/-- A zero, or digits that begin with another one. -/
def Integer (text : Text) : Prop :=
  text = ['0'] ∨ Digits text ∧ text.head? ≠ some '0'

/-- Nothing, or a point and digits. -/
def Fraction (text : Text) : Prop :=
  text = [] ∨ ∃ digits, Digits digits ∧ text = '.' :: digits

/-- A minus sign or none, an integer, and a fraction or none. -/
def Number (text : Text) : Prop :=
  ∃ sign whole fraction, (sign = [] ∨ sign = ['-']) ∧ Integer whole ∧ Fraction fraction ∧
    text = sign ++ (whole ++ fraction)

/-- A year, a month and a day with hyphens between them. -/
def Date (text : Text) : Prop :=
  ∃ year month day, (Digits year ∧ year.length = 4) ∧ (Digits month ∧ month.length = 2) ∧
    (Digits day ∧ day.length = 2) ∧ text = year ++ '-' :: (month ++ '-' :: day)

/-- A text between two quotes. Within it every such quote stands behind a backslash,
and no backslash stands last. -/
def QuotedText (text : Text) : Prop :=
  ∃ quote content, IsQuote quote ∧ text = quote :: content ++ [quote] ∧
    (∀ before after, content = before ++ quote :: after → before.getLast? = some '\\') ∧
      content.getLast? ≠ some '\\'

/-- A comment that ends where the first mark for its end stands behind its beginning. -/
def BlockComment (text : Text) : Prop :=
  ∃ body, text = '/' :: '*' :: (body ++ ['*', '/']) ∧
    ∀ before after, body ++ ['*', '/'] = before ++ '*' :: '/' :: after → after = []

/-- The texts that tokens of a kind may have. -/
def Allows : TokenKind → Text → Prop
  | .whitespace, text => text ≠ [] ∧ ∀ character ∈ text, character = ' ' ∨ character = '\t'
  | .lineBreak, text => text = ['\n'] ∨ text = ['\r', '\n']
  | .comment, text => Comment.IsLine text ∨ BlockComment text
  | .string, text => QuotedText text
  | .number, text => Word.IsPlain text ∧ Number text
  | .date, text => Word.IsPlain text ∧ Date text
  | .other, text => Word.IsPlain text ∧ ¬ Number text ∧ ¬ Date text
  | .semicolon, text => text = [';']
  | .plus, text => text = ['+']
  | .openBlock, text => text = ['{']
  | .closeBlock, text => text = ['}']

/-- Digits are taken for an integer exactly if they are one. -/
private theorem isInteger_iff {text : Text}
    (digits : ∀ character ∈ text, character.isDigit = true) :
    Word.isInteger text = true ↔ Integer text := by
  unfold Word.isInteger Integer
  split
  · simp [Digits]
  · simp
  next first rest noZero =>
    have other : first :: rest ≠ ['0'] := by
      intro same
      cases same
      exact noZero rfl rfl
    have every : Digits (first :: rest) := ⟨List.cons_ne_nil _ _, digits⟩
    simp [other, every]

/-- A text is taken for a fraction exactly if it is one. -/
private theorem isFraction_iff {text : Text} : Word.isFraction text = true ↔ Fraction text := by
  unfold Word.isFraction Fraction Digits
  split
  · simp
  · simp
  next full noPoint =>
    have other : ∀ digits, text ≠ '.' :: digits := noPoint
    have nonempty : text ≠ [] := full
    simp [other, nonempty]

/-- An integer has nothing but digits. -/
private theorem digits_of_integer {text : Text} (integer : Integer text) :
    ∀ character ∈ text, character.isDigit = true := by
  rcases integer with rfl | ⟨digits, _⟩
  · intro character member
    rw [List.mem_singleton.mp member]
    rfl
  · exact digits.2

/-- No fraction begins with a digit. -/
private theorem head?_of_fraction {text : Text} (fraction : Fraction text) :
    ∀ character ∈ text.head?, character.isDigit = false := by
  rcases fraction with rfl | ⟨digits, _, rfl⟩
  · simp
  · rintro _ ⟨⟩
    rfl

/-- A run of digits ends where something else begins. -/
private theorem span_digits {digits rest : Text}
    (each : ∀ character ∈ digits, character.isDigit = true)
    (stops : ∀ character ∈ rest.head?, character.isDigit = false) :
    (digits ++ rest).takeWhile Char.isDigit = digits ∧
      (digits ++ rest).dropWhile Char.isDigit = rest := by
  have outside : rest.takeWhile Char.isDigit = [] ∧ rest.dropWhile Char.isDigit = rest := by
    cases rest with
    | nil => exact ⟨rfl, rfl⟩
    | cons first others => simp [stops first rfl]
  rw [List.takeWhile_append_of_pos each, List.dropWhile_append_of_pos each, outside.1, outside.2,
    List.append_nil]
  exact ⟨rfl, rfl⟩

/-- A text is taken for a number without a sign exactly if it is one. -/
private theorem isUnsigned_iff {text : Text} :
    Word.isUnsigned text = true ↔
      ∃ whole fraction, Integer whole ∧ Fraction fraction ∧ text = whole ++ fraction := by
  rw [Word.isUnsigned, Bool.and_eq_true,
    isInteger_iff fun character member => List.mem_takeWhile_imp member, isFraction_iff]
  constructor
  · rintro ⟨integer, fraction⟩
    exact ⟨_, _, integer, fraction, List.takeWhile_append_dropWhile.symm⟩
  · rintro ⟨whole, fraction, integer, behind, rfl⟩
    obtain ⟨taken, dropped⟩ := span_digits (digits_of_integer integer) (head?_of_fraction behind)
    rw [taken, dropped]
    exact ⟨integer, behind⟩

/-- A text is taken for a number exactly if it is one. -/
theorem isNumber_iff {text : Text} : Word.isNumber text = true ↔ Number text := by
  unfold Number
  constructor
  · intro number
    unfold Word.isNumber at number
    split at number
    · obtain ⟨whole, fraction, integer, behind, rfl⟩ := isUnsigned_iff.mp number
      exact ⟨['-'], whole, fraction, .inr rfl, integer, behind, rfl⟩
    · obtain ⟨whole, fraction, integer, behind, rfl⟩ := isUnsigned_iff.mp number
      exact ⟨[], whole, fraction, .inl rfl, integer, behind, rfl⟩
  · rintro ⟨sign, whole, fraction, rfl | rfl, integer, behind, rfl⟩
    · have unsigned := isUnsigned_iff.mpr ⟨whole, fraction, integer, behind, rfl⟩
      rw [List.nil_append]
      unfold Word.isNumber
      split
      next same =>
        rw [same] at unsigned
        cases unsigned
      next => exact unsigned
    · exact isUnsigned_iff.mpr ⟨whole, fraction, integer, behind, rfl⟩

/-- A text is taken for a date exactly if it is one. -/
theorem isDate_iff {text : Text} : Word.isDate text = true ↔ Date text := by
  constructor
  · intro date
    unfold Word.isDate at date
    split at date
    next y₁ y₂ y₃ y₄ m₁ m₂ d₁ d₂ =>
      refine ⟨[y₁, y₂, y₃, y₄], [m₁, m₂], [d₁, d₂], ?_⟩
      simp_all [Digits]
    next => cases date
  · rintro ⟨year, month, day, ⟨⟨_, years⟩, four⟩, ⟨⟨_, months⟩, two⟩, ⟨⟨_, days⟩, two'⟩, rfl⟩
    match year, month, day, four, two, two' with
    | [y₁, y₂, y₃, y₄], [m₁, m₂], [d₁, d₂], _, _, _ => simp_all [Word.isDate]

/-- No date is a number. -/
private theorem not_isNumber_of_date {text : Text} (date : Date text) :
    Word.isNumber text = false := by
  obtain ⟨year, month, day, ⟨⟨nonempty, years⟩, _⟩, _, _, rfl⟩ := date
  obtain ⟨first, others, rfl⟩ := List.exists_cons_of_ne_nil nonempty
  have noSign : first ≠ '-' := by
    rintro rfl
    cases years '-' List.mem_cons_self
  -- the hyphen behind the year begins no fraction
  obtain ⟨_, behind⟩ := @span_digits _ ('-' :: (month ++ '-' :: day)) years
    (by rintro _ ⟨⟩; rfl)
  rw [Word.isNumber]
  · rw [Word.isUnsigned, behind]
    exact Bool.and_false _
  · rintro rest same
    cases same
    exact noSign rfl

/-- A word is taken for what it is. -/
theorem kind_iff {text : Text} :
    (Word.kind text = .number ↔ Number text) ∧ (Word.kind text = .date ↔ Date text) ∧
      (Word.kind text = .other ↔ ¬ Number text ∧ ¬ Date text) := by
  rw [← isNumber_iff, ← isDate_iff]
  unfold Word.kind
  cases number : Word.isNumber text with
  | true =>
      have noDate : Word.isDate text ≠ true := by
        intro date
        rw [not_isNumber_of_date (isDate_iff.mp date)] at number
        cases number
      simp [noDate]
  | false => cases Word.isDate text <;> simp

/-- A text shields its quotes exactly if each stands behind a backslash. -/
theorem shields_iff {quote : Char} {escaped : Bool} {content : Text} :
    shields quote escaped content = true ↔
      ∀ before after, content = before ++ quote :: after →
        before.getLast?.elim escaped (· == '\\') = true := by
  induction content generalizing escaped with
  | nil => simp [shields]
  | cons character rest ih =>
      rw [shields, Bool.and_eq_true, ih]
      constructor
      · rintro ⟨own, others⟩ before after split
        cases before with
        | nil =>
            cases split
            simpa using own
        | cons first more =>
            cases split
            rw [elim_getLast?_cons]
            exact others more after rfl
      · intro each
        refine ⟨?_, fun before after split => ?_⟩
        · by_cases own : character = quote
          · have escapes : escaped = true := each [] rest (by rw [own]; rfl)
            simp [escapes]
          · simp [own]
        · have behind := each (character :: before) after (by rw [split]; rfl)
          rwa [elim_getLast?_cons] at behind

/-- A text is taken for a string exactly if it is one. -/
theorem isString_iff {text : Text} : IsString text ↔ QuotedText text := by
  have encloses : ∀ {quote : Char} {content : Text}, Encloses quote content ↔
      (∀ before after, content = before ++ quote :: after → before.getLast? = some '\\') ∧
        content.getLast? ≠ some '\\' := by
    intro quote content
    rw [Encloses, shields_iff]
    refine and_congr_left fun _ => forall₂_congr fun before after => imp_congr_right fun _ => ?_
    cases before.getLast? <;> simp
  unfold IsString QuotedText
  refine exists₂_congr fun quote content => ?_
  rw [encloses, enclose]
  exact and_congr_right fun _ => and_comm

/-- A comment is read to the end of a text exactly if its mark stands there and nowhere before. -/
private theorem throughCommentEnd_eq_self_iff {body : Text} :
    throughCommentEnd body = some (body, []) ↔
      ['*', '/'] <:+ body ∧ ∀ before after, body = before ++ '*' :: '/' :: after → after = [] := by
  constructor
  · intro closed
    fun_induction throughCommentEnd body with
    | case1 => cases closed
    | case2 rest =>
        cases closed
        refine ⟨List.suffix_rfl, fun before after split => ?_⟩
        have short := congrArg List.length split
        simp only [List.length_append, List.length_cons, List.length_nil] at short
        exact List.eq_nil_of_length_eq_zero (by omega)
    | case3 character others noEnd ih =>
        obtain ⟨⟨inner, behind⟩, found, same⟩ := Option.map_eq_some_iff.mp closed
        cases same
        obtain ⟨ends, first⟩ := ih found
        refine ⟨ends.trans (List.suffix_cons _ _), fun before after split => ?_⟩
        cases before with
        | nil =>
            cases split
            exact (noEnd after rfl rfl).elim
        | cons other more =>
            cases split
            exact first more after rfl
  · rintro ⟨⟨before, rfl⟩, first⟩
    induction before with
    | nil => rfl
    | cons character rest ih =>
        have within : throughCommentEnd (rest ++ ['*', '/']) = some (rest ++ ['*', '/'], []) := by
          apply ih
          intro before after split
          exact first (character :: before) after (congrArg (character :: ·) split)
        rw [List.cons_append, throughCommentEnd, within]
        · rfl
        · rintro more rfl split
          have ended := first [] more (congrArg ('*' :: ·) split)
          rw [ended] at split
          simpa using congrArg List.length split

/-- A text is taken for a block comment exactly if it is one. -/
theorem isBlock_iff {text : Text} : Comment.IsBlock text ↔ BlockComment text := by
  unfold Comment.IsBlock BlockComment
  constructor
  · rintro ⟨body, rfl, closed⟩
    obtain ⟨⟨inner, rfl⟩, first⟩ := throughCommentEnd_eq_self_iff.mp closed
    exact ⟨inner, rfl, first⟩
  · rintro ⟨inner, rfl, first⟩
    exact ⟨_, rfl, throughCommentEnd_eq_self_iff.mpr ⟨List.suffix_append _ _, first⟩⟩

/-- The texts that the grammar allows are those of tokens that are well formed. -/
theorem allows_iff (lexeme : Lexeme) : Allows lexeme.kind lexeme.text ↔ lexeme.WellFormed := by
  obtain ⟨kind, text⟩ := lexeme
  obtain ⟨number, date, other⟩ := @kind_iff text
  cases kind with
  | whitespace => simp [Allows, Lexeme.WellFormed, isIndent]
  | comment => exact or_congr_right isBlock_iff.symm
  | string => exact isString_iff.symm
  | number => exact and_congr_right fun _ => number.symm
  | date => exact and_congr_right fun _ => date.symm
  | other => exact and_congr_right fun _ => other.symm
  | lineBreak | semicolon | plus | openBlock | closeBlock => rfl

/-! ## Neighbours -/

/-- A token may stand directly before another one. -/
def MayPrecede (lexeme next : Lexeme) : Prop :=
  match lexeme.kind with
  | .whitespace => next.kind ≠ .whitespace
  | .comment =>
      Comment.IsLine lexeme.text →
        next.kind = .lineBreak ∧ (lexeme.text.getLast? = some '\r' → next.text ≠ ['\n'])
  | .number | .date | .other => ∃ character ∈ next.text.head?, isDelimiter character = true
  | _ => True

/-- Each token has a text of its kind, and each two neighbours may stand side by side. -/
structure Derives (lexemes : List Lexeme) : Prop where
  texts : ∀ lexeme ∈ lexemes, Allows lexeme.kind lexeme.text
  neighbours : lexemes.IsChain MayPrecede

theorem ends_nil (lexeme : Lexeme) : lexeme.Ends [] := by
  obtain ⟨kind, text⟩ := lexeme
  cases kind with
  | comment => exact fun _ => .inl rfl
  | whitespace | number | date | other => exact fun _ member => by cases member
  | lineBreak | string | semicolon | plus | openBlock | closeBlock => trivial

/-- Whether a token goes on into what stands behind it depends on the next token only. -/
theorem ends_iff_mayPrecede (lexeme : Lexeme) {next : Lexeme} {rest : Text}
    (formed : next.WellFormed) (ends : next.Ends rest) :
    lexeme.Ends (next.text ++ rest) ↔ MayPrecede lexeme next := by
  obtain ⟨head, tail, start⟩ := List.exists_cons_of_ne_nil formed.text_ne_nil
  obtain ⟨kind, text⟩ := lexeme
  cases kind with
  | whitespace =>
      have first : isIndent head = true ↔ next.kind = .whitespace := by
        constructor
        · exact formed.kind_of_indent start
        · intro space
          rw [Lexeme.WellFormed, space] at formed
          exact formed.2 head (by rw [start]; exact List.mem_cons_self)
      simp [Lexeme.Ends, MayPrecede, start, ← first]
  | comment =>
      refine imp_congr_right fun _ => ?_
      constructor
      · rintro (empty | ⟨others, pair⟩ | ⟨others, feed, last⟩)
        · exact (formed.text_ne_nil (List.append_eq_nil_iff.mp empty).1).elim
        · have read : Except.ok (⟨.lineBreak, ['\r', '\n']⟩, others) = Except.ok (next, rest) :=
            Lexeme.first_eq_ok_iff.mpr ⟨pair, formed, ends⟩
          cases read
          exact ⟨rfl, fun _ same => by cases same⟩
        · have read : Except.ok (⟨.lineBreak, ['\n']⟩, others) = Except.ok (next, rest) :=
            Lexeme.first_eq_ok_iff.mpr ⟨feed, formed, ends⟩
          cases read
          exact ⟨rfl, fun carriage => (last carriage).elim⟩
      · rintro ⟨breaks, pairs⟩
        rw [Lexeme.WellFormed, breaks] at formed
        rcases formed with feed | pair
        · refine .inr (.inr ⟨rest, by rw [feed]; rfl, fun carriage => pairs carriage feed⟩)
        · exact .inr (.inl ⟨rest, by rw [pair]; rfl⟩)
  | number | date | other => simp [Lexeme.Ends, MayPrecede, start]
  | lineBreak | string | semicolon | plus | openBlock | closeBlock => exact Iff.rfl

/-- The first token of a text ends where the rest begins. -/
private theorem ends_of_lexes {text : Text} {lexeme : Lexeme} {lexemes : List Lexeme}
    (lexes : Lexes text (lexeme :: lexemes)) :
    ∃ rest, text = lexeme.text ++ rest ∧ lexeme.WellFormed ∧ lexeme.Ends rest := by
  cases lexes with
  | cons formed ends _ => exact ⟨_, rfl, formed, ends⟩

/-- Tokens are those of a text exactly if they spell it and the grammar derives them. -/
theorem lexes_iff_derives {text : Text} {lexemes : List Lexeme} :
    Lexes text lexemes ↔ lexemes.flatMap Lexeme.text = text ∧ Derives lexemes := by
  constructor
  · intro lexes
    refine ⟨?_, fun lexeme member => (allows_iff lexeme).mpr (lexes.wellFormed lexeme member), ?_⟩
    · induction lexes with
      | nil => rfl
      | cons _ _ _ ih => rw [List.flatMap_cons, ih]
    · induction lexes with
      | nil => exact .nil
      | cons _ ends others ih =>
          refine List.isChain_cons.mpr ⟨fun next member => ?_, ih⟩
          cases others with
          | nil => cases member
          | cons formed' ends' _ =>
              cases member
              exact (ends_iff_mayPrecede _ formed' ends').mp ends
  · rintro ⟨rfl, texts, neighbours⟩
    induction lexemes with
    | nil => exact .nil
    | cons lexeme others ih =>
        obtain ⟨next, behind⟩ := List.isChain_cons.mp neighbours
        have lexes := ih (fun other member => texts other (List.mem_cons_of_mem _ member)) behind
        rw [List.flatMap_cons]
        refine .cons ((allows_iff lexeme).mp (texts lexeme List.mem_cons_self)) ?_ lexes
        cases others with
        | nil => exact ends_nil lexeme
        | cons second more =>
            obtain ⟨rest, whole, formed, ends⟩ := ends_of_lexes lexes
            rw [whole]
            exact (ends_iff_mayPrecede lexeme formed ends).mpr (next second rfl)

end LexicalGrammar

namespace TokenStream

/-- Some tokens are all tokens of a text exactly if scanning gives them and no fault. -/
theorem tokenize_eq_ok_iff {text : Text} {tokens : List Token} :
    tokenize text = .ok tokens ↔ scan 0 text = (tokens, none) := by
  unfold tokenize ofText drain
  rcases scan 0 text with ⟨scanned, _ | problem⟩ <;> simp

/-- The tokens of a text are those that it is put together from. -/
theorem tokenize_iff_lexes {text : Text} {lexemes : List Lexeme} :
    (∃ tokens, tokenize text = .ok tokens ∧ tokens.map Token.toLexeme = lexemes) ↔
      Lexes text lexemes := by
  rw [← @scan_iff_lexes 0]
  constructor
  · rintro ⟨tokens, read, same⟩
    rw [tokenize_eq_ok_iff.mp read]
    exact ⟨rfl, same⟩
  · rintro ⟨sound, same⟩
    exact ⟨_, tokenize_eq_ok_iff.mpr (Prod.ext rfl sound), same⟩

/-- A text is split into some tokens exactly if they spell it and the lexical grammar
derives them. -/
theorem tokenize_iff_derives (text : Text) (lexemes : List Lexeme) :
    (∃ tokens, tokenize text = .ok tokens ∧ tokens.map Token.toLexeme = lexemes) ↔
      lexemes.flatMap Lexeme.text = text ∧ LexicalGrammar.Derives lexemes :=
  tokenize_iff_lexes.trans LexicalGrammar.lexes_iff_derives

end TokenStream

end YangFormatter
