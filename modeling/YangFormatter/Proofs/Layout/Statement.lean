import YangFormatter.Proofs.Layout.Reading

/-! # Reading a statement up to its terminator

A header whose comments all stand behind its terminator is read back from its layout
(`Reads.header`), with its string at the margin that the layout gives it and with
the comments between its strings grouped.
-/

namespace YangFormatter

open TreeBuilder

namespace Quotation

/-- A string of one line is not indented anew. -/
theorem reindented_of_line (margin : Text) {text : Text} (single : '\n' ∉ text) :
    reindented margin text = text := by
  rw [reindented, Text.lines, List.splitOn_eq_singleton single]
  simp

/-- A string that is indented anew is a string. -/
theorem isString_reindented {text margin : Text} (isString : IsString text)
    (indents : Margin.isEmptyLine margin = true) : IsString (reindented margin text) := by
  obtain ⟨quote, content, isQuote, encloses, rfl⟩ := isString
  rw [reindented_enclose isQuote, isString_enclose]
  exact ⟨isQuote, (encloses_reindentedInner_iff isQuote indents content).mpr encloses⟩

end Quotation

/-- A string of several lines stands on a line of its own, and its lines behind the quote. -/
theorem Layout.multiline_eq (indent text : Text) :
    multiline indent text = '\n' :: (indent ++ Quotation.reindented (indent ++ [' ']) text) := by
  have further : ∀ (first : Text) (rest : List Text),
      first ++ rest.flatMap (continuation indent) =
        .ofLines (first :: rest.map fun line =>
          if line.isEmpty then [] else indent ++ [' '] ++ line) := by
    intro first rest
    induction rest generalizing first with
    | nil => simp
    | cons line rest ih =>
        rw [List.flatMap_cons, List.map_cons, Text.ofLines_cons_cons, ← ih, continuation]
        split <;> simp
  obtain ⟨first, rest, split⟩ := List.exists_cons_of_ne_nil (Text.lines_ne_nil text)
  rw [multiline, Quotation.reindented, split]
  simp only
  rw [← further, List.cons_append, List.cons_append, List.append_assoc]

/-- A value is set off from its keyword. -/
theorem Layout.exists_value_eq_cons (style : Style) (depth : Int) (keyword : Text) (column : Nat)
    {given : Value} (full : given ≠ .concatenation []) :
    ∃ first tail, value style depth keyword column given = first :: tail ∧
      isDelimiter first = true := by
  have beside : ∀ text, ∃ first tail, oneLine style depth column text = first :: tail ∧
      isDelimiter first = true := by
    intro text
    unfold oneLine
    split
    · exact ⟨_, _, rfl, rfl⟩
    · exact ⟨_, _, rfl, rfl⟩
  cases given with
  | quoted text =>
      rw [value]
      split
      · rw [multiline_eq]
        exact ⟨_, _, rfl, rfl⟩
      · exact beside text
  | number text | date text | other text => exact beside text
  | concatenation fragments =>
      cases fragments with
      | nil => exact (full rfl).elim
      | cons first others => exact ⟨_, _, rfl, rfl⟩

/-- A statement whose comments all stand behind its terminator. -/
structure Header.Ready (header : Header) : Prop where
  made : header.MadeOf Lexeme.WellFormed
  keywordComments : header.keywordComments = []
  valueComments : header.valueComments = []
  lastComments : header.value.elim [] Value.lastComments = []

/-- The token that ends a header, and perhaps opens a block. -/
def Lexeme.terminator (opens : Bool) : Lexeme :=
  if opens then ⟨.openBlock, ['{']⟩ else ⟨.semicolon, [';']⟩

namespace Reads

variable {blocks : List OpenBlock} {siblings nodes : List Node} {rest word : Text} {opens : Bool}

/-- A terminator is read back behind a header. -/
theorem terminator {state : HeaderState} {header : Header}
    (idle : ∀ text, state.step ⟨.whitespace, text⟩ = .more state)
    (ends : state.step (Lexeme.terminator opens) = .finished header opens)
    (reads : Reads ⟨blocks, siblings, .afterHeader header opens, 0⟩ rest nodes) :
    Reads ⟨blocks, siblings, .inHeader state, 0⟩ (Layout.terminator opens ++ rest) nodes := by
  have read : read ⟨blocks, siblings, .inHeader state, 0⟩ (Lexeme.terminator opens) =
      .ok ⟨blocks, siblings, .afterHeader header opens, 0⟩ := by
    rw [read_inHeader, ends]
    rfl
  have spaces : IgnoresSpace ⟨blocks, siblings, .inHeader state, 0⟩ := by
    intro text
    rw [read_inHeader, idle]
    rfl
  have formed : (Lexeme.terminator opens).WellFormed := by cases opens <;> rfl
  have ends : (Lexeme.terminator opens).Ends rest := by cases opens <;> trivial
  cases opens with
  | false => exact token formed ends read reads
  | true => exact space spaces (token formed ends read reads)

/-- A value of one token is read up to the terminator. -/
theorem single {lexeme : Lexeme} (content : lexeme.kind.isTrivia = false)
    (goesOn : lexeme.kind.isTerminator = false) (formed : lexeme.WellFormed)
    (reads : Reads ⟨blocks, siblings,
      .afterHeader { keyword := word, value := some (.ofLexeme lexeme) } opens, 0⟩ rest nodes) :
    Reads ⟨blocks, siblings, .inHeader (.keyword word []), 0⟩
      (lexeme.text ++ (Layout.terminator opens ++ rest)) nodes := by
  have ends : lexeme.Ends (Layout.terminator opens ++ rest) := by
    obtain ⟨kind, text⟩ := lexeme
    cases kind with
    | number | date | other => cases opens <;> exact fun _ first => by cases first; rfl
    | string | plus | closeBlock => trivial
    | whitespace | lineBreak | comment => cases content
    | semicolon | openBlock => cases goesOn
  have read : read ⟨blocks, siblings, .inHeader (.keyword word []), 0⟩ lexeme =
      .ok ⟨blocks, siblings, .inHeader (.value word [] (.ofLexeme lexeme) []), 0⟩ := by
    obtain ⟨kind, text⟩ := lexeme
    cases kind with
    | number | date | other | string | plus | closeBlock => rfl
    | whitespace | lineBreak | comment => cases content
    | semicolon | openBlock => cases goesOn
  apply token formed ends read
  exact terminator (fun _ => rfl) (by cases opens <;> rfl) reads

/-- A value may stand beside its keyword or below it. -/
theorem oneLine {builder : TreeBuilder} (spaces : builder.IgnoresSpace)
    (breaks : builder.IgnoresBreak) (style : Style) (depth : Int) (column : Nat) {text : Text}
    (reads : Reads builder (text ++ rest) nodes) :
    Reads builder (Layout.oneLine style depth column text ++ rest) nodes := by
  unfold Layout.oneLine
  split
  · exact space spaces reads
  · rw [List.cons_append, List.cons_append, List.append_assoc]
    exact newline (breaks _) (indent spaces style _ reads)

/-- A string is read where the layout has put its lines. -/
theorem quoted {builder : TreeBuilder} (spaces : builder.IgnoresSpace)
    (breaks : builder.IgnoresBreak) (style : Style) (depth : Int) (column : Nat) {text : Text}
    (reads : Reads builder
      (Quotation.reindented (Relayout.margin style depth) text ++ rest) nodes) :
    Reads builder (Layout.value style depth word column (.quoted text) ++ rest) nodes := by
  rw [Layout.value]
  split
  next several =>
    rw [Layout.multiline_eq, List.cons_append, List.append_assoc]
    exact newline (breaks _) (indent spaces style _ reads)
  next single =>
    rw [Quotation.reindented_of_line _ (by simpa [Quotation.isMultiline] using single)] at reads
    exact oneLine spaces breaks style depth column reads

/-- A further string of a concatenation. -/
theorem joined {builder : TreeBuilder} (spaces : builder.IgnoresSpace) {earlier : List Fragment}
    {last : Fragment} {text : Text} (style : Style) (depth : Int) (count : Nat)
    (plus : builder.read ⟨.plus, ['+']⟩ =
      .ok ⟨blocks, siblings, .inHeader (.plus word [] earlier last), 0⟩)
    (isString : Quotation.IsString text)
    (reads : Reads ⟨blocks, siblings,
      .inHeader (.fragment word [] (earlier ++ [last]) ⟨text, []⟩), 0⟩ rest nodes) :
    Reads builder
      (style.indent depth ++ (List.replicate count ' ' ++ (" + ".toList ++ (text ++ rest))))
      nodes := by
  apply indent spaces
  apply Reads.spaces spaces
  apply space spaces
  have sign : Lexeme.WellFormed ⟨.plus, ['+']⟩ := rfl
  apply token sign trivial plus
  apply space fun _ => rfl
  exact @token _ _ _ _ ⟨.string, text⟩ isString trivial rfl reads

/-- The strings of a concatenation after the first, with the comments before the next. -/
theorem fragments (style : Style) (depth : Int) {others : List Fragment} {last : Fragment}
    (each : ∀ fragment ∈ last :: others, fragment.MadeOf Lexeme.WellFormed)
    (bare : (last :: others).getLast?.elim [] Fragment.comments = []) (earlier : List Fragment)
    (reads : Reads ⟨blocks, siblings,
      .afterHeader
        { keyword := word
          value := some (.concatenation (earlier ++ (last :: others).map fun fragment =>
            Relayout.regroupFragment (fragment.mapComments Comment.settled))) } opens, 0⟩
      rest nodes) :
    Reads ⟨blocks, siblings, .inHeader (.fragment word [] earlier ⟨last.text, []⟩), 0⟩
      (Layout.comments style (depth + 1) last.comments ++
        (others.flatMap (Layout.joined style depth word) ++ (Layout.terminator opens ++ rest)))
      nodes := by
  induction others generalizing last earlier with
  | nil =>
      obtain ⟨text, comments⟩ := last
      obtain rfl : comments = [] := bare
      exact terminator (fun _ => rfl) (by cases opens <;> rfl) reads
  | cons next others ih =>
      have collects : Collects fun comments => ⟨blocks, siblings,
          .inHeader (.fragment word [] earlier ⟨last.text, comments⟩), 0⟩ :=
        ⟨fun _ _ => rfl, fun _ _ => rfl⟩
      have own := each last List.mem_cons_self
      have behind := each next (by simp)
      rw [List.flatMap_cons, Layout.joined]
      simp only [List.append_assoc, List.cons_append]
      apply collects.grouped (fun _ _ => rfl) style (depth + 1) own.comments
      apply joined (fun _ => rfl) style depth _ rfl behind.text
      apply ih (fun fragment member => each fragment (List.mem_cons_of_mem _ member)) bare
      rwa [List.append_assoc]

/-- A value is read up to the terminator. -/
theorem value (style : Style) (depth : Int) (column : Nat) {given : Value}
    (made : given.MadeOf Lexeme.WellFormed) (bare : given.lastComments = [])
    (reads : Reads ⟨blocks, siblings,
      .afterHeader
        { keyword := word
          value := some (Relayout.reindentValue (Relayout.margin style depth)
            (Relayout.regroupValue (given.mapComments Comment.settled))) } opens, 0⟩ rest nodes) :
    Reads ⟨blocks, siblings, .inHeader (.keyword word []), 0⟩
      (Layout.value style depth word column given ++ (Layout.terminator opens ++ rest)) nodes := by
  have spaces : IgnoresSpace ⟨blocks, siblings, .inHeader (.keyword word []), 0⟩ := fun _ => rfl
  have breaks : IgnoresBreak ⟨blocks, siblings, .inHeader (.keyword word []), 0⟩ := fun _ => rfl
  cases made with
  | @single lexeme content goesOn formed =>
      obtain ⟨kind, text⟩ := lexeme
      cases kind with
      | string =>
          apply quoted spaces breaks
          have moved :=
            Quotation.isString_reindented formed (Relayout.isEmptyLine_margin style depth)
          exact @single _ _ _ _ _ _ ⟨.string, _⟩ rfl rfl moved reads
      | number | date | other | plus | closeBlock =>
          apply oneLine spaces breaks
          exact single content goesOn formed reads
      | whitespace | lineBreak | comment => cases content
      | semicolon | openBlock => cases goesOn
  | @concatenation strings several each =>
      obtain ⟨first, next, others, rfl⟩ :
          ∃ first next others, strings = first :: next :: others := by
        match strings with
        | [] | [_] => simp at several
        | first :: next :: others => exact ⟨first, next, others, rfl⟩
      have own := each first List.mem_cons_self
      have behind := each next (by simp)
      have collects : Collects fun comments => ⟨blocks, siblings,
          .inHeader (.value word [] (.quoted first.text) comments), 0⟩ :=
        ⟨fun _ _ => rfl, fun _ _ => rfl⟩
      rw [Value.mapComments, Relayout.regroupValue, List.map_map] at reads
      rw [Layout.value, Layout.concatenation, List.flatMap_cons, Layout.joined]
      simp only [List.append_assoc, List.cons_append]
      apply space spaces
      refine @token _ _ _ _ ⟨.string, first.text⟩ own.text trivial rfl ?_
      apply collects.grouped (fun _ _ => rfl) style (depth + 1) own.comments
      apply joined (fun _ => rfl) style depth _ rfl behind.text
      exact fragments style depth
        (fun fragment member => each fragment (List.mem_cons_of_mem _ member)) bare _ reads

/-- A header is read up to its terminator. -/
theorem header {head : Header} (ready : head.Ready) (style : Style) (depth : Int)
    {afterBreak : Bool}
    (reads : Reads ⟨blocks, siblings,
      .afterHeader { Relayout.header style depth head with postComments := [] } opens, 0⟩
      rest nodes) :
    Reads ⟨blocks, siblings, .between afterBreak, 0⟩
      (Layout.header style depth head ++ (Layout.terminator opens ++ rest)) nodes := by
  obtain ⟨keyword, keywordComments, given, valueComments, postComments⟩ := head
  obtain ⟨made, rfl, rfl, bare⟩ := ready
  have line : Layout.opening style depth ⟨keyword, [], given, [], postComments⟩ =
      style.indent depth ++ keyword :=
    List.append_nil _
  have spaces : IgnoresSpace ⟨blocks, siblings, .between afterBreak, 0⟩ := fun _ => rfl
  rw [Layout.header, line, List.append_assoc, List.append_assoc]
  apply indent spaces
  cases given with
  | none =>
      have ends : Lexeme.Ends ⟨.other, keyword⟩ (Layout.terminator opens ++ rest) := by
        cases opens <;> exact fun _ first => by cases first; rfl
      apply token made.keyword ends rfl
      exact terminator (fun _ => rfl) (by cases opens <;> rfl) reads
  | some given =>
      have strings : given ≠ .concatenation [] := by
        rintro rfl
        exact absurd (Value.madeOf_concatenation (made.value _ rfl)).1 (by decide)
      obtain ⟨first, tail, start, delimits⟩ := Layout.exists_value_eq_cons style depth keyword
        (style.indent depth ++ keyword).length strings
      have ends : ∀ text, Lexeme.Ends ⟨.other, keyword⟩ (Layout.value style depth keyword
          (style.indent depth ++ keyword).length given ++ text) := by
        intro text
        rw [start]
        rintro character ⟨⟩
        exact delimits
      have noComments : Layout.comments style (depth + 1) [] = [] := rfl
      simp only [noComments, List.append_nil]
      apply token made.keyword (ends _) rfl
      exact value style depth _ (made.value given rfl) bare reads

end Reads

end YangFormatter
