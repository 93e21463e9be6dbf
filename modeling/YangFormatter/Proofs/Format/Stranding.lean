import YangFormatter.Proofs.Format.Attempt

/-! # Strings that lose their end

Tidying a string of several lines removes the carriage return between a backslash and
the closing quote, so that the quote is escaped. A formatted text is read back exactly
where that does not happen (`whole_of_parse`), and a statement that stands alone is then
not even accepted (`Style.not_parse_formatTree`).
-/

namespace YangFormatter

open Quotation

/-! ## No other tree is read back -/

/-- If the value of a statement is a text between quotes, it is a string. -/
private def Header.Closed (header : Header) : Prop :=
  ∀ quote content, IsQuote quote → header.value = some (.quoted (enclose quote content)) →
    Encloses quote content

/-- A string that is made of its token is closed. -/
private theorem Header.MadeOf.closed {header : Header} (own : header.MadeOf Lexeme.WellFormed) :
    header.Closed := by
  intro quote content _ quoted
  exact (isString_enclose.mp (own.isString quoted)).2

/-- A string that is closed when it is tidied strands no backslash. -/
private theorem Header.not_strands_of_closed {header : Header}
    (own : header.MadeOf Lexeme.WellFormed) (closed : header.tidied.Closed) : ¬ header.Strands := by
  rintro ⟨text, quoted, strands⟩
  have isString := own.isString quoted
  refine (isString_tidied_iff isString).mp ?_ strands
  obtain ⟨quote, content, isQuote, encloses, rfl⟩ := isString
  have isQuote' := isQuote_tidiedQuote isQuote content
  rw [tidied_enclose]
  refine isString_enclose.mpr ⟨isQuote', closed _ _ isQuote' ?_⟩
  rw [Header.tidied_eq, quoted, ← tidied_enclose]
  rfl

/-- Changing comments closes no string that is open. -/
private theorem Header.closed_of_mapComments {header : Header} {change : Text → Text}
    (closed : (header.mapComments change).Closed) : header.Closed := by
  intro quote content isQuote quoted
  refine closed quote content isQuote ?_
  rw [Header.mapComments, quoted]
  rfl

/-- Grouping comments closes no string that is open. -/
private theorem Header.closed_of_regroup {header : Header}
    (closed : (Relayout.regroupHeader header).Closed) : header.Closed := by
  intro quote content isQuote quoted
  refine closed quote content isQuote ?_
  rw [Relayout.regroupHeader, quoted]
  rfl

/-- Indenting strings anew closes no string that is open. -/
private theorem Header.closed_of_reindent {margin : Text} {header : Header}
    (indents : Margin.isEmptyLine margin = true)
    (closed : (Relayout.reindentHeader margin header).Closed) : header.Closed := by
  intro quote content isQuote quoted
  rw [← encloses_reindentedInner_iff isQuote indents]
  refine closed quote _ isQuote ?_
  rw [Relayout.reindentHeader, Header.mapValue, quoted, ← reindented_enclose isQuote]
  rfl

/-- If a tidied tree is read again from its layout, all of its strings have ends. -/
theorem whole_of_parse {nodes : List Node} {style : Style}
    (made : ∀ node ∈ nodes, node.MadeOf Lexeme.WellFormed)
    (again : (style.formatTree nodes).parse =
      .ok (Relayout.tree style (Node.mapAllComments Comment.settled (Tidy.tree style nodes)))) :
    ∀ node ∈ nodes, node.Whole := by
  have closed : ∀ node ∈ Relayout.tree style
      (Node.mapAllComments Comment.settled (Tidy.tree style nodes)),
        node.Every Header.Closed fun _ => True := by
    intro node member
    exact (Text.wellFormed_of_parse again node member).imp (fun head own => own.closed)
      fun _ _ => trivial
  have laid : ∀ node ∈ Relayout.regroupAll
      (Node.mapAllComments Comment.settled (Tidy.tree style nodes)),
        node.Every Header.Closed fun _ => True := by
    rw [Relayout.tree, Relayout.reindentAll_eq_map, List.forall_mem_map] at closed
    intro node member
    exact Relayout.every_of_every_reindent
      (fun margin head indents own => Header.closed_of_reindent indents own) (closed node member)
  have tidied : ∀ node ∈ Tidy.tree style nodes, node.Every Header.Closed fun _ => True := by
    rw [Relayout.regroupAll_eq_flatMap, List.forall_mem_flatMap, Node.mapAllComments_eq_map,
      List.forall_mem_map] at laid
    intro node member
    have own := (Relayout.every_regroup_iff _).mp (laid node member)
    rw [Relayout.every_mapComments_iff] at own
    refine own.imp (fun head closed => ?_) fun _ _ => trivial
    exact Header.closed_of_mapComments (Header.closed_of_regroup closed)
  rw [Tidy.every_tree_iff] at tidied
  intro node member
  exact ((made node member).and (tidied node member)).imp
    (fun head both => Header.not_strands_of_closed both.1 both.2) fun _ _ => trivial

/-! ## A statement alone -/

/-- A quote behind a backslash is shielded, and what comes after it has no other quote. -/
private theorem shields_escaped {quote : Char} {escaped : Bool} {content rest : Text}
    (shielded : shields quote escaped content = true) (last : content.getLast? = some '\\')
    (free : quote ∉ rest) : shields quote escaped (content ++ quote :: rest) = true := by
  induction content generalizing escaped with
  | nil => cases last
  | cons character others ih =>
      rw [shields, Bool.and_eq_true] at shielded
      rw [List.cons_append, shields, Bool.and_eq_true]
      refine ⟨shielded.1, ?_⟩
      cases others with
      | nil =>
          obtain rfl : character = '\\' := Option.some.inj last
          rw [List.nil_append, shields, shields_of_not_mem free]
          simp
      | cons next more =>
          rw [List.getLast?_cons_cons] at last
          exact ih shielded.2 last

/-- Behind spaces a text is put together from tokens by itself. -/
private theorem lexes_behind_spaces {count : Nat} {head : Char} {rest : Text}
    {lexemes : List Lexeme} (solid : isIndent head = false)
    (lexes : Lexes (List.replicate count ' ' ++ head :: rest) lexemes) :
    ∃ others, Lexes (head :: rest) others := by
  cases count with
  | zero => exact ⟨lexemes, lexes⟩
  | succ count =>
      have blank : Lexeme.WellFormed ⟨.whitespace, List.replicate (count + 1) ' '⟩ := by
        refine ⟨by simp, ?_⟩
        intro character member
        rw [List.eq_of_mem_replicate member]
        rfl
      refine lexes.behind blank ?_
      rintro _ ⟨⟩
      exact solid

/-- What stands before a string in a layout is tokens of its own. -/
private theorem lexes_behind_value {style : Style} {depth : Int} {keyword text rest : Text}
    {column : Nat} {lexemes : List Lexeme} {head : Char} {tail : Text}
    (start : reindented (Relayout.margin style depth) text = head :: tail)
    (solid : isIndent head = false)
    (lexes : Lexes (Layout.value style depth keyword column (.quoted text) ++ rest) lexemes) :
    ∃ others, Lexes (head :: (tail ++ rest)) others := by
  have below : ∀ lexemes,
      Lexes ('\n' :: (style.indent (depth + 1) ++ head :: (tail ++ rest))) lexemes →
        ∃ others, Lexes (head :: (tail ++ rest)) others := by
    intro lexemes lexes
    have feed : Lexeme.WellFormed ⟨.lineBreak, ['\n']⟩ := .inl rfl
    obtain ⟨others, behind⟩ := @Lexes.behind ⟨.lineBreak, ['\n']⟩ _ _ lexes feed trivial
    exact lexes_behind_spaces solid behind
  rw [Layout.value] at lexes
  split at lexes
  next several =>
    rw [Layout.multiline_eq, ← Relayout.margin, start, List.cons_append, List.append_assoc] at lexes
    exact below _ lexes
  next single =>
    rw [reindented_of_line _ (by simpa [isMultiline] using single)] at start
    rw [start, Layout.oneLine] at lexes
    split at lexes
    · exact @lexes_behind_spaces 1 _ _ _ solid lexes
    · rw [List.cons_append, List.cons_append, List.append_assoc] at lexes
      exact below _ lexes

/-- How a leaf with a string is formatted. -/
private theorem formatTree_leaf (style : Style) (keyword string : Text) :
    style.formatTree [.leaf { keyword, value := some (.quoted string) }] =
      keyword ++ (Layout.value style 0 keyword keyword.length (.quoted (Quotation.tidied string)) ++
        [';', '\n']) := by
  have tidied : Tidy.tree style [.leaf { keyword, value := some (.quoted string) }] =
      [.leaf { keyword, value := some (.quoted (Quotation.tidied string)) }] := by
    rw [Tidy.tree, Tidy.within, Tidy.mapBlocks, Tidy.arrange]
    split <;> rfl
  have left : style.indent 0 = [] := by simp [Style.indent]
  have opening : Layout.opening style 0
      { keyword, value := some (.quoted (Quotation.tidied string)) } = keyword := by
    rw [Layout.opening, left]
    exact List.append_nil keyword
  rw [Style.formatTree, tidied, Layout.tree, Layout.nodes, Layout.nodes, Layout.node, Layout.header,
    opening, List.append_assoc, List.append_assoc]
  simp only [List.append_assoc, List.append_nil]
  rfl

/-- If the string of a statement loses its end, the formatted statement does not consist of
tokens where it stands alone. -/
theorem Style.not_lexes_formatTree {keyword string : Text}
    (word : Lexeme.WellFormed ⟨.other, keyword⟩) (isString : IsString string)
    (strands : Quotation.Strands (inner string)) (style : Style) (lexemes : List Lexeme) :
    ¬ Lexes (style.formatTree [.leaf { keyword, value := some (.quoted string) }]) lexemes := by
  intro lexes
  obtain ⟨quote, content, isQuote, encloses, rfl⟩ := isString
  rw [inner_enclose] at strands
  rw [formatTree_leaf, tidied_enclose] at lexes
  have isQuote' := isQuote_tidiedQuote isQuote content
  have encloses' := encloses.tidiedQuote
  generalize tidiedQuote quote content = kept at lexes isQuote' encloses'
  -- the keyword ends before the string, which begins but does not end
  have ends : Lexeme.Ends ⟨.other, keyword⟩ (Layout.value style 0 keyword keyword.length
      (.quoted (enclose kept (tidiedInner content))) ++ [';', '\n']) := by
    have single : Value.quoted (enclose kept (tidiedInner content)) ≠ .concatenation [] := nofun
    obtain ⟨first, tail, start, delimits⟩ :=
      Layout.exists_value_eq_cons style 0 keyword keyword.length single
    rw [start]
    rintro _ ⟨⟩
    exact delimits
  obtain ⟨others, behind⟩ := @Lexes.behind ⟨.other, keyword⟩ _ _ lexes word ends
  have indents := Relayout.isEmptyLine_margin style 0
  have solid : isIndent kept = false := by rcases isQuote' with rfl | rfl <;> rfl
  have free : kept ∉ [';', '\n'] := by rcases isQuote' with rfl | rfl <;> decide
  have start : reindented (Relayout.margin style 0) (enclose kept (tidiedInner content)) =
      kept :: (reindentedInner (Relayout.margin style 0) (tidiedInner content) ++ [kept]) :=
    reindented_enclose isQuote' _ _
  obtain ⟨final, endless⟩ := lexes_behind_value start solid behind
  rw [List.append_assoc] at endless
  refine not_lexes_of_shields isQuote' (shields_escaped ?_ ?_ free) final endless
  · rw [shields_reindentedInner isQuote' indents]
    exact encloses'.shields_tidiedInner isQuote'
  · by_contra last
    have whole : Encloses kept (tidiedInner content) := by
      rw [← encloses_reindentedInner_iff isQuote' indents]
      refine ⟨?_, last⟩
      rw [shields_reindentedInner isQuote' indents]
      exact encloses'.shields_tidiedInner isQuote'
    exact (encloses_tidiedInner_iff encloses' isQuote').mp whole strands

/-- A string that strands a backslash is formatted to a text without a tree. -/
theorem Style.not_parse_formatTree {keyword string : Text}
    (word : Lexeme.WellFormed ⟨.other, keyword⟩) (isString : IsString string)
    (strands : Quotation.Strands (inner string)) (style : Style) (again : List Node) :
    (style.formatTree [.leaf { keyword, value := some (.quoted string) }]).parse ≠ .ok again := by
  intro accepted
  obtain ⟨lexemes, lexes, _⟩ := Text.parse_eq_ok_iff.mp accepted
  exact Style.not_lexes_formatTree word isString strands style lexemes lexes

/-- The formatted text of a source is what formatting comes to on every machine that affords its
tree. It has the tidied tree again, up to its layout, exactly if tidying leaves every string of
the source with its end. Of a source that is a single statement with a string, the formatted
text is accepted exactly then. -/
theorem Style.parse_format_iff_whole {source : Source} {nodes : List Node}
    (parsed : source.parse = .ok nodes) (style : Style) :
    (∀ machine text, style.attemptFormat machine source = .ok text ↔
        machine.Affords style nodes ∧ style.formatTree nodes = text) ∧
      ((style.formatTree nodes).parse = .ok (Relayout.tree style
        (Node.mapAllComments Comment.settled (Tidy.tree style nodes))) ↔
          ∀ node ∈ nodes, node.Whole) ∧
      ∀ keyword string, nodes = [.leaf { keyword, value := some (.quoted string) }] →
        ((∃ again, (style.formatTree nodes).parse = .ok again) ↔
          ¬ Quotation.Strands (inner string)) := by
  have made := Source.wellFormed_of_parse parsed
  refine ⟨fun _ _ => attemptFormat_eq_ok_iff parsed,
    ⟨whole_of_parse made, fun whole => Style.parse_formatTree made whole style⟩, ?_⟩
  rintro keyword string rfl
  have own := Node.every_leaf_iff.mp (made _ List.mem_cons_self)
  constructor
  · rintro ⟨again, accepted⟩ strands
    exact Style.not_parse_formatTree own.keyword (own.isString rfl) strands style again accepted
  · intro kept
    refine ⟨_, Style.parse_formatTree made (List.forall_mem_singleton.mpr (.leaf ?_)) style⟩
    rintro ⟨_, same, strands⟩
    cases same
    exact kept strands

/-- The carriage return is all that keeps the backslash from the quote. -/
theorem Style.format_unreadable :
    Source.parse (.text "a \"x\ny\\\r\";".toList) =
        .ok [.leaf { keyword := "a".toList, value := some (.quoted "\"x\ny\\\r\"".toList) }] ∧
      ∃ formatted,
        Style.attemptFormat {} {} (.text "a \"x\ny\\\r\";".toList) = .ok formatted ∧
          ∀ again, formatted.parse ≠ .ok again := by
  have parsed : Source.parse (.text "a \"x\ny\\\r\";".toList) =
      .ok [.leaf { keyword := "a".toList, value := some (.quoted "\"x\ny\\\r\"".toList) }] := by
    cbv
  obtain ⟨formats, _, alone⟩ := Style.parse_format_iff_whole parsed {}
  refine ⟨parsed, _, (formats {} _).mpr ⟨by decide, rfl⟩, fun again accepted => ?_⟩
  exact (alone _ _ rfl).mp ⟨again, accepted⟩ (by decide)

end YangFormatter
