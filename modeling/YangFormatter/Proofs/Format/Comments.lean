import YangFormatter.Proofs.Format.Stranding
import YangFormatter.Proofs.Reading.Spelling

/-! # Comments

Formatting moves comments but keeps them: the formatted text has the comments of the source
in some order, except that one which runs to the end of its line loses a carriage return
there (`Style.comments_formatTree`). So the comments are the same exactly if none ends in a
carriage return, unless a string has lost its end (`Style.comments_format`).
-/

namespace YangFormatter

open Quotation Relayout

namespace Lexeme

/-- The comments among some tokens. -/
def comments (lexemes : List Lexeme) : List Text :=
  (lexemes.filter fun lexeme => lexeme.kind == .comment).map Lexeme.text

theorem comments_append (lexemes others : List Lexeme) :
    comments (lexemes ++ others) = comments lexemes ++ comments others := by
  rw [comments, List.filter_append, List.map_append]
  rfl

/-- The comments of tokens that stand for comments are these. -/
theorem comments_ofComments (texts : List Text) : comments (ofComments texts) = texts := by
  induction texts with
  | nil => rfl
  | cons text rest ih => exact congrArg (text :: ·) ih

theorem comments_flatMap {α : Type} (items : List α) (spelling : α → List Lexeme) :
    comments (items.flatMap spelling) = items.flatMap fun item => comments (spelling item) := by
  induction items with
  | nil => rfl
  | cons item rest ih => rw [List.flatMap_cons, List.flatMap_cons, comments_append, ih]

/-- A comment among well-formed tokens is the text of one of them. -/
theorem wellFormed_of_mem_comments {lexemes : List Lexeme}
    (formed : ∀ lexeme ∈ lexemes, lexeme.WellFormed) {text : Text}
    (member : text ∈ comments lexemes) : WellFormed ⟨.comment, text⟩ := by
  obtain ⟨⟨kind, own⟩, inside, rfl⟩ := List.mem_map.mp member
  obtain ⟨present, isComment⟩ := List.mem_filter.mp inside
  obtain rfl : kind = .comment := beq_iff_eq.mp isComment
  exact formed _ present

/-- No comment is left out of the tokens that a tree holds. -/
theorem comments_essential (joining : Bool) (lexemes : List Lexeme) :
    comments (essential joining lexemes) = comments lexemes := by
  have own : ∀ joining (lexeme : Lexeme),
      comments (lexeme.remnant joining) = comments [lexeme] := by
    intro joining lexeme
    obtain ⟨kind, text⟩ := lexeme
    cases kind with
    | plus => cases joining <;> rfl
    | _ => rfl
  induction lexemes generalizing joining with
  | nil => rfl
  | cons lexeme rest ih =>
      rw [essential, comments_append, own, ih, ← comments_append, List.singleton_append]

end Lexeme

/-- The comments among some tokens, wherever they stand. -/
def Token.comments (tokens : List Token) : List Text :=
  Lexeme.comments (tokens.map Token.toLexeme)

/-! ## Comments of a tree -/

/-- The comments within a value. -/
def Value.comments : Value → List Text
  | .concatenation fragments => fragments.flatMap Fragment.comments
  | .quoted _ | .number _ | .date _ | .other _ => []

/-- The comments of a statement itself, in the order in which they are read. -/
def Header.comments (header : Header) : List Text :=
  header.keywordComments ++ header.value.elim [] Value.comments ++ header.valueComments ++
    header.postComments

mutual

/-- The comments within a node, those of its own statement first. -/
def Node.comments : Node → List Text
  | .leaf header => header.comments
  | .block header children => header.comments ++ Node.commentsAll children
  | .comment text => [text]
  | .emptyLine _ => []

/-- The comments within some nodes, one node after the other. -/
def Node.commentsAll : List Node → List Text
  | [] => []
  | node :: nodes => node.comments ++ Node.commentsAll nodes

end

theorem Node.commentsAll_eq_flatMap (nodes : List Node) :
    commentsAll nodes = nodes.flatMap comments := by
  induction nodes with
  | nil => rfl
  | cons node nodes ih => rw [commentsAll, List.flatMap_cons, ih]

/-- A value holds the comments that it spells. -/
private theorem Value.comments_spelling (value : Value) :
    Lexeme.comments value.spelling = value.comments := by
  cases value with
  | quoted | number | date => rfl
  | other text =>
      rw [Value.spelling, Value.otherLexeme]
      split_ifs <;> rfl
  | concatenation fragments =>
      rw [Value.spelling, Lexeme.comments_flatMap]
      exact List.flatMap_congr fun fragment _ => Lexeme.comments_ofComments fragment.comments

/-- A statement holds the comments that it spells. -/
private theorem Header.comments_spelling (header : Header) (opens : Bool) :
    Lexeme.comments (header.spelling opens) = header.comments := by
  have value : Lexeme.comments (header.value.elim [] Value.spelling) =
      header.value.elim [] Value.comments := by
    cases header.value with
    | none => rfl
    | some value => exact value.comments_spelling
  have ends : ∀ comments, Lexeme.comments (terminator opens :: Lexeme.ofComments comments) =
      comments := by
    intro comments
    cases opens <;> exact Lexeme.comments_ofComments comments
  have starts : ∀ lexemes, Lexeme.comments (⟨.other, header.keyword⟩ :: lexemes) =
      Lexeme.comments lexemes := fun _ => rfl
  rw [Header.spelling, Header.body, Header.comments]
  simp only [Lexeme.comments_append, ends, value, List.cons_append, starts,
    Lexeme.comments_ofComments]

/-- A node holds the comments that it spells. -/
private theorem Node.comments_spelling (node : Node) :
    Lexeme.comments node.spelling = node.comments := by
  induction node using Node.induction with
  | leaf header => exact header.comments_spelling false
  | block header children ih =>
      rw [Node.spelling, Node.comments, Lexeme.comments_append, Lexeme.comments_append,
        header.comments_spelling, spellingAll_eq_flatMap, Lexeme.comments_flatMap,
        List.flatMap_congr ih, commentsAll_eq_flatMap]
      exact List.append_nil _
  | comment text => rfl
  | emptyLine text => rfl

/-- The comments among the tokens of a text are those of its tree, in the same order. -/
theorem Text.comments_of_parse {text : Text} {nodes : List Node}
    (parsed : text.parse = .ok nodes) :
    ∃ tokens, TokenStream.tokenize text = .ok tokens ∧
      (∀ lexeme ∈ tokens.map Token.toLexeme, lexeme.WellFormed) ∧
      Token.comments tokens = Node.commentsAll nodes := by
  obtain ⟨lexemes, lexes, completes⟩ := Text.parse_eq_ok_iff.mp parsed
  obtain ⟨tokens, read, rfl⟩ := TokenStream.tokenize_iff_lexes.mpr lexes
  refine ⟨tokens, read, lexes.wellFormed, ?_⟩
  have spelled : Node.spellingAll nodes = Lexeme.essential false (tokens.map Token.toLexeme) :=
    completes.spelling_eq lexes.wellFormed
  rw [Token.comments, ← Lexeme.comments_essential false, ← spelled, Node.spellingAll_eq_flatMap,
    Lexeme.comments_flatMap, Node.commentsAll_eq_flatMap]
  exact List.flatMap_congr fun node _ => node.comments_spelling

/-! ## Tidying -/

/-- Where a change keeps the comments of each node, it keeps those of all of them. -/
private theorem commentsAll_map_perm {change : Node → Node} {nodes : List Node}
    (each : ∀ node ∈ nodes, (change node).comments.Perm node.comments) :
    (Node.commentsAll (nodes.map change)).Perm (Node.commentsAll nodes) := by
  rw [Node.commentsAll_eq_flatMap, Node.commentsAll_eq_flatMap, List.flatMap_map]
  exact List.Perm.flatMap_left _ each

/-- The comments of the last string are the only ones to be dropped. -/
private theorem Fragment.comments_dropLastComments (fragments : List Fragment) :
    (dropLastComments fragments).flatMap Fragment.comments ++
      fragments.getLast?.elim [] Fragment.comments = fragments.flatMap Fragment.comments := by
  fun_induction dropLastComments fragments with
  | case1 => rfl
  | case2 last => simp
  | case3 first second rest ih =>
      rw [List.flatMap_cons, List.flatMap_cons, List.append_assoc, List.getLast?_cons_cons, ih]

/-- A tidied value has its comments except those that are moved behind the terminator. -/
private theorem Value.comments_tidied (value : Value) :
    value.tidied.comments ++ value.lastComments = value.comments := by
  cases value with
  | concatenation fragments =>
      have last : (fragments.map Fragment.doubleQuoted).getLast?.elim [] Fragment.comments =
          fragments.getLast?.elim [] Fragment.comments := by
        rw [List.getLast?_map]
        cases fragments.getLast? <;> rfl
      have kept := Fragment.comments_dropLastComments (fragments.map Fragment.doubleQuoted)
      rw [last, List.flatMap_map] at kept
      exact kept
  | quoted | number | date | other => rfl

/-- Tidying a statement moves its comments. -/
theorem Header.comments_tidied (header : Header) : header.tidied.comments.Perm header.comments := by
  have value : header.value.elim [] Value.comments =
      (header.value.map Value.tidied).elim [] Value.comments ++
        header.value.elim [] Value.lastComments := by
    cases header.value with
    | none => rfl
    | some value => exact value.comments_tidied.symm
  rw [Header.tidied_eq, Header.comments, Header.comments, value]
  refine List.perm_iff_count.mpr fun comment => ?_
  simp only [List.count_append, List.count_nil]
  omega

/-- Tidying a header keeps its comments. -/
private theorem comments_mapHeader (node : Node) :
    (Tidy.mapHeader Header.tidied node).comments.Perm node.comments := by
  induction node using Node.induction with
  | leaf header => exact header.comments_tidied
  | block header children ih =>
      rw [Tidy.mapHeader, Node.comments, Node.comments, Tidy.mapHeaders_eq_map]
      exact header.comments_tidied.append (commentsAll_map_perm ih)
  | comment text => exact .refl _
  | emptyLine text => exact .refl _

/-- Arranging nodes keeps the comments within them. -/
private theorem commentsAll_arrange (style : Style) (parent : Option Text) (nodes : List Node) :
    (Node.commentsAll (Tidy.arrange style parent nodes)).Perm (Node.commentsAll nodes) := by
  have visible : ∀ nodes : List Node,
      Node.commentsAll nodes = Node.commentsAll (nodes.filter (!·.isEmptyLine)) := by
    intro nodes
    induction nodes with
    | nil => rfl
    | cons node rest ih =>
        rw [Node.commentsAll, ih]
        cases node <;> rfl
  rw [visible, visible nodes, Node.commentsAll_eq_flatMap, Node.commentsAll_eq_flatMap]
  rcases Tidy.filter_arrange style parent nodes with same | ⟨_, _, permuted⟩
  · rw [same]
  · exact permuted.flatMap_right _

/-- Arranging the nodes of a block keeps the comments within it. -/
private theorem comments_mapBlock (style : Style) (node : Node) :
    (Tidy.mapBlock (Tidy.arrange style) node).comments.Perm node.comments := by
  induction node using Node.induction with
  | block header children ih =>
      rw [Tidy.mapBlock, Node.comments, Node.comments, Tidy.mapEachBlock_eq_map]
      exact ((commentsAll_arrange _ _ _).trans (commentsAll_map_perm ih)).append_left _
  | leaf header => exact .refl _
  | comment text => exact .refl _
  | emptyLine text => exact .refl _

/-- Tidying nodes keeps their comments. -/
theorem Tidy.comments_within (style : Style) (parent : Option Text) (nodes : List Node) :
    (Node.commentsAll (Tidy.within style parent nodes)).Perm (Node.commentsAll nodes) := by
  rw [within, mapBlocks, mapEachBlock_eq_map, mapHeaders_eq_map]
  refine (commentsAll_arrange style parent _).trans ?_
  refine (commentsAll_map_perm fun node _ => comments_mapBlock style node).trans ?_
  exact commentsAll_map_perm fun node _ => comments_mapHeader node

/-! ## Layouts -/

private theorem grouped_perm (texts : List Text) : (grouped texts).Perm texts :=
  List.perm_append_comm.trans (List.filter_append_perm _ _)

/-- Grouping the comments of a value keeps them. -/
private theorem comments_regroupValue (value : Value) :
    (regroupValue value).comments.Perm value.comments := by
  cases value with
  | concatenation fragments =>
      rw [regroupValue, Value.comments, Value.comments, List.flatMap_map]
      exact List.Perm.flatMap_left _ fun fragment _ => grouped_perm fragment.comments
  | quoted | number | date | other => exact .refl _

/-- The comments that have no room on the line of a statement are all that it loses. -/
private theorem comments_regroupHeader (header : Header) :
    ((regroupHeader header).comments ++ overflow header.postComments).Perm header.comments := by
  have value : ((header.value.map regroupValue).elim [] Value.comments).Perm
      (header.value.elim [] Value.comments) := by
    cases header.value with
    | none => exact .refl _
    | some value => exact comments_regroupValue value
  have behind : (kept header.postComments ++ overflow header.postComments).Perm
      header.postComments := by
    rw [kept_append_overflow]
    exact grouped_perm _
  rw [Header.comments, Header.comments, regroupHeader, List.append_assoc]
  exact ((value.append_left _).append_right _).append behind

private theorem commentsAll_map_comment (texts : List Text) :
    Node.commentsAll (texts.map .comment) = texts := by
  induction texts with
  | nil => rfl
  | cons text rest ih => exact congrArg (text :: ·) ih

/-- Where regrouping keeps the comments of each node, it keeps those of all of them. -/
private theorem commentsAll_regroupAll_perm {nodes : List Node}
    (each : ∀ node ∈ nodes, (Node.commentsAll (regroup node)).Perm node.comments) :
    (Node.commentsAll (regroupAll nodes)).Perm (Node.commentsAll nodes) := by
  rw [regroupAll_eq_flatMap, Node.commentsAll_eq_flatMap, Node.commentsAll_eq_flatMap,
    List.flatMap_assoc]
  refine List.Perm.flatMap_left _ fun node member => ?_
  rw [← Node.commentsAll_eq_flatMap]
  exact each node member

/-- Regrouping a node keeps its comments. -/
private theorem comments_regroup (node : Node) :
    (Node.commentsAll (regroup node)).Perm node.comments := by
  induction node using Node.induction with
  | leaf header =>
      rw [regroup, Node.commentsAll, commentsAll_map_comment]
      exact comments_regroupHeader header
  | block header children ih =>
      have first : Node.commentsAll ((overflow header.postComments).map .comment ++
          regroupAll children) =
            overflow header.postComments ++ Node.commentsAll (regroupAll children) := by
        rw [Node.commentsAll_eq_flatMap, List.flatMap_append, ← Node.commentsAll_eq_flatMap,
          ← Node.commentsAll_eq_flatMap, commentsAll_map_comment]
      rw [regroup, Node.commentsAll, Node.commentsAll, List.append_nil, Node.comments, first,
        ← List.append_assoc]
      exact (comments_regroupHeader header).append (commentsAll_regroupAll_perm ih)
  | comment text => exact .refl _
  | emptyLine text => exact .refl _

/-- Indenting strings anew changes no comment. -/
private theorem comments_reindent (style : Style) (depth : Int) (node : Node) :
    (reindent style depth node).comments = node.comments := by
  have headers : ∀ (margin : Text) (header : Header),
      (reindentHeader margin header).comments = header.comments := by
    intro margin header
    rw [Header.comments, Header.comments, reindentHeader, Header.mapValue]
    rcases header.value with _ | value
    · rfl
    · cases value <;> rfl
  induction node using Node.induction generalizing depth with
  | leaf header => exact headers _ header
  | block header children ih =>
      rw [reindent, Node.comments, Node.comments, headers, reindentAll_eq_map,
        Node.commentsAll_eq_flatMap, Node.commentsAll_eq_flatMap, List.flatMap_map]
      exact congrArg (header.comments ++ ·)
        (List.flatMap_congr fun child member => ih child member (depth + 1))
  | comment text => rfl
  | emptyLine text => rfl

/-- A layout keeps the comments of a tree. -/
theorem Relayout.comments_tree (style : Style) (nodes : List Node) :
    (Node.commentsAll (Relayout.tree style nodes)).Perm (Node.commentsAll nodes) := by
  have indented : Node.commentsAll (Relayout.tree style nodes) =
      Node.commentsAll (regroupAll nodes) := by
    rw [Relayout.tree, reindentAll_eq_map, Node.commentsAll_eq_flatMap, List.flatMap_map,
      List.flatMap_congr fun node _ => comments_reindent style 0 node,
      Node.commentsAll_eq_flatMap]
  rw [indented]
  exact commentsAll_regroupAll_perm fun node _ => comments_regroup node

/-! ## Carriage returns -/

/-- Changing each comment of a statement changes the comments that it holds. -/
private theorem Header.comments_mapComments (change : Text → Text) (header : Header) :
    (header.mapComments change).comments = header.comments.map change := by
  have value : (header.value.map (Value.mapComments change)).elim [] Value.comments =
      (header.value.elim [] Value.comments).map change := by
    rcases header.value with _ | value
    · rfl
    · cases value with
      | concatenation fragments =>
          simp [Value.mapComments, Value.comments, Fragment.mapComments, List.flatMap_map,
            List.map_flatMap]
      | quoted | number | date | other => rfl
  rw [Header.comments, Header.comments, Header.mapComments, value]
  simp only [List.map_append]

/-- Changing each comment of a node changes the comments that it holds. -/
private theorem Node.comments_mapComments (change : Text → Text) (node : Node) :
    (node.mapComments change).comments = node.comments.map change := by
  induction node using Node.induction with
  | leaf header => exact header.comments_mapComments change
  | block header children ih =>
      rw [Node.mapComments, Node.comments, Node.comments, header.comments_mapComments,
        mapAllComments_eq_map, commentsAll_eq_flatMap, commentsAll_eq_flatMap, List.flatMap_map,
        List.flatMap_congr ih, List.map_append, List.map_flatMap]
  | comment text => rfl
  | emptyLine text => rfl

/-- Changing each comment of some nodes changes the comments that they hold. -/
private theorem Node.commentsAll_mapAllComments (change : Text → Text) (nodes : List Node) :
    commentsAll (mapAllComments change nodes) = (commentsAll nodes).map change := by
  rw [mapAllComments_eq_map, commentsAll_eq_flatMap, commentsAll_eq_flatMap, List.flatMap_map,
    List.map_flatMap]
  exact List.flatMap_congr fun node _ => node.comments_mapComments change

namespace Comment

/-- A comment is settled unless a carriage return ends it. -/
theorem settled_eq_self_iff {text : Text} (formed : Lexeme.WellFormed ⟨.comment, text⟩) :
    settled text = text ↔ text.getLast? ≠ some '\r' := by
  have kinds : IsLine text ∨ IsBlock text := formed
  rcases kinds with line | block
  · rw [settled, if_pos line.isLineComment, dropReturn]
    split
    next last =>
      obtain ⟨before, rfl⟩ := List.getLast?_eq_some_iff.mp last
      simp
    next other => simp [other]
  · rw [settled_of_block block.isLineComment]
    obtain ⟨body, rfl, _⟩ := LexicalGrammar.isBlock_iff.mp block
    have last : ('/' :: '*' :: (body ++ ['*', '/'])).getLast? = some '/' :=
      List.getLast?_eq_some_iff.mpr ⟨'/' :: '*' :: (body ++ ['*']), by simp⟩
    simp [last]

/-- A comment that is not settled becomes shorter. -/
theorem length_settled_lt {text : Text} (changed : settled text ≠ text) :
    (settled text).length < text.length := by
  unfold settled dropReturn at changed ⊢
  split_ifs at changed ⊢ with line last
  · obtain ⟨before, rfl⟩ := List.getLast?_eq_some_iff.mp last
    simp
  · exact (changed rfl).elim
  · exact (changed rfl).elim

/-- Comments are the same in some order only if each stays as it is: one that loses its
carriage return makes all of them together shorter. -/
theorem map_settled_perm_iff (texts : List Text) :
    (texts.map settled).Perm texts ↔ ∀ text ∈ texts, settled text = text := by
  constructor
  · intro permuted
    by_contra changes
    obtain ⟨loser, inside, changed⟩ : ∃ text ∈ texts, settled text ≠ text := by
      simpa only [not_forall, exists_prop] using changes
    have shorter : (texts.map fun text => (settled text).length).sum <
        (texts.map List.length).sum := by
      refine List.sum_lt_sum _ _ (fun text _ => ?_) ?_
      · by_cases same : settled text = text
        · rw [same]
        · exact (length_settled_lt same).le
      · exact ⟨loser, inside, length_settled_lt changed⟩
    have equal := (permuted.map List.length).sum_eq
    rw [List.map_map] at equal
    exact shorter.ne equal
  · intro same
    rw [map_eq_self same]

end Comment

/-- The formatted text of a tree has its comments in some order, but for carriage returns at
the ends of lines. -/
theorem Style.comments_formatTree {nodes : List Node}
    (made : ∀ node ∈ nodes, node.MadeOf Lexeme.WellFormed) (whole : ∀ node ∈ nodes, node.Whole)
    (style : Style) :
    ∃ tokens, TokenStream.tokenize (style.formatTree nodes) = .ok tokens ∧
      (Token.comments tokens).Perm ((Node.commentsAll nodes).map Comment.settled) := by
  obtain ⟨tokens, read, _, same⟩ :=
    Text.comments_of_parse (Style.parse_formatTree made whole style)
  refine ⟨tokens, read, ?_⟩
  rw [same]
  refine (Relayout.comments_tree style _).trans ?_
  rw [Node.commentsAll_mapAllComments]
  exact (Tidy.comments_within style none nodes).map _

/-- A text consists of tokens, and the comments among them are those among others in some
order. -/
def Text.Conserves (text : Text) (tokens : List Token) : Prop :=
  ∃ again, TokenStream.tokenize text = .ok again ∧
    (Token.comments again).Perm (Token.comments tokens)

/-- Whether comments are conserved can be told from any order of them. -/
private theorem Text.conserves_iff_of_perm {text : Text} {tokens again : List Token}
    {texts : List Text} (read : TokenStream.tokenize text = .ok again)
    (kept : (Token.comments again).Perm texts) :
    text.Conserves tokens ↔ texts.Perm (Token.comments tokens) := by
  constructor
  · rintro ⟨others, readOthers, permuted⟩
    cases read.symm.trans readOthers
    exact kept.symm.trans permuted
  · exact fun permuted => ⟨again, read, kept.trans permuted⟩

/-- The formatted text of a source is what formatting comes to on every machine that affords its
tree. Unless tidying leaves a string without its end, it has the comments of the source, but for
a carriage return at the end of a line. So it has the same comments exactly if none ends in a
carriage return. The formatted text of a single statement with a string consists of tokens
exactly if the string keeps its end. -/
theorem Style.comments_format {text : Text} {nodes : List Node} (parsed : text.parse = .ok nodes)
    (style : Style) :
    ∃ tokens, TokenStream.tokenize text = .ok tokens ∧
      (∀ machine formatted, style.attemptFormat machine (.text text) = .ok formatted ↔
        machine.Affords style nodes ∧ style.formatTree nodes = formatted) ∧
      ((∀ node ∈ nodes, node.Whole) →
        (∃ again, TokenStream.tokenize (style.formatTree nodes) = .ok again ∧
          (Token.comments again).Perm ((Token.comments tokens).map Comment.settled)) ∧
        ((style.formatTree nodes).Conserves tokens ↔
          ∀ comment ∈ Token.comments tokens, comment.getLast? ≠ some '\r')) ∧
      ∀ keyword string, nodes = [.leaf { keyword, value := some (.quoted string) }] →
        ((style.formatTree nodes).Conserves tokens ↔ ¬ Quotation.Strands (inner string)) := by
  have made := Text.wellFormed_of_parse parsed
  obtain ⟨tokens, read, formed, same⟩ := Text.comments_of_parse parsed
  have reads : (Source.text text).parse = .ok nodes := parsed
  refine ⟨tokens, read, fun _ _ => attemptFormat_eq_ok_iff reads, fun whole => ?_, ?_⟩
  · obtain ⟨again, readAgain, kept⟩ := Style.comments_formatTree made whole style
    rw [← same] at kept
    refine ⟨⟨again, readAgain, kept⟩, ?_⟩
    rw [Text.conserves_iff_of_perm readAgain kept, Comment.map_settled_perm_iff]
    exact forall₂_congr fun comment member =>
      Comment.settled_eq_self_iff (Lexeme.wellFormed_of_mem_comments formed member)
  · rintro keyword string rfl
    have own := Node.every_leaf_iff.mp (made _ List.mem_cons_self)
    constructor
    · rintro ⟨again, readAgain, _⟩ strands
      exact Style.not_lexes_formatTree own.keyword (own.isString rfl) strands style _
        (TokenStream.tokenize_iff_lexes.mp ⟨again, readAgain, rfl⟩)
    · intro kept
      have whole : ∀ node ∈ [Node.leaf { keyword, value := some (.quoted string) }],
          node.Whole := by
        refine List.forall_mem_singleton.mpr (.leaf ?_)
        rintro ⟨_, equal, strands⟩
        cases equal
        exact kept strands
      obtain ⟨again, readAgain, permuted⟩ := Style.comments_formatTree made whole style
      rw [Text.conserves_iff_of_perm readAgain permuted, same]
      exact .refl _

/-- At the end of the text, nothing but the layout ends the line of a comment. -/
theorem Style.format_takes_return :
    Text.parse "// a\r".toList = .ok [.comment "// a\r".toList] ∧
      ∃ formatted tokens, Style.attemptFormat {} {} (.text "// a\r".toList) = .ok formatted ∧
        TokenStream.tokenize "// a\r".toList = .ok tokens ∧ ¬ formatted.Conserves tokens := by
  have parsed : Text.parse "// a\r".toList = .ok [.comment "// a\r".toList] := by cbv
  obtain ⟨tokens, read, formats, rest, _⟩ := Style.comments_format parsed {}
  have whole : ∀ node ∈ [Node.comment "// a\r".toList], node.Whole :=
    List.forall_mem_singleton.mpr (.comment trivial)
  have scanned : TokenStream.tokenize "// a\r".toList =
      .ok [⟨⟨.comment, "// a\r".toList⟩, ⟨0, 5, by decide⟩⟩] := by
    cbv
  refine ⟨parsed, _, tokens, (formats {} _).mpr ⟨by decide, rfl⟩, read, fun conserves => ?_⟩
  cases read.symm.trans scanned
  exact (rest whole).2.mp conserves "// a\r".toList (by decide) (by decide)

end YangFormatter
