import YangFormatter.Proofs.Layout.Relayout

/-! # Reading the pieces of a layout

One lemma for each piece that a layout is made of: what a builder that stands before
the piece has read when it stands behind it. Spaces never matter
(`Reads.spaces`), and a line comment takes up the rest of its line
(`Reads.comment`).
-/

namespace YangFormatter

open TreeBuilder

/-- A builder completes a tree from a text. -/
def Reads (builder : TreeBuilder) (text : Text) (nodes : List Node) : Prop :=
  ∃ lexemes, Lexes text lexemes ∧ Completes builder lexemes nodes

/-- A text that is read from the start has a tree. -/
theorem Text.parse_of_reads {text : Text} {nodes : List Node} (reads : Reads {} text nodes) :
    text.parse = .ok nodes :=
  Text.parse_eq_ok_iff.mpr reads

/-- White space changes nothing here. -/
def TreeBuilder.IgnoresSpace (builder : TreeBuilder) : Prop :=
  ∀ text, builder.read ⟨.whitespace, text⟩ = .ok builder

/-- A line break changes nothing here. -/
def TreeBuilder.IgnoresBreak (builder : TreeBuilder) : Prop :=
  ∀ text, builder.read ⟨.lineBreak, text⟩ = .ok builder

namespace Reads

variable {builder next : TreeBuilder} {rest : Text} {nodes : List Node}

/-- A token of the grammar is read as it stands. -/
theorem token {lexeme : Lexeme} (formed : lexeme.WellFormed) (ends : lexeme.Ends rest)
    (read : builder.read lexeme = .ok next) (reads : Reads next rest nodes) :
    Reads builder (lexeme.text ++ rest) nodes := by
  obtain ⟨lexemes, lexes, completes⟩ := reads
  exact ⟨lexeme :: lexemes, .cons formed ends lexes, .step read completes⟩

/-- A space in front of a text does not matter, whether it stands alone or not. -/
theorem space (idle : builder.IgnoresSpace) (reads : Reads builder rest nodes) :
    Reads builder (' ' :: rest) nodes := by
  have alone : Lexeme.WellFormed ⟨.whitespace, [' ']⟩ :=
    ⟨List.cons_ne_nil _ _, fun _ member => by rw [List.mem_singleton.mp member]; rfl⟩
  by_cases ends : ∀ character ∈ rest.head?, isIndent character = false
  · exact token alone ends (idle _) reads
  · obtain ⟨lexemes, lexes, completes⟩ := reads
    cases lexes with
    | nil => exact (ends (by simp)).elim
    | @cons lexeme behind lexemes formed stops others =>
        obtain ⟨head, tail, start⟩ := List.exists_cons_of_ne_nil formed.text_ne_nil
        have indent : isIndent head = true := by
          simpa [start] using ends
        obtain ⟨kind, text⟩ := lexeme
        obtain rfl : kind = .whitespace := formed.kind_of_indent start indent
        -- the space becomes part of the white space behind it
        have longer : Lexeme.WellFormed ⟨.whitespace, ' ' :: text⟩ := by
          refine ⟨List.cons_ne_nil _ _, ?_⟩
          intro character member
          rcases List.mem_cons.mp member with rfl | inside
          · rfl
          · exact formed.2 character inside
        cases completes with
        | step read completes =>
            rw [idle] at read
            cases read
            exact ⟨_, .cons longer stops others, .step (idle _) completes⟩

/-- Spaces may stand before what is read. -/
theorem spaces (idle : builder.IgnoresSpace) (count : Nat) (reads : Reads builder rest nodes) :
    Reads builder (List.replicate count ' ' ++ rest) nodes := by
  induction count with
  | zero => exact reads
  | succ count ih => exact space idle ih

/-- An indentation may stand before what is read. -/
theorem indent (idle : builder.IgnoresSpace) (style : Style) (depth : Int)
    (reads : Reads builder rest nodes) : Reads builder (style.indent depth ++ rest) nodes :=
  spaces idle _ reads

/-- A line feed may stand before what is read behind it. -/
theorem newline (read : builder.read ⟨.lineBreak, ['\n']⟩ = .ok next)
    (reads : Reads next rest nodes) : Reads builder ('\n' :: rest) nodes := by
  have feed : Lexeme.WellFormed ⟨.lineBreak, ['\n']⟩ := Or.inl rfl
  exact token feed trivial read reads

/-- A comment that goes to the end of its line may lose a carriage return. -/
private theorem isLine_of_return {text : Text} (line : Comment.IsLine (text ++ ['\r'])) :
    Comment.IsLine text := by
  obtain ⟨body, whole, free⟩ := line
  cases text with
  | nil => cases whole
  | cons first others =>
      cases others with
      | nil => cases whole
      | cons second more =>
          cases whole
          exact ⟨more, rfl, fun member => free (List.mem_append_left _ member)⟩

/-- A comment that ends within its line may have anything behind it. -/
theorem blockComment {text : Text} (formed : Lexeme.WellFormed ⟨.comment, text⟩)
    (block : Layout.isLineComment text = false)
    (read : builder.read ⟨.comment, text⟩ = .ok next) (reads : Reads next rest nodes) :
    Reads builder (text ++ rest) nodes := by
  refine token formed ?_ read reads
  intro line
  rw [line.isLineComment] at block
  cases block

/-- A comment is read up to the end of its line. -/
theorem comment {after : TreeBuilder} {text : Text} (formed : Lexeme.WellFormed ⟨.comment, text⟩)
    (read : builder.read ⟨.comment, Comment.settled text⟩ = .ok next)
    (breaks : ∀ text, next.read ⟨.lineBreak, text⟩ = .ok after) (reads : Reads after rest nodes) :
    Reads builder (text ++ '\n' :: rest) nodes := by
  have kinds : Comment.IsLine text ∨ Comment.IsBlock text := formed
  rcases kinds with line | block
  · rw [Comment.settled, if_pos (line.isLineComment)] at read
    by_cases carriage : text.getLast? = some '\r'
    · rw [Quotation.dropReturn, if_pos carriage] at read
      obtain ⟨before, rfl⟩ := List.getLast?_eq_some_iff.mp carriage
      rw [List.dropLast_concat] at read
      have shorter : Lexeme.WellFormed ⟨.comment, before⟩ := Or.inl (isLine_of_return line)
      have pair : Lexeme.WellFormed ⟨.lineBreak, ['\r', '\n']⟩ := Or.inr rfl
      rw [List.append_assoc]
      exact token shorter (fun _ => .inr (.inl ⟨rest, rfl⟩)) read
        (token pair trivial (breaks _) reads)
    · rw [Quotation.dropReturn, if_neg carriage] at read
      exact token formed (fun _ => .inr (.inr ⟨rest, rfl, carriage⟩)) read
        (newline (breaks _) reads)
  · have single := block.isLineComment
    rw [Comment.settled, single] at read
    exact blockComment formed single read (newline (breaks _) reads)

end Reads

/-- Builders that differ in the comments they have collected, and collect more. -/
structure Collects (collected : List Text → TreeBuilder) : Prop where
  space : ∀ comments, (collected comments).IgnoresSpace
  comment : ∀ comments comment,
    (collected comments).read ⟨.comment, comment⟩ = .ok (collected (comments ++ [comment]))

namespace Collects

variable {collected : List Text → TreeBuilder} {rest : Text} {nodes : List Node}

/-- Block comments that are set off by spaces are collected. -/
private theorem blockComments (collects : Collects collected) {comments : List Text}
    (formed : ∀ comment ∈ comments, Lexeme.WellFormed ⟨.comment, comment⟩)
    (blocks : ∀ comment ∈ comments, Layout.isLineComment comment = false) (earlier : List Text)
    (reads : Reads (collected (earlier ++ comments)) rest nodes) :
    Reads (collected earlier) (Layout.spaced comments ++ rest) nodes := by
  induction comments generalizing earlier with
  | nil => rwa [List.append_nil] at reads
  | cons first others ih =>
      rw [Layout.spaced_cons, List.cons_append, List.append_assoc]
      apply Reads.space (collects.space earlier)
      apply Reads.blockComment (formed first List.mem_cons_self) (blocks first List.mem_cons_self)
        (collects.comment earlier first)
      apply ih (fun comment member => formed comment (List.mem_cons_of_mem _ member))
        (fun comment member => blocks comment (List.mem_cons_of_mem _ member))
      rwa [List.append_assoc]

/-- The comments on one line are collected as they are read again. -/
theorem line (collects : Collects collected) {comments : List Text}
    (formed : ∀ comment ∈ comments, Lexeme.WellFormed ⟨.comment, comment⟩) {next : TreeBuilder}
    (breaks : ∀ text, (collected ((Relayout.kept comments).map Comment.settled)).read
      ⟨.lineBreak, text⟩ = .ok next) (reads : Reads next rest nodes) :
    Reads (collected []) (Layout.spaced (Relayout.kept comments) ++ '\n' :: rest) nodes := by
  have blocks : ∀ comment ∈ comments.filter (!Layout.isLineComment ·),
      Layout.isLineComment comment = false := by
    intro comment member
    simpa using (List.mem_filter.mp member).2
  have settled : (comments.filter (!Layout.isLineComment ·)).map Comment.settled =
      comments.filter (!Layout.isLineComment ·) :=
    map_eq_self fun comment member => Comment.settled_of_block (blocks comment member)
  rw [Relayout.kept, List.map_append, settled] at breaks
  rw [Relayout.kept, Layout.spaced_append, List.append_assoc]
  apply collects.blockComments
    (fun comment member => formed comment (List.mem_of_mem_filter member)) blocks []
  rw [List.nil_append]
  cases lines : comments.filter Layout.isLineComment with
  | nil =>
      rw [lines, List.take_nil, List.map_nil, List.append_nil] at breaks
      exact Reads.newline (breaks _) reads
  | cons first others =>
      have member : first ∈ comments.filter Layout.isLineComment := by
        rw [lines]
        exact List.mem_cons_self
      rw [lines] at breaks
      rw [List.take_succ_cons, List.take_zero, Layout.spaced_cons, List.cons_append,
        List.append_assoc]
      apply Reads.space (collects.space _)
      exact Reads.comment (formed first (List.mem_of_mem_filter member)) (collects.comment _ _)
        breaks reads

end Collects

/-- Builders that differ in the comments they have collected, and collect more that
stand on lines of their own. -/
structure CollectsLines (collected : List Text → TreeBuilder) : Prop where
  space : ∀ comments, (collected comments).IgnoresSpace
  comment : ∀ comments comment, ∃ next,
    (collected comments).read ⟨.comment, comment⟩ = .ok next ∧
      ∀ text, next.read ⟨.lineBreak, text⟩ = .ok (collected (comments ++ [comment]))

/-- Comments on lines of their own are collected as they are read again. -/
theorem CollectsLines.lines {collected : List Text → TreeBuilder} {rest : Text}
    {nodes : List Node} (collects : CollectsLines collected) (style : Style) (depth : Int)
    {comments : List Text}
    (formed : ∀ comment ∈ comments, Lexeme.WellFormed ⟨.comment, comment⟩) (earlier : List Text)
    (reads : Reads (collected (earlier ++ comments.map Comment.settled)) rest nodes) :
    Reads (collected earlier) (Layout.nodes style depth (comments.map .comment) ++ rest) nodes := by
  induction comments generalizing earlier with
  | nil => rwa [List.map_nil, List.append_nil] at reads
  | cons first others ih =>
      obtain ⟨next, read, breaks⟩ := collects.comment earlier (Comment.settled first)
      rw [List.map_cons, Layout.nodes, Layout.node, List.append_assoc, List.append_assoc,
        List.append_assoc]
      apply Reads.indent (collects.space earlier)
      apply Reads.comment (formed first List.mem_cons_self) read breaks
      apply ih fun comment member => formed comment (List.mem_cons_of_mem _ member)
      rwa [List.append_assoc]

/-- Where line breaks do not matter, all comments are collected, those that end
within their line first. -/
theorem Collects.grouped {collected : List Text → TreeBuilder} {rest : Text} {nodes : List Node}
    (collects : Collects collected) (breaks : ∀ comments, (collected comments).IgnoresBreak)
    (style : Style) (depth : Int) {comments : List Text}
    (formed : ∀ comment ∈ comments, Lexeme.WellFormed ⟨.comment, comment⟩)
    (reads : Reads (collected (Relayout.grouped (comments.map Comment.settled))) rest nodes) :
    Reads (collected []) (Layout.comments style depth comments ++ '\n' :: rest) nodes := by
  have lines : CollectsLines collected :=
    ⟨collects.space, fun earlier comment => ⟨_, collects.comment earlier comment, breaks _⟩⟩
  rw [Layout.comments_newline]
  apply collects.line formed (breaks _)
  apply lines.lines style depth
  · intro comment member
    exact formed comment (Relayout.mem_of_mem_overflow member)
  · rwa [← List.map_append, Relayout.kept_append_overflow, ← Relayout.grouped_map_settled]

end YangFormatter
