import YangFormatter.Proofs.Reading.Cursor

/-! # Reading one statement

No header of a statement is the beginning of another one (`Grammar.Leads.unique`), so that
tokens begin with at most one. Reading a statement takes that header and the white space and
comments directly behind it, or it takes the tokens up to the first that cannot stand in a
header (`TokenStream.readStatement_takes`). A cursor on the tokens is left where they are.
-/

namespace YangFormatter

namespace Grammar

/-! ## Headers -/

/-- The header of a statement, with the terminator that opens a block or does not. -/
def IsHeader (opens : Bool) (kinds : List TokenKind) : Prop :=
  ∃ heading, Heading heading ∧ kinds = heading ++ [terminator opens]

/-- What completes a header that has been read up to a phase. -/
def Finishes (phase : HeaderPhase) (opens : Bool) (kinds : List TokenKind) : Prop :=
  ∃ heading, Remainder phase heading ∧ kinds = heading ++ [terminator opens]

/-- The beginning of what completes a header that has been read up to a phase. -/
def Begins (phase : HeaderPhase) (kinds : List TokenKind) : Prop :=
  ∃ opens more, Finishes phase opens (kinds ++ more)

theorem Trivia.tail {kind : TokenKind} {kinds : List TokenKind} (blank : Trivia (kind :: kinds)) :
    kind.isTrivia = true ∧ Trivia kinds :=
  List.forall_mem_cons.mp blank

/-- The first of some trivia and a token behind them is that token, or it is trivia itself. -/
theorem Trivia.first {kind value : TokenKind} {kinds before after : List TokenKind}
    (blank : Trivia before) (same : kind :: kinds = before ++ value :: after) :
    (kind = value ∧ kinds = after) ∨
      kind.isTrivia = true ∧ ∃ inner, Trivia inner ∧ kinds = inner ++ value :: after := by
  cases before with
  | nil => exact .inl (List.cons.inj same)
  | cons first inner =>
      obtain ⟨rfl, others⟩ := List.cons.inj same
      obtain ⟨own, further⟩ := blank.tail
      exact .inr ⟨own, inner, further, others⟩

/-- The first token of what goes on with a string is trivia or a plus sign. -/
theorem Further.tail {kind : TokenKind} {kinds : List TokenKind}
    (further : Further (kind :: kinds)) :
    kind.isTrivia = true ∧ Further kinds ∨ kind = .plus ∧ Joined (.plus :: kinds) := by
  obtain ⟨after, others, blank, joined, same⟩ := further
  cases after with
  | nil =>
      rw [List.nil_append] at same
      subst same
      rcases joined with empty | joined
      · cases empty
      · cases joined with
        | once before after => exact .inr ⟨rfl, .once before after⟩
        | more before after joined => exact .inr ⟨rfl, .more before after joined⟩
  | cons first after =>
      obtain ⟨rfl, rfl⟩ := List.cons.inj same
      obtain ⟨own, others'⟩ := blank.tail
      exact .inl ⟨own, after, others, others', joined, rfl⟩

/-- The first token behind a plus sign is trivia or a string. -/
theorem Joined.tail {kind : TokenKind} {kinds : List TokenKind}
    (joined : Joined (.plus :: kind :: kinds)) :
    kind.isTrivia = true ∧ Joined (.plus :: kinds) ∨ kind = .string ∧ Further kinds := by
  generalize same : kind :: kinds = all at joined
  cases joined with
  | @once before after blank blank' =>
      rcases blank.first same with ⟨rfl, rfl⟩ | ⟨own, inner, others, rfl⟩
      · exact .inr ⟨rfl, _, [], blank', .inl rfl, (List.append_nil _).symm⟩
      · exact .inl ⟨own, .once others blank'⟩
  | @more before after others blank blank' joined =>
      rcases blank.first same with ⟨rfl, rfl⟩ | ⟨own, inner, others, rfl⟩
      · exact .inr ⟨rfl, _, _, blank', .inr joined, rfl⟩
      · exact .inl ⟨own, .more others blank' joined⟩

/-- Something stands behind a plus sign. -/
theorem Joined.ne_nil {kinds : List TokenKind} (joined : Joined (.plus :: kinds)) :
    kinds ≠ [] := by
  cases joined with
  | once | more => exact List.append_ne_nil_of_right_ne_nil _ (List.cons_ne_nil _ _)

/-- The first token behind a keyword is trivia, a string or another value. -/
theorem Heading.tail {kind : TokenKind} {kinds : List TokenKind}
    (heading : Heading (.other :: kind :: kinds)) :
    kind.isTrivia = true ∧ Heading (.other :: kinds) ∨ kind = .string ∧ Further kinds ∨
      IsValue kind ∧ kind ≠ .string ∧ Trivia kinds := by
  generalize same : kind :: kinds = all at heading
  cases heading with
  | bare blank =>
      subst same
      obtain ⟨own, others⟩ := blank.tail
      exact .inl ⟨own, .bare others⟩
  | @value before after value blank isValue blank' =>
      rcases blank.first same with ⟨rfl, rfl⟩ | ⟨own, inner, others, rfl⟩
      · by_cases string : kind = .string
        · exact .inr (.inl ⟨string, _, [], blank', .inl rfl, (List.append_nil _).symm⟩)
        · exact .inr (.inr ⟨isValue, string, blank'⟩)
      · exact .inl ⟨own, .value others isValue blank'⟩
  | @concatenation before after others blank blank' joined =>
      rcases blank.first same with ⟨rfl, rfl⟩ | ⟨own, inner, others, rfl⟩
      · exact .inr (.inl ⟨rfl, _, _, blank', .inr joined, rfl⟩)
      · exact .inl ⟨own, .concatenation others blank' joined⟩

/-- A token that belongs to a heading goes on with it. -/
theorem Remainder.tail {phase : HeaderPhase} {kind : TokenKind} {kinds : List TokenKind}
    (rest : Remainder phase (kind :: kinds)) :
    ∃ next, phase.step kind = .more next ∧ Remainder next kinds := by
  cases phase with
  | start =>
      cases rest with
      | bare blank => exact ⟨.keyword, rfl, .bare blank⟩
      | value blank value blank' => exact ⟨.keyword, rfl, .value blank value blank'⟩
      | concatenation blank blank' joined =>
          exact ⟨.keyword, rfl, .concatenation blank blank' joined⟩
  | keyword =>
      rcases Heading.tail rest with ⟨blank, others⟩ | ⟨rfl, others⟩ | ⟨value, other, others⟩
      · exact ⟨.keyword, HeaderPhase.step_trivia blank nofun, others⟩
      · exact ⟨.string, rfl, others⟩
      · -- A string has gone its own way, as it alone may be followed by a plus.
        refine ⟨.value, ?_, others⟩
        obtain ⟨content, goesOn⟩ := value
        cases kind with
        | number | date | other | plus | closeBlock => rfl
        | whitespace | lineBreak | comment => cases content
        | semicolon | openBlock => cases goesOn
        | string => exact (other rfl).elim
  | string =>
      rcases Further.tail rest with ⟨blank, others⟩ | ⟨rfl, joined⟩
      · exact ⟨.string, HeaderPhase.step_trivia blank nofun, others⟩
      · exact ⟨.plus, rfl, joined⟩
  | fragment =>
      rcases Further.tail rest with ⟨blank, others⟩ | ⟨rfl, joined⟩
      · exact ⟨.fragment, HeaderPhase.step_trivia blank nofun, others⟩
      · exact ⟨.plus, rfl, joined⟩
  | value =>
      obtain ⟨blank, others⟩ := Trivia.tail rest
      exact ⟨.value, HeaderPhase.step_trivia blank nofun, others⟩
  | plus =>
      rcases Joined.tail rest with ⟨blank, joined⟩ | ⟨rfl, others⟩
      · exact ⟨.plus, HeaderPhase.step_trivia blank nofun, joined⟩
      · exact ⟨.fragment, rfl, others⟩

/-- Where nothing of a heading is left, a terminator ends the header. -/
theorem Remainder.step_terminator {phase : HeaderPhase} (done : Remainder phase [])
    (opens : Bool) : phase.step (terminator opens) = .finished opens := by
  cases phase with
  | start => cases done
  | plus => exact (Joined.ne_nil done rfl).elim
  | keyword | string | value | fragment => cases opens <;> rfl

theorem not_finishes_nil {phase : HeaderPhase} {opens : Bool} : ¬ Finishes phase opens [] := by
  intro finishes
  obtain ⟨heading, _, same⟩ := finishes
  exact List.append_ne_nil_of_right_ne_nil heading (List.cons_ne_nil _ _) same.symm

/-- What completes a header begins with a token that goes on with it, or is the terminator
alone. -/
theorem finishes_cons_iff {phase : HeaderPhase} {opens : Bool} {kind : TokenKind}
    {kinds : List TokenKind} :
    Finishes phase opens (kind :: kinds) ↔
      (∃ next, phase.step kind = .more next ∧ Finishes next opens kinds) ∨
        phase.step kind = .finished opens ∧ kinds = [] := by
  constructor
  · intro finishes
    obtain ⟨heading, remainder, same⟩ := finishes
    cases heading with
    | nil =>
        obtain ⟨rfl, rfl⟩ := List.cons.inj same
        exact .inr ⟨remainder.step_terminator opens, rfl⟩
    | cons first heading =>
        obtain ⟨rfl, rfl⟩ := List.cons.inj same
        obtain ⟨next, moved, others⟩ := remainder.tail
        exact .inl ⟨next, moved, heading, others, rfl⟩
  · intro either
    rcases either with ⟨next, moved, heading, remainder, rfl⟩ | ⟨ended, rfl⟩
    · exact ⟨kind :: heading, remainder.cons moved, rfl⟩
    · obtain ⟨remainder, rfl⟩ := Remainder.nil ended
      exact ⟨[], remainder, rfl⟩

theorem begins_nil (phase : HeaderPhase) : Begins phase [] :=
  ⟨false, phase.lacks ++ [terminator false], phase.lacks, phase.remainder_lacks, rfl⟩

/-- A token with which a header goes on may stand in front. -/
theorem begins_cons_iff {phase next : HeaderPhase} {kind : TokenKind} {kinds : List TokenKind}
    (moved : phase.step kind = .more next) : Begins phase (kind :: kinds) ↔ Begins next kinds := by
  simp only [Begins, List.cons_append, finishes_cons_iff, moved, HeaderMove.more.injEq,
    reduceCtorEq, false_and, or_false, exists_eq_left']

/-- A token that a header refuses is not the beginning of what completes it. -/
theorem not_begins_of_refused {phase : HeaderPhase} {kind : TokenKind}
    (refused : phase.step kind = .refused) : ¬ Begins phase [kind] := by
  simp [Begins, finishes_cons_iff, refused]

/-! ## Tokens that begin with a header -/

/-- Some tokens lead through the rest of a header, up to those behind it. -/
def Leads (phase : HeaderPhase) (opens : Bool) (tokens after : List Token) : Prop :=
  ∃ head, tokens = head ++ after ∧ Finishes phase opens (head.map (·.kind))

theorem not_leads_nil {phase : HeaderPhase} {opens : Bool} {after : List Token} :
    ¬ Leads phase opens [] after := by
  intro leads
  obtain ⟨head, whole, finishes⟩ := leads
  rw [(List.nil_eq_append_iff.mp whole).1] at finishes
  exact not_finishes_nil finishes

/-- A header in front of some tokens goes on behind the first of them, or ends with it. -/
theorem leads_cons_iff {phase : HeaderPhase} {opens : Bool} {token : Token}
    {tokens after : List Token} :
    Leads phase opens (token :: tokens) after ↔
      (∃ next, phase.step token.kind = .more next ∧ Leads next opens tokens after) ∨
        phase.step token.kind = .finished opens ∧ tokens = after := by
  constructor
  · intro leads
    obtain ⟨head, whole, finishes⟩ := leads
    cases head with
    | nil => exact (not_finishes_nil finishes).elim
    | cons first head =>
        obtain ⟨rfl, rfl⟩ := List.cons.inj whole
        rcases finishes_cons_iff.mp finishes with ⟨next, moved, others⟩ | ⟨ended, last⟩
        · exact .inl ⟨next, moved, head, rfl, others⟩
        · refine .inr ⟨ended, ?_⟩
          rw [List.map_eq_nil_iff.mp last]
          rfl
  · intro either
    rcases either with ⟨next, moved, head, rfl, finishes⟩ | ⟨ended, rfl⟩
    · exact ⟨token :: head, rfl, finishes_cons_iff.mpr (.inl ⟨next, moved, finishes⟩)⟩
    · exact ⟨[token], rfl, finishes_cons_iff.mpr (.inr ⟨ended, rfl⟩)⟩

/-- A header cannot be read in two ways. -/
theorem Leads.unique {phase : HeaderPhase} {opens opens' : Bool} {tokens after after' : List Token}
    (first : Leads phase opens tokens after) (second : Leads phase opens' tokens after') :
    opens = opens' ∧ after = after' := by
  -- The machine is deterministic: both go on to the same phase, or both end at this token.
  induction tokens generalizing phase with
  | nil => exact (not_leads_nil first).elim
  | cons token tokens ih =>
      rw [leads_cons_iff] at first second
      cases step : phase.step token.kind with
      | more next =>
          simp only [step, HeaderMove.more.injEq, reduceCtorEq, false_and, or_false,
            exists_eq_left'] at first second
          exact ih first second
      | finished ends =>
          simp only [step, HeaderMove.finished.injEq, reduceCtorEq, false_and, exists_false,
            false_or] at first second
          exact ⟨first.1.symm.trans second.1, first.2.symm.trans second.2⟩
      | refused => simp [step] at first

end Grammar

open Grammar

namespace TokenStream

/-! ## Reading a header -/

/-- A header is read exactly where tokens lead through one. -/
theorem exists_readHeader_iff {fault : Option Problem} {stop : Nat} {state : HeaderState}
    {tokens : List Token} {opens : Bool} {rest : TokenStream} :
    (∃ header, readHeader fault stop state tokens = (.ok (header, opens), rest)) ↔
      ∃ after, Leads state.phase opens tokens after ∧ rest = ⟨after, fault, stop⟩ := by
  induction tokens generalizing state with
  | nil => cases fault <;> simp [readHeader, not_leads_nil]
  | cons token tokens ih =>
      have moved := state.move_step token.toLexeme
      simp only [leads_cons_iff, ← moved, readHeader]
      cases state.step token.toLexeme with
      | more next => simp [HeaderStep.move, ih]
      | finished header ends => simp [HeaderStep.move, and_assoc, eq_comm]
      | refused cause => simp [HeaderStep.move]

end TokenStream

/-- A problem stops the reading of a header: a token cannot stand in it, and is the last that
is taken, or there are no more tokens. -/
inductive Problem.Stops (phase : HeaderPhase) (stop : Nat) :
    List Token → Problem → TokenStream → Prop where
  | token {before rest : List Token} {token : Token} {cause : Cause}
      (begins : Begins phase (before.map (·.kind)))
      (stuck : ¬ Begins phase ((before ++ [token]).map (·.kind)))
      (named : cause = .invalidConcatenation ∨
        ∃ context, cause = .unexpectedToken token.text context) :
      Stops phase stop (before ++ token :: rest) ⟨cause, token.start⟩ ⟨rest, none, stop⟩
  | finished {tokens : List Token} (begins : Begins phase (tokens.map (·.kind))) :
      Stops phase stop tokens ⟨.unexpectedEnd, stop⟩ ⟨[], none, stop⟩

/-- A problem stops the reading of a header behind a token with which it goes on. -/
theorem Problem.Stops.cons {phase next : HeaderPhase} {stop : Nat} {token : Token}
    {tokens : List Token} {problem : Problem} {rest : TokenStream}
    (moved : phase.step token.kind = .more next) (stops : Stops next stop tokens problem rest) :
    Stops phase stop (token :: tokens) problem rest := by
  cases stops with
  | @token before rest other cause begins stuck named =>
      rw [← begins_cons_iff moved] at begins stuck
      exact @Stops.token phase stop (token :: before) rest other cause begins stuck named
  | finished begins =>
      rw [← begins_cons_iff moved] at begins
      exact .finished begins

namespace TokenStream

/-- What stops the reading of a header is a token that cannot stand in it, or the end. -/
theorem stops_of_readHeader {stop : Nat} {state : HeaderState} {tokens : List Token}
    {problem : Problem} {rest : TokenStream}
    (failed : readHeader none stop state tokens = (.error problem, rest)) :
    problem.Stops state.phase stop tokens rest := by
  induction tokens generalizing state with
  | nil =>
      cases failed
      exact .finished (begins_nil _)
  | cons token tokens ih =>
      have moved := state.move_step token.toLexeme
      rw [readHeader] at failed
      cases stepped : state.step token.toLexeme with
      | more next =>
          rw [stepped] at moved failed
          exact (ih failed).cons moved.symm
      | finished header ends =>
          rw [stepped] at failed
          cases failed
      | refused cause =>
          rw [stepped] at moved failed
          cases failed
          exact @Problem.Stops.token _ stop [] tokens token cause (begins_nil _)
            (not_begins_of_refused moved.symm) (HeaderState.cause_of_refused stepped)

end TokenStream

/-! ## Reading a statement -/

/-- Whether a kind of token may follow a header on its line and still belong to the statement. -/
def TokenKind.isTrailing : TokenKind → Bool
  | .whitespace | .comment => true
  | _ => false

/-- Some tokens are a header, all the white space and comments directly behind it, and the
rest. -/
structure Token.Parted (tokens : List Token) (opens : Bool) (head trailing rest : List Token) :
    Prop where
  whole : tokens = head ++ (trailing ++ rest)
  header : IsHeader opens (head.map (·.kind))
  trailing : ∀ token ∈ trailing, token.kind.isTrailing = true
  rest : ∀ token ∈ rest.head?, token.kind.isTrailing = false

namespace TokenStream

/-- What is split off behind a header is the longest run of white space and comments. -/
theorem exists_splitTrailing (tokens : List Token) :
    ∃ trailing rest, tokens = trailing ++ rest ∧
      (∀ token ∈ trailing, token.kind.isTrailing = true) ∧
      (∀ token ∈ rest.head?, token.kind.isTrailing = false) ∧
      splitTrailing tokens =
        ((trailing.filter (·.kind == .comment)).map (·.text), rest) := by
  induction tokens with
  | nil => exact ⟨[], [], rfl, nofun, nofun, rfl⟩
  | cons token tokens ih =>
      obtain ⟨trailing, rest, rfl, each, stops, split⟩ := ih
      obtain ⟨⟨kind, text⟩, span⟩ := token
      have further : kind.isTrailing = true →
          ∀ token ∈ ⟨⟨kind, text⟩, span⟩ :: trailing, token.kind.isTrailing = true :=
        fun own => List.forall_mem_cons.mpr ⟨own, each⟩
      cases kind with
      | whitespace =>
          refine ⟨_ :: trailing, rest, rfl, further rfl, stops, ?_⟩
          simp [splitTrailing, split]
      | comment =>
          refine ⟨_ :: trailing, rest, rfl, further rfl, stops, ?_⟩
          simp [splitTrailing, split]
      | lineBreak | string | number | date | other | semicolon | plus | openBlock | closeBlock =>
          refine ⟨[], _, rfl, nofun, ?_, rfl⟩
          intro token first
          cases first
          rfl

/-- Two headers that tokens begin with are the same. -/
theorem eq_of_isHeader {tokens head head' : List Token} {opens opens' : Bool}
    (first : head <+: tokens) (second : head' <+: tokens)
    (header : IsHeader opens (head.map (·.kind)))
    (header' : IsHeader opens' (head'.map (·.kind))) : opens = opens' ∧ head = head' := by
  obtain ⟨after, rfl⟩ := first
  obtain ⟨after', same⟩ := second
  have leads : Leads .start opens (head ++ after) after := ⟨head, rfl, header⟩
  have leads' : Leads .start opens' (head ++ after) after' := ⟨head', same.symm, header'⟩
  obtain ⟨sameEnd, rfl⟩ := leads.unique leads'
  exact ⟨sameEnd, (List.append_cancel_right same).symm⟩

/-- Reading a statement comes to a header and what follows it on its line, or to a problem. -/
theorem readStatement_cases (tokens : List Token) (stop : Nat) :
    (∃ header opens head trailing rest, Token.Parted tokens opens head trailing rest ∧
      header.postComments = (trailing.filter (·.kind == .comment)).map (·.text) ∧
      readStatement ⟨tokens, none, stop⟩ = (.ok (header, opens), ⟨rest, none, stop⟩)) ∨
    ∃ problem rest, (∀ opens head, head <+: tokens → ¬ IsHeader opens (head.map (·.kind))) ∧
      problem.Stops .start stop tokens rest ∧
      readStatement ⟨tokens, none, stop⟩ = (.error problem, rest) := by
  rcases read : readHeader none stop .start tokens with ⟨problem | ⟨header, opens⟩, rest⟩
  · refine .inr ⟨problem, rest, fun opens head first header => ?_, stops_of_readHeader read, ?_⟩
    · obtain ⟨after, rfl⟩ := first
      have leads : Leads .start opens (head ++ after) after := ⟨head, rfl, header⟩
      obtain ⟨other, reads⟩ :=
        (@exists_readHeader_iff none stop .start _ _ _).mpr ⟨after, leads, rfl⟩
      rw [read] at reads
      cases reads
    · simp only [readStatement, read]
  · obtain ⟨after, ⟨head, rfl, finishes⟩, rfl⟩ := exists_readHeader_iff.mp ⟨header, read⟩
    obtain ⟨trailing, rest, rfl, each, stops, split⟩ := exists_splitTrailing after
    refine .inl ⟨{ header with postComments := _ }, opens, head, trailing, rest,
      ⟨rfl, finishes, each, stops⟩, rfl, ?_⟩
    simp only [readStatement, read, split]

/-- Reading a statement succeeds exactly if the tokens begin with a header, and there is only one
that they begin with. It takes the header and all white space and comments directly behind it.
Otherwise a token that cannot stand in a header is the last that is taken, or all are. A cursor
with these tokens to give is read to the same result, and the same tokens remain. -/
theorem readStatement_takes (tokens : List Token) (stop : Nat) :
    let read := readStatement ⟨tokens, none, stop⟩
    ((∃ statement, read.1 = .ok statement) ↔
      ∃ opens head, head <+: tokens ∧ IsHeader opens (head.map (·.kind))) ∧
    (∀ opens opens' head head', head <+: tokens → head' <+: tokens →
      IsHeader opens (head.map (·.kind)) → IsHeader opens' (head'.map (·.kind)) →
        opens = opens' ∧ head = head') ∧
    (∀ header opens, read.1 = .ok (header, opens) →
      ∃ head trailing rest, Token.Parted tokens opens head trailing rest ∧
        header.postComments = (trailing.filter (·.kind == .comment)).map (·.text) ∧
        read.2 = ⟨rest, none, stop⟩ ∧ read.2.next.1 = .ok rest.head?) ∧
    (∀ problem, read.1 = .error problem → problem.Stops .start stop tokens read.2) ∧
    ∀ cursor : TokenCursor, cursor.remaining = ⟨tokens, none, stop⟩ →
      cursor.readStatement.1 = read.1 ∧ cursor.readStatement.2.remaining = read.2 := by
  intro read
  have onCursors : ∀ cursor : TokenCursor, cursor.remaining = ⟨tokens, none, stop⟩ →
      cursor.readStatement.1 = read.1 ∧ cursor.readStatement.2.remaining = read.2 := by
    intro cursor gives
    have same : read = (cursor.readStatement.1, cursor.readStatement.2.remaining) := by
      rw [← cursor.readStatement_remaining, gives]
    rw [same]
    exact ⟨rfl, rfl⟩
  have unique : ∀ opens opens' head head', head <+: tokens → head' <+: tokens →
      IsHeader opens (head.map (·.kind)) → IsHeader opens' (head'.map (·.kind)) →
        opens = opens' ∧ head = head' :=
    fun _ _ _ _ => eq_of_isHeader
  rcases readStatement_cases tokens stop with
    ⟨header, opens, head, trailing, rest, parted, comments, reads⟩ |
    ⟨problem, rest, noHeader, stops, reads⟩
  · have same : read = (.ok (header, opens), ⟨rest, none, stop⟩) := reads
    rw [same] at onCursors ⊢
    refine ⟨iff_of_true ⟨_, rfl⟩ ⟨opens, head, ⟨_, parted.whole.symm⟩, parted.header⟩, unique, ?_,
      nofun, onCursors⟩
    intro _ _ given
    cases given
    refine ⟨head, trailing, rest, parted, comments, rfl, ?_⟩
    cases rest <;> rfl
  · have same : read = (.error problem, rest) := reads
    rw [same] at onCursors ⊢
    refine ⟨iff_of_false nofun ?_, unique, nofun, ?_, onCursors⟩
    · intro header
      obtain ⟨opens, head, first, header⟩ := header
      exact noHeader opens head first header
    · intro _ given
      cases given
      exact stops

/-- A block with a comment behind its opening brace, and no line break between them. -/
theorem readStatement_takes_block :
    let tokens := [place 0 ⟨.other, "a".toList⟩, place 1 ⟨.string, "'x'".toList⟩,
      place 4 ⟨.plus, "+".toList⟩, place 5 ⟨.string, "'y'".toList⟩,
      place 8 ⟨.openBlock, "\x7b".toList⟩, place 9 ⟨.comment, "/*c*/".toList⟩,
      place 14 ⟨.closeBlock, "\x7d".toList⟩]
    let read := readStatement ⟨tokens, none, 15⟩
    ∃ head trailing rest, Token.Parted tokens true head trailing rest ∧
      ["/*c*/".toList] = (trailing.filter (·.kind == .comment)).map (·.text) ∧
      read.2 = ⟨rest, none, 15⟩ ∧ read.2.next.1 = .ok rest.head? := by
  intro tokens read
  obtain ⟨_, _, taken, _⟩ := readStatement_takes tokens 15
  exact taken _ _ rfl

end TokenStream

end YangFormatter
