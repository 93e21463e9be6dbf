import YangFormatter.Proofs.Reading.Viability
import YangFormatter.Proofs.Token.Cursor

/-! # Reading from a cursor

A reader has no list of the tokens that remain: it looks at the next one or takes it. It takes
the tokens of a statement one by one (`TokenCursor.readStatement`), and between statements it
looks at what comes next (`TokenCursor.readTree`). The tree builder, which takes every token by
itself, comes to the same as reading one statement after the other
(`TokenStream.resume_statement`), and no reader tells a cursor from the stream of what remains
(`TokenCursor.readStatement_remaining`, `TokenCursor.readTree_remaining`).
-/

namespace YangFormatter

/-- Whether a statement is read where a token of this kind is met between statements. -/
def TokenKind.startsStatement : TokenKind → Bool
  | .whitespace | .lineBreak | .comment | .closeBlock => false
  | _ => true

/-! ## Streams -/

namespace TokenStream

/-- Takes the white space and comments at the front. A fault directly behind them is met. -/
def takeTrailing (stream : TokenStream) : Except Problem (List Text) × TokenStream :=
  let (comments, tokens) := splitTrailing stream.tokens
  match tokens, stream.fault with
  | [], some problem => (.error problem, { stream with tokens := [], fault := none })
  | _, _ => (.ok comments, { stream with tokens })

/-- Goes on with a tree of which a part has been read. -/
def resume (stream : TokenStream) (builder : TreeBuilder) :
    Except Problem (List Node) × TokenStream :=
  match builder.run stream.tokens with
  | .error (problem, tokens) => (.error problem, { stream with tokens })
  | .ok builder =>
      let spent := { stream with tokens := [], fault := none }
      match stream.fault with
      | some problem => (.error problem, spent)
      | none => (builder.finish stream.stop, spent)

/-- A tree is read with nothing read before. -/
theorem readTree_eq_resume (stream : TokenStream) : stream.readTree = stream.resume {} :=
  rfl

variable {fault : Option Problem} {stop : Nat} {token : Token} {tokens : List Token}

theorem takeTrailing_whitespace (white : token.kind = .whitespace) :
    takeTrailing ⟨token :: tokens, fault, stop⟩ = takeTrailing ⟨tokens, fault, stop⟩ := by
  simp only [takeTrailing, splitTrailing, white]

theorem takeTrailing_comment (comment : token.kind = .comment) :
    takeTrailing ⟨token :: tokens, fault, stop⟩ =
      ((takeTrailing ⟨tokens, fault, stop⟩).1.map (token.text :: ·),
        (takeTrailing ⟨tokens, fault, stop⟩).2) := by
  simp only [takeTrailing, splitTrailing, comment]
  split <;> rfl

/-- A token that is neither white space nor a comment is not taken. -/
theorem takeTrailing_other (white : token.kind ≠ .whitespace) (comment : token.kind ≠ .comment) :
    takeTrailing ⟨token :: tokens, fault, stop⟩ = (.ok [], ⟨token :: tokens, fault, stop⟩) := by
  have split : splitTrailing (token :: tokens) = ([], token :: tokens) := by
    rw [splitTrailing]
    split <;> simp_all
  simp only [takeTrailing, split]

/-- A statement is its header, and then what is trailing behind it. -/
theorem readStatement_eq (stream : TokenStream) :
    stream.readStatement =
      match readHeader stream.fault stream.stop .start stream.tokens with
      | (.error problem, rest) => (.error problem, rest)
      | (.ok (header, opens), rest) =>
          (rest.takeTrailing.1.map fun postComments => ({ header with postComments }, opens),
            rest.takeTrailing.2) := by
  rw [readStatement]
  rcases readHeader stream.fault stream.stop .start stream.tokens with ⟨problem | header, rest⟩
  · rfl
  · rcases split : splitTrailing rest.tokens with ⟨comments, tokens⟩
    cases tokens <;> cases faulty : rest.fault <;> simp [takeTrailing, split, faulty, Except.map]

/-- A builder goes on token by token. -/
theorem resume_cons (builder : TreeBuilder) :
    resume ⟨token :: tokens, fault, stop⟩ builder =
      match builder.step token with
      | .ok next => resume ⟨tokens, fault, stop⟩ next
      | .error cause =>
          (.error ⟨cause, token.start⟩,
            ⟨if TreeBuilder.consumes cause then tokens else token :: tokens, fault, stop⟩) := by
  rw [resume, TreeBuilder.run]
  cases builder.step token <;> rfl

theorem resume_nil (builder : TreeBuilder) :
    resume ⟨[], none, stop⟩ builder = (builder.finish stop, ⟨[], none, stop⟩) :=
  rfl

/-- A step that finishes a header leaves its place for comments behind it empty. -/
theorem postComments_of_finished {state : HeaderState} {lexeme : Lexeme} {header : Header}
    {opens : Bool} (finished : state.step lexeme = .finished header opens) :
    header.postComments = [] := by
  obtain ⟨kind, text⟩ := lexeme
  cases state with
  | value word keywordComments given comments =>
      cases given <;> cases kind <;> cases finished <;> rfl
  | start | keyword | fragment | plus => cases kind <;> cases finished <;> rfl

/-- A header is read without the comments behind it. -/
theorem postComments_of_readHeader {state : HeaderState} {header : Header} {opens : Bool}
    {rest : TokenStream} (read : readHeader fault stop state tokens = (.ok (header, opens), rest)) :
    header.postComments = [] := by
  induction tokens generalizing state with
  | nil => cases fault <;> cases read
  | cons token tokens ih =>
      rw [readHeader] at read
      cases stepped : state.step token.toLexeme with
      | more next =>
          rw [stepped] at read
          exact ih read
      | finished own ends =>
          rw [stepped] at read
          cases read
          exact postComments_of_finished stepped
      | refused cause =>
          rw [stepped] at read
          cases read

/-- Inside a header the builder reads what is left of the header. -/
theorem resume_inHeader (stream : TokenStream) (builder : TreeBuilder) (state : HeaderState) :
    stream.resume { builder with place := .inHeader state } =
      match readHeader stream.fault stream.stop state stream.tokens with
      | (.error problem, rest) => (.error problem, rest)
      | (.ok (header, opens), rest) =>
          rest.resume { builder with place := .afterHeader header opens } := by
  obtain ⟨tokens, fault, stop⟩ := stream
  induction tokens generalizing state with
  | nil => cases fault <;> rfl
  | cons token tokens ih =>
      have moved : TreeBuilder.step { builder with place := .inHeader state } token =
          TreeBuilder.afterStep { builder with place := .inHeader state }
            (state.step token.toLexeme) := rfl
      rw [resume_cons, moved, readHeader]
      cases stepped : state.step token.toLexeme with
      | more next => exact ih next
      | finished header opens => rfl
      | refused cause =>
          rcases HeaderState.cause_of_refused stepped with rfl | ⟨context, rfl⟩ <;> rfl

/-- Where a builder stands when a statement is added has no part in what it becomes. -/
theorem addStatement_place (builder : TreeBuilder) (place : Place) (header : Header)
    (opens : Bool) :
    { builder with place }.addStatement header opens = builder.addStatement header opens := by
  cases opens <;> rfl

/-- A statement that is added leaves no header to be finished. -/
theorem finish_addStatement (builder : TreeBuilder) (header : Header) (opens : Bool) :
    (builder.addStatement header opens).finish stop =
      (builder.addStatement header opens).close := by
  cases opens <;> rfl

/-- Behind a header the builder takes the white space and comments of its line. -/
theorem resume_afterHeader (stream : TokenStream) (builder : TreeBuilder) (header : Header)
    (opens : Bool) :
    stream.resume { builder with place := .afterHeader header opens } =
      match stream.takeTrailing with
      | (.error problem, rest) => (.error problem, rest)
      | (.ok comments, rest) =>
          let postComments := header.postComments ++ comments
          rest.resume (builder.addStatement { header with postComments } opens) := by
  obtain ⟨tokens, fault, stop⟩ := stream
  induction tokens generalizing header with
  | nil =>
      cases fault with
      | none =>
          simp only [takeTrailing, splitTrailing, List.append_nil, resume_nil,
            finish_addStatement]
          rw [TreeBuilder.finish]
          simp only [addStatement_place]
      | some problem => rfl
  | cons token tokens ih =>
      by_cases white : token.kind = .whitespace
      · have moved : TreeBuilder.step { builder with place := .afterHeader header opens } token =
            .ok { builder with place := .afterHeader header opens } := by
          simp only [TreeBuilder.step, white]
        rw [takeTrailing_whitespace white, ← ih, resume_cons, moved]
      by_cases comment : token.kind = .comment
      · have moved : TreeBuilder.step { builder with place := .afterHeader header opens } token =
            .ok { builder with
              place := .afterHeader
                { header with postComments := header.postComments ++ [token.text] } opens } := by
          simp only [TreeBuilder.step, comment]
        rw [takeTrailing_comment comment, resume_cons, moved]
        simp only [ih]
        rcases takeTrailing ⟨tokens, fault, stop⟩ with ⟨problem | comments, rest⟩
        · rfl
        · simp only [Except.map, List.append_assoc, List.singleton_append]
      · have moved : TreeBuilder.step { builder with place := .afterHeader header opens } token =
            (builder.addStatement header opens).step token := by
          rw [TreeBuilder.step_afterHeader white comment]
          cases opens <;> rfl
        rw [takeTrailing_other white comment]
        simp only [List.append_nil]
        rw [resume_cons, resume_cons, moved]

/-- A statement that is added leaves its builder between statements. -/
theorem place_addStatement (builder : TreeBuilder) (header : Header) (opens : Bool) :
    (builder.addStatement header opens).place = .between false := by
  cases opens <;> rfl

section between

variable {builder next : TreeBuilder} {afterBreak : Bool}
  (between : builder.place = .between afterBreak) (other : ¬ token.kind.startsStatement = true)

include between other

/-- A token that starts no statement is read, and the next one stands between statements too. -/
theorem exists_between_of_step (moved : builder.step token = .ok next) :
    ∃ afterBreak, next.place = .between afterBreak := by
  obtain ⟨blocks, siblings, place, lastStart⟩ := builder
  cases between
  obtain ⟨⟨kind, text⟩, span⟩ := token
  cases kind with
  | whitespace | lineBreak | comment =>
      cases moved
      exact ⟨_, rfl⟩
  | closeBlock =>
      cases blocks <;> cases moved
      exact ⟨_, rfl⟩
  | string | number | date | other | semicolon | plus | openBlock => exact (other rfl).elim

/-- A token that starts no statement is refused only if it closes a block that is not open. -/
theorem cause_of_other {cause : Cause} (stuck : builder.step token = .error cause) :
    cause = .unexpectedClosingBrace := by
  obtain ⟨blocks, siblings, place, lastStart⟩ := builder
  cases between
  obtain ⟨⟨kind, text⟩, span⟩ := token
  cases kind with
  | whitespace | lineBreak | comment => cases stuck
  | closeBlock =>
      cases blocks <;> cases stuck
      rfl
  | string | number | date | other | semicolon | plus | openBlock => exact (other rfl).elim

end between

/-- Between statements the builder reads a statement where one starts. -/
theorem resume_statement (builder : TreeBuilder) {afterBreak : Bool}
    (between : builder.place = .between afterBreak) (starts : token.kind.startsStatement = true) :
    resume ⟨token :: tokens, fault, stop⟩ builder =
      match readStatement ⟨token :: tokens, fault, stop⟩ with
      | (.error problem, rest) => (.error problem, rest)
      | (.ok (header, opens), rest) =>
          rest.resume ({ builder with lastStart := token.start }.addStatement header opens) := by
  have moved : builder.step token =
      TreeBuilder.step { builder with place := .inHeader .start, lastStart := token.start }
        token := by
    obtain ⟨blocks, siblings, place, lastStart⟩ := builder
    cases between
    obtain ⟨⟨kind, text⟩, span⟩ := token
    cases kind with
    | whitespace | lineBreak | comment | closeBlock => cases starts
    | string | number | date | other | semicolon | plus | openBlock => rfl
  calc
    resume ⟨token :: tokens, fault, stop⟩ builder
      = resume ⟨token :: tokens, fault, stop⟩
          { builder with place := .inHeader .start, lastStart := token.start } := by
        rw [resume_cons, resume_cons, moved]
    _ = _ := by
      rw [resume_inHeader _ { builder with lastStart := token.start }, readStatement_eq]
      rcases read : readHeader fault stop .start (token :: tokens) with
        ⟨problem | ⟨header, opens⟩, rest⟩
      · rfl
      · have bare := postComments_of_readHeader read
        simp only [resume_afterHeader rest { builder with lastStart := token.start }, bare,
          List.nil_append]
        rcases rest.takeTrailing with ⟨problem | comments, after⟩ <;> rfl

/-- What is trailing is taken from the front. -/
theorem length_of_takeTrailing {stream rest : TokenStream} {comments : List Text}
    (taken : stream.takeTrailing = (.ok comments, rest)) :
    rest.tokens.length ≤ stream.tokens.length := by
  obtain ⟨tokens, fault, stop⟩ := stream
  induction tokens generalizing comments with
  | nil =>
      cases fault with
      | none =>
          cases taken
          exact Nat.le_refl _
      | some problem => cases taken
  | cons token tokens ih =>
      by_cases white : token.kind = .whitespace
      · rw [takeTrailing_whitespace white] at taken
        exact Nat.le_succ_of_le (ih taken)
      by_cases comment : token.kind = .comment
      · rw [takeTrailing_comment comment] at taken
        rcases further : takeTrailing ⟨tokens, fault, stop⟩ with ⟨problem | comments, after⟩
        · rw [further] at taken
          cases taken
        · rw [further] at taken
          cases taken
          exact Nat.le_succ_of_le (ih further)
      · rw [takeTrailing_other white comment] at taken
        cases taken
        exact Nat.le_refl _

/-- A header has at least its terminator. -/
theorem length_of_readHeader {state : HeaderState} {header : Header × Bool} {rest : TokenStream}
    (read : readHeader fault stop state tokens = (.ok header, rest)) :
    rest.tokens.length < tokens.length := by
  induction tokens generalizing state with
  | nil => cases fault <;> cases read
  | cons token tokens ih =>
      rw [readHeader] at read
      cases stepped : state.step token.toLexeme with
      | more next =>
          rw [stepped] at read
          exact Nat.lt_succ_of_lt (ih read)
      | finished own ends =>
          rw [stepped] at read
          cases read
          exact Nat.lt_succ_self _
      | refused cause =>
          rw [stepped] at read
          cases read

/-- A statement has at least one token. -/
theorem length_of_readStatement {stream rest : TokenStream} {statement : Header × Bool}
    (read : stream.readStatement = (.ok statement, rest)) :
    rest.tokens.length < stream.tokens.length := by
  rw [readStatement_eq] at read
  rcases head : readHeader stream.fault stream.stop .start stream.tokens with
    ⟨problem | header, after⟩
  · rw [head] at read
    cases read
  · rw [head] at read
    rcases trail : after.takeTrailing with ⟨problem | comments, last⟩
    · simp only [trail] at read
      cases read
    · simp only [trail] at read
      cases read
      exact Nat.lt_of_le_of_lt (length_of_takeTrailing trail) (length_of_readHeader head)

end TokenStream

/-! ## Cursors -/

namespace TokenCursor

open TokenStream

variable {cursor seen rest : TokenCursor} {token : Token}

/-- The stream of what remains ends where the text does. -/
@[simp]
theorem stop_remaining (cursor : TokenCursor) : cursor.remaining.stop = cursor.stop := by
  rw [remaining]
  split
  · rfl
  · exact cursor.supply.stop_remaining cursor.stop

/-- Nothing remains where no token is given, and only what stood in the way before that. -/
theorem remaining_of_noToken {request : Request} {answer : Except Problem (Option Token)}
    (gives : cursor.ask request = (answer, rest)) (noToken : ∀ token, answer ≠ .ok (some token)) :
    cursor.remaining.tokens = [] ∧ cursor.remaining.fault.elim (.ok none) .error = answer ∧
      rest.remaining = ⟨[], none, cursor.stop⟩ := by
  have asks := cursor.ask_remaining request
  rw [gives] at asks
  cases front : cursor.remaining.tokens with
  | cons token tokens =>
      rw [ask_of_cons front, Prod.mk.injEq] at asks
      exact (noToken token asks.1.symm).elim
  | nil =>
      rw [ask_of_nil front, Prod.mk.injEq] at asks
      refine ⟨rfl, asks.1, ?_⟩
      rw [← asks.2, front, stop_remaining]

/-- A fault is given where only it remains, and nothing remains then. -/
theorem remaining_of_error {request : Request} {problem : Problem}
    (fails : cursor.ask request = (.error problem, rest)) :
    cursor.remaining = ⟨[], some problem, cursor.stop⟩ ∧
      rest.remaining = ⟨[], none, cursor.stop⟩ := by
  obtain ⟨empty, same, spent⟩ := remaining_of_noToken fails nofun
  refine ⟨?_, spent⟩
  cases faulty : cursor.remaining.fault with
  | none =>
      rw [faulty] at same
      cases same
  | some own =>
      rw [faulty] at same
      cases same
      rw [← empty, ← faulty, ← stop_remaining]

/-- No token is given where nothing remains. -/
theorem remaining_of_none {request : Request} (ends : cursor.ask request = (.ok none, rest)) :
    cursor.remaining = ⟨[], none, cursor.stop⟩ ∧ rest.remaining = ⟨[], none, cursor.stop⟩ := by
  obtain ⟨empty, same, spent⟩ := remaining_of_noToken ends nofun
  refine ⟨?_, spent⟩
  cases faulty : cursor.remaining.fault with
  | none => rw [← empty, ← faulty, ← stop_remaining]
  | some own =>
      rw [faulty] at same
      cases same

/-- A token that is taken is the first that remained. -/
theorem remaining_of_bump (takes : cursor.bump = (.ok (some token), rest)) :
    cursor.remaining = { rest.remaining with tokens := token :: rest.remaining.tokens } := by
  have asks := cursor.ask_remaining .bump
  rw [ask, takes] at asks
  exact eq_of_next asks

/-- A token that was looked at is the first that remains, and stays until it is taken. -/
theorem remaining_of_peek (looks : cursor.peek = (.ok (some token), seen)) :
    seen.remaining = cursor.remaining ∧
      cursor.remaining =
        { seen.bump.2.remaining with tokens := token :: seen.bump.2.remaining.tokens } := by
  have answered : cursor.peek.1 = .ok (some token) := congrArg Prod.fst looks
  have kept : seen.remaining = cursor.remaining := by
    rw [← remaining_peek answered, looks]
  have again : seen.bump.1 = .ok (some token) := by
    have taken := cursor.faithful_remaining.peeks [] _ answered
    rwa [after, List.foldl_nil, looks] at taken
  refine ⟨kept, ?_⟩
  rw [← kept]
  exact remaining_of_bump (Prod.ext again rfl)

/-- Takes tokens up to the end of a header. -/
def readHeader (state : HeaderState) (cursor : TokenCursor) :
    Except Problem (Header × Bool) × TokenCursor :=
  match _takes : cursor.bump with
  | (.error problem, rest) => (.error problem, rest)
  | (.ok none, rest) => (.error ⟨.unexpectedEnd, cursor.stop⟩, rest)
  | (.ok (some token), rest) =>
      match state.step token.toLexeme with
      | .more next => rest.readHeader next
      | .finished header opens => (.ok (header, opens), rest)
      | .refused cause => (.error ⟨cause, token.start⟩, rest)
termination_by cursor.remaining.tokens.length
decreasing_by
  rw [remaining_of_bump _takes]
  exact Nat.lt_succ_self _

/-- Takes white space and comments as long as they come next. -/
def takeTrailing (cursor : TokenCursor) : Except Problem (List Text) × TokenCursor :=
  match _looks : cursor.peek with
  | (.error problem, seen) => (.error problem, seen)
  | (.ok none, seen) => (.ok [], seen)
  | (.ok (some token), seen) =>
      match token.kind with
      | .whitespace => seen.bump.2.takeTrailing
      | .comment =>
          let (comments, rest) := seen.bump.2.takeTrailing
          (comments.map (token.text :: ·), rest)
      | _ => (.ok [], seen)
termination_by cursor.remaining.tokens.length
decreasing_by
  all_goals
    rw [(remaining_of_peek _looks).2]
    exact Nat.lt_succ_self _

/-- Reads a statement without its block, and whether it opens one. -/
def readStatement (cursor : TokenCursor) : Except Problem (Header × Bool) × TokenCursor :=
  match cursor.readHeader .start with
  | (.error problem, rest) => (.error problem, rest)
  | (.ok (header, opens), rest) =>
      let (comments, rest) := rest.takeTrailing
      (comments.map fun postComments => ({ header with postComments }, opens), rest)

/-- Taking a header from a cursor is taking it from the stream of what remains. -/
theorem readHeader_remaining (state : HeaderState) (cursor : TokenCursor) :
    TokenStream.readHeader cursor.remaining.fault cursor.remaining.stop state
        cursor.remaining.tokens =
      ((cursor.readHeader state).1, (cursor.readHeader state).2.remaining) := by
  fun_induction readHeader state cursor with
  | case1 state cursor problem rest takes =>
      have fails : cursor.ask .bump = (.error problem, rest) := takes
      obtain ⟨front, spent⟩ := remaining_of_error fails
      rw [front, spent]
      rfl
  | case2 state cursor rest takes =>
      have ends : cursor.ask .bump = (.ok none, rest) := takes
      obtain ⟨front, spent⟩ := remaining_of_none ends
      rw [front, spent]
      rfl
  | case3 state cursor token rest takes next stepped ih =>
      rw [remaining_of_bump takes, TokenStream.readHeader, stepped]
      exact ih
  | case4 state cursor token rest takes header opens stepped
  | case5 state cursor token rest takes cause stepped =>
      rw [remaining_of_bump takes, TokenStream.readHeader, stepped]

/-- Taking what is trailing from a cursor is taking it from the stream of what remains. -/
theorem takeTrailing_remaining (cursor : TokenCursor) :
    cursor.remaining.takeTrailing = (cursor.takeTrailing.1, cursor.takeTrailing.2.remaining) := by
  fun_induction takeTrailing cursor with
  | case1 cursor problem seen looks =>
      have fails : cursor.ask .peek = (.error problem, seen) := looks
      obtain ⟨front, spent⟩ := remaining_of_error fails
      rw [front, spent]
      rfl
  | case2 cursor seen looks =>
      have ends : cursor.ask .peek = (.ok none, seen) := looks
      obtain ⟨front, spent⟩ := remaining_of_none ends
      rw [front, spent]
      rfl
  | case3 cursor token seen looks white ih =>
      rw [(remaining_of_peek looks).2, takeTrailing_whitespace white]
      exact ih
  | case4 cursor token seen looks comment comments rest further ih =>
      rw [(remaining_of_peek looks).2, takeTrailing_comment comment]
      rw [further] at ih
      simp only [ih]
  | case5 cursor token seen looks white comment =>
      obtain ⟨kept, front⟩ := remaining_of_peek looks
      rw [kept, front, takeTrailing_other white comment]

/-- Reading a statement from a cursor is reading it from the stream of what remains. -/
theorem readStatement_remaining (cursor : TokenCursor) :
    cursor.remaining.readStatement =
      (cursor.readStatement.1, cursor.readStatement.2.remaining) := by
  rw [readStatement_eq, readHeader_remaining, readStatement]
  rcases cursor.readHeader .start with ⟨problem | ⟨header, opens⟩, rest⟩
  · rfl
  · simp only [takeTrailing_remaining]

/-- Reads the statements and comments up to the end. Where no statement starts, the token that
is seen goes to the builder as it is. -/
def readNodes (builder : TreeBuilder) (cursor : TokenCursor) :
    Except Problem (List Node) × TokenCursor :=
  match _looks : cursor.peek with
  | (.error problem, seen) => (.error problem, seen)
  | (.ok none, seen) => (builder.close, seen)
  | (.ok (some token), seen) =>
      if token.kind.startsStatement then
        match _reads : seen.readStatement with
        | (.error problem, rest) => (.error problem, rest)
        | (.ok (header, opens), rest) =>
            rest.readNodes ({ builder with lastStart := token.start }.addStatement header opens)
      else
        match builder.step token with
        | .ok next => seen.bump.2.readNodes next
        | .error cause => (.error ⟨cause, token.start⟩, seen)
termination_by cursor.remaining.tokens.length
decreasing_by
  · have read := seen.readStatement_remaining
    rw [_reads] at read
    rw [← (remaining_of_peek _looks).1]
    exact length_of_readStatement read
  · rw [(remaining_of_peek _looks).2]
    exact Nat.lt_succ_self _

/-- Reads all that is left as a tree. -/
def readTree (cursor : TokenCursor) : Except Problem (List Node) × TokenCursor :=
  cursor.readNodes {}

/-- Reading a tree from a cursor, a statement at a time, is building it from the stream of what
remains, a token at a time. -/
theorem readNodes_remaining (builder : TreeBuilder) (cursor : TokenCursor)
    (between : ∃ afterBreak, builder.place = .between afterBreak) :
    cursor.remaining.resume builder =
      ((cursor.readNodes builder).1, (cursor.readNodes builder).2.remaining) := by
  -- Every case ends between statements again, so that no header is left half read.
  fun_induction readNodes builder cursor with
  | case1 builder cursor problem seen looks =>
      have fails : cursor.ask .peek = (.error problem, seen) := looks
      obtain ⟨front, spent⟩ := remaining_of_error fails
      rw [front, spent]
      rfl
  | case2 builder cursor seen looks =>
      have ends : cursor.ask .peek = (.ok none, seen) := looks
      obtain ⟨front, spent⟩ := remaining_of_none ends
      obtain ⟨_, here⟩ := between
      rw [front, spent, resume_nil, TreeBuilder.finish, here]
  | case3 builder cursor token seen looks starts problem rest reads =>
      obtain ⟨_, here⟩ := between
      obtain ⟨kept, front⟩ := remaining_of_peek looks
      have read := seen.readStatement_remaining
      rw [kept, front, reads] at read
      rw [front, resume_statement builder here starts, read]
  | case4 builder cursor token seen looks starts header opens rest reads ih =>
      obtain ⟨_, here⟩ := between
      obtain ⟨kept, front⟩ := remaining_of_peek looks
      have read := seen.readStatement_remaining
      rw [kept, front, reads] at read
      rw [front, resume_statement builder here starts, read]
      exact ih ⟨_, place_addStatement _ header opens⟩
  | case5 builder cursor token seen looks other next moved ih =>
      obtain ⟨_, here⟩ := between
      obtain ⟨_, front⟩ := remaining_of_peek looks
      rw [front, resume_cons, moved]
      exact ih (exists_between_of_step here other moved)
  | case6 builder cursor token seen looks other cause stuck =>
      obtain ⟨_, here⟩ := between
      obtain ⟨kept, front⟩ := remaining_of_peek looks
      rw [kept, front, resume_cons, stuck, cause_of_other here other stuck]
      rfl

/-- Reading a tree from a cursor is reading it from the stream of what remains. -/
theorem readTree_remaining (cursor : TokenCursor) :
    cursor.remaining.readTree = (cursor.readTree.1, cursor.readTree.2.remaining) := by
  rw [readTree_eq_resume, readNodes_remaining {} cursor ⟨_, rfl⟩, readTree]

end TokenCursor

/-- The tree of a text is what is read from a cursor on its tokens. -/
theorem Text.parse_eq_readTree (text : Text) :
    text.parse = (TokenCursor.ofText text).readTree.1 := by
  rw [Text.parse, ← TokenCursor.remaining_ofText, TokenCursor.readTree_remaining]

end YangFormatter
