import YangFormatter.Proofs.Token.Coverage
import YangFormatter.Token.Cursor

/-! # Faithful cursors

A cursor keeps what it looked at, its supply whether it ended, and its scanner where it stands
and whether it failed. However these go together, one request does to a cursor what it does to
the stream of what remains (`TokenCursor.ask_remaining`). So no requests tell a cursor from a
stream (`TokenCursor.answers_remaining`), and what is true of a cursor after any requests
(`TokenCursor.Faithful`) is read off the stream. The scanner and the supply below it give the
same tokens, then the fault if there is one, and nothing from then on (`Supplies`).
-/

namespace YangFormatter

/-- What is asked of a cursor, or of a stream. -/
inductive Request where
  | peek
  | bump
deriving DecidableEq, Repr

/-- The token that a request takes if it is answered so. -/
def Request.taken : Request → Except Problem (Option Token) → Option Token
  | .bump, .ok token => token
  | _, _ => none

/-! ## Streams -/

namespace TokenStream

/-- The answer to a request, and the stream after it. -/
def ask (stream : TokenStream) : Request → Except Problem (Option Token) × TokenStream
  | .peek => stream.peek
  | .bump => stream.next

/-- The answers to requests that are made one after the other. -/
def answers (stream : TokenStream) : List Request → List (Except Problem (Option Token))
  | [] => []
  | request :: requests => (stream.ask request).1 :: (stream.ask request).2.answers requests

section next

variable {stream rest : TokenStream}

/-- A stream that gives a token began with it. -/
theorem eq_of_next {token : Token} (gives : stream.next = (.ok (some token), rest)) :
    stream = { rest with tokens := token :: rest.tokens } := by
  obtain ⟨tokens, fault, stop⟩ := stream
  cases tokens with
  | cons first tokens =>
      cases gives
      rfl
  | nil => cases fault <;> cases gives

/-- A stream that gives no token is spent by whatever is asked. -/
theorem spent_of_next {answer : Except Problem (Option Token)}
    (gives : stream.next = (answer, rest)) (noToken : ∀ token, answer ≠ .ok (some token)) :
    rest = ⟨[], none, stream.stop⟩ ∧ ∀ request, stream.ask request = (answer, rest) := by
  obtain ⟨tokens, fault, stop⟩ := stream
  cases tokens with
  | cons token tokens =>
      cases gives
      exact (noToken token rfl).elim
  | nil =>
      cases fault
      all_goals
        cases gives
        refine ⟨rfl, fun request => ?_⟩
        cases request <;> rfl

end next

section ask

variable {stream : TokenStream}

/-- As long as there are tokens, the first of them is the answer. -/
theorem ask_of_cons {token : Token} {tokens : List Token} (front : stream.tokens = token :: tokens)
    (request : Request) :
    stream.ask request =
      (.ok (some token), { stream with tokens := stream.tokens.drop ([request].count .bump) }) := by
  obtain ⟨_, fault, stop⟩ := stream
  cases front
  cases request <;> rfl

/-- Where there are no more tokens, the answer is the fault, and there is none from then on. -/
theorem ask_of_nil (empty : stream.tokens = []) (request : Request) :
    stream.ask request = (stream.fault.elim (.ok none) .error, { stream with fault := none }) := by
  obtain ⟨_, fault, stop⟩ := stream
  cases empty
  cases request <;> cases fault <;> rfl

/-- A request that is made when there are no more tokens leaves nothing. -/
theorem spent_ask (empty : stream.tokens = []) (request : Request) :
    (stream.ask request).2.Spent := by
  rw [ask_of_nil empty]
  exact ⟨empty, rfl⟩

/-- A fault is the answer exactly if it is all that is left. -/
theorem ask_eq_error_iff {request : Request} {problem : Problem} :
    (stream.ask request).1 = .error problem ↔ stream.tokens = [] ∧ stream.fault = some problem := by
  cases front : stream.tokens with
  | cons token tokens => simp [ask_of_cons front]
  | nil => cases faulty : stream.fault <;> simp [ask_of_nil front, faulty]

/-- A fault is left exactly if a token came before it. -/
theorem fault_ask_iff {request : Request} {problem : Problem} :
    (stream.ask request).2.fault = some problem ↔
      stream.tokens ≠ [] ∧ stream.fault = some problem := by
  cases front : stream.tokens with
  | cons token tokens => simp [ask_of_cons front]
  | nil => simp [ask_of_nil front]

/-- Looking at a stream leaves it as it is, unless there is a fault to be seen. -/
theorem ask_peek_snd {answer : Option Token} (peeks : (stream.ask .peek).1 = .ok answer) :
    (stream.ask .peek).2 = stream := by
  obtain ⟨tokens, fault, stop⟩ := stream
  cases tokens with
  | cons token tokens => rfl
  | nil =>
      cases fault with
      | none => rfl
      | some problem => cases peeks

variable (stream)

/-- The answer is the same whether the token is looked at or taken. -/
theorem ask_bump_fst : (stream.ask .bump).1 = (stream.ask .peek).1 := by
  cases front : stream.tokens with
  | cons token tokens => rw [ask_of_cons front, ask_of_cons front]
  | nil => rw [ask_of_nil front, ask_of_nil front]

/-- Only taking takes a token, and takes the first. -/
theorem taken_ask (request : Request) :
    (request.taken (stream.ask request).1).toList =
      stream.tokens.take ([request].count .bump) := by
  cases front : stream.tokens with
  | cons token tokens =>
      rw [ask_of_cons front]
      cases request <;> rfl
  | nil =>
      rw [ask_of_nil front]
      cases request <;> cases stream.fault <;> rfl

/-- Only taking leaves one token fewer. -/
theorem tokens_ask (request : Request) :
    (stream.ask request).2.tokens = stream.tokens.drop ([request].count .bump) := by
  cases front : stream.tokens with
  | cons token tokens => rw [ask_of_cons front, front]
  | nil => rw [ask_of_nil front, front, List.drop_nil]

end ask

/-- A spent stream answers every request with no token. -/
theorem Spent.answers {stream : TokenStream} (spent : stream.Spent) (requests : List Request) :
    ∀ answer ∈ stream.answers requests, answer = .ok none := by
  induction requests with
  | nil => exact fun _ member => (List.not_mem_nil member).elim
  | cons request requests ih =>
      obtain ⟨tokens, fault, stop⟩ := stream
      obtain ⟨rfl, rfl⟩ := spent
      intro answer member
      rw [TokenStream.answers, ask_of_nil rfl] at member
      rcases List.mem_cons.mp member with same | later
      · exact same
      · exact ih answer later

/-- The fault that comes next on a stream is met once. -/
theorem count_answers_of_nil {stream : TokenStream} {problem : Problem}
    (empty : stream.tokens = []) (faulty : stream.fault = some problem) (request : Request)
    (later : List Request) :
    (stream.answers (request :: later)).count (.error problem) = 1 := by
  have noOther : Except.error problem ∉ (stream.ask request).2.answers later := by
    intro member
    cases (spent_ask empty request).answers later _ member
  rw [TokenStream.answers, ask_eq_error_iff.mpr ⟨empty, faulty⟩, List.count_cons_self,
    List.count_eq_zero.mpr noOther]

/-- The fault of a stream is met once, if anything is asked after all tokens were taken. -/
theorem count_answers {stream : TokenStream} {problem : Problem}
    (faulty : stream.fault = some problem) {earlier : List Request}
    (enough : stream.tokens.length ≤ earlier.count .bump) (request : Request)
    (later : List Request) :
    (stream.answers (earlier ++ request :: later)).count (.error problem) = 1 := by
  induction earlier generalizing stream with
  | nil =>
      have empty := List.length_eq_zero_iff.mp (Nat.le_zero.mp enough)
      exact count_answers_of_nil empty faulty request later
  | cons first earlier ih =>
      cases front : stream.tokens with
      | nil => exact count_answers_of_nil front faulty first (earlier ++ request :: later)
      | cons token tokens =>
          have stillFaulty : (stream.ask first).2.fault = some problem :=
            fault_ask_iff.mpr ⟨front ▸ List.cons_ne_nil _ _, faulty⟩
          have stillEnough : (stream.ask first).2.tokens.length ≤ earlier.count .bump := by
            rw [tokens_ask, List.length_drop, Nat.sub_le_iff_le_add', ← List.count_append]
            exact enough
          have isToken : (stream.ask first).1 ≠ .error problem := by
            rw [ask_of_cons front]
            exact nofun
          rw [List.cons_append, TokenStream.answers, List.count_cons_of_ne isToken]
          exact ih stillFaulty stillEnough

end TokenStream

/-! ## One request -/

open TokenStream

/-- A scanner reads what comes next on the stream of what remains. -/
theorem Scanner.next_remaining (scanner : Scanner) (stop : Nat) :
    (scanner.remaining stop).next = (scanner.next.1, scanner.next.2.remaining stop) := by
  obtain ⟨rest, offset, failed⟩ := scanner
  cases failed with
  | true => rfl
  | false =>
      cases rest with
      | nil => simp [remaining, Scanner.next, TokenStream.next]
      | cons head tail =>
          cases read : Lexeme.first head tail with
          | error cause =>
              simp [remaining, Scanner.next, TokenStream.next, read, scan_cons_of_fault read]
          | ok pair =>
              obtain ⟨lexeme, rest⟩ := pair
              simp [remaining, Scanner.next, TokenStream.next, read, scan_cons_of_read read]

/-- A scanner that has no token to read stays as it is. -/
theorem Scanner.spent_of_next {scanner rest : Scanner} {answer : Except Problem (Option Token)}
    (gives : scanner.next = (answer, rest)) (noToken : ∀ token, answer ≠ .ok (some token)) :
    rest.next = (.ok none, rest) := by
  obtain ⟨text, offset, failed⟩ := scanner
  cases failed with
  | true =>
      cases gives
      rfl
  | false =>
      cases text with
      | nil =>
          cases gives
          rfl
      | cons head tail =>
          simp only [Scanner.next] at gives
          cases read : Lexeme.first head tail with
          | error cause =>
              rw [read] at gives
              cases gives
              rfl
          | ok pair =>
              rw [read] at gives
              cases gives
              exact (noToken _ rfl).elim

/-- A supply hands on what comes next on the stream of what remains. -/
theorem TokenSupply.next_remaining (supply : TokenSupply) (stop : Nat) :
    (supply.remaining stop).next = (supply.next.1, supply.next.2.remaining stop) := by
  obtain ⟨scanner, ended⟩ := supply
  cases ended with
  | true => rfl
  | false =>
      have reads := scanner.next_remaining stop
      simp only [TokenSupply.next, TokenSupply.remaining, Bool.false_eq_true, if_false]
      split
      next token after read =>
        rw [reads, read]
        rfl
      next answer after noToken read =>
        -- The scanner is not asked again, and there is nothing more in front of it.
        rw [read] at reads
        obtain ⟨spent, _⟩ := spent_of_next reads noToken
        rw [reads, spent, scanner.stop_remaining]
        rfl

/-- A supply that has no token to hand on stays as it is. -/
theorem TokenSupply.spent_of_next {supply rest : TokenSupply}
    {answer : Except Problem (Option Token)} (gives : supply.next = (answer, rest))
    (noToken : ∀ token, answer ≠ .ok (some token)) : rest.next = (.ok none, rest) := by
  obtain ⟨scanner, ended⟩ := supply
  cases ended with
  | true =>
      cases gives
      rfl
  | false =>
      simp only [TokenSupply.next, Bool.false_eq_true, if_false] at gives
      split at gives
      next token after read =>
        cases gives
        exact (noToken token rfl).elim
      next =>
        cases gives
        rfl

section supplies

variable {State : Type} {next : State → Except Problem (Option Token) × State}

/-- Tokens are asked for one after the other. Some are given, and then there are no more or
there is a problem, and nothing comes after that however often it is asked for. -/
inductive Supplies (next : State → Except Problem (Option Token) × State) :
    State → List Token → Option Problem → Prop where
  | ended {state rest : State} (ends : next state = (.ok none, rest))
      (spent : next rest = (.ok none, rest)) : Supplies next state [] none
  | failed {state rest : State} {problem : Problem} (fails : next state = (.error problem, rest))
      (spent : next rest = (.ok none, rest)) : Supplies next state [] (some problem)
  | token {state rest : State} {token : Token} {tokens : List Token} {fault : Option Problem}
      (gives : next state = (.ok (some token), rest)) (others : Supplies next rest tokens fault) :
      Supplies next state (token :: tokens) fault

/-- What goes through the stream of what remains supplies what the stream yields. -/
theorem Supplies.of_yields {remaining : State → TokenStream}
    (simulates : ∀ state, (remaining state).next = ((next state).1, remaining (next state).2))
    (spent : ∀ {state rest answer}, next state = (answer, rest) →
      (∀ token, answer ≠ .ok (some token)) → next rest = (.ok none, rest))
    {stream : TokenStream} {tokens : List Token} {fault : Option Problem}
    (yields : stream.Yields tokens fault) {state : State} (same : remaining state = stream) :
    Supplies next state tokens fault := by
  induction yields generalizing state with
  | ended ends =>
      rw [← same, simulates, Prod.mk.injEq] at ends
      have gives : next state = (.ok none, (next state).2) := Prod.ext ends.1 rfl
      exact .ended gives (spent gives nofun)
  | failed fails =>
      rw [← same, simulates, Prod.mk.injEq] at fails
      have gives : next state = (.error _, (next state).2) := Prod.ext fails.1 rfl
      exact .failed gives (spent gives nofun)
  | token takes _ ih =>
      rw [← same, simulates, Prod.mk.injEq] at takes
      exact .token (Prod.ext takes.1 rfl) (ih takes.2)

end supplies

/-- A scanner reads the stream of what remains, and then nothing more. -/
theorem Scanner.supplies_remaining (scanner : Scanner) (stop : Nat) :
    Supplies Scanner.next scanner (scanner.remaining stop).tokens
      (scanner.remaining stop).fault :=
  .of_yields (fun scanner => scanner.next_remaining stop) Scanner.spent_of_next
    (yields_self _) rfl

/-- A supply hands on the stream of what remains, and then nothing more. -/
theorem TokenSupply.supplies_remaining (supply : TokenSupply) (stop : Nat) :
    Supplies TokenSupply.next supply (supply.remaining stop).tokens
      (supply.remaining stop).fault :=
  .of_yields (fun supply => supply.next_remaining stop) TokenSupply.spent_of_next
    (yields_self _) rfl

namespace TokenCursor

/-- The answer to a request, and the cursor after it. -/
def ask (cursor : TokenCursor) : Request → Except Problem (Option Token) × TokenCursor
  | .peek => cursor.peek
  | .bump => cursor.bump

/-- A request does to a cursor what it does to the stream of what remains. -/
theorem ask_remaining (cursor : TokenCursor) (request : Request) :
    cursor.remaining.ask request =
      ((cursor.ask request).1, (cursor.ask request).2.remaining) := by
  obtain ⟨supply, peeked, exhausted, stop⟩ := cursor
  cases peeked with
  | some token => cases request <;> rfl
  | none =>
      cases exhausted with
      | true => cases request <;> rfl
      | false =>
          have gives := supply.next_remaining stop
          change (supply.remaining stop).ask request = _
          rcases next : supply.next with ⟨problem | (_ | token), after⟩ <;> rw [next] at gives
          · -- The cursor does not note the fault, but its supply has ended.
            obtain ⟨_, asks⟩ := spent_of_next gives nofun
            rw [asks request]
            cases request <;> simp only [ask, bump, peek, next] <;> rfl
          · obtain ⟨spent, asks⟩ := spent_of_next gives nofun
            rw [asks request, spent, supply.stop_remaining]
            cases request <;> simp only [ask, bump, peek, next] <;> rfl
          · cases request with
            | peek =>
                rw [eq_of_next gives]
                simp only [ask, peek, next]
                rfl
            | bump =>
                simp only [ask, bump, peek, next]
                exact gives

/-! ## Many requests -/

/-- The cursor after some requests. -/
def after (cursor : TokenCursor) (requests : List Request) : TokenCursor :=
  requests.foldl (fun cursor request => (cursor.ask request).2) cursor

/-- The answers to requests that are made one after the other. -/
def answers (cursor : TokenCursor) : List Request → List (Except Problem (Option Token))
  | [] => []
  | request :: requests => (cursor.ask request).1 :: (cursor.ask request).2.answers requests

/-- The tokens that are taken by requests that are made one after the other. -/
def delivered (cursor : TokenCursor) : List Request → List Token
  | [] => []
  | request :: requests =>
      (request.taken (cursor.ask request).1).toList ++
        (cursor.ask request).2.delivered requests

/-- No requests tell a cursor from the stream of what remains. -/
theorem answers_remaining (cursor : TokenCursor) (requests : List Request) :
    cursor.remaining.answers requests = cursor.answers requests := by
  induction requests generalizing cursor with
  | nil => rfl
  | cons request requests ih =>
      rw [TokenStream.answers, cursor.ask_remaining, ih, answers]

variable (cursor : TokenCursor)

theorem answer_ask (request : Request) :
    (cursor.ask request).1 = (cursor.remaining.ask request).1 := by
  rw [ask_remaining]

theorem remaining_ask (request : Request) :
    (cursor.ask request).2.remaining = (cursor.remaining.ask request).2 := by
  rw [ask_remaining]

theorem after_concat (requests : List Request) (request : Request) :
    cursor.after (requests ++ [request]) = ((cursor.after requests).ask request).2 := by
  rw [after, List.foldl_concat, after]

/-- The tokens taken are the first that remained, one for each time that one was to be taken. -/
theorem delivered_eq_take (requests : List Request) :
    cursor.delivered requests = cursor.remaining.tokens.take (requests.count .bump) := by
  induction requests generalizing cursor with
  | nil => rfl
  | cons request requests ih =>
      rw [delivered, ih, answer_ask, remaining_ask, taken_ask, tokens_ask, ← List.take_add,
        ← List.count_append, List.singleton_append]

/-- One token fewer remains for each time that one was to be taken. -/
theorem tokens_after (requests : List Request) :
    (cursor.after requests).remaining.tokens =
      cursor.remaining.tokens.drop (requests.count .bump) := by
  induction requests using List.reverseRecOn with
  | nil => rfl
  | append_singleton requests request ih =>
      rw [after_concat, remaining_ask, tokens_ask, ih, List.drop_drop, List.count_append]

variable {cursor}

/-- Looking at the next token leaves what remains, unless there is a fault to be seen. -/
theorem remaining_peek {answer : Option Token} (peeks : cursor.peek.1 = .ok answer) :
    cursor.peek.2.remaining = cursor.remaining := by
  have same : (cursor.remaining.ask .peek).1 = .ok answer :=
    (cursor.answer_ask .peek).symm.trans peeks
  exact (cursor.remaining_ask .peek).trans (ask_peek_snd same)

/-- All tokens were taken exactly if none remains. -/
theorem delivered_eq_iff {requests : List Request} :
    cursor.delivered requests = cursor.remaining.tokens ↔
      (cursor.after requests).remaining.tokens = [] := by
  rw [delivered_eq_take, tokens_after, List.take_eq_self_iff, List.drop_eq_nil_iff]

/-- The fault is still to come unless something was asked when all tokens had been taken. -/
theorem fault_after_iff {requests : List Request} {problem : Problem} :
    (cursor.after requests).remaining.fault = some problem ↔
      cursor.remaining.fault = some problem ∧
        ∀ earlier, earlier <+: requests →
          cursor.delivered earlier = cursor.remaining.tokens → earlier = requests := by
  induction requests using List.reverseRecOn with
  | nil =>
      refine (and_iff_left ?_).symm
      exact fun earlier first _ => List.prefix_nil.mp first
  | append_singleton requests request ih =>
      rw [after_concat, remaining_ask, fault_ask_iff, ih, Ne, ← delivered_eq_iff]
      constructor
      · intro ⟨notAll, faulty, untouched⟩
        refine ⟨faulty, fun earlier first all => ?_⟩
        rcases List.prefix_concat_iff.mp first with same | shorter
        · exact same
        · cases untouched earlier shorter all
          exact (notAll all).elim
      · intro ⟨faulty, untouched⟩
        have notAll : ∀ earlier, earlier <+: requests →
            cursor.delivered earlier ≠ cursor.remaining.tokens := by
          intro earlier first all
          have same := untouched earlier (first.trans (List.prefix_append _ _)) all
          have shorter := first.length_le
          rw [same, List.length_append] at shorter
          exact absurd shorter (by simp)
        exact ⟨notAll requests List.prefix_rfl, faulty,
          fun earlier first all => (notAll earlier first all).elim⟩

/-- Whatever is asked of a cursor, and in whatever order, it gives some tokens and then, if there
is one, a fault. -/
structure Faithful (cursor : TokenCursor) (tokens : List Token) (fault : Option Problem) :
    Prop where
  /-- The tokens taken are the tokens in order, one for each time that one was to be taken. -/
  delivers : ∀ requests, cursor.delivered requests = tokens.take (requests.count .bump)
  /-- What is looked at is what is taken next. -/
  peeks : ∀ requests answer, (cursor.after requests).peek.1 = .ok answer →
    (cursor.after requests).peek.2.bump.1 = .ok answer
  /-- Looking at a token changes no later answer. -/
  keeps : ∀ requests answer, (cursor.after requests).peek.1 = .ok answer →
    ∀ later, (cursor.after requests).peek.2.answers later = (cursor.after requests).answers later
  /-- The fault is met by the request that is the first to be made when all tokens were taken,
  and by no other. -/
  fails_iff : ∀ requests request problem,
    ((cursor.after requests).ask request).1 = .error problem ↔
      fault = some problem ∧ cursor.delivered requests = tokens ∧
        ∀ earlier, earlier <+: requests → cursor.delivered earlier = tokens → earlier = requests
  /-- If anything is asked when all tokens were taken, the fault is met once. -/
  fails_once : ∀ problem, fault = some problem → ∀ earlier, cursor.delivered earlier = tokens →
    ∀ request later, (cursor.answers (earlier ++ request :: later)).count (.error problem) = 1
  /-- There is nothing more after the fault. -/
  spent_of_failed : ∀ requests request problem,
    ((cursor.after requests).ask request).1 = .error problem →
      ∀ later, ∀ answer ∈ ((cursor.after requests).ask request).2.answers later, answer = .ok none
  /-- There is nothing more after the last token, if no fault stands behind it. -/
  spent_of_delivered : fault = none → ∀ requests, cursor.delivered requests = tokens →
    ∀ later, ∀ answer ∈ (cursor.after requests).answers later, answer = .ok none

/-- Every cursor is faithful to what remains. -/
theorem faithful_remaining (cursor : TokenCursor) :
    cursor.Faithful cursor.remaining.tokens cursor.remaining.fault where
  delivers := cursor.delivered_eq_take
  peeks := by
    intro requests answer peeks
    calc
      (cursor.after requests).peek.2.bump.1
        = ((cursor.after requests).peek.2.remaining.ask .bump).1 := answer_ask _ .bump
      _ = ((cursor.after requests).remaining.ask .peek).1 := by
        rw [remaining_peek peeks, ask_bump_fst]
      _ = (cursor.after requests).peek.1 := (answer_ask _ .peek).symm
      _ = .ok answer := peeks
  keeps := by
    intro requests answer peeks later
    rw [← answers_remaining, remaining_peek peeks, answers_remaining]
  fails_iff := by
    intro requests request problem
    rw [answer_ask, ask_eq_error_iff, fault_after_iff, ← delivered_eq_iff]
    exact and_left_comm
  fails_once := by
    intro problem faulty earlier all request later
    rw [← answers_remaining]
    apply count_answers faulty
    rwa [delivered_eq_take, List.take_eq_self_iff] at all
  spent_of_failed := by
    intro requests request problem fails later
    rw [answer_ask, ask_eq_error_iff] at fails
    rw [← answers_remaining, remaining_ask]
    exact (spent_ask fails.1 request).answers later
  spent_of_delivered := by
    intro noFault requests all later
    have spent : (cursor.after requests).remaining.Spent := by
      refine ⟨delivered_eq_iff.mp all, Option.eq_none_iff_forall_ne_some.mpr ?_⟩
      intro problem faulty
      cases noFault.symm.trans (fault_after_iff.mp faulty).1
    rw [← answers_remaining]
    exact spent.answers later

/-- A scanner reads some tokens from a text, its supply hands them on, and both end with the
problem that stops them if there is one, and give nothing more. The cursor of the text is
faithful to these tokens and this problem. It answers as the stream of the text does. -/
theorem faithful_ofText (text : Text) :
    let stream := TokenStream.ofText text
    Supplies Scanner.next (.ofText text) stream.tokens stream.fault ∧
      Supplies TokenSupply.next (ofText text).supply stream.tokens stream.fault ∧
      (ofText text).Faithful stream.tokens stream.fault ∧
      ∀ requests, (ofText text).answers requests = stream.answers requests := by
  intro stream
  have given : (ofText text).remaining = stream := remaining_ofText text
  refine ⟨Scanner.supplies_remaining (.ofText text) stream.stop,
    TokenSupply.supplies_remaining (ofText text).supply stream.stop, ?_, fun requests => ?_⟩
  · rw [← given]
    exact faithful_remaining (ofText text)
  · rw [← given, answers_remaining]

/-- A string with no end behind two tokens, of which the second is looked at twice. -/
theorem faithful_ofText_endless :
    let cursor := ofText "é 'x\\'".toList
    let requests : List Request := [.peek, .bump, .peek, .peek, .bump]
    cursor.delivered requests = [place 0 ⟨.other, ['é']⟩, place 2 ⟨.whitespace, [' ']⟩] ∧
      ∀ request later,
        (cursor.answers (requests ++ request :: later)).count (.error ⟨.unterminatedString, 3⟩) =
          1 := by
  intro cursor requests
  have scanned : TokenStream.ofText "é 'x\\'".toList =
      { tokens := [place 0 ⟨.other, ['é']⟩, place 2 ⟨.whitespace, [' ']⟩]
        fault := some ⟨.unterminatedString, 3⟩
        stop := 7 } := by
    cbv
  obtain ⟨_, _, faithful, _⟩ := faithful_ofText "é 'x\\'".toList
  rw [scanned] at faithful
  have all := faithful.delivers requests
  exact ⟨all, faithful.fails_once _ rfl requests all⟩

end TokenCursor

end YangFormatter
