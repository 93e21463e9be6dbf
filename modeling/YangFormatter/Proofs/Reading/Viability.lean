import YangFormatter.Proofs.Reading.Grammar
import YangFormatter.Proofs.Reading.Region

/-! # Where reading cannot go on

Tokens are viable if more tokens can complete a tree (`Token.Viable`). Every shape of a builder
can be completed (`Shape.run_completion`), so tokens are viable as long as none of them is
refused, and a problem lies at the first token behind which they are not, or at the end
(`TokenStream.fits_of_readTree`).
-/

namespace YangFormatter

namespace Token

/-- Some tokens are those of a tree. -/
def Accepted (tokens : List Token) : Prop :=
  ∃ stop nodes, (TokenStream.readTree ⟨tokens, none, stop⟩).1 = .ok nodes

/-- Some tokens are the first of a tree. -/
def Viable (tokens : List Token) : Prop :=
  ∃ more, Accepted (tokens ++ more)

/-- Nothing but closing braces is missing behind some tokens. -/
def Closable (tokens : List Token) : Prop :=
  ∃ braces, (∀ brace ∈ braces, brace.kind = .closeBlock) ∧ Accepted (tokens ++ braces)

/-- A token is the first of some that cannot stand where it stands. -/
def Offends (tokens : List Token) (token : Token) : Prop :=
  ∃ before after, tokens = before ++ token :: after ∧ Viable before ∧ ¬ Viable (before ++ [token])

end Token

open Token

/-- A problem says what is wrong with some tokens of a text that ends at `stop`: a token cannot
stand where it stands, a statement is not complete, or only closing braces are missing. -/
def Problem.Fits (tokens : List Token) (stop : Nat) (problem : Problem) : Prop :=
  match problem.cause with
  | .unexpectedToken found _ =>
      ∃ token, Offends tokens token ∧ problem.position = token.start ∧ found = token.text
  | .invalidConcatenation | .unexpectedClosingBrace =>
      ∃ token, Offends tokens token ∧ problem.position = token.start
  | .unexpectedEnd =>
      problem.position = stop ∧ ¬ Closable tokens ∧ ∃ before part more,
        tokens = before ++ part ∧ part ≠ [] ∧ Closable before ∧
          Grammar.Statement ((part ++ more).map (·.kind)) ∧ Closable (tokens ++ more)
  | .unclosedBlock =>
      Closable tokens ∧ ∃ token, (landmarks .between tokens).getLast? = some token ∧
        problem.position = token.start
  | .unterminatedString | .unterminatedComment | .unexpectedCharacter _ | .stated _ _ => False

/-! ## Completions -/

/-- What a heading lacks that has been read up to a phase. -/
def HeaderPhase.lacks : HeaderPhase → List TokenKind
  | .start => [.other]
  | .plus => [.string]
  | .keyword | .string | .value | .fragment => []

/-- What a header lacks completes its heading. -/
theorem HeaderPhase.remainder_lacks (phase : HeaderPhase) :
    Grammar.Remainder phase phase.lacks := by
  have further : Grammar.Further [] := ⟨[], [], .nil, .inl rfl, rfl⟩
  cases phase with
  | start | keyword => exact .bare .nil
  | string | fragment => exact further
  | value => exact Grammar.Trivia.nil
  | plus => exact further.joined

namespace Shape

/-- What completes a tree that has a shape. -/
def completion (shape : Shape) : List TokenKind :=
  shape.header.elim [] (fun phase => phase.lacks ++ [.semicolon]) ++
    List.replicate shape.depth .closeBlock

/-- What a header lacks, and a semicolon, lead out of it. -/
theorem run_lacks (depth : Nat) (phase : HeaderPhase) :
    run ⟨depth, some phase⟩ (phase.lacks ++ [.semicolon]) = some ⟨depth, none⟩ := by
  cases phase <;> rfl

/-- Closing braces lead out of the open blocks. -/
theorem run_braces (depth : Nat) :
    run ⟨depth, none⟩ (List.replicate depth .closeBlock) = some ⟨0, none⟩ := by
  induction depth with
  | zero => rfl
  | succ depth ih =>
      rw [List.replicate_succ, Grammar.run_cons rfl]
      exact ih

/-- Every shape can be completed. -/
theorem run_completion (shape : Shape) : shape.run shape.completion = some ⟨0, none⟩ := by
  obtain ⟨depth, _ | phase⟩ := shape
  · exact run_braces depth
  · rw [completion, Option.elim_some, Grammar.run_append (run_lacks depth phase)]
    exact run_braces depth

/-- Closing braces do not end a header. -/
theorem run_header_braces {depth : Nat} {phase : HeaderPhase} {kinds : List TokenKind}
    (braces : ∀ kind ∈ kinds, kind = .closeBlock) :
    run ⟨depth, some phase⟩ kinds ≠ some ⟨0, none⟩ := by
  induction kinds generalizing phase with
  | nil =>
      intro same
      cases same
  | cons kind kinds ih =>
      obtain ⟨rfl, others⟩ := List.forall_mem_cons.mp braces
      cases phase with
      | keyword => exact ih others
      | start | string | value | fragment | plus =>
          intro same
          cases same

/-- Nothing can go on behind a token that is refused. -/
theorem run_append_eq_none {shape : Shape} {kinds : List TokenKind}
    (refused : shape.run kinds = none) (more : List TokenKind) :
    shape.run (kinds ++ more) = none := by
  rw [run] at refused
  rw [run, List.foldlM_append, refused]
  rfl

end Shape

/-- A token leads into a heading if it is a keyword, or goes on with a heading. -/
theorem Shape.step_into_heading {shape : Shape} {kind : TokenKind} {depth : Nat}
    {phase : HeaderPhase} (moved : shape.step kind = some ⟨depth, some phase⟩) :
    shape = ⟨depth, none⟩ ∧ kind = .other ∧ phase = .keyword ∨
      ∃ earlier : HeaderPhase, shape = ⟨depth, some earlier⟩ ∧ earlier.step kind = .more phase := by
  obtain ⟨depth', _ | earlier⟩ := shape
  · cases kind with
    | other =>
        cases moved
        exact .inl ⟨rfl, rfl, rfl⟩
    | closeBlock => cases depth' <;> cases moved
    | whitespace | lineBreak | comment | string | number | date | semicolon | plus | openBlock =>
        cases moved
  · have own : after depth' (earlier.step kind) = some ⟨depth, some phase⟩ := moved
    cases step : earlier.step kind with
    | more next =>
        rw [step] at own
        cases own
        exact .inr ⟨earlier, rfl, step⟩
    | finished opens =>
        rw [step] at own
        cases own
    | refused =>
        rw [step] at own
        cases own

/-- A heading that has been read up to a phase begins where no other is open. -/
theorem Grammar.exists_heading_of_run {kinds : List TokenKind} {depth : Nat} {phase : HeaderPhase}
    (ran : Shape.run ⟨0, none⟩ kinds = some ⟨depth, some phase⟩) :
    ∃ before part, kinds = before ++ part ∧ part ≠ [] ∧
      Shape.run ⟨0, none⟩ before = some ⟨depth, none⟩ ∧
      ∀ more, Remainder phase more → Heading (part ++ more) := by
  -- The last token is either the keyword or goes on with a heading that began before it.
  induction kinds using List.reverseRecOn generalizing phase with
  | nil => cases ran
  | append_singleton kinds kind ih =>
      rw [Shape.run, List.foldlM_append] at ran
      obtain ⟨shape, earlier, moved⟩ := Option.bind_eq_some_iff.mp ran
      rw [List.foldlM_cons] at moved
      obtain ⟨last, stepped, same⟩ := Option.bind_eq_some_iff.mp moved
      cases same
      rcases Shape.step_into_heading stepped with ⟨rfl, rfl, rfl⟩ | ⟨earlierPhase, rfl, goesOn⟩
      · exact ⟨kinds, [.other], rfl, List.cons_ne_nil _ _, earlier, fun _ heads => heads⟩
      · obtain ⟨before, part, rfl, _, boundary, heads⟩ := ih earlier
        refine ⟨before, part ++ [kind], List.append_assoc _ _ _, ?_, boundary, ?_⟩
        · exact List.append_ne_nil_of_right_ne_nil _ (List.cons_ne_nil _ _)
        · intro more remainder
          rw [List.append_assoc]
          exact heads _ (remainder.cons goesOn)

namespace Token

/-! ## Viable tokens -/

/-- Tokens are accepted exactly if they lead back to no open block. -/
theorem accepted_iff {tokens : List Token} :
    Accepted tokens ↔ Shape.run ⟨0, none⟩ (tokens.map (·.kind)) = some ⟨0, none⟩ := by
  have reads : ∀ stop nodes, (TokenStream.readTree ⟨tokens, none, stop⟩).1 = .ok nodes ↔
      TreeBuilder.Completes {} (tokens.map Token.toLexeme) nodes := by
    intro stop nodes
    refine Iff.trans ?_ (TreeBuilder.completes_iff_run {} tokens stop nodes).symm
    unfold TokenStream.readTree
    cases TreeBuilder.run {} tokens <;> simp
  have kinds : (tokens.map Token.toLexeme).map Lexeme.kind = tokens.map (·.kind) := List.map_map
  rw [← kinds]
  refine Iff.trans ?_ (TreeBuilder.completes_iff_shape {} _)
  simp only [Accepted, reads, exists_const]

/-- Some token of a kind. -/
def ofKind (kind : TokenKind) : Token :=
  { kind, text := [], span := .point 0 }

theorem map_kind_ofKind (kinds : List TokenKind) : (kinds.map ofKind).map (·.kind) = kinds := by
  rw [List.map_map]
  exact List.map_id kinds

/-- Tokens that lead to between statements can be closed. -/
theorem closable_of_run {tokens : List Token} {depth : Nat}
    (ran : Shape.run ⟨0, none⟩ (tokens.map (·.kind)) = some ⟨depth, none⟩) : Closable tokens := by
  refine ⟨(List.replicate depth .closeBlock).map ofKind, ?_, ?_⟩
  · intro brace member
    obtain ⟨kind, braces, rfl⟩ := List.mem_map.mp member
    exact List.eq_of_mem_replicate braces
  · rw [accepted_iff, List.map_append, map_kind_ofKind, Grammar.run_append ran]
    exact Shape.run_braces depth

/-- Tokens that lead into a header cannot be closed. -/
theorem not_closable_of_run {tokens : List Token} {depth : Nat} {phase : HeaderPhase}
    (ran : Shape.run ⟨0, none⟩ (tokens.map (·.kind)) = some ⟨depth, some phase⟩) :
    ¬ Closable tokens := by
  intro closable
  obtain ⟨braces, closing, accepted⟩ := closable
  rw [accepted_iff, List.map_append, Grammar.run_append ran] at accepted
  exact Shape.run_header_braces (List.forall_mem_map.mpr closing) accepted

/-- Tokens that lead anywhere can be gone on with. -/
theorem viable_of_run {tokens : List Token} {shape : Shape}
    (ran : Shape.run ⟨0, none⟩ (tokens.map (·.kind)) = some shape) : Viable tokens := by
  refine ⟨shape.completion.map ofKind, ?_⟩
  rw [accepted_iff, List.map_append, map_kind_ofKind, Grammar.run_append ran]
  exact shape.run_completion

/-- Tokens that lead nowhere cannot be gone on with. -/
theorem not_viable_of_run {tokens : List Token}
    (refused : Shape.run ⟨0, none⟩ (tokens.map (·.kind)) = none) : ¬ Viable tokens := by
  intro viable
  obtain ⟨more, accepted⟩ := viable
  rw [accepted_iff, List.map_append, Shape.run_append_eq_none refused] at accepted
  cases accepted

end Token

/-! ## Refused tokens -/

/-- A header refuses a token for what it is, or because a plus sign joins it to no string. -/
theorem HeaderState.cause_of_refused {state : HeaderState} {lexeme : Lexeme} {cause : Cause}
    (refused : state.step lexeme = .refused cause) :
    cause = .invalidConcatenation ∨ ∃ context, cause = .unexpectedToken lexeme.text context := by
  obtain ⟨kind, text⟩ := lexeme
  cases state with
  | plus => cases kind <;> cases refused <;> exact .inl rfl
  | start | keyword | fragment => cases kind <;> cases refused <;> exact .inr ⟨_, rfl⟩
  | value word keywordComments given comments =>
      cases kind with
      | plus =>
          cases given <;> cases refused <;> exact .inl rfl
      | whitespace | lineBreak | comment | string | number | date | other | semicolon | openBlock
      | closeBlock => cases refused <;> exact .inr ⟨_, rfl⟩

namespace TreeBuilder

/-- A step that a builder cannot go on with is a refusal. -/
private theorem refused_of_afterStep {builder : TreeBuilder} {step : HeaderStep} {cause : Cause}
    (stopped : builder.afterStep step = .error cause) : step = .refused cause := by
  cases step with
  | more | finished => cases stopped
  | refused reason =>
      cases stopped
      rfl

/-- Between statements a token is refused as a brace that closes nothing, or for what it is. -/
private theorem cause_of_stepBetween {builder : TreeBuilder} {afterBreak : Bool} {token : Token}
    {cause : Cause} (refused : builder.stepBetween afterBreak token = .error cause) :
    cause = .unexpectedClosingBrace ∨ ∃ context, cause = .unexpectedToken token.text context := by
  obtain ⟨⟨kind, text⟩, span⟩ := token
  cases kind with
  | closeBlock =>
      obtain ⟨blocks, siblings, place, lastStart⟩ := builder
      cases blocks <;> cases refused
      exact .inl rfl
  | whitespace | lineBreak | comment | other => cases refused
  | string | number | date | semicolon | plus | openBlock =>
      cases refused
      exact .inr ⟨_, rfl⟩

/-- The causes for which a token can be refused. -/
theorem cause_of_step {builder : TreeBuilder} {token : Token} {cause : Cause}
    (refused : builder.step token = .error cause) :
    cause = .unexpectedClosingBrace ∨ cause = .invalidConcatenation ∨
      ∃ context, cause = .unexpectedToken token.text context := by
  obtain ⟨blocks, siblings, place, lastStart⟩ := builder
  cases place with
  | between afterBreak => exact (cause_of_stepBetween refused).imp_right .inr
  | inHeader state =>
      exact .inr (HeaderState.cause_of_refused (refused_of_afterStep refused))
  | afterHeader header opens =>
      by_cases space : token.kind = .whitespace
      · obtain ⟨⟨kind, text⟩, span⟩ := token
        cases space
        cases refused
      by_cases comment : token.kind = .comment
      · obtain ⟨⟨kind, text⟩, span⟩ := token
        cases comment
        cases refused
      · rw [step_afterHeader space comment] at refused
        exact (cause_of_stepBetween refused).imp_right .inr

/-- Where a builder stands after a token can be told from where it stood before. -/
theorem shape_step (builder : TreeBuilder) (token : Token) :
    (builder.step token).toOption.map shape = builder.shape.step token.kind := by
  have unplaced_shape : ∀ builder : TreeBuilder, builder.unplaced.shape = builder.shape :=
    fun _ => rfl
  have moved := step_unplaced builder token
  rw [← unplaced_shape, ← shape_read builder.unplaced token.toLexeme, ← moved]
  cases builder.step token <;> rfl

/-- Where a builder stands after some tokens can be told from where it stood before. -/
theorem shape_run {builder final : TreeBuilder} {tokens : List Token}
    (ran : builder.run tokens = .ok final) :
    builder.shape.run (tokens.map (·.kind)) = some final.shape := by
  induction tokens generalizing builder with
  | nil =>
      cases ran
      rfl
  | cons token tokens ih =>
      rw [run] at ran
      split at ran
      next next moved =>
        have own := shape_step builder token
        rw [moved] at own
        rw [List.map_cons, Grammar.run_cons own.symm]
        exact ih ran
      next => cases ran

/-- A builder that refuses a token has read those before it. -/
theorem exists_refused {builder : TreeBuilder} {tokens rest : List Token} {problem : Problem}
    (refused : builder.run tokens = .error (problem, rest)) :
    ∃ before token after last, tokens = before ++ token :: after ∧ builder.run before = .ok last ∧
      last.step token = .error problem.cause ∧ problem.position = token.start := by
  induction tokens generalizing builder with
  | nil => cases refused
  | cons token tokens ih =>
      rw [run] at refused
      split at refused
      next next moved =>
        obtain ⟨before, other, after, last, rfl, ran, stopped, start⟩ := ih refused
        refine ⟨token :: before, other, after, last, rfl, ?_, stopped, start⟩
        rw [run, moved]
        exact ran
      next cause stopped =>
        cases refused
        exact ⟨[], token, tokens, builder, rfl, rfl, stopped, rfl⟩

/-- At the end a builder has a problem only with an open block or in a header. -/
theorem problem_of_finish {builder : TreeBuilder} {stop : Nat} {problem : Problem}
    (refused : builder.finish stop = .error problem) :
    (∃ depth, builder.shape = ⟨depth + 1, none⟩ ∧
        problem = ⟨.unclosedBlock, builder.lastStart⟩) ∨
      ∃ depth phase, builder.shape = ⟨depth, some phase⟩ ∧ problem = ⟨.unexpectedEnd, stop⟩ := by
  have unclosed : ∀ inner : TreeBuilder, inner.close = .error problem →
      ∃ depth, inner.blocks.length = depth + 1 ∧ problem = ⟨.unclosedBlock, inner.lastStart⟩ := by
    intro inner refused
    obtain ⟨_ | ⟨block, outer⟩, siblings, place, lastStart⟩ := inner <;> cases refused
    exact ⟨outer.length, rfl, rfl⟩
  obtain ⟨blocks, siblings, place, lastStart⟩ := builder
  cases place with
  | between afterBreak =>
      obtain ⟨depth, inside, rfl⟩ := unclosed _ refused
      exact .inl ⟨depth, congrArg (Shape.mk · none) inside, rfl⟩
  | inHeader state =>
      cases refused
      exact .inr ⟨_, _, rfl, rfl⟩
  | afterHeader header opens =>
      obtain ⟨depth, inside, rfl⟩ := unclosed _ refused
      refine .inl ⟨depth, congrArg (Shape.mk · none) ?_, ?_⟩
      · cases opens <;> exact inside
      · cases opens <;> rfl

end TreeBuilder

/-! ## Problems -/

/-- A builder refuses a token only if the tokens before it are viable and those up to it are
not. -/
theorem Token.offends_of_refused {before : List Token} {token : Token} {last : TreeBuilder}
    {cause : Cause} (ran : TreeBuilder.run {} before = .ok last)
    (refused : last.step token = .error cause) (after : List Token) :
    Offends (before ++ token :: after) token := by
  have reached : Shape.run ⟨0, none⟩ (before.map (·.kind)) = _ := TreeBuilder.shape_run ran
  have stuck := TreeBuilder.shape_step last token
  rw [refused] at stuck
  refine ⟨before, after, rfl, viable_of_run reached, not_viable_of_run ?_⟩
  rw [List.map_append, Grammar.run_append reached]
  exact congrArg (Option.bind · _) stuck.symm

/-- In an open block only closing braces are missing, and some landmark has been met: the first
token at the latest. -/
theorem Problem.fits_unclosedBlock {tokens : List Token} {final : TreeBuilder} {depth : Nat}
    (ran : TreeBuilder.run {} tokens = .ok final) (inside : final.shape = ⟨depth + 1, none⟩)
    (stop : Nat) : Fits tokens stop ⟨.unclosedBlock, final.lastStart⟩ := by
  have reached : Shape.run ⟨0, none⟩ (tokens.map (·.kind)) = _ := TreeBuilder.shape_run ran
  have start := TreeBuilder.lastStart_run ran
  rw [inside] at reached
  refine ⟨closable_of_run reached, ?_⟩
  cases tokens with
  | nil => cases reached
  | cons token tokens =>
      have landmark : (landmarks .between (token :: tokens)).getLast?.isSome :=
        List.getLast?_isSome.mpr (List.cons_ne_nil _ _)
      obtain ⟨last, found⟩ := Option.isSome_iff_exists.mp landmark
      refine ⟨last, found, ?_⟩
      rw [start]
      exact congrArg (fun last => (last.map Token.start).getD 0) found

/-- In a header the statement can be completed. -/
theorem Problem.fits_unexpectedEnd {tokens : List Token} {final : TreeBuilder} {depth : Nat}
    {phase : HeaderPhase} (ran : TreeBuilder.run {} tokens = .ok final)
    (inside : final.shape = ⟨depth, some phase⟩) (stop : Nat) :
    Fits tokens stop ⟨.unexpectedEnd, stop⟩ := by
  have reached : Shape.run ⟨0, none⟩ (tokens.map (·.kind)) = _ := TreeBuilder.shape_run ran
  rw [inside] at reached
  obtain ⟨outer, heading, split, begun, boundary, heads⟩ := Grammar.exists_heading_of_run reached
  obtain ⟨before, part, rfl, rfl, rfl⟩ := List.map_eq_append_iff.mp split
  let more := (phase.lacks ++ [TokenKind.semicolon]).map ofKind
  have completed : Shape.run ⟨0, none⟩ ((before ++ part ++ more).map (·.kind)) =
      some ⟨depth, none⟩ := by
    rw [List.map_append, map_kind_ofKind, Grammar.run_append reached]
    exact Shape.run_lacks depth phase
  refine ⟨rfl, not_closable_of_run reached, before, part, more, rfl, ?_,
    closable_of_run boundary, ?_, closable_of_run completed⟩
  · exact fun atStart => begun (congrArg _ atStart)
  · rw [List.map_append, map_kind_ofKind, ← List.append_assoc]
    exact .intro (heads _ phase.remainder_lacks) .semicolon

/-- A problem with tokens that no fault of the lexer cuts short says what is wrong with them,
and where. -/
theorem TokenStream.fits_of_readTree {tokens : List Token} {stop : Nat} {problem : Problem}
    (refused : (TokenStream.readTree ⟨tokens, none, stop⟩).1 = .error problem) :
    problem.Fits tokens stop := by
  unfold TokenStream.readTree at refused
  split at refused
  next _ rest stopped =>
    cases refused
    obtain ⟨before, token, after, last, rfl, ran, stuck, start⟩ :=
      TreeBuilder.exists_refused stopped
    have offends := Token.offends_of_refused ran stuck after
    obtain ⟨cause, position⟩ := problem
    rcases TreeBuilder.cause_of_step stuck with rfl | rfl | ⟨context, rfl⟩
    · exact ⟨token, offends, start⟩
    · exact ⟨token, offends, start⟩
    · exact ⟨token, offends, start, rfl⟩
  next final ran =>
    rcases TreeBuilder.problem_of_finish refused with
      ⟨depth, inside, rfl⟩ | ⟨depth, phase, inside, rfl⟩
    · exact Problem.fits_unclosedBlock ran inside stop
    · exact Problem.fits_unexpectedEnd ran inside stop

/-- A closing brace as a value, and a plus sign that joins it to no string. -/
theorem TokenStream.fits_of_readTree_plus :
    Problem.Fits
      [place 0 ⟨.other, "a".toList⟩, place 1 ⟨.whitespace, " ".toList⟩,
        place 2 ⟨.closeBlock, "\x7d".toList⟩, place 3 ⟨.plus, "+".toList⟩] 4
      ⟨.invalidConcatenation, 3⟩ :=
  fits_of_readTree rfl

end YangFormatter
