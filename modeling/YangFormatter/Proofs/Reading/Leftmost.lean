import YangFormatter.Proofs.Reading.Viability
import YangFormatter.Proofs.Token.Coverage

/-! # The leftmost fault

Tokens are read one by one as the lexer yields them, so a problem with the tokens and a fault
of the lexer compete. Whichever lies further to the left is reported: a text that cannot be
split into tokens has the fault of the lexer as its problem exactly if the tokens before it
are viable, and else a problem with one of these tokens. All problems lie within the text
(`Text.parse_leftmost`).
-/

namespace YangFormatter

open Token

/-- A text that is not empty has at least one byte. -/
theorem Utf8.length_pos {text : Text} (nonempty : text ≠ []) : 0 < length text := by
  obtain ⟨first, rest, rfl⟩ := List.exists_cons_of_ne_nil nonempty
  rw [length_cons]
  exact Nat.add_pos_left (Char.utf8Size_pos first) _

namespace Token

/-- Tokens side by side do not end before they start. -/
theorem Tile.start_le_stop {start stop : Nat} {tokens : List Token}
    (tile : Tile start tokens stop) : start ≤ stop := by
  induction tokens generalizing start with
  | nil => exact Nat.le_of_eq tile
  | cons token tokens ih =>
      obtain ⟨_, rfl, _, others⟩ := tile
      exact Nat.le_trans token.span.start_le_stop (ih others)

/-- Tokens that are not empty start before the end of the last of them. -/
theorem Tile.start_lt_stop {start stop : Nat} {tokens : List Token} {token : Token}
    (tile : Tile start tokens stop) (member : token ∈ tokens) : token.start < stop := by
  induction tokens generalizing start with
  | nil => cases member
  | cons first tokens ih =>
      obtain ⟨nonempty, rfl, length, others⟩ := tile
      rcases List.mem_cons.mp member with rfl | further
      · have long := Utf8.length_pos nonempty
        have ends := others.start_le_stop
        rw [Token.start]
        rw [← length, Span.length] at long
        omega
      · exact ih others further

/-- Landmarks are some of the tokens. -/
theorem landmarks_sublist (region : Region) (tokens : List Token) :
    (landmarks region tokens).Sublist tokens := by
  induction tokens generalizing region with
  | nil => exact .slnil
  | cons token tokens ih =>
      rw [landmarks]
      split
      · exact (ih _).cons_cons token
      · exact (ih _).cons token

/-- A token that offends is one of the tokens. -/
theorem Offends.mem {tokens : List Token} {token : Token} (offends : Offends tokens token) :
    token ∈ tokens := by
  obtain ⟨before, after, rfl, _⟩ := offends
  exact List.mem_append_right _ List.mem_cons_self

/-- Tokens of which one offends cannot be gone on with. -/
theorem Offends.not_viable {tokens : List Token} {token : Token}
    (offends : Offends tokens token) : ¬ Viable tokens := by
  obtain ⟨before, after, rfl, _, stuck⟩ := offends
  intro viable
  obtain ⟨more, accepted⟩ := viable
  apply stuck
  refine ⟨after ++ more, ?_⟩
  rwa [List.append_assoc, List.cons_append] at accepted ⊢

end Token

/-- A problem lies with the first of some tokens that cannot stand where it stands. -/
def Problem.Blames (problem : Problem) (tokens : List Token) : Prop :=
  ∃ token, Offends tokens token ∧ problem.position = token.start ∧
    (problem.cause = .unexpectedClosingBrace ∨ problem.cause = .invalidConcatenation ∨
      ∃ context, problem.cause = .unexpectedToken token.text context)

/-- A problem that blames a token lies at its start. -/
theorem Problem.Blames.exists_start {problem : Problem} {tokens : List Token}
    (blames : problem.Blames tokens) : ∃ token ∈ tokens, problem.position = token.start := by
  obtain ⟨token, offends, start, _⟩ := blames
  exact ⟨token, offends.mem, start⟩

/-- Tokens of which one is blamed cannot be gone on with. -/
theorem Problem.Blames.not_viable {problem : Problem} {tokens : List Token}
    (blames : problem.Blames tokens) : ¬ Viable tokens := by
  obtain ⟨token, offends, _⟩ := blames
  exact offends.not_viable

/-- A builder that refuses a token blames it. -/
theorem Problem.blames_of_run {tokens rest : List Token} {problem : Problem}
    (refused : TreeBuilder.run {} tokens = .error (problem, rest)) : problem.Blames tokens := by
  obtain ⟨before, token, after, last, rfl, ran, stuck, start⟩ := TreeBuilder.exists_refused refused
  exact ⟨token, offends_of_refused ran stuck after, start, TreeBuilder.cause_of_step stuck⟩

namespace TokenStream

/-- The fault of a stream is met if the tokens before it are viable, and else a problem with
one of them. -/
theorem readTree_of_fault (tokens : List Token) (unread : Problem) (stop : Nat) :
    ∃ problem, (readTree ⟨tokens, some unread, stop⟩).1 = .error problem ∧
      (Viable tokens ∧ problem = unread ∨ ¬ Viable tokens ∧ problem.Blames tokens) := by
  unfold readTree
  cases ran : TreeBuilder.run {} tokens with
  | error refusal =>
      obtain ⟨problem, rest⟩ := refusal
      have blames := Problem.blames_of_run ran
      exact ⟨problem, rfl, .inr ⟨blames.not_viable, blames⟩⟩
  | ok final => exact ⟨unread, rfl, .inl ⟨viable_of_run (TreeBuilder.shape_run ran), rfl⟩⟩

/-- A problem lies with a token, at the fault of the stream, or at the end. -/
theorem position_of_readTree {stream : TokenStream} {problem : Problem}
    (refused : stream.readTree.1 = .error problem) :
    (∃ token ∈ stream.tokens, problem.position = token.start) ∨
      (∃ unread, stream.fault = some unread ∧ problem.position = unread.position) ∨
      problem.position = stream.stop := by
  obtain ⟨tokens, fault, stop⟩ := stream
  unfold readTree at refused
  split at refused
  next _ rest stopped =>
    cases refused
    exact .inl (Problem.blames_of_run stopped).exists_start
  next final ran =>
    cases fault with
    | some unread =>
        cases refused
        exact .inr (.inl ⟨_, rfl, rfl⟩)
    | none =>
        rcases TreeBuilder.problem_of_finish refused with
          ⟨depth, inside, rfl⟩ | ⟨_, _, _, rfl⟩
        · obtain ⟨_, token, last, start⟩ := Problem.fits_unclosedBlock ran inside stop
          have member := (landmarks_sublist _ _).subset (List.mem_of_getLast? last)
          exact .inl ⟨token, member, start⟩
        · exact .inr (.inr rfl)

/-- The problem of a text without tokens is the fault of its stream. -/
theorem tokenize_eq_error_iff {text : Text} {unread : Problem} :
    tokenize text = .error unread ↔ (ofText text).fault = some unread := by
  unfold tokenize drain
  cases (ofText text).fault <;> simp

/-- Where the tokens of a text end, and where they are cut short by a fault. -/
theorem exists_tile_ofText (text : Text) :
    ∃ stop ≤ Utf8.length text, Token.Tile 0 (ofText text).tokens stop ∧
      ∀ unread, (ofText text).fault = some unread → unread.position = stop := by
  obtain ⟨rest, spelled, tiled, ends⟩ := tile_scan 0 text
  rw [Nat.zero_add] at tiled ends
  refine ⟨_, ?_, tiled, ?_⟩
  · rw [← congrArg Utf8.length spelled, Utf8.length_append]
    exact Nat.le_add_right _ _
  · intro unread fault
    rcases ends with ⟨noFault, _⟩ | ⟨cause, _, own⟩
    · cases noFault.symm.trans fault
    · cases own.symm.trans fault
      rfl

end TokenStream

open TokenStream

/-- A text that cannot be split into tokens has no tree. Its problem is the fault of the lexer
exactly if the tokens before that are viable; else it lies with the first of them that cannot
stand where it stands. Whatever problem a text has lies within it, at the start of a token, at
the fault of the lexer or at the end. -/
theorem Text.parse_leftmost (text : Text) :
    ∃ tokens fault, (ofText text).Yields tokens fault ∧
      (∀ unread, tokenize text = .error unread →
        fault = some unread ∧ ∃ problem, text.parse = .error problem ∧
          (problem = unread ↔ Viable tokens) ∧
          (problem ≠ unread → problem.Blames tokens ∧ problem.position < unread.position)) ∧
      ∀ problem, text.parse = .error problem →
        problem.position ≤ Utf8.length text ∧
          ((∃ token ∈ tokens, problem.position = token.start) ∨
            (∃ unread, tokenize text = .error unread ∧ problem.position = unread.position) ∨
            problem.position = Utf8.length text) := by
  obtain ⟨stop, within, tile, cut⟩ := exists_tile_ofText text
  refine ⟨_, _, yields_self (ofText text), ?_, ?_⟩
  · intro unread fails
    have fault := tokenize_eq_error_iff.mp fails
    obtain ⟨problem, refused, which⟩ :=
      readTree_of_fault (ofText text).tokens unread (ofText text).stop
    have parsed : text.parse = .error problem := by
      rw [← refused, ← fault]
      rfl
    refine ⟨fault, problem, parsed, ?_⟩
    rcases which with ⟨viable, same⟩ | ⟨stuck, blames⟩
    · exact ⟨iff_of_true same viable, fun other => (other same).elim⟩
    · -- The fault lies where the last token ends, behind the start of each token.
      obtain ⟨token, member, start⟩ := blames.exists_start
      have before : problem.position < unread.position := by
        rw [start, cut unread fault]
        exact tile.start_lt_stop member
      have other : problem ≠ unread := by
        intro same
        rw [same] at before
        exact Nat.lt_irrefl _ before
      exact ⟨iff_of_false other stuck, fun _ => ⟨blames, before⟩⟩
  · intro problem refused
    rcases position_of_readTree refused with ⟨token, member, start⟩ | ⟨unread, fault, same⟩ | ends
    · have inside := tile.start_lt_stop member
      exact ⟨by omega, .inl ⟨token, member, start⟩⟩
    · refine ⟨?_, .inr (.inl ⟨unread, tokenize_eq_error_iff.mpr fault, same⟩)⟩
      rw [same, cut unread fault]
      exact within
    · exact ⟨Nat.le_of_eq ends, .inr (.inr ends)⟩

/-- A plus sign behind a word, and behind that a string without an end. -/
theorem Text.parse_leftmost_plus :
    tokenize "é b + \"".toList = .error ⟨.unterminatedString, 7⟩ ∧
      Text.parse "é b + \"".toList = .error ⟨.invalidConcatenation, 5⟩ ∧
      ∃ tokens, (ofText "é b + \"".toList).Yields tokens (some ⟨.unterminatedString, 7⟩) ∧
        ¬ Viable tokens ∧ Problem.Blames ⟨.invalidConcatenation, 5⟩ tokens := by
  have fails : tokenize "é b + \"".toList = .error ⟨.unterminatedString, 7⟩ := by cbv
  have parsed : Text.parse "é b + \"".toList = .error ⟨.invalidConcatenation, 5⟩ := by cbv
  obtain ⟨tokens, _, yields, cut, _⟩ := Text.parse_leftmost "é b + \"".toList
  obtain ⟨rfl, problem, refused, same, blames⟩ := cut _ fails
  cases parsed.symm.trans refused
  have other : (⟨.invalidConcatenation, 5⟩ : Problem) ≠ ⟨.unterminatedString, 7⟩ := by decide
  exact ⟨fails, parsed, tokens, yields, fun viable => other (same.mpr viable), (blames other).1⟩

end YangFormatter
