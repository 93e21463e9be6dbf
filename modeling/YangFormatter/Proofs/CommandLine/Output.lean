import YangFormatter.Proofs.CommandLine.Effects
import YangFormatter.Proofs.Token.LexicalGrammar

/-! # An output stream that fails

Where nothing can be written to the output stream, a run ends with the first text that it
would write there (`execute_of_fault`). If that is formatted text, the failure is reported and
the run has a status; if it is a listing, the failure is the end of the run
(`run_stdoutFault`).
-/

namespace YangFormatter.CommandLine

/-- The line that an effect writes to the error stream. -/
def Effect.line? : Effect → Option String
  | .note line => some line
  | .print _ _ | .save _ _ => none

theorem Effect.silent_nil : Silent [] :=
  fun _ member => (List.not_mem_nil member).elim

/-- Whether a line reports an error. -/
def isErrorLine (line : String) : Bool :=
  "Error: ".toList.isPrefixOf line.toList

/-- A run has failed and reports that the output cannot be written, and no other error. -/
structure Outcome.ReportsFault (outcome : Outcome) (reason : String) : Prop where
  ending : outcome.ending = .exit 1
  stderr : ∃ lines, outcome.stderr = unlines lines ∧
    lines.filter isErrorLine = [writeErrorLine reason]

/-- Every line ends with a line feed. -/
theorem unlines_cons (line : String) (lines : List String) :
    unlines (line :: lines) = line ++ "\n" ++ unlines lines :=
  String.join_cons

/-- A run ends where it would first write to an output stream that fails. -/
theorem execute_of_fault {world : World} {reason : String}
    (broken : world.stdoutFault = some reason) (ending : Ending) {before : List Effect}
    (silent : Effect.Silent before) (text : Text) (guarded : Bool) (after : List Effect) :
    execute world ending (before ++ .print text guarded :: after) =
      { ending := if guarded then .exit 1 else .aborted (.output reason)
        stdout := []
        stderr := unlines
          (before.filterMap Effect.line? ++ if guarded then [writeErrorLine reason] else [])
        workspace := world.workspace } := by
  induction before with
  | nil => cases guarded <;> simp [execute, broken, unlines]
  | cons effect before ih =>
      obtain ⟨⟨line, rfl⟩, others⟩ := List.forall_mem_cons.mp silent
      rw [List.cons_append, execute, ih others, List.filterMap_cons]
      simp only [Effect.line?, List.cons_append, unlines_cons, Outcome.note]

/-! ## What is printed first -/

namespace Plan

/-- A plan writes to the output stream, after it has done some other things. -/
def Prints (plan : Plan) (before : List Effect) (guarded : Bool) : Prop :=
  ∃ text after, plan.effects = before ++ .print text guarded :: after

/-- A plan that prints is not quiet. -/
theorem Prints.not_quiet {plan : Plan} {before : List Effect} {guarded : Bool}
    (prints : plan.Prints before guarded) : ¬ plan.Quiet := by
  intro quiet
  obtain ⟨text, after, effects⟩ := prints
  have unneeded := quiet (.print text guarded)
  rw [effects] at unneeded
  cases unneeded (List.mem_append_right _ List.mem_cons_self)

variable {machine : Machine} {settings : Settings} {style : Style} {wouldChange : Bool}
  {input : Input} {inputs : List Input}

/-- A listing of an input that can be described is printed. -/
theorem prints_listing {describe : Source → Except Failure Text} {text : Text}
    (described : describe (.bytes input.bytes) = .ok text) :
    (listing describe (input :: inputs)).Prints [] false := by
  simp only [listing, described]
  exact ⟨text, _, rfl⟩

/-- A listing is printed, or nothing is. -/
theorem quiet_or_prints_listing (describe : Source → Except Failure Text) (inputs : List Input) :
    (listing describe inputs).Quiet ∨ (listing describe inputs).Prints [] false := by
  cases inputs with
  | nil => exact .inl Effect.silent_nil.quiet
  | cons input inputs =>
      cases described : describe (.bytes input.bytes) with
      | ok text => exact .inr (prints_listing described)
      | error failure =>
          cases failure with
          | problem problem =>
              simp only [listing, described]
              exact .inl (silent_failure _).quiet
          | flaw | obstacle | span =>
              simp only [listing, described]
              exact .inl (silent_abort _).quiet

/-- A run that checks or writes in place prints nothing, however far it gets. -/
theorem quiet_formatting_of_apart (apart : (settings.check || settings.inPlace) = true) :
    (formatting machine settings style wouldChange inputs).Quiet := by
  obtain ⟨done, rest, courses⟩ := exists_course machine style inputs
  exact (courses settings wouldChange).quiet apart

/-- Nothing is printed if the machine has no room for the first input. -/
theorem quiet_formatting_of_not_affords {nodes : List Node}
    (parsed : (Source.bytes input.bytes).parse = .ok nodes)
    (lacks : ¬ machine.Affords style nodes) :
    (formatting machine settings style wouldChange (input :: inputs)).Quiet := by
  obtain ⟨failure, breaks, lack⟩ := Style.exists_attemptFormat_eq_error parsed lacks
  simp only [formatting, Style.attemptReport_of_lacksRoom breaks lack]
  exact .after (silent_log settings input).quiet (silent_abort _).quiet

/-- Nothing is printed if the first input has a problem. -/
theorem quiet_formatting_of_error {problem : Problem}
    (fails : (Source.bytes input.bytes).parse = .error problem) :
    (formatting machine settings style wouldChange (input :: inputs)).Quiet := by
  obtain ⟨report, reported, own⟩ := Style.attemptReport_of_error fails style machine
  obtain ⟨diagnostic, listed, _⟩ := own.diagnostics
  simp only [formatting, reported, listed]
  exact .after (silent_log settings input).quiet (silent_failure _).quiet

/-- The text of the first input is printed if the machine has room for it. -/
theorem prints_formatting {nodes : List Node} (unchecked : settings.check = false)
    (printed : settings.inPlace = false)
    (parsed : (Source.bytes input.bytes).parse = .ok nodes)
    (affords : machine.Affords style nodes) :
    (formatting machine settings style wouldChange (input :: inputs)).Prints
      (log settings input) true := by
  have reported := Style.attemptReport_of_ok (Style.attemptFormat_of_affords parsed affords)
  simp only [formatting, reported, deliver, unchecked, printed]
  exact ⟨_, _, rfl⟩

/-- The text of an input is printed, or nothing is. -/
theorem quiet_or_prints_formatting (machine : Machine) (settings : Settings) (style : Style)
    (wouldChange : Bool) (inputs : List Input) :
    (formatting machine settings style wouldChange inputs).Quiet ∨
      ∃ input, (formatting machine settings style wouldChange inputs).Prints
        (log settings input) true := by
  by_cases apart : (settings.check || settings.inPlace) = true
  · exact .inl (quiet_formatting_of_apart apart)
  rw [Bool.or_eq_true, not_or, Bool.not_eq_true, Bool.not_eq_true] at apart
  cases inputs with
  | nil => exact .inl Effect.silent_nil.quiet
  | cons input inputs =>
      cases parsed : (Source.bytes input.bytes).parse with
      | error problem => exact .inl (quiet_formatting_of_error parsed)
      | ok nodes =>
          by_cases affords : machine.Affords style nodes
          · exact .inr ⟨input, prints_formatting apart.1 apart.2 parsed affords⟩
          · exact .inl (quiet_formatting_of_not_affords parsed affords)

/-- Before formatted text at most its log is written, and before a listing nothing. -/
theorem quiet_or_prints_ofInputs (machine : Machine) (settings : Settings) (style : Style)
    (inputs : List Input) :
    (ofInputs machine settings style inputs).Quiet ∨
      if settings.showTokens || settings.showTree then
        (ofInputs machine settings style inputs).Prints [] false
      else
        ∃ input, (ofInputs machine settings style inputs).Prints (log settings input) true := by
  rw [ofInputs]
  cases settings.showTokens with
  | true => exact quiet_or_prints_listing tokenListing inputs
  | false =>
      cases settings.showTree with
      | true => exact quiet_or_prints_listing (treeListing machine) inputs
      | false => exact quiet_or_prints_formatting machine settings style false inputs

/-- A log reports no error. -/
theorem filter_isErrorLine_log (settings : Settings) (input : Input) :
    ((log settings input).filterMap Effect.line?).filter isErrorLine = [] := by
  unfold log
  split
  · simp [Effect.line?, isErrorLine, toString, List.cons_prefix_cons]
  · rfl

/-- A source that has a tree has tokens to be listed. -/
theorem exists_tokenListing {source : Source} {nodes : List Node}
    (parsed : source.parse = .ok nodes) : ∃ text, tokenListing source = .ok text := by
  obtain ⟨text, decoded, accepted⟩ := Source.exists_text_of_parse parsed
  obtain ⟨lexemes, lexes, _⟩ := Text.parse_eq_ok_iff.mp accepted
  obtain ⟨tokens, scanned, _⟩ := TokenStream.tokenize_iff_lexes.mpr lexes
  refine ⟨(TokenTable.render tokens).toList, ?_⟩
  rw [tokenListing, TokenStream.ofSource, decoded]
  change ((TokenStream.tokenize text).map _).mapError _ = _
  rw [scanned]
  rfl

/-- A tree that has been read can be shown where there are calls for its statements. -/
theorem treeListing_of_parse {source : Source} {nodes : List Node}
    (parsed : source.parse = .ok nodes) (machine : Machine) :
    treeListing machine source =
      if machine.carries (Node.tiers nodes) then .ok (Outline.render nodes)
      else .error (.obstacle .tooDeep) := by
  rw [treeListing, parsed]
  dsimp only
  rw [Outline.render?]
  cases machine.carries (Node.tiers nodes) <;> rfl

/-- The output stream is needed for every listing that can be made, and for formatted text that
is not written back or only compared. -/
theorem quiet_ofInputs_iff {first : Input} {others : List Input} {nodes : List Node}
    (parsed : (Source.bytes first.bytes).parse = .ok nodes) :
    (ofInputs machine settings style (first :: others)).Quiet ↔
      settings.showTokens = false ∧
        if settings.showTree then machine.carries (Node.tiers nodes) = false
        else settings.check = true ∨ settings.inPlace = true ∨ ¬ machine.Affords style nodes := by
  rw [ofInputs]
  cases settings.showTokens with
  | true =>
      obtain ⟨text, described⟩ := exists_tokenListing parsed
      refine iff_of_false (prints_listing described).not_quiet ?_
      intro unneeded
      cases unneeded.1
  | false =>
      refine Iff.trans ?_ (and_iff_right rfl).symm
      cases settings.showTree with
      | true =>
          have described := treeListing_of_parse parsed machine
          cases room : machine.carries (Node.tiers nodes) with
          | true =>
              rw [room] at described
              exact iff_of_false (prints_listing described).not_quiet Bool.true_eq_false.mp
          | false =>
              rw [room] at described
              refine iff_of_true ?_ rfl
              simp only [listing, described]
              exact (silent_abort _).quiet
      | false =>
          constructor
          · intro quiet
            by_contra needed
            rw [if_neg Bool.false_ne_true, not_or, not_or, Bool.not_eq_true, Bool.not_eq_true,
              not_not] at needed
            obtain ⟨unchecked, printed, affords⟩ := needed
            exact (prints_formatting unchecked printed parsed affords).not_quiet quiet
          · intro unneeded
            rcases unneeded with check | inPlace | lacks
            · exact quiet_formatting_of_apart (by rw [check, Bool.true_or])
            · exact quiet_formatting_of_apart (by rw [inPlace, Bool.or_true])
            · exact quiet_formatting_of_not_affords parsed lacks

end Plan

/-! ## Runs -/

/-- What a run comes to that would write to an output stream which fails: nothing is written
anywhere else. The failure is reported exactly if no listing is asked for, and a listing is the
end of the run. A run would write there unless it only checks or writes back, or the machine has
no room for its first input. -/
theorem run_stdoutFault {arguments : List Text} {invocation : Invocation}
    (accepted : Invocation.ofArguments arguments = .ok invocation) {machine : Machine}
    {world : World} {reason : String} (broken : world.stdoutFault = some reason) :
    let outcome := run machine world arguments
    let settings := invocation.settings
    (¬ (invocation.plan machine world).Quiet →
      outcome.stdout = [] ∧ outcome.workspace = world.workspace ∧
      (outcome.ReportsFault reason ↔ (settings.showTokens || settings.showTree) = false) ∧
      ((settings.showTokens || settings.showTree) = true →
        outcome.ending = .aborted (.output reason) ∧ outcome.stderr = "")) ∧
    ∀ style first others nodes, invocation.style = .ok style →
      readInputs world invocation.paths = .ok (first :: others) →
      (Source.bytes first.bytes).parse = .ok nodes →
      ((invocation.plan machine world).Quiet ↔ settings.showTokens = false ∧
        if settings.showTree then machine.carries (Node.tiers nodes) = false
        else settings.check = true ∨ settings.inPlace = true ∨
          ¬ machine.Affords style nodes) := by
  intro outcome settings
  constructor
  · intro needed
    -- A run that stops before its inputs are read prints nothing, so this one has a plan for them.
    have fit : ¬ invocation.Unfit world := fun unfit =>
      needed (Invocation.plan_of_unfit unfit).1.quiet
    obtain ⟨style, inputs, _, _, _, planned⟩ := Invocation.exists_inputs machine fit
    have ran : outcome = execute world (invocation.plan machine world).ending
        (invocation.plan machine world).effects := by
      change run machine world arguments = _
      rw [run, accepted]
      rfl
    rw [planned] at needed ran
    have prints := (Plan.quiet_or_prints_ofInputs machine settings style inputs).resolve_left needed
    split at prints
    next listing =>
      obtain ⟨text, after, effects⟩ := prints
      rw [effects, execute_of_fault broken _ Effect.silent_nil] at ran
      rw [ran, listing]
      refine ⟨rfl, rfl, iff_of_false ?_ Bool.true_eq_false.mp, fun _ => ⟨rfl, rfl⟩⟩
      intro reports
      cases reports.ending
    next plain =>
      obtain ⟨input, text, after, effects⟩ := prints
      rw [effects, execute_of_fault broken _ (Plan.silent_log settings input)] at ran
      rw [ran]
      refine ⟨rfl, rfl, iff_of_true ⟨rfl, _, rfl, ?_⟩ (Bool.not_eq_true _ ▸ plain),
        fun listing => (plain listing).elim⟩
      rw [List.filter_append, Plan.filter_isErrorLine_log]
      simp [isErrorLine, writeErrorLine, errorLine]
  · intro style first others nodes given read parsed
    rw [Invocation.plan_of_inputs given read]
    exact Plan.quiet_ofInputs_iff parsed

/-- A listing of tokens that cannot be written. -/
theorem run_stdoutFault_listing :
    let world : World :=
      { workspace := ⟨[(["u.yang".toList], .file (Utf8.encode "a b;".toList))]⟩
        stdoutFault := some "full" }
    let arguments := ["--lex".toList, "u.yang".toList]
    (run {} world arguments).ending = .aborted (.output "full") ∧
      ¬ (run {} world arguments).ReportsFault "full" := by
  intro world arguments
  have accepted : Invocation.ofArguments ["--lex".toList, "u.yang".toList] =
      .ok ⟨{ showTokens := true }, ["u.yang".toList]⟩ := by
    cbv
  have read : readInputs world ["u.yang".toList] =
      .ok [⟨"u.yang".toList, Utf8.encode "a b;".toList⟩] := rfl
  have parsed : (Source.bytes (Utf8.encode "a b;".toList)).parse =
      .ok [.leaf { keyword := ['a'], value := some (.other ['b']) }] := by
    rw [Source.parse, Source.decode, Utf8.decode_encode]
    cbv
  have broken : world.stdoutFault = some "full" := rfl
  obtain ⟨fails, needed⟩ := @run_stdoutFault _ _ accepted {} _ _ broken
  have loud : ¬ (Invocation.plan ⟨{ showTokens := true }, ["u.yang".toList]⟩ {} world).Quiet := by
    intro quiet
    cases ((needed {} _ _ _ rfl read parsed).mp quiet).1
  obtain ⟨_, _, reported, breaks⟩ := fails loud
  refine ⟨(breaks rfl).1, ?_⟩
  intro reports
  cases reported.mp reports

end YangFormatter.CommandLine
