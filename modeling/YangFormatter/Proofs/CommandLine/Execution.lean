import YangFormatter.CommandLine.Session
import YangFormatter.Proofs.Files.Workspace
import YangFormatter.Proofs.Format.Report
import YangFormatter.Proofs.Text.Utf8

/-! # Plans and what comes of them

A plan is summed up by what it prints, what it writes to files and how it ends, and
carrying it out comes to that (`Plan.carriesOut_execute`). Formatting handles its inputs in
order: those before the first that has a problem become text, and the settings decide what
is done with the text (`Plan.exists_course`).
-/

namespace YangFormatter.CommandLine

/-! ## Effects -/

namespace Effect

/-- What an effect writes to the output stream. -/
def output : Effect → Text
  | .print text _ => text
  | .note _ | .save _ _ => []

/-- What an effect writes to a file. -/
def write? : Effect → Option (Path × List UInt8)
  | .save path text => some (.ofText path, Utf8.encode text)
  | .note _ | .print _ _ => none

/-- Whether an effect needs the output stream. -/
def isPrint : Effect → Bool
  | .print _ _ => true
  | .note _ | .save _ _ => false

/-- Effects that show on the error stream alone. -/
def Silent (effects : List Effect) : Prop :=
  ∀ effect ∈ effects, ∃ line, effect = .note line

variable {effects : List Effect}

/-- Effects that are silent print nothing. -/
theorem Silent.output (silent : Silent effects) : effects.flatMap Effect.output = [] := by
  refine List.flatMap_eq_nil_iff.mpr fun effect member => ?_
  obtain ⟨line, rfl⟩ := silent effect member
  rfl

/-- Effects that are silent write nothing. -/
theorem Silent.writes (silent : Silent effects) : effects.filterMap write? = [] := by
  refine List.filterMap_eq_nil_iff.mpr fun effect member => ?_
  obtain ⟨line, rfl⟩ := silent effect member
  rfl

/-- Effects that are silent do not use the standard output. -/
theorem Silent.quiet (silent : Silent effects) : ∀ effect ∈ effects, effect.isPrint = false := by
  intro effect member
  obtain ⟨line, rfl⟩ := silent effect member
  rfl

end Effect

namespace Plan

/-- What a plan writes to the output stream. -/
def output (plan : Plan) : Text :=
  plan.effects.flatMap Effect.output

/-- What a plan writes to files. -/
def writes (plan : Plan) : List (Path × List UInt8) :=
  plan.effects.filterMap Effect.write?

/-- A plan does not need the output stream. -/
def Quiet (plan : Plan) : Prop :=
  ∀ effect ∈ plan.effects, effect.isPrint = false

/-- A plan with effects before it prints what they print first. -/
@[simp]
theorem output_after (effects : List Effect) (rest : Plan) :
    (after effects rest).output = effects.flatMap Effect.output ++ rest.output :=
  List.flatMap_append

/-- A plan with effects before it writes what they write first. -/
@[simp]
theorem writes_after (effects : List Effect) (rest : Plan) :
    (after effects rest).writes = effects.filterMap Effect.write? ++ rest.writes :=
  List.filterMap_append

/-- A quiet plan stays quiet with effects before it that do not print. -/
theorem Quiet.after {effects : List Effect} {rest : Plan}
    (first : ∀ effect ∈ effects, effect.isPrint = false) (others : rest.Quiet) :
    (after effects rest).Quiet :=
  List.forall_mem_append.mpr ⟨first, others⟩

end Plan

/-- The outcome of a plan that nothing fails in. -/
structure Outcome.CarriesOut (outcome : Outcome) (world : World) (plan : Plan) : Prop where
  ending : outcome.ending = plan.ending
  stdout : outcome.stdout = plan.output
  workspace : outcome.workspace = world.workspace.writeAll plan.writes

/-- A plan comes to what it says, if the output stream works or is not needed. -/
theorem Plan.carriesOut_execute {world : World} {plan : Plan}
    (clear : world.stdoutFault = none ∨ plan.Quiet) :
    (execute world plan.ending plan.effects).CarriesOut world plan := by
  obtain ⟨effects, ending⟩ := plan
  induction effects generalizing world with
  | nil => exact ⟨rfl, rfl, rfl⟩
  | cons effect effects ih =>
      have others : world.stdoutFault = none ∨ Plan.Quiet ⟨effects, ending⟩ :=
        clear.imp_right fun quiet => (List.forall_mem_cons.mp quiet).2
      cases effect with
      | note line =>
          have rest := ih others
          exact ⟨rest.ending, rest.stdout, rest.workspace⟩
      | save path text =>
          let saved := { world with
            workspace := world.workspace.write (.ofText path) (Utf8.encode text) }
          have rest := @ih saved others
          exact ⟨rest.ending, rest.stdout, rest.workspace⟩
      | print text guarded =>
          have works : world.stdoutFault = none :=
            clear.resolve_right fun quiet => nomatch quiet _ List.mem_cons_self
          have rest := ih others
          simp only [execute, works]
          exact ⟨rest.ending, congrArg (text ++ ·) rest.stdout, rest.workspace⟩

/-- A command line that is accepted comes to what the plan of its invocation says. -/
theorem carriesOut_run {arguments : List Text} {invocation : Invocation}
    (accepted : Invocation.ofArguments arguments = .ok invocation) {machine : Machine}
    {world : World} (clear : world.stdoutFault = none ∨ (invocation.plan machine world).Quiet) :
    (run machine world arguments).CarriesOut world (invocation.plan machine world) := by
  rw [run, accepted]
  exact Plan.carriesOut_execute clear

/-! ## Formatted inputs -/

/-- An input and the text that it is formatted to. -/
structure Formatted where
  /-- The input. -/
  input : Input
  /-- The formatted text. -/
  text : Text

namespace Formatted

/-- On a machine, the style formats the input to the text. -/
def By (machine : Machine) (style : Style) (formatted : Formatted) : Prop :=
  style.attemptFormat machine (.bytes formatted.input.bytes) = .ok formatted.text

/-- Whether the text is not what the input is already. -/
def changes (formatted : Formatted) : Bool :=
  Utf8.encode formatted.text != formatted.input.bytes

/-- The text in the place of the input. -/
def write (formatted : Formatted) : Path × List UInt8 :=
  (.ofText formatted.input.path, Utf8.encode formatted.text)

variable {machine : Machine} {style : Style} {formatted : Formatted}

/-- The report on an input that is formatted. -/
def report (formatted : Formatted) : Report :=
  ⟨(Source.bytes formatted.input.bytes).decodeLossy, formatted.text, []⟩

/-- The bytes of an input that is formatted are those of a text, and the machine affords its
tree. -/
theorem By.exists_source (own : formatted.By machine style) :
    ∃ source nodes, formatted.input.bytes = Utf8.encode source ∧ source.parse = .ok nodes ∧
      machine.Affords style nodes ∧ style.formatTree nodes = formatted.text := by
  obtain ⟨nodes, parsed, affords, text⟩ := Style.exists_parse_of_attemptFormat own
  obtain ⟨source, decoded, accepted⟩ := Source.exists_text_of_parse parsed
  refine ⟨source, nodes, ?_, accepted, affords, text⟩
  rw [Source.decode] at decoded
  cases read : Utf8.decode formatted.input.bytes with
  | error fault =>
      rw [read] at decoded
      cases decoded
  | ok text =>
      rw [read] at decoded
      cases decoded
      exact Utf8.decode_eq_ok_iff.mp read

/-- Comparing texts, as a report does, is comparing bytes. -/
theorem By.changed_report (own : formatted.By machine style) :
    formatted.report.changed = formatted.changes := by
  obtain ⟨source, _, bytes, _⟩ := own.exists_source
  have decoded : (Source.bytes formatted.input.bytes).decodeLossy = source := by
    rw [Source.decodeLossy, bytes, Utf8.decodeLossy_encode]
  rw [report, Report.changed, changes, decoded, bytes, Bool.eq_iff_iff, bne_iff_ne, bne_iff_ne,
    Utf8.encode_injective.ne_iff]

end Formatted

/-! ## Plans for formatting -/

/-- How formatting ends where some inputs are left: with a status after the last of them, or
at one that has a problem or that the machine has no room for. -/
inductive Ends (machine : Machine) (style : Style) (status : Nat) : List Input → Ending → Prop where
  | finished : Ends machine style status [] (.exit status)
  | refused {input : Input} {rest : List Input} {problem : Problem}
      (fails : (Source.bytes input.bytes).parse = .error problem) :
      Ends machine style status (input :: rest) (.exit 1)
  | blocked {input : Input} {rest : List Input} {failure : Failure}
      (lacks : failure.lacksRoom = true)
      (breaks : style.attemptFormat machine (.bytes input.bytes) = .error failure) :
      Ends machine style status (input :: rest) (.aborted (.formatting failure))

namespace Ends

variable {machine : Machine} {style : Style} {status : Nat} {rest : List Input} {ending : Ending}

/-- Formatting ends well exactly if nothing is left and no input was to be changed. -/
theorem exit_zero_iff (ends : Ends machine style status rest ending) :
    ending = .exit 0 ↔ rest = [] ∧ status = 0 := by
  cases ends with
  | finished => simp
  | refused | blocked => simp

/-- Formatting does not stop at an input that is formatted. -/
theorem eq_nil_of_forall (ends : Ends machine style status rest ending)
    (each : ∀ input ∈ rest, ∃ text, Formatted.By machine style ⟨input, text⟩) : rest = [] := by
  cases ends with
  | finished => rfl
  | refused fails =>
      obtain ⟨text, own⟩ := each _ List.mem_cons_self
      cases own.symm.trans (Style.attemptFormat_of_error fails style machine)
  | blocked _ breaks =>
      obtain ⟨text, own⟩ := each _ List.mem_cons_self
      cases own.symm.trans breaks

end Ends

namespace Plan

/-- What a plan for formatting some inputs comes to: `done` is what becomes of those before
the first that stops it, and `rest` are the others. -/
structure Course (machine : Machine) (settings : Settings) (style : Style) (wouldChange : Bool)
    (inputs : List Input) (plan : Plan) (done : List Formatted) (rest : List Input) : Prop where
  inputs_eq : inputs = done.map Formatted.input ++ rest
  formatted : ∀ formatted ∈ done, formatted.By machine style
  ends : Ends machine style
    (if wouldChange || settings.check && done.any Formatted.changes then 1 else 0) rest plan.ending
  output : plan.output =
    if settings.check || settings.inPlace then [] else done.flatMap Formatted.text
  writes : plan.writes =
    if !settings.check && settings.inPlace then (done.filter Formatted.changes).map Formatted.write
    else []
  quiet : (settings.check || settings.inPlace) = true → plan.Quiet

variable {machine : Machine} {settings : Settings} {style : Style} {wouldChange : Bool}
  {inputs rest : List Input} {plan : Plan} {done : List Formatted} {formatted : Formatted}

/-- What was formatted were inputs. -/
theorem Course.mem_inputs (course : Course machine settings style wouldChange inputs plan done rest)
    (member : formatted ∈ done) : formatted.input ∈ inputs := by
  rw [course.inputs_eq]
  exact List.mem_append_left _ (List.mem_map_of_mem member)

/-- What is left are inputs. -/
theorem Course.mem_inputs_of_mem_rest
    (course : Course machine settings style wouldChange inputs plan done rest) {input : Input}
    (member : input ∈ rest) : input ∈ inputs := by
  rw [course.inputs_eq]
  exact List.mem_append_right _ member

/-- A failure only reports. -/
theorem silent_failure (line : String) : Effect.Silent (failure line).effects := by
  intro effect member
  exact ⟨line, List.mem_singleton.mp member⟩

theorem silent_abort (cause : Abort) : Effect.Silent (abort cause).effects :=
  fun _ member => (List.not_mem_nil member).elim

/-- The log of an input is no output. -/
theorem silent_log (settings : Settings) (input : Input) :
    Effect.Silent (log settings input) := by
  intro effect member
  unfold log at member
  split at member
  · rcases List.mem_cons.mp member with rfl | second
    · exact ⟨_, rfl⟩
    · exact ⟨_, List.mem_singleton.mp second⟩
  · cases member

/-- Formatting stops where it stands. -/
private theorem Course.stop (silent : Effect.Silent plan.effects)
    (ends : Ends machine style (if wouldChange then 1 else 0) rest plan.ending) :
    Course machine settings style wouldChange rest plan [] rest := by
  refine ⟨rfl, fun _ member => (List.not_mem_nil member).elim, ?_, ?_, ?_, fun _ => silent.quiet⟩
  · rwa [List.any_nil, Bool.and_false, Bool.or_false]
  · rw [Plan.output, silent.output, List.flatMap_nil, ite_self]
  · rw [Plan.writes, silent.writes, List.filter_nil, List.map_nil, ite_self]

/-- What is logged does not show in what a plan comes to. -/
private theorem Course.log
    (course : Course machine settings style wouldChange inputs plan done rest) (input : Input) :
    Course machine settings style wouldChange inputs (after (Plan.log settings input) plan) done
      rest := by
  have silent := silent_log settings input
  refine { course with output := ?_, writes := ?_, quiet := fun still => ?_ }
  · rw [output_after, silent.output, List.nil_append, course.output]
  · rw [writes_after, silent.writes, List.nil_append, course.writes]
  · exact .after silent.quiet (course.quiet still)

/-- The text of an input is printed, written or only compared. -/
private theorem Course.deliver (own : formatted.By machine style)
    (course : Course machine settings style (wouldChange || settings.check && formatted.changes)
      inputs plan done rest) :
    Course machine settings style wouldChange (formatted.input :: inputs)
      (after (Plan.deliver settings formatted.input formatted.report) plan)
      (formatted :: done) rest := by
  have text : formatted.report.formattedText = formatted.text := rfl
  have changed := own.changed_report
  have status : (wouldChange || settings.check && (formatted :: done).any Formatted.changes) =
      (wouldChange || settings.check && formatted.changes
        || settings.check && done.any Formatted.changes) := by
    rw [List.any_cons, Bool.and_or_distrib_left, Bool.or_assoc]
  refine ⟨?_, List.forall_mem_cons.mpr ⟨own, course.formatted⟩, ?_, ?_, ?_, fun still => ?_⟩
  · rw [course.inputs_eq]
    rfl
  · rw [status]
    exact course.ends
  · rw [output_after, course.output, Plan.deliver, changed, text]
    cases settings.check <;> cases settings.inPlace <;> cases formatted.changes <;>
      simp [Effect.output]
  · rw [writes_after, course.writes, Plan.deliver, changed, text]
    cases settings.check <;> cases settings.inPlace <;> cases own : formatted.changes <;>
      simp [Effect.write?, Formatted.write, own]
  · refine .after (fun effect member => ?_) (course.quiet still)
    unfold Plan.deliver at member
    split_ifs at member with checks _ writes
    all_goals simp_all [Effect.isPrint]

/-- Formatting takes a course. Which inputs are formatted, and to which text, does not
depend on what is done with the texts. -/
theorem exists_course (machine : Machine) (style : Style) (inputs : List Input) :
    ∃ done rest, ∀ settings wouldChange, Course machine settings style wouldChange inputs
      (formatting machine settings style wouldChange inputs) done rest := by
  induction inputs with
  | nil =>
      refine ⟨[], [], fun settings wouldChange => .stop ?_ .finished⟩
      exact fun _ member => (List.not_mem_nil member).elim
  | cons input inputs ih =>
      cases parsed : (Source.bytes input.bytes).parse with
      | error problem =>
          obtain ⟨report, reported, own⟩ := Style.attemptReport_of_error parsed style machine
          obtain ⟨diagnostic, listed, _⟩ := own.diagnostics
          refine ⟨[], input :: inputs, fun settings wouldChange => ?_⟩
          simp only [formatting, reported, listed]
          exact (Course.stop (silent_failure _) (.refused parsed)).log input
      | ok nodes =>
          by_cases affords : machine.Affords style nodes
          · let formatted : Formatted := ⟨input, style.formatTree nodes⟩
            have own : formatted.By machine style := Style.attemptFormat_of_affords parsed affords
            have reported : style.attemptReport machine (.bytes input.bytes) =
                .ok formatted.report := Style.attemptReport_of_ok own
            have clean : formatted.report.diagnostics = [] := rfl
            obtain ⟨done, rest, course⟩ := ih
            refine ⟨formatted :: done, rest, fun settings wouldChange => ?_⟩
            simp only [formatting, reported, clean, own.changed_report]
            exact (Course.deliver own (course settings _)).log input
          · obtain ⟨failure, breaks, lacks⟩ := Style.exists_attemptFormat_eq_error parsed affords
            have reported := Style.attemptReport_of_lacksRoom breaks lacks
            refine ⟨[], input :: inputs, fun settings wouldChange => ?_⟩
            simp only [formatting, reported]
            exact (Course.stop (silent_abort _) (.blocked lacks breaks)).log input

end Plan

end YangFormatter.CommandLine
