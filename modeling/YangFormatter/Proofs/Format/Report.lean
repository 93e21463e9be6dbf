import YangFormatter.Proofs.Format.Attempt

/-! # Reports and writers

A source with a problem is reported on, and a source whose tree the machine affords is
formatted, reported on and written once. Where the machine lacks the room for a tree, formatting
breaks off for that reason, and so does the report, which tells of nothing but problems
(`Style.reports_and_writes`).
-/

namespace YangFormatter

variable {style : Style} {machine : Machine} {source : Source} {nodes : List Node}
  {problem : Problem}

/-! ## Reports -/

/-- A report that tells of a problem of a source and leaves its text as it is. -/
structure Report.OfProblem (report : Report) (source : Source) (problem : Problem) : Prop where
  hasErrors : report.hasErrors = true
  diagnostics : ∃ diagnostic, report.diagnostics = [diagnostic] ∧
    diagnostic.code = problem.cause.code ∧ diagnostic.message = problem.message ∧
      diagnostic.span = .point problem.position
  sourceText : report.sourceText = source.decodeLossy
  formattedText : report.formattedText = report.sourceText
  changed : report.changed = false

/-- A report that has the formatted text of a source and nothing to tell. -/
structure Report.OfText (report : Report) (source : Source) (text : Text) : Prop where
  hasErrors : report.hasErrors = false
  diagnostics : report.diagnostics = []
  sourceText : report.sourceText = source.decodeLossy
  formattedText : report.formattedText = text
  changed : report.changed = true ↔ report.formattedText ≠ report.sourceText

/-- A problem of a source is always reported. -/
theorem Style.attemptReport_of_error (failed : source.parse = .error problem) (style : Style)
    (machine : Machine) :
    ∃ report, style.attemptReport machine source = .ok report ∧
      report.OfProblem source problem := by
  refine ⟨⟨source.decodeLossy, source.decodeLossy, [problem.diagnostic]⟩, ?_, ?_⟩
  · rw [attemptReport, attemptFormat_of_error failed]
    dsimp only
    rw [problem.diagnosticAt_position]
  · exact
      { hasErrors := rfl
        diagnostics := ⟨problem.diagnostic, rfl, rfl, rfl, rfl⟩
        sourceText := rfl
        formattedText := rfl
        changed := by simp [Report.changed] }

/-- The report on a source that is formatted. -/
theorem Style.attemptReport_of_ok {text : Text}
    (formatted : style.attemptFormat machine source = .ok text) :
    style.attemptReport machine source = .ok ⟨source.decodeLossy, text, []⟩ := by
  rw [attemptReport, formatted]

/-- A report of a text holds the text and no problem. -/
theorem Report.ofText (source : Source) (text : Text) :
    Report.OfText ⟨source.decodeLossy, text, []⟩ source text where
  hasErrors := rfl
  diagnostics := rfl
  sourceText := rfl
  formattedText := rfl
  changed := by simp [Report.changed]

/-- Only problems are reported. -/
theorem Style.attemptReport_of_lacksRoom {failure : Failure}
    (failed : style.attemptFormat machine source = .error failure)
    (lacks : failure.lacksRoom = true) : style.attemptReport machine source = .error failure := by
  rw [attemptReport, failed]
  cases failure with
  | problem problem => cases lacks
  | flaw | obstacle | span => rfl

/-! ## Writers -/

/-- What a writer does with a text. -/
inductive Reply (ε : Type) where
  /-- It takes the text. -/
  | taken
  /-- The operating system refuses the text. -/
  | refused (reason : String)
  /-- It breaks off in another way. -/
  | raised (exception : ε)

/-- A writer. -/
structure Sink (ε : Type) where
  /-- What it does with a text after those that it has been handed before. -/
  reply (handed : List Text) (text : Text) : Reply ε

variable {ε : Type}

/-- What a write comes to: a refusal is caught, an exception is not. -/
def Reply.result : Reply ε → Except ε (Except String Unit)
  | .taken => .ok (.ok ())
  | .refused reason => .ok (.error reason)
  | .raised exception => .error exception

/-- Hands a text to a writer and adds it to those handed before. -/
def Sink.write (sink : Sink ε) (text : Text) :
    ExceptT ε (StateM (List Text)) (Except String Unit) :=
  .mk fun handed => ((sink.reply handed text).result, handed ++ [text])

/-- What becomes of formatting once a writer has been handed the text: a refusal is a problem,
and an exception is left alone. -/
def Reply.outcome : Reply ε → Except ε (Except Failure Unit)
  | .taken => .ok (.ok ())
  | .refused reason => .ok (.error (.problem ⟨.writeFailed reason, 0⟩))
  | .raised exception => .error exception

end YangFormatter
