import YangFormatter.CommandLine.Invocation
import YangFormatter.Format.Failure
import YangFormatter.Text.Position
import YangFormatter.Token.Table
import YangFormatter.Tree.Outline

/-! # Plans

What the formatter does once it has read all of its inputs: a list of effects and
how the run ends after them. Inputs are handled in order, up to the first that has a
problem.
-/

namespace YangFormatter.CommandLine

/-- An input that has been read. -/
structure Input where
  /-- The name it was given by. -/
  path : Text
  /-- Its content. -/
  bytes : List UInt8
deriving DecidableEq, Repr

/-- Something that is done to the world. -/
inductive Effect where
  /-- Writes a line to the error stream. -/
  | note (line : String)
  /-- Writes text to the output stream. If that fails and the write is `guarded`,
  the failure is reported; otherwise it ends the program. -/
  | print (text : Text) (guarded : Bool)
  /-- Writes text to a file. -/
  | save (path : Text) (text : Text)
deriving DecidableEq, Repr

/-- Why a run ends without a status. -/
inductive Abort where
  /-- The output stream failed where nobody expects it to. -/
  | output (reason : String)
  /-- There is no tab width. -/
  | noTabWidth
  /-- There is no maximal width. -/
  | noMaxWidth
  /-- A path has a character that no path can have. -/
  | unusablePath
  /-- A source cannot be formatted, or its tree cannot be shown. -/
  | formatting (failure : Failure)
deriving DecidableEq, Repr

/-- How a run ends. -/
inductive Ending where
  /-- With a status. -/
  | exit (status : Nat)
  /-- By a failure that nobody handles. -/
  | aborted (cause : Abort)
deriving DecidableEq, Repr

/-- Effects in order, and how the run ends after them. -/
structure Plan where
  /-- The effects. -/
  effects : List Effect
  /-- The ending. -/
  ending : Ending
deriving DecidableEq, Repr

/-- The line that reports an error. -/
def errorLine (message : String) : String :=
  "Error: " ++ message

/-- The line that reports a failed write. -/
def writeErrorLine (reason : String) : String :=
  errorLine ("Failed to write output: " ++ reason)

/-- The line that reports a failed read. -/
def readErrorLine (path : Text) (reason : String) : String :=
  errorLine s!"Failed to read {String.ofList path}: {reason}"

/-- The line that reports a problem of an input. -/
def Input.problemLine (input : Input) (offset : Nat) (message : String) : String :=
  let label := if input.path = standardInput then "" else String.ofList input.path ++ ": "
  let position := Position.ofOffset input.bytes offset
  errorLine s!"{label}Parse error at {position.display}: {message}"

namespace Plan

/-- The plan that does nothing. -/
def done (status : Nat) : Plan :=
  ⟨[], .exit status⟩

/-- The plan that reports an error and fails. -/
def failure (line : String) : Plan :=
  ⟨[.note line], .exit 1⟩

/-- The plan that breaks off. -/
def abort (cause : Abort) : Plan :=
  ⟨[], .aborted cause⟩

/-- Does some things before the rest of a plan. -/
def after (effects : List Effect) (rest : Plan) : Plan :=
  ⟨effects ++ rest.effects, rest.ending⟩

/-- What is done with an invocation that is not carried out. -/
def ofRefusal : Refusal → Plan
  | .standardInputInPlace => failure (errorLine "Can't modify STDIN in place")
  | .style error => failure (errorLine error.message)
  | .noTabWidth => abort .noTabWidth
  | .noMaxWidth => abort .noMaxWidth

/-- Shows a listing of each input. Only problems are reported. -/
def listing (describe : Source → Except Failure Text) : List Input → Plan
  | [] => done 0
  | input :: inputs =>
      match describe (.bytes input.bytes) with
      | .ok text => after [.print text false] (listing describe inputs)
      | .error (.problem problem) =>
          failure (input.problemLine problem.position problem.message)
      | .error cause => abort (.formatting cause)

/-- The listing of a source's tokens. -/
def tokenListing (source : Source) : Except Failure Text :=
  ((TokenStream.ofSource source).bind fun stream =>
    stream.drain.1.map fun tokens => (TokenTable.render tokens).toList).mapError .problem

/-- The listing of a source's tree. -/
def treeListing (machine : Machine) (source : Source) : Except Failure Text :=
  match source.parse with
  | .error problem => .error (.problem problem)
  | .ok nodes =>
      match Outline.render? machine nodes with
      | some text => .ok text
      | none => .error (.obstacle .tooDeep)

/-- What is logged about formatting an input. -/
def log (settings : Settings) (input : Input) : List Effect :=
  if settings.verbose then
    let count := input.bytes.length
    let parsed := match (Source.bytes input.bytes).parse with
      | .ok nodes => s!"Parsed {nodes.length} top-level nodes"
      | .error problem => s!"Formatting failed: {problem.message}"
    [.note s!"DEBUG yangfmt.cli: Formatting {String.ofList input.path} ({count} bytes)",
      .note s!"DEBUG yangfmt.format.runner: {parsed}"]
  else
    []

/-- What is done with the report on an input that has no problem. -/
def deliver (settings : Settings) (input : Input) (report : Report) : List Effect :=
  if settings.check then
    if report.changed then [.note s!"would reformat {String.ofList input.path}"] else []
  else if settings.inPlace then
    if report.changed then [.save input.path report.formattedText] else []
  else
    [.print report.formattedText true]

/-- Formats each input. `wouldChange` says whether a check has found an earlier
input that would change. -/
def formatting (machine : Machine) (settings : Settings) (style : Style) (wouldChange : Bool) :
    List Input → Plan
  | [] => done (if wouldChange then 1 else 0)
  | input :: inputs =>
      after (log settings input) <|
        match style.attemptReport machine (.bytes input.bytes) with
        | .error cause => abort (.formatting cause)
        | .ok report =>
            match report.diagnostics with
            | diagnostic :: _ =>
                failure (input.problemLine diagnostic.span.start diagnostic.message)
            | [] =>
                let wouldChange := wouldChange || (settings.check && report.changed)
                after (deliver settings input report)
                  (formatting machine settings style wouldChange inputs)

/-- What is done with inputs that have all been read. -/
def ofInputs (machine : Machine) (settings : Settings) (style : Style) (inputs : List Input) :
    Plan :=
  if settings.showTokens then listing tokenListing inputs
  else if settings.showTree then listing (treeListing machine) inputs
  else formatting machine settings style false inputs

end Plan

end YangFormatter.CommandLine
