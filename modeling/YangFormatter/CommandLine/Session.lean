import YangFormatter.CommandLine.Plan
import YangFormatter.Files.Workspace

/-! # Sessions

A run of the formatter on a machine and in a workspace: what it exits with, what it writes to
its streams, and what becomes of the files. All inputs are read before anything is
done, and the standard input can be read only once.
-/

namespace YangFormatter.CommandLine

/-- What a run of the formatter starts from. -/
structure World where
  /-- The files. -/
  workspace : Workspace
  /-- What is still to be read from the standard input. -/
  stdin : List UInt8 := []
  /-- Why nothing can be written to the output stream, if that is so. -/
  stdoutFault : Option String := none
deriving DecidableEq, Repr

/-- What a run has come to. -/
structure Outcome where
  /-- How it ended. -/
  ending : Ending
  /-- What was written to the output stream. -/
  stdout : Text
  /-- What was written to the error stream. -/
  stderr : String
  /-- The files afterwards. -/
  workspace : Workspace
deriving DecidableEq, Repr

/-- Why inputs are not read. -/
inductive ReadFailure where
  /-- There is nothing to read at a path. -/
  | unreadable (path : Text) (error : FileError)
  /-- A path has a character that no path can have. -/
  | unusablePath
deriving DecidableEq, Repr

/-- Reads the inputs of some paths in order, up to the first that cannot be read. -/
def readInputs (world : World) : List Text → Except ReadFailure (List Input)
  | [] => .ok []
  | path :: paths =>
      if path = standardInput then do
        let inputs ← readInputs { world with stdin := [] } paths
        return ⟨path, world.stdin⟩ :: inputs
      else if !(Path.ofText path).isUsable then
        .error .unusablePath
      else
        match world.workspace.read (.ofText path) with
        | .error error => .error (.unreadable path error)
        | .ok bytes => do
            let inputs ← readInputs world paths
            return ⟨path, bytes⟩ :: inputs

/-- What is done when inputs are not read. -/
def Plan.ofReadFailure : ReadFailure → Plan
  | .unreadable path error => .failure (readErrorLine path (error.message (.ofText path)))
  | .unusablePath => .abort .unusablePath

/-- What an invocation does in a world. -/
def Invocation.plan (invocation : Invocation) (machine : Machine) (world : World) : Plan :=
  match invocation.style with
  | .error refusal => .ofRefusal refusal
  | .ok style =>
      match readInputs world invocation.paths with
      | .error failure => .ofReadFailure failure
      | .ok inputs => .ofInputs machine invocation.settings style inputs

namespace Outcome

/-- An outcome with a line written to the error stream before. -/
def note (line : String) (outcome : Outcome) : Outcome :=
  { outcome with stderr := line ++ "\n" ++ outcome.stderr }

/-- An outcome with text written to the output stream before. -/
def print (text : Text) (outcome : Outcome) : Outcome :=
  { outcome with stdout := text ++ outcome.stdout }

end Outcome

/-- Carries out effects, and comes to the given ending if nothing fails. -/
def execute (world : World) (ending : Ending) : List Effect → Outcome
  | [] => ⟨ending, [], "", world.workspace⟩
  | .note line :: effects => (execute world ending effects).note line
  | .save path text :: effects =>
      let workspace := world.workspace.write (.ofText path) (Utf8.encode text)
      execute { world with workspace } ending effects
  | .print text guarded :: effects =>
      match world.stdoutFault, guarded with
      | none, _ => (execute world ending effects).print text
      | some reason, true => ⟨.exit 1, [], writeErrorLine reason ++ "\n", world.workspace⟩
      | some reason, false => ⟨.aborted (.output reason), [], "", world.workspace⟩

/-- Runs an invocation. -/
def Invocation.run (invocation : Invocation) (machine : Machine) (world : World) : Outcome :=
  let plan := invocation.plan machine world
  execute world plan.ending plan.effects

/-- Runs the formatter on a command line. -/
def run (machine : Machine) (world : World) (arguments : List Text) : Outcome :=
  match Invocation.ofArguments arguments with
  | .ok invocation => invocation.run machine world
  | .error .help => execute world (.exit 0) [.print helpText.toList false]
  | .error (.usage error) =>
      ⟨.exit 2, [], usageText ++ usageLine error, world.workspace⟩

end YangFormatter.CommandLine
