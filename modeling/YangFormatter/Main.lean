import YangFormatter.CommandLine.Plan
import YangFormatter.Files.Workspace

/-! # The program

Reads the command line and the inputs, and carries out the plan they lead to.
-/

namespace YangFormatter.CommandLine

/-- The number and the description of an error of the operating system. -/
def describeError : IO.Error → UInt32 × String
  | .alreadyExists _ code details | .otherError code details | .resourceBusy code details
  | .resourceVanished code details | .unsupportedOperation code details
  | .hardwareFault code details | .unsatisfiedConstraints code details
  | .illegalOperation code details | .protocolError code details | .timeExpired code details
  | .interrupted _ code details | .noFileOrDirectory _ code details
  | .invalidArgument _ code details | .permissionDenied _ code details
  | .resourceExhausted _ code details | .inappropriateType _ code details
  | .noSuchThing _ code details => (code, details)
  | .unexpectedEof => (0, "Unexpected end of file")
  | .userError details => (0, details)

/-- The errors of files by their numbers. -/
def fileError? (number : Nat) : Option FileError :=
  [FileError.notFound, .notDirectory, .isDirectory, .nameTooLong].find? (·.number = number)

/-- The wording of an error of the operating system, whose number may come negated. -/
def errorText (error : IO.Error) : String :=
  let (code, details) := describeError error
  let number := if code.toNat < Nat.pow 2 31 then code.toNat else Nat.pow 2 32 - code.toNat
  let description := (fileError? number).elim details FileError.description
  s!"[Errno {number}] {description}"

/-- Reads one input. -/
def readInput (path : Text) : IO (Except String Input) := do
  if path = standardInput then
    let bytes ← (← IO.getStdin).readBinToEnd
    return .ok ⟨path, bytes.toList⟩
  let shown := (Path.ofText path).toText
  try
    let bytes ← IO.FS.readBinFile (String.ofList shown)
    return .ok ⟨path, bytes.toList⟩
  catch error =>
    return .error s!"{errorText error}: {shown.quoted}"

/-- Reads the inputs in order. -/
def readAll : List Text → IO (Except String (List Input))
  | [] => return .ok []
  | path :: paths => do
      match ← readInput path with
      | .error reason => return .error (readErrorLine path reason)
      | .ok input => return (← readAll paths).map (input :: ·)

/-- What is said about a source that cannot be formatted. -/
def failureMessage : Failure → String
  | .problem found => found.message
  | .flaw .noQuote => "a string has no quotes"
  | .flaw .noFragment | .obstacle .noFragment => "a concatenation has no strings"
  | .flaw .tooDeep | .obstacle .tooDeep => "blocks are nested too deep"
  | .obstacle .uncountable | .obstacle .noMemory => "an indentation is too wide"
  | .span found => found.message

/-- What is said about a run that ends without a status. -/
def Abort.message : Abort → String
  | .output reason => s!"the output cannot be written: {reason}"
  | .noTabWidth => "there is no tab width"
  | .noMaxWidth => "there is no maximal width"
  | .unusablePath => "a path has a character that no path can have"
  | .formatting failure => failureMessage failure

/-- Carries out effects, and comes to the given ending if nothing fails. -/
def performAll (ending : Ending) : List Effect → IO UInt32
  | [] =>
      match ending with
      | .exit status => return UInt32.ofNat status
      | .aborted cause => throw (IO.userError cause.message)
  | .note line :: effects => do
      IO.eprintln line
      performAll ending effects
  | .print text guarded :: effects => do
      try
        let stdout ← IO.getStdout
        stdout.putStr (String.ofList text)
        stdout.flush
      catch error =>
        if guarded then
          IO.eprintln (writeErrorLine (errorText error))
          return 1
        else
          throw error
      performAll ending effects
  | .save path text :: effects => do
      try
        IO.FS.writeBinFile (String.ofList path) ⟨(Utf8.encode text).toArray⟩
      catch error =>
        IO.eprintln (writeErrorLine s!"{errorText error}: {path.quoted}")
        return 1
      performAll ending effects

/-- Carries out a plan. -/
def Plan.perform (plan : Plan) : IO UInt32 :=
  performAll plan.ending plan.effects

/-- Carries out an invocation. No bounds of the machine are known. -/
def Invocation.perform (invocation : Invocation) : IO UInt32 := do
  match invocation.style with
  | .error refusal => (Plan.ofRefusal refusal).perform
  | .ok style =>
      match ← readAll invocation.paths with
      | .error line => (Plan.failure line).perform
      | .ok inputs => (Plan.ofInputs {} invocation.settings style inputs).perform

end YangFormatter.CommandLine

open YangFormatter CommandLine in
/-- Formats YANG modules. -/
def main (arguments : List String) : IO UInt32 := do
  match Invocation.ofArguments (arguments.map String.toList) with
  | .ok invocation => invocation.perform
  | .error .help =>
      IO.print helpText
      return 0
  | .error (.usage error) =>
      IO.eprint (usageText ++ usageLine error)
      return 2
