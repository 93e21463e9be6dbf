import YangFormatter.Layout.Obstacle
import YangFormatter.Tidy.Attempt

/-! # Formatting on a machine

Each step of formatting can break off: the source has a problem, its tree a flaw, its
layout an obstacle, and a problem may have a place that is no span. Only problems are
made into diagnostics; whatever else breaks formatting off is handed on.
-/

namespace YangFormatter

/-- Why formatting breaks off. -/
inductive Failure where
  /-- The source cannot be read, or its formatted text cannot be written. -/
  | problem (found : Problem)
  /-- The tree cannot be tidied. -/
  | flaw (found : Flaw)
  /-- The tidied tree cannot be laid out. -/
  | obstacle (found : Obstacle)
  /-- The place of a problem is no span. -/
  | span (found : SpanError)
deriving DecidableEq, Repr

/-- Whether a machine has no room for what formatting would do. -/
def Failure.lacksRoom : Failure → Bool
  | .flaw .tooDeep | .obstacle .tooDeep | .obstacle .uncountable | .obstacle .noMemory => true
  | .problem _ | .flaw .noQuote | .flaw .noFragment | .obstacle .noFragment | .span _ => false

namespace Style

/-- The formatted text of a tree, unless a flaw or an obstacle is in the way. -/
def attemptTree (style : Style) (machine : Machine) (nodes : List Node) : Except Failure Text :=
  let tidied := Tidy.attemptWithin machine style none nodes
  match tidied.flaw with
  | some found => .error (.flaw found)
  | none => (Layout.tree? machine style tidied.result).mapError .obstacle

/-- The formatted text of a source, or what broke formatting off. -/
def attemptFormat (style : Style) (machine : Machine) (source : Source) : Except Failure Text :=
  match source.parse with
  | .error problem => .error (.problem problem)
  | .ok nodes => style.attemptTree machine nodes

/-- Formats a source and reports on it. A problem becomes a diagnostic, if its place is a
span. -/
def attemptReport (style : Style) (machine : Machine) (source : Source) :
    Except Failure Report :=
  let sourceText := source.decodeLossy
  match style.attemptFormat machine source with
  | .ok formattedText => .ok { sourceText, formattedText, diagnostics := [] }
  | .error (.problem problem) =>
      match problem.cause.diagnosticAt problem.position with
      | .ok diagnostic =>
          .ok { sourceText, formattedText := sourceText, diagnostics := [diagnostic] }
      | .error found => .error (.span found)
  | .error failure => .error failure

/-- Formats a source and hands the text to a writer, in one piece. A write that fails is a
problem like those of a source. -/
def attemptInto {m : Type → Type} [Monad m] (style : Style) (machine : Machine)
    (write : Text → m (Except String Unit)) (source : Source) : m (Except Failure Unit) :=
  match style.attemptFormat machine source with
  | .error failure => return .error failure
  | .ok text => do
      match ← write text with
      | .ok () => return .ok ()
      | .error reason => return .error (.problem ⟨.writeFailed reason, 0⟩)

end Style

end YangFormatter
