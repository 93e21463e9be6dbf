import YangFormatter.Benchmark.Invocation
import YangFormatter.Benchmark.SortKey
import YangFormatter.Files.Workspace
import YangFormatter.Format.Failure
import YangFormatter.Number.Double

/-! # Benchmark sessions

A run of the benchmark in a workspace, with a clock whose readings are given. All
files are read first, so that only formatting is measured.
-/

namespace YangFormatter.Benchmark

open CommandLine

/-- What a run of the benchmark starts from. -/
structure World where
  /-- The files. -/
  workspace : Workspace
  /-- The readings of the clock still to come. -/
  clock : List Double
  /-- The table that the profiler makes. -/
  profileTable : String
deriving DecidableEq, Repr

/-- Why a run of the benchmark has no result. -/
inductive Failure where
  /-- A path on the way to the files is too long. -/
  | file (error : FileError) (path : Path)
  /-- There is no limit for the files. -/
  | noLimit
  /-- There is no number of warmups. -/
  | noWarmups
  /-- There is no number of runs. -/
  | noRuns
  /-- There is nothing to sort the profile by. -/
  | noSortKey
  /-- The profile cannot be sorted by this. -/
  | unknownSortKey (key : Text)
  /-- There is no number of rows of the profile. -/
  | noTop
  /-- The clock has no more readings. -/
  | clockStopped
  /-- A module cannot be formatted. -/
  | formatting (cause : YangFormatter.Failure)
  /-- No time has passed. -/
  | noTime
deriving DecidableEq, Repr

/-- How a run of the benchmark ends. -/
inductive Ending where
  /-- With a status. -/
  | exit (status : Nat)
  /-- With a message, for a directory of no use. -/
  | refused (message : String)
  /-- Without a result. -/
  | failed (failure : Failure)
deriving DecidableEq, Repr

/-- What a run of the benchmark has come to. -/
structure Outcome where
  /-- How it ended. -/
  ending : Ending
  /-- What was written to the output stream. -/
  stdout : String
  /-- The readings of the clock that were not used. -/
  clock : List Double
deriving DecidableEq, Repr

/-- Whether a name is that of a module. -/
def isModule (name : Text) : Bool :=
  ".yang".toList.isSuffixOf name

/-- The order of files: name by name from the top. -/
def precedes : List Text → List Text → Bool
  | [], _ => true
  | _ :: _, [] => false
  | first :: firstRest, second :: secondRest =>
      if first = second then precedes firstRest secondRest else first < second

/-- The modules below a directory in order, each with the names on the way to it
from there. -/
def modulesBelow (workspace : Workspace) (directory : List Text) :
    List (List Text × List UInt8) :=
  let below := workspace.files.filterMap fun (names, bytes) =>
    if directory.isPrefixOf names && directory != names && isModule (names.getLastD []) then
      some (names.drop directory.length, bytes)
    else
      none
  below.mergeSort fun first second => precedes first.1 second.1

/-- The directory that a path leads to, if it leads to one. Only a path that is too
long is an error. -/
def directory? (workspace : Workspace) (path : Path) : Except FileError (Option (List Text)) :=
  if !path.isUsable then
    .ok none
  else
    match workspace.entry path, workspace.locate path with
    | .ok .directory, .ok (.inside names) => .ok (some names)
    | .error .nameTooLong, _ => .error .nameTooLong
    | _, _ => .ok none

/-- The path to a file below a root. -/
def pathBelow (root : Path) (names : List Text) : Path :=
  { root with names := root.names ++ names }

/-- Reads the clock. -/
def tick : List Double → Except Failure (Double × List Double)
  | [] => .error .clockStopped
  | reading :: clock => .ok (reading, clock)

/-- The reports on some sources. -/
def reports (settings : Settings) (machine : Machine) (sources : List (List UInt8)) :
    Except Failure (List Report) :=
  let style : Style := { canonicalOrder := settings.canonicalOrder }
  (sources.mapM fun bytes => style.attemptReport machine (.bytes bytes)).mapError .formatting

/-- Measures one run by two readings of the clock. -/
def measure (work : Except Failure (List Report)) (clock : List Double) :
    Except Failure (Double × List Double) := do
  let (start, clock) ← tick clock
  let _ ← work
  let (stop, clock) ← tick clock
  return (stop.sub start, clock)

/-- Measures some runs one after the other. -/
def measureRuns (work : Except Failure (List Report)) :
    Nat → List Double → Except Failure (List Double × List Double)
  | 0, clock => .ok ([], clock)
  | count + 1, clock => do
      let (timing, clock) ← measure work clock
      let (timings, clock) ← measureRuns work count clock
      return (timing :: timings, clock)

/-- The least of some timings, the first of equal ones. -/
def best (timings : List Double) : Double :=
  timings.tail.foldl (fun least timing => if timing.below least then timing else least)
    (timings.headD .undefined)

/-- The greatest of some timings, the first of equal ones. -/
def worst (timings : List Double) : Double :=
  timings.tail.foldl (fun greatest timing => if greatest.below timing then timing else greatest)
    (timings.headD .undefined)

/-- The middle one of some timings, or half the sum of the two in the middle. -/
def median (timings : List Double) : Double :=
  let sorted := timings.mergeSort fun first second => !second.below first
  let middle := sorted.length / 2
  if sorted.length % 2 = 1 then
    sorted.getD middle .undefined
  else
    ((sorted.getD (middle - 1) .undefined).add (sorted.getD middle .undefined)).div (.ofNat 2)

/-- The heading of a profile. -/
def profileHeading : String := "\n[cProfile top functions]\n"

/-- The report of some timings. -/
def summary (reports : List Report) (warmups : Nat) (root : Path) (sources : List (List UInt8))
    (timings : List Double) : String :=
  let changed := reports.countP (·.changed)
  let errors := reports.countP (·.hasErrors)
  let size : Nat := (sources.map List.length).foldr (· + ·) 0
  let mean := Double.mean timings
  let filesPerSecond := (Double.ofNat sources.length).div mean
  let kibibytesPerSecond := (Double.ofRat (mkRat size 1024)).div mean
  String.join
    [ s!"Dataset: {String.ofList root.toText}\n",
      s!"Files: {sources.length} ({size} bytes)\n",
      s!"Would change: {changed}\n",
      s!"Parse errors: {errors}\n",
      s!"Runs: {timings.length} (warmups={warmups})\n",
      s!"Best:   {(best timings).fixed 4}s\n",
      s!"Median: {(median timings).fixed 4}s\n",
      s!"Mean:   {mean.fixed 4}s\n",
      s!"Worst:  {(worst timings).fixed 4}s\n",
      s!"Files/s (mean): {filesPerSecond.fixed 1}\n",
      s!"KiB/s (mean):   {kibibytesPerSecond.fixed 1}\n" ]

/-- The value of an option that has to have one. -/
def require {α : Type} (failure : Failure) : Option α → Except Failure α
  | some value => .ok value
  | none => .error failure

/-- What is shown of the profile, if one was asked for. -/
def profile (settings : Settings) (table : String) : Except Failure String :=
  if settings.profile then do
    let key ← require .noSortKey settings.profileSort
    if SortKey.isKnown key then
      let _ ← require .noTop settings.profileTop
      return profileHeading ++ table ++ "\n"
    else
      .error (.unknownSortKey key)
  else
    return ""

/-- Measures the formatting of some modules: what is written, and the readings that
are left. -/
def measureModules (settings : Settings) (machine : Machine) (world : World) (root : Path)
    (modules : List (List Text × List UInt8)) : Except Failure (String × List Double) := do
  if let some (names, _) := modules.find? fun (names, _) => (pathBelow root names).isLong then
    throw (.file .nameTooLong (pathBelow root names))
  let limit ← require .noLimit settings.limitFiles
  let modules := if 0 < limit then modules.take limit.toNat else modules
  let sources := modules.map Prod.snd
  let work := reports settings machine sources
  let warmups ← require .noWarmups settings.warmups
  let (_, clock) ← measureRuns work warmups.toNat world.clock
  let runs ← require .noRuns settings.runs
  let (timings, clock) ← measureRuns work (max runs 1).toNat clock
  let reports ← work
  let profile ← profile settings world.profileTable
  if (Double.mean timings).isZero then
    throw .noTime
  return (profile ++ summary reports warmups.toNat root sources timings, clock)

/-- Runs the benchmark on a command line. -/
def run (machine : Machine) (world : World) (arguments : List Text) : Outcome :=
  match interface.parse {} arguments with
  | .error .help => ⟨.exit 0, helpText, world.clock⟩
  | .error (.usage _) => ⟨.exit 2, "", world.clock⟩
  | .ok (settings, operands) =>
      let root := Path.ofText (operands.headD [])
      let shown := String.ofList root.toText
      match directory? world.workspace root with
      | .error error => ⟨.failed (.file error root), "", world.clock⟩
      | .ok none => ⟨.refused s!"Invalid root directory: {shown}", "", world.clock⟩
      | .ok (some directory) =>
          match modulesBelow world.workspace directory with
          | [] => ⟨.refused s!"No .yang files found under {shown}", "", world.clock⟩
          | modules =>
              match measureModules settings machine world root modules with
              | .error failure => ⟨.failed failure, "", world.clock⟩
              | .ok (stdout, clock) => ⟨.exit 0, stdout, clock⟩

end YangFormatter.Benchmark
