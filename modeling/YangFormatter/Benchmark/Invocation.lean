import YangFormatter.CommandLine.Arguments

/-! # Invocations of the benchmark

The options of the benchmark, which formats all modules below a directory several
times and reports how long that takes, and what it says when help is asked for.
-/

namespace YangFormatter.Benchmark

open CommandLine

/-- The options of the benchmark. One that was given no value has none. -/
structure Settings where
  /-- How many runs are measured; at least one is. -/
  runs : Option Int := some 5
  /-- How many runs go before, unmeasured. -/
  warmups : Option Int := some 1
  /-- Whether statements are sorted. -/
  canonicalOrder : Bool := false
  /-- Whether to go without progress bars. -/
  noProgress : Bool := false
  /-- Whether the runs are profiled. -/
  profile : Bool := false
  /-- How many rows of the profile are shown. -/
  profileTop : Option Int := some 30
  /-- What the profile is sorted by. -/
  profileSort : Option Text := some "tottime".toList
  /-- How many files are taken; all if not positive. -/
  limitFiles : Option Int := some 0
deriving DecidableEq, Repr

/-- The command line of the benchmark. -/
def interface : Interface Settings where
  switches :=
    [ ⟨["-h".toList, "--help".toList], .help⟩,
      ⟨["--runs".toList], .integer fun value settings => { settings with runs := value }⟩,
      ⟨["--warmups".toList], .integer fun value settings => { settings with warmups := value }⟩,
      ⟨["--canonical-order".toList],
        .flag fun settings => { settings with canonicalOrder := true }⟩,
      ⟨["--no-progress".toList], .flag fun settings => { settings with noProgress := true }⟩,
      ⟨["--profile".toList], .flag fun settings => { settings with profile := true }⟩,
      ⟨["--profile-top".toList],
        .integer fun value settings => { settings with profileTop := value }⟩,
      ⟨["--profile-sort".toList],
        .text fun value settings => { settings with profileSort := value }⟩,
      ⟨["--limit-files".toList],
        .integer fun value settings => { settings with limitFiles := value }⟩ ]
  operands := .one "root"

/-- What the benchmark says when help is asked for. -/
def helpLines : List String :=
  [
    "usage: time_format.py [-h] [--runs RUNS] [--warmups WARMUPS]",
    "                      [--canonical-order] [--no-progress] [--profile]",
    "                      [--profile-top PROFILE_TOP]",
    "                      [--profile-sort PROFILE_SORT]",
    "                      [--limit-files LIMIT_FILES]",
    "                      root",
    "",
    "Benchmark YANG formatting throughput",
    "",
    "positional arguments:",
    "  root                  Directory searched recursively for .yang files",
    "",
    "options:",
    "  -h, --help            show this help message and exit",
    "  --runs RUNS           Measured runs",
    "  --warmups WARMUPS     Warmup runs",
    "  --canonical-order     Enable canonical statement ordering while formatting",
    "  --no-progress         Disable tqdm progress bars (useful for pure timing)",
    "  --profile             Run cProfile and print top hotspots",
    "  --profile-top PROFILE_TOP",
    "                        Number of cProfile rows to print (default: 30)",
    "  --profile-sort PROFILE_SORT",
    "                        cProfile sort key (default: tottime, common:",
    "                        cumulative)",
    "  --limit-files LIMIT_FILES",
    "                        Optional file limit for quick profiling/smoke tests (0",
    "                        = all files)"
  ]

/-- The help as a text. -/
def helpText : String :=
  String.join (helpLines.map (· ++ "\n"))

end YangFormatter.Benchmark
