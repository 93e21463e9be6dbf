import YangFormatter.CommandLine.Arguments
import YangFormatter.Style

/-! # Invocations of the formatter

The options and operands of the formatter, its usage and help texts, and what a
command line asks for.
-/

namespace YangFormatter.CommandLine

/-- The options of the formatter. -/
structure Settings where
  /-- The column to wrap at, unless it was given no value. -/
  maxWidth : Option Int := some 79
  /-- The spaces of one level of nesting, unless they were given no value. -/
  tabWidth : Option Int := some 2
  /-- Whether to sort statements. -/
  canonicalOrder : Bool := false
  /-- Whether to write files back. -/
  inPlace : Bool := false
  /-- Whether to only tell which files would change. -/
  check : Bool := false
  /-- Whether to show tokens. -/
  showTokens : Bool := false
  /-- Whether to show the tree. -/
  showTree : Bool := false
  /-- Whether to go without a progress bar. -/
  noProgress : Bool := false
  /-- Whether to log what is done. -/
  verbose : Bool := false
deriving DecidableEq, Repr

/-- The command line of the formatter. -/
def formatterInterface : Interface Settings where
  switches :=
    [ ⟨["-h".toList, "--help".toList], .help⟩,
      ⟨["-m".toList, "--max-width".toList],
        .integer fun value settings => { settings with maxWidth := value }⟩,
      ⟨["-t".toList, "--tab-width".toList],
        .integer fun value settings => { settings with tabWidth := value }⟩,
      ⟨["-c".toList, "--canonical-order".toList],
        .flag fun settings => { settings with canonicalOrder := true }⟩,
      ⟨["-i".toList, "--in-place".toList],
        .flag fun settings => { settings with inPlace := true }⟩,
      ⟨["--check".toList], .flag fun settings => { settings with check := true }⟩,
      ⟨["--lex".toList], .flag fun settings => { settings with showTokens := true }⟩,
      ⟨["--tree".toList], .flag fun settings => { settings with showTree := true }⟩,
      ⟨["--no-progress".toList], .flag fun settings => { settings with noProgress := true }⟩,
      ⟨["-v".toList, "--verbose".toList],
        .flag fun settings => { settings with verbose := true }⟩ ]
  operands := .any

/-- How the formatter is called. -/
def usageLines : List String :=
  [
    "usage: yangfmt [-h] [-m MAX_WIDTH] [-t TAB_WIDTH] [-c] [-i] [--check] [--lex]",
    "               [--tree] [--no-progress] [-v]",
    "               [FILE ...]"
  ]

/-- What is said about the formatter below its usage. -/
def helpLines : List String :=
  [
    "",
    "YANG auto-formatter, inspired by the consistent style of IETF YANG models",
    "",
    "positional arguments:",
    "  FILE                  Paths of the files to format (leave empty or use \"-\"",
    "                        for STDIN)",
    "",
    "options:",
    "  -h, --help            show this help message and exit",
    "  -m MAX_WIDTH, --max-width MAX_WIDTH",
    "                        Will try to wrap at this column (default: 79)",
    "  -t TAB_WIDTH, --tab-width TAB_WIDTH",
    "                        Number of spaces used for indentation (default: 2)",
    "  -c, --canonical-order",
    "                        Sort statements to match canonical order",
    "  -i, --in-place        Format files in-place rather than print to STDOUT (use",
    "                        with caution!)",
    "  --check               Write nothing, exit with status 1 if any input would",
    "                        be reformatted",
    "  --lex                 (debugging) Show raw lexer output rather than auto-",
    "                        formatting",
    "  --tree                (debugging) Show the syntax tree rather than auto-",
    "                        formatting",
    "  --no-progress         Disable the progress bar when formatting several files",
    "                        in-place",
    "  -v, --verbose         Enable debug logging"
  ]

/-- Lines as text. -/
def unlines (lines : List String) : String :=
  String.join (lines.map (· ++ "\n"))

/-- The usage of the formatter. -/
def usageText : String :=
  unlines usageLines

/-- What the formatter says when help is asked for. -/
def helpText : String :=
  unlines (usageLines ++ helpLines)

/-- The line that reports a usage error. -/
def usageLine (error : UsageError) : String :=
  "yangfmt: error: " ++ error.message ++ "\n"

/-- The name that stands for the standard input. -/
def standardInput : Text := ['-']

/-- What a command line asks for. -/
structure Invocation where
  /-- The options. -/
  settings : Settings
  /-- The inputs in order. -/
  paths : List Text
deriving DecidableEq, Repr

/-- Why an invocation is not carried out. -/
inductive Refusal where
  /-- The standard input cannot be written back. -/
  | standardInputInPlace
  /-- The widths make no style. -/
  | style (error : StyleError)
  /-- There is no tab width. -/
  | noTabWidth
  /-- There is no maximal width. -/
  | noMaxWidth
deriving DecidableEq, Repr

namespace Invocation

/-- Reads a command line. Without operands the standard input is formatted. -/
def ofArguments (arguments : List Text) : Except Halt Invocation := do
  let (settings, operands) ← formatterInterface.parse {} arguments
  return { settings, paths := if operands.isEmpty then [standardInput] else operands }

/-- The style an invocation asks for, or what is wrong with the invocation. The tab
width is looked at first. -/
def style (invocation : Invocation) : Except Refusal Style :=
  let settings := invocation.settings
  if settings.inPlace && invocation.paths.contains standardInput then
    .error .standardInputInPlace
  else
    match settings.tabWidth, settings.maxWidth with
    | none, _ => .error .noTabWidth
    | some tabWidth, none =>
        .error (if tabWidth < 0 then .style .negativeIndent else .noMaxWidth)
    | some tabWidth, some maxWidth =>
        (Style.ofWidths tabWidth maxWidth settings.canonicalOrder).mapError .style

end Invocation

end YangFormatter.CommandLine
