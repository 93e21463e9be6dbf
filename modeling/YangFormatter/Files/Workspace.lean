import YangFormatter.Files.Path
import YangFormatter.Text.Quoted

/-! # Workspaces

A workspace is a directory with what is in it, as far as a run of the formatter can
see: files, directories, and nothing known outside.
-/

namespace YangFormatter

/-- Why a file cannot be read. -/
inductive FileError where
  /-- There is nothing at the path. -/
  | notFound
  /-- A name on the way is that of a file. -/
  | notDirectory
  /-- The path leads to a directory. -/
  | isDirectory
  /-- A name on the way, or the path as a whole, is too long. -/
  | nameTooLong
deriving DecidableEq, Repr

namespace FileError

/-- The number of an error. -/
def number : FileError → Nat
  | notFound => 2
  | notDirectory => 20
  | isDirectory => 21
  | nameTooLong => 36

/-- The description of an error. -/
def description : FileError → String
  | notFound => "No such file or directory"
  | notDirectory => "Not a directory"
  | isDirectory => "Is a directory"
  | nameTooLong => "File name too long"

/-- The wording of an error at a path. -/
def message (error : FileError) (path : Path) : String :=
  s!"[Errno {error.number}] {error.description}: {path.toText.quoted}"

end FileError

/-- What is found at a place. -/
inductive Entry where
  /-- A file with its content. -/
  | file (bytes : List UInt8)
  /-- A directory. -/
  | directory
deriving DecidableEq, Repr

/-- Where a path has led so far. -/
inductive Location where
  /-- Within the workspace, at the names below it. -/
  | inside (names : List Text)
  /-- At a directory outside. -/
  | outside
  /-- At something outside of which nothing is known. -/
  | nowhere
deriving DecidableEq, Repr

/-- The place of a name below a location. -/
def Location.enter (location : Location) (name : Text) : Location :=
  match location with
  | .inside names =>
      if name = Path.up then
        if names.isEmpty then .outside else .inside names.dropLast
      else
        .inside (names ++ [name])
  | .outside => if name = Path.up then .outside else .nowhere
  | .nowhere => .nowhere

/-- A directory with what is in it. Directories on the way to an entry need no
entry of their own. -/
structure Workspace where
  /-- The entries by the names on the way to them. -/
  entries : List (List Text × Entry)
deriving DecidableEq, Repr

namespace Workspace

/-- What is found at names below the workspace. -/
def entryAt? (workspace : Workspace) (names : List Text) : Option Entry :=
  match workspace.entries.lookup names with
  | some entry => some entry
  | none =>
      if names.isEmpty || workspace.entries.any (fun (key, _) => names.isPrefixOf key) then
        some .directory
      else
        none

/-- What is found at a location. -/
def find? (workspace : Workspace) : Location → Option Entry
  | .inside names => workspace.entryAt? names
  | .outside => some .directory
  | .nowhere => none

/-- Follows names from a location. Every location on the way has to be a directory,
and no name in it is longer than a name can be. -/
def follow (workspace : Workspace) (location : Location) :
    List Text → Except FileError Location
  | [] => .ok location
  | name :: names =>
      match workspace.find? location with
      | none => .error .notFound
      | some (.file _) => .error .notDirectory
      | some .directory =>
          if Path.isLongName name then .error .nameTooLong
          else workspace.follow (location.enter name) names

/-- Where a path leads. -/
def locate (workspace : Workspace) (path : Path) : Except FileError Location :=
  if path.isLong then .error .nameTooLong
  else workspace.follow (if path.isAbsolute then .outside else .inside []) path.names

/-- What is found at a path. -/
def entry (workspace : Workspace) (path : Path) : Except FileError Entry := do
  let location ← workspace.locate path
  match workspace.find? location with
  | some entry => .ok entry
  | none => .error .notFound

/-- The content of the file at a path. -/
def read (workspace : Workspace) (path : Path) : Except FileError (List UInt8) := do
  match ← workspace.entry path with
  | .file bytes => .ok bytes
  | .directory => .error .isDirectory

/-- The workspace with other content in the file at a path. -/
def write (workspace : Workspace) (path : Path) (bytes : List UInt8) : Workspace :=
  match workspace.locate path with
  | .ok (.inside names) =>
      { entries := workspace.entries.map fun (key, entry) =>
          (key, if key = names then .file bytes else entry) }
  | _ => workspace

/-- The files of a workspace. -/
def files (workspace : Workspace) : List (List Text × List UInt8) :=
  workspace.entries.filterMap fun (names, entry) =>
    match entry with
    | .file bytes => some (names, bytes)
    | .directory => none

end Workspace

end YangFormatter
