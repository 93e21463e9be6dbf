import YangFormatter.Text.Utf8

/-! # Paths

A path is a root, perhaps empty, and names. Repeated slashes, slashes at the end
and the name of a single dot say nothing and are dropped.
-/

namespace YangFormatter

/-- A path to a file or directory. -/
structure Path where
  /-- The slashes that an absolute path starts with. -/
  root : Text
  /-- The names on the way. -/
  names : List Text
deriving DecidableEq, Repr

namespace Path

/-- The name of the directory above. -/
def up : Text := ['.', '.']

/-- The root of a path: none, one slash, or two if there are exactly two. -/
def rootOf (text : Text) : Text :=
  match (text.takeWhile (· == '/')).length with
  | 0 => []
  | 2 => ['/', '/']
  | _ => ['/']

/-- Reads a path. -/
def ofText (text : Text) : Path :=
  { root := rootOf text
    names := (text.splitOn '/').filter fun name => name != [] && name != ['.'] }

/-- Whether a path does not depend on the current directory. -/
def isAbsolute (path : Path) : Bool :=
  !path.root.isEmpty

/-- Whether every character of a path is one that a path can have. -/
def isUsable (path : Path) : Bool :=
  path.names.all fun name => !name.contains '\x00'

/-- Whether a name has more bytes than a name can have. -/
def isLongName (name : Text) : Bool :=
  255 < Utf8.length name

/-- Writes a path. -/
def toText (path : Path) : Text :=
  match path.root ++ ['/'].intercalate path.names with
  | [] => ['.']
  | text => text

/-- Whether a path has more bytes than a path can have. -/
def isLong (path : Path) : Bool :=
  4095 < Utf8.length path.toText

end Path

end YangFormatter
