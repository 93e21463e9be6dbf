import YangFormatter.Text.Basic

/-! # Statement keywords

A keyword is one of the YANG language, or names an extension by a module prefix
and an identifier, or is neither. A keyword of no known kind is kept as it is, so
that a file with unknown statements can still be formatted.
-/

namespace YangFormatter

/-- The kinds of keywords. -/
inductive KeywordKind where
  /-- A keyword of the language. -/
  | recognized
  /-- The use of an extension. -/
  | extension
  /-- Anything else. -/
  | invalid
deriving DecidableEq, Repr

namespace KeywordKind

/-- The name of a kind. -/
def name : KeywordKind → String
  | recognized => "recognized"
  | extension => "extension"
  | invalid => "invalid"

/-- The keywords of YANG 1.1. -/
def vocabulary : List String :=
  ["action", "anydata", "anyxml", "argument", "augment", "base", "belongs-to", "bit", "case",
    "choice", "config", "contact", "container", "default", "description", "deviate", "deviation",
    "enum", "error-app-tag", "error-message", "extension", "feature", "fraction-digits",
    "grouping", "identity", "if-feature", "import", "include", "input", "key", "leaf",
    "leaf-list", "length", "list", "mandatory", "max-elements", "min-elements", "modifier",
    "module", "must", "namespace", "notification", "ordered-by", "organization", "output",
    "path", "pattern", "position", "prefix", "presence", "range", "reference", "refine",
    "require-instance", "revision", "revision-date", "rpc", "status", "submodule", "type",
    "typedef", "unique", "units", "uses", "value", "when", "yang-version", "yin-element"]

/-- Whether a character may begin an identifier. -/
def beginsIdentifier (character : Char) : Bool :=
  character.isAlpha || character == '_'

/-- Whether a character may go on an identifier. -/
def continuesIdentifier (character : Char) : Bool :=
  character.isAlphanum || character == '-' || character == '_' || character == '.'

/-- Whether a text is an identifier. -/
def isIdentifier : Text → Bool
  | [] => false
  | first :: rest => beginsIdentifier first && rest.all continuesIdentifier

/-- Whether a text is two identifiers with a colon between them. -/
def isExtension (keyword : Text) : Bool :=
  match keyword.splitOn ':' with
  | [owner, identifier] => isIdentifier owner && isIdentifier identifier
  | _ => false

/-- The kind of a keyword. -/
def ofText (keyword : Text) : KeywordKind :=
  if vocabulary.contains (String.ofList keyword) then .recognized
  else if isExtension keyword then .extension
  else .invalid

end KeywordKind

end YangFormatter
