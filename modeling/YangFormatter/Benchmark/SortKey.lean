import YangFormatter.Text.Basic

/-! # Sort keys of a profile

The rows of a profile are sorted by a key, whose name may be shortened. The names
are gone through in order, and each of them takes its beginnings, from the longest
to the shortest, down to the first that is taken already. That one is then left to
nobody, although beginnings of it may still stand for the name that took them.
-/

namespace YangFormatter.Benchmark.SortKey

/-- The names of the keys. -/
def names : List Text :=
  ["calls", "ncalls", "cumtime", "cumulative", "filename", "line", "module", "name", "nfl",
    "pcalls", "stdname", "time", "tottime"].map String.toList

/-- The beginnings of a name that are not empty, from the longest to the shortest. -/
def beginnings (name : Text) : List Text :=
  ((List.range name.length).map fun count => name.take (count + 1)).reverse

/-- Which beginnings are taken, and which of them more than one name has come to. -/
structure Claims where
  /-- The beginnings that are taken. -/
  taken : List Text := []
  /-- The beginnings that are left to nobody. -/
  contested : List Text := []
deriving DecidableEq, Repr

/-- Lets a name take its beginnings. -/
def Claims.add (claims : Claims) (name : Text) : Claims :=
  let free (beginning : Text) : Bool := !claims.taken.contains beginning
  { taken := claims.taken ++ (beginnings name).takeWhile free
    contested := claims.contested ++ ((beginnings name).dropWhile free).take 1 }

/-- The beginnings after all names have been gone through. -/
def claims : Claims :=
  names.foldl Claims.add {}

/-- Whether a text stands for a key. -/
def isKnown (text : Text) : Bool :=
  claims.taken.contains text && !claims.contested.contains text

end YangFormatter.Benchmark.SortKey
