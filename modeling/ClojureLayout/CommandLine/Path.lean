/-!
# File paths

A path is a root and the names below it. Empty names and `.` are dropped when a path is read, `..`
is kept. Two slashes at the start are a root of their own; more than two count as one.
-/

namespace ClojureLayout.CommandLine

/-- A path: an empty root, if it is relative, and the names that lead to the file. -/
structure Path where
  root : String := ""
  names : List String := []
deriving DecidableEq

namespace Path

/-- The parts of a text between slashes. -/
def splitSlashes : List Char → List (List Char)
  | [] => [[]]
  | c :: rest =>
    if c = '/' then [] :: splitSlashes rest
    else
      match splitSlashes rest with
      | part :: parts => (c :: part) :: parts
      | [] => [[c]]

/-- The root at the start of a text. -/
def rootOf (cs : List Char) : String :=
  match (cs.takeWhile (· == '/')).length with
  | 0 => ""
  | 2 => "//"
  | _ => "/"

/-- The path that a text denotes. -/
def ofString (s : String) : Path :=
  let names := (splitSlashes s.toList).map String.ofList
  { root := rootOf s.toList, names := names.filter fun name => name != "" && name != "." }

/-- The path as a text; the empty relative path is `.`. -/
def text (p : Path) : String :=
  if p.root = "" ∧ p.names = [] then "." else p.root ++ String.intercalate "/" p.names

/-- The path without its last name. -/
def parent (p : Path) : Path := { p with names := p.names.dropLast }

/-- The path with a further name. -/
def child (p : Path) (name : String) : Path := { p with names := p.names ++ [name] }

end Path

end ClojureLayout.CommandLine
