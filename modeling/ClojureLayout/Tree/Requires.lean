import ClojureLayout.Tree.Node

/-!
# The entries of a require or import list

What follows the head of such a list is read as entries, each with the comments that belong to it:
the comments on lines of their own above it, and the comment beside it. The entries are sorted by
their libraries and written one to a line, their comments with them. Entries with the same key keep
their order.
-/

namespace ClojureLayout

/-- What an entry is sorted by: libraries come first, then specs of a library, then all else. Specs
    go by the symbol that leads them; an empty spec comes before these, one led by anything else
    after. -/
inductive EntryKey where
  | library (name : String)
  | emptySpec
  | spec (name : String)
  | unnamedSpec
  | other
deriving DecidableEq

namespace EntryKey

/-- The place of a key's sort among the others. -/
def rank : EntryKey → Nat
  | library _ => 0
  | emptySpec => 1
  | spec _ => 2
  | unnamedSpec => 3
  | other => 4

/-- The name that decides among keys of one rank, by code points. -/
def name : EntryKey → String
  | library name | spec name => name
  | emptySpec | unnamedSpec | other => ""

/-- Whether an entry with key `a` may stand before one with key `b`. -/
def le (a b : EntryKey) : Bool :=
  decide (a.rank < b.rank) || (a.rank == b.rank && decide (a.name ≤ b.name))

end EntryKey

def Node.entryKey : Node → EntryKey
  | .leaf (.symbol name) => .library name
  | .group .list cs | .group .vector cs =>
    match cs with
    | [] => .emptySpec
    | .leaf (.symbol name) :: _ => .spec name
    | _ => .unnamedSpec
  | _ => .other

/-- An entry with the texts of the comments above it and of the comment beside it. -/
structure Entry where
  node : Node
  above : List String := []
  beside : Option String := none
deriving DecidableEq

namespace Entry

/-- Comments, each on a line of its own. -/
def commentLines (comments : List String) : List Node :=
  comments.flatMap fun text => [Node.comment text, Node.newline]

/-- The lines of an entry: its comments, then itself with the comment beside it. -/
def lines (e : Entry) : List Node :=
  commentLines e.above ++ e.node :: (e.beside.toList.map Node.comment ++ [Node.newline])

def le (a b : Entry) : Bool := a.node.entryKey.le b.node.entryKey

end Entry

/-- The entries read so far, latest first, the comments read since the latest, latest first, and
    whether the latest stands on the line being read. -/
structure Entries where
  entries : List Entry := []
  comments : List String := []
  onLine : Bool := false
deriving DecidableEq

namespace Entries

/-- Reads one more node. A comment belongs to the entry on its line, or else to the next entry. -/
def read (r : Entries) : Node → Except TreeFault Entries
  | .leaf (.comment text) =>
    if r.onLine then
      match r.entries with
      | latest :: before => .ok { r with entries := { latest with beside := some text } :: before }
      | [] => .error .noEntry
    else .ok { r with comments := text :: r.comments }
  | .leaf .newline => .ok { r with onLine := false }
  | node =>
    .ok
      { entries := { node, above := r.comments.reverse } :: r.entries
        comments := []
        onLine := true }

def readAll (r : Entries) : List Node → Except TreeFault Entries
  | [] => .ok r
  | n :: rest => do (← r.read n).readAll rest

/-- The lines of the sorted entries, then the comments that no entry follows. -/
def sortedLines (r : Entries) : List Node :=
  (r.entries.reverse.mergeSort Entry.le).flatMap Entry.lines ++
    Entry.commentLines r.comments.reverse

end Entries

/-- The nodes without their last one, unless that ends a comment or there is only one. -/
def dropFinalNewline (cs : List Node) : List Node :=
  match cs.reverse with
  | _ :: before :: rest => if before.isComment then cs else (before :: rest).reverse
  | _ => cs

namespace Node

/-- Sorts the entries that follow the head of a list. -/
def sortImportRequire (n : Node) : Except TreeFault Node :=
  match n.children with
  | [] => .error .noHead
  | head :: rest => do
    let entries ← Entries.readAll {} rest
    n.setChildren (dropFinalNewline (head :: entries.sortedLines))

/-- Sorts the entries of a clause if it requires or imports. -/
def sortClause (n : Node) : Except TreeFault Node :=
  if n.isKeywordForm [":require", ":import"] then n.sortImportRequire else .ok n

/-- Sorts the entries of each clause of a namespace declaration that requires or imports. -/
def sortNs : Node → Except TreeFault Node
  | .group shape (head :: clauses) => do
    let clauses ← clauses.mapM sortClause
    return .group shape (head :: clauses)
  | n => .ok n

end Node

end ClojureLayout
