import ClojureLayout.Config.Value

/-!
# Building a configuration table

A configuration file builds its table step by step: headers open a table, or a further item of a
list of tables, and assignments put values under keys of the table opened last. A key is a path of
names. What a step may not do is kept track of by three lists of keys:

* `frozen`: a list or a table written out as a value is complete, it and all below it;
* `opened`: no header may open a table twice, and no dotted key may reach into one that a header
  opened;
* `dotted`: the tables that dotted keys have passed through since the last header. From the next
  header on they count as opened.
-/

namespace ClojureLayout.Config

abbrev Key := List String

namespace Table

/-- Changes the table under a key, creating the tables on the way. With `enter`, a list of tables
    on the way stands for its last item. Fails if something else than a table is on the way. -/
def modify (enter : Bool) (f : Table → Option Table) : Key → Table → Option Table
  | [], t => f t
  | name :: rest, t =>
    match t.get? name with
    | none => (modify enter f rest []).map fun u => t.put name (.table u)
    | some (.table u) => (modify enter f rest u).map fun u => t.put name (.table u)
    | some (.list items) =>
      match enter, items.reverse with
      | true, .table u :: before =>
        (modify enter f rest u).map fun u => t.put name (.list (Value.table u :: before).reverse)
      | _, _ => none
    | some _ => none

def insertNew (name : String) (value : Value) (t : Table) : Option Table :=
  if (t.get? name).isSome then none else some (t.put name value)

/-- Adds an empty table to the list under a key. -/
def appendItem (name : String) (t : Table) : Option Table :=
  match t.get? name with
  | none => some (t.put name (.list [.table []]))
  | some (.list items) => some (t.put name (.list (items ++ [.table []])))
  | some _ => none

end Table

/-- The key is frozen, itself or as part of a frozen value. -/
def isFrozen (frozen : List Key) (key : Key) : Bool := frozen.any (·.isPrefixOf key)

/-- A value that is complete once written. -/
def Value.isContainer : Value → Bool
  | .list _ | .table _ => true
  | _ => false

/-- A configuration table under construction. -/
structure Draft where
  root : Table := []
  header : Key := []
  frozen : List Key := []
  opened : List Key := []
  dotted : List Key := []

namespace Draft

/-- Ends the section of the last header. -/
def endSection (d : Draft) : Draft := { d with opened := d.opened ++ d.dotted, dotted := [] }

/-- A header that opens a table. -/
def openTable (d : Draft) (key : Key) : Option Draft :=
  let d := d.endSection
  if d.opened.contains key || isFrozen d.frozen key then none
  else do
    let root ← d.root.modify true some key
    return { d with root, header := key, opened := key :: d.opened }

/-- A header that opens a further item of a list of tables. What was said about the keys of the item
    before does not bind it. -/
def openItem (d : Draft) (key : Key) : Option Draft :=
  let d := d.endSection
  if isFrozen d.frozen key then none
  else do
    let root ← d.root.modify true (Table.appendItem (key.getLast?.getD "")) key.dropLast
    let outside := fun k : Key => !key.isPrefixOf k
    return { d with
      root
      header := key
      frozen := d.frozen.filter outside
      opened := key :: d.opened.filter outside }

/-- The tables that a dotted key passes through. -/
def passed (header key : Key) : List Key :=
  (List.range (key.length - 1)).map fun n => header ++ key.take (n + 1)

/-- An assignment in the section of the last header. -/
def assign (d : Draft) (key : Key) (value : Value) : Option Draft :=
  let through := passed d.header key
  let parent := d.header ++ key.dropLast
  if through.any d.opened.contains || isFrozen d.frozen parent then none
  else do
    let root ← d.root.modify true (Table.insertNew (key.getLast?.getD "") value) parent
    return { d with
      root
      dotted := d.dotted ++ through
      frozen := if value.isContainer then (d.header ++ key) :: d.frozen else d.frozen }

end Draft

/-- A table written out as a value, under construction. -/
structure InlineDraft where
  root : Table := []
  frozen : List Key := []

/-- An assignment in a table written out as a value. -/
def InlineDraft.assign (d : InlineDraft) (key : Key) (value : Value) : Option InlineDraft :=
  if isFrozen d.frozen key then none
  else do
    let root ← d.root.modify false (Table.insertNew (key.getLast?.getD "") value) key.dropLast
    return { root, frozen := if value.isContainer then key :: d.frozen else d.frozen }

end ClojureLayout.Config
