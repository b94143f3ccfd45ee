import ClojureLayout.Tree.Format

/-! The transforms as edits of a tree in place, taken down to steps that may fail: a place of a list that is
    read, swapped or removed may be missing, a leaf takes no children, a number and a name have no order.
    An edit that fails leaves the tree as it stands at that moment. -/

namespace ClojureLayout

/-- Why a step of an edit cannot be taken. -/
inductive StepFault where
  | tree (fault : TreeFault)
  /-- A list has no such place. -/
  | noPlace
  /-- A number and a name were to be put in order. -/
  | unordered
  /-- Groups stand in groups, and the edit may go no deeper. -/
  | tooDeep

/-! ### Places of a list -/

namespace Place
variable {α : Type}

def read (as : List α) (i : Nat) : Except StepFault α :=
  match as[i]? with
  | some a => .ok a
  | none => .error .noPlace

/-- Reads a place that is counted from the end. -/
def readFromEnd (as : List α) (i : Nat) : Except StepFault α := read as.reverse i

def swap (as : List α) (i j : Nat) : Except StepFault (List α) := do
  let a ← read as i
  let b ← read as j
  return (as.set i b).set j a

def remove (as : List α) (i : Nat) : Except StepFault (List α) := do
  let _ ← read as i
  return as.eraseIdx i

def removeLast (as : List α) : Except StepFault (List α) := do
  let _ ← readFromEnd as 0
  return as.dropLast

end Place

/-! ### Keys -/

/-- A part of the key of an entry. Keys are compared part by part. -/
inductive KeyPart where
  | number (n : Nat)
  | name (text : String)
deriving DecidableEq

def KeyPart.lt : KeyPart → KeyPart → Except StepFault Bool
  | number m, number n => .ok (decide (m < n))
  | name a, name b => .ok (!decide (b ≤ a))
  | _, _ => .error .unordered

namespace EntryKey

/-- The parts of a key: of different numbers for the sorts of entries. -/
def parts : EntryKey → List KeyPart
  | library text => [.number 0, .name text]
  | emptySpec => [.number 1, .number 0, .name ""]
  | spec text => [.number 1, .number 1, .name text]
  | unnamedSpec => [.number 1, .number 2, .name ""]
  | other => [.number 2]

/-- The first parts that differ decide. -/
def partsLt : List KeyPart → List KeyPart → Except StepFault Bool
  | [], bs => .ok (!bs.isEmpty)
  | _ :: _, [] => .ok false
  | a :: as, b :: bs => if a = b then partsLt as bs else a.lt b

end EntryKey

/-! ### Lists of entries and of children -/

/-- Puts an entry before the first that it may stand before. -/
def Entry.insert (e : Entry) : List Entry → Except StepFault (List Entry)
  | [] => .ok [e]
  | d :: rest => do
    if ← EntryKey.partsLt d.node.entryKey.parts e.node.entryKey.parts then
      return d :: (← e.insert rest)
    else
      return e :: d :: rest

def Entry.sort : List Entry → Except StepFault (List Entry)
  | [] => .ok []
  | e :: rest => do e.insert (← Entry.sort rest)

/-- Whether a comment stands in the last place but one. -/
def endsComment (cs : List Node) : Except StepFault Bool := do
  if 2 ≤ cs.length then
    return (← Place.readFromEnd cs 1).isComment
  else
    return false

/-- Removes newlines from the end until there is none or it ends a comment. -/
def trim : List Node → Except StepFault (List Node)
  | [] => .ok []
  | c :: rest => do
    if ← endsComment (c :: rest) then
      return c :: rest
    else if (← Place.readFromEnd (c :: rest) 0).isNewline then
      trim (c :: rest).dropLast
    else
      return c :: rest
termination_by cs => cs.length
decreasing_by simp

/-- Removes the last node if there are two or more and none but one before it is a comment. -/
def dropLastUnlessComment (cs : List Node) : Except StepFault (List Node) := do
  if 2 ≤ cs.length then
    if (← Place.readFromEnd cs 1).isComment then
      return cs
    else
      Place.removeLast cs
  else
    return cs

/-! ### Edits -/

/-- An edit of a node in place. -/
abbrev Edit (α : Type) := EStateM StepFault Node α

namespace Edit

def lift {α : Type} (x : Except StepFault α) : Edit α := fun n =>
  match x with
  | .ok a => .ok a n
  | .error fault => .error fault n

def children : Edit (List Node) := fun n => .ok n.children n

def setChildren (cs : List Node) : Edit Unit := do
  let n ← get
  set (← lift ((n.setChildren cs).mapError .tree))

/-- Edits the nodes of a list in turn. -/
def onEach (edit : Edit Unit) : EStateM StepFault (List Node) Unit
  | [] => .ok () []
  | c :: cs =>
    match edit c with
    | .error fault c => .error fault (c :: cs)
    | .ok () c =>
      match onEach edit cs with
      | .error fault cs => .error fault (c :: cs)
      | .ok () cs => .ok () (c :: cs)

/-- Edits the children of a node in turn, from a place on. -/
def onChildrenFrom (start : Nat) (edit : Edit Unit) : Edit Unit
  | .leaf l => .ok () (.leaf l)
  | .group shape cs =>
    match onEach edit (cs.drop start) with
    | .error fault ds => .error fault (.group shape (cs.take start ++ ds))
    | .ok () ds => .ok () (.group shape (cs.take start ++ ds))

def sortImportRequire : Edit Unit := do
  let cs ← children
  let read ← lift ((Entries.readAll {} cs.tail).mapError .tree)
  let entries ← lift (Entry.sort read.entries.reverse)
  let head ← lift (Place.read cs 0)
  setChildren (← lift (dropLastUnlessComment
    (head :: (entries.flatMap Entry.lines ++ Entry.commentLines read.comments.reverse))))

def sortNs : Edit Unit :=
  onChildrenFrom 1 do
    if (← get).isKeywordForm [":require", ":import"] then sortImportRequire

def fixDefnArglist : Edit Unit := do
  let cs ← children
  if cs.length < 5 then return
  if !(← lift (Place.read cs 2)).isNewline then return
  if (← lift (Place.read cs 4)).isNewline then return
  if !(← lift (Place.read cs 3)).isVector then return
  setChildren (← lift (Place.swap cs 2 3))

def fixDefmethodDispatchVal : Edit Unit := do
  let cs ← children
  if cs.length < 5 then return
  if !(← lift (Place.read cs 2)).isNewline then return
  if !(← lift (Place.read cs 3)).isKeyword then return
  if (← lift (Place.read cs 4)).isNewline then
    setChildren (← lift (Place.remove cs 2))
  else
    setChildren (← lift (Place.swap cs 2 3))

/-- Edits a node and then its children, down to a depth. -/
def everywhere (edit : Edit Unit) : Nat → Edit Unit
  | 0 => throw .tooDeep
  | depth + 1 => do
    if (← children).isEmpty then return
    edit
    onChildrenFrom 0 (everywhere edit depth)

def removeTrailingNewlines : Nat → Edit Unit :=
  everywhere do
    if (← get).isGroup then
      setChildren (← lift (trim (← children)))

def removeExtraBlankLines : Nat → Edit Unit :=
  everywhere do
    let cs ← children
    if 2 < cs.length then
      setChildren (Node.collapseBlankLines cs)

/-- Makes the edit if it is on and the node is a list headed by the symbol. -/
def onForm (on : Bool) (name : String) (edit : Edit Unit) : Edit Unit := do
  if on && (← get).isSymbolForm [name] then edit

/-- Makes the edit if it is on. -/
def onlyIf (on : Bool) (edit : Edit Unit) : Edit Unit := if on then edit else pure ()

/-- Applies to a root the transforms that are on. -/
def root (s : Settings) (depth : Nat) : Edit Unit := do
  onForm (s .sortImportRequire) "ns" sortNs
  onlyIf (s .removeTrailingNewlines) (removeTrailingNewlines depth)
  onForm (s .fixDefnArglistNewline) "defn" fixDefnArglist
  onForm (s .fixDefmethodDispatchValNewline) "defmethod" fixDefmethodDispatchVal
  onlyIf (s .removeExtraBlankLines) (removeExtraBlankLines depth)

/-- Applies to a tree the transforms that are on. -/
def forest (s : Settings) (depth : Nat) : EStateM StepFault Forest Unit := do
  onEach (root s depth)
  if s .removeExtraBlankLines then modify Node.collapseBlankLines

end Edit
end ClojureLayout
