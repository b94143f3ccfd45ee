/-!
# Syntax trees

A tree keeps what the source wrote, line breaks and comments included: they are nodes among the
others. A node is a leaf, or a group of nodes between a pair of delimiters.
-/

namespace ClojureLayout

/-- A node without children. The text of a comment includes its semicolons. -/
inductive Leaf where
  | symbol (name : String)
  | keyword (name : String)
  | string (text : String)
  | number (text : String)
  | comment (text : String)
  /-- One line break. -/
  | newline
deriving DecidableEq

/-- The delimiters of a group. -/
inductive Shape where
  /-- In round brackets. -/
  | list
  /-- In square brackets. -/
  | vector
  /-- In braces. -/
  | map
  /-- In braces after an octothorpe. -/
  | set
  /-- In round brackets after an octothorpe. -/
  | function
deriving DecidableEq

inductive Node where
  | leaf (l : Leaf)
  | group (shape : Shape) (children : List Node)

/-- The roots of a tree: the forms of a source with the newlines and comments between them. -/
abbrev Forest := List Node

/-- The name under which a leaf is shown. -/
def Leaf.title : Leaf → String
  | symbol _ => "SymbolNode"
  | keyword _ => "KeywordNode"
  | string _ => "StringNode"
  | number _ => "NumberNode"
  | comment _ => "CommentNode"
  | newline => "NewlineNode"

/-- The name under which a group is shown. -/
def Shape.title : Shape → String
  | list => "ListNode"
  | vector => "VectorNode"
  | map => "MapNode"
  | set => "SetNode"
  | function => "FnLiteralNode"

/-- Why a change of a tree cannot go on. -/
inductive TreeFault where
  /-- A form was to be sorted after its head, and it is empty. -/
  | noHead
  /-- A comment was to be attached to an entry, and there is none. -/
  | noEntry
  /-- Children were to be given to a leaf. -/
  | childless (l : Leaf)
deriving DecidableEq

def TreeFault.message : TreeFault → String
  | noHead | noEntry => "list index out of range"
  | childless l => l.title ++ " has no children"

namespace Node

mutual

def decEq : (a b : Node) → Decidable (a = b)
  | .leaf l, .leaf m => decidable_of_iff (l = m) (by simp)
  | .leaf _, .group _ _ => isFalse (by simp)
  | .group _ _, .leaf _ => isFalse (by simp)
  | .group p cs, .group q ds =>
    match (inferInstance : Decidable (p = q)), decEqAll cs ds with
    | isTrue h, isTrue k => isTrue (by rw [h, k])
    | isFalse h, _ => isFalse (by simp [h])
    | _, isFalse k => isFalse (by simp [k])

def decEqAll : (cs ds : List Node) → Decidable (cs = ds)
  | [], [] => isTrue rfl
  | [], _ :: _ => isFalse (by simp)
  | _ :: _, [] => isFalse (by simp)
  | c :: cs, d :: ds =>
    match decEq c d, decEqAll cs ds with
    | isTrue h, isTrue k => isTrue (by rw [h, k])
    | isFalse h, _ => isFalse (by simp [h])
    | _, isFalse k => isFalse (by simp [k])

end

instance : DecidableEq Node := decEq

abbrev newline : Node := .leaf .newline

abbrev comment (text : String) : Node := .leaf (.comment text)

/-- The nodes of a group; a leaf has none. -/
def children : Node → List Node
  | .leaf _ => []
  | .group _ cs => cs

/-- The group with other children. -/
def setChildren (cs : List Node) : Node → Except TreeFault Node
  | .leaf l => .error (.childless l)
  | .group shape _ => .ok (.group shape cs)

def isNewline : Node → Bool
  | .leaf .newline => true
  | _ => false

def isComment : Node → Bool
  | .leaf (.comment _) => true
  | _ => false

def isKeyword : Node → Bool
  | .leaf (.keyword _) => true
  | _ => false

def isGroup : Node → Bool
  | .leaf _ => false
  | .group _ _ => true

def isVector : Node → Bool
  | .group .vector _ => true
  | _ => false

def isListOrVector : Node → Bool
  | .group .list _ | .group .vector _ => true
  | _ => false

/-- The node is code: neither a line break nor a comment. -/
def isSemantic (n : Node) : Bool := !n.isNewline && !n.isComment

/-- The node is a list headed by one of the named symbols. -/
def isSymbolForm (names : List String) : Node → Bool
  | .group .list (.leaf (.symbol name) :: _) => names.contains name
  | _ => false

/-- The node is a list headed by one of the named keywords. -/
def isKeywordForm (names : List String) : Node → Bool
  | .group .list (.leaf (.keyword name) :: _) => names.contains name
  | _ => false

mutual

/-- The node with the children of every group in it, itself included, changed by `f`, inner groups
    first. -/
def everywhere (f : List Node → List Node) : Node → Node
  | .leaf l => .leaf l
  | .group shape cs => .group shape (f (everywhereAll f cs))

/-- The nodes, each with the children of every group in it changed by `f`. -/
def everywhereAll (f : List Node → List Node) : List Node → List Node
  | [] => []
  | c :: cs => everywhere f c :: everywhereAll f cs

end

theorem everywhereAll_eq_map (f : List Node → List Node) (cs : List Node) :
    everywhereAll f cs = cs.map (everywhere f) := by
  induction cs with
  | nil => rfl
  | cons c cs ih => rw [everywhereAll, ih, List.map_cons]

end Node

end ClojureLayout
