import ClojureLayout.Text.Quoted
import ClojureLayout.Tree.Node

/-!
# The outline of a tree

One node to a line, indented by two spaces for each group around it, with the text of the leaves
that have one.
-/

namespace ClojureLayout

/-- The text that a leaf stands for, if it has one. -/
def Leaf.text? : Leaf → Option String
  | .symbol t | .keyword t | .string t | .number t | .comment t => some t
  | .newline => none

def Leaf.outline (l : Leaf) : String :=
  match l.text? with
  | some t => l.title ++ "(" ++ Text.quoted t ++ ")"
  | none => l.title

/-- The indentation of a node with `depth` levels above it. -/
def indentation (depth : Nat) : String := String.ofList (List.replicate (2 * depth) ' ')

mutual

def Node.outline (depth : Nat) : Node → List String
  | .leaf l => [indentation depth ++ l.outline]
  | .group shape cs => (indentation depth ++ shape.title) :: Node.outlineAll (depth + 1) cs

def Node.outlineAll (depth : Nat) : List Node → List String
  | [] => []
  | c :: cs => c.outline depth ++ Node.outlineAll depth cs

end

def Forest.outline (roots : Forest) : String :=
  String.join (("Tree" :: Node.outlineAll 1 roots).map (· ++ "\n"))

end ClojureLayout
