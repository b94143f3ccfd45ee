import ClojureLayout.Tree.Node

/-!
# The first line of a definition

In a definition the argument vector, or the value that a method dispatches on, is moved up to the
line of the name where the line is broken between them.
-/

namespace ClojureLayout

namespace Node

/-- Moves a vector that stands on the line after the name up to the name, if something follows it on
    its line: the newline before it goes behind it. -/
def fixDefnArglist (n : Node) : Except TreeFault Node :=
  match n.children with
  | head :: name :: gap :: args :: next :: rest =>
    if gap.isNewline && !next.isNewline && args.isVector then
      n.setChildren (head :: name :: args :: gap :: next :: rest)
    else .ok n
  | _ => .ok n

/-- Moves a keyword that stands on the line after the name up to the name, keeping one newline
    behind it. -/
def fixDefmethodDispatchVal (n : Node) : Except TreeFault Node :=
  match n.children with
  | head :: name :: gap :: value :: next :: rest =>
    if gap.isNewline && value.isKeyword then
      if next.isNewline then n.setChildren (head :: name :: value :: next :: rest)
      else n.setChildren (head :: name :: value :: gap :: next :: rest)
    else .ok n
  | _ => .ok n

end Node

end ClojureLayout
