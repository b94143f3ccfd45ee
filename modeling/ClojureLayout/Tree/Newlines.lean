import ClojureLayout.Tree.Node

/-!
# Newlines that a layout can do without

Two of them: the newlines before the closing delimiter of a group, unless one ends a comment there,
and the newlines that make a second blank line of a first one.
-/

namespace ClojureLayout

namespace Node

/-- Takes newlines off the end of a list of nodes that is given last node first. A comment keeps the
    newline that ends it. -/
def trimEnd : List Node → List Node
  | last :: before :: rest =>
    if before.isComment then last :: before :: rest
    else if last.isNewline then trimEnd (before :: rest)
    else last :: before :: rest
  | [last] => if last.isNewline then [] else [last]
  | [] => []

/-- The children of a group without the newlines before its closing delimiter. -/
def trimChildren (cs : List Node) : List Node := (trimEnd cs.reverse).reverse

/-- The node without the newlines before closing delimiters, at every depth. -/
def removeTrailingNewlines (n : Node) : Node := n.everywhere trimChildren

/-- The nodes without the newlines past the second in a row, `run` of them standing before the list.
    -/
def collapseAfter (run : Nat) : List Node → List Node
  | [] => []
  | n :: rest =>
    let run := if n.isNewline then run + 1 else 0
    if run ≤ 2 then n :: collapseAfter run rest else collapseAfter run rest

/-- The nodes without the newlines past the second in a row. -/
def collapseBlankLines (cs : List Node) : List Node := collapseAfter 0 cs

/-- The children of a group without the newlines past the second in a row, of which two children
    hold none. -/
def collapseChildren (cs : List Node) : List Node :=
  if cs.length > 2 then collapseBlankLines cs else cs

/-- The node without the newlines past the second in a row, at every depth. -/
def removeExtraBlankLines (n : Node) : Node := n.everywhere collapseChildren

end Node

end ClojureLayout
