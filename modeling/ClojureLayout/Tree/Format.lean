import ClojureLayout.Tree.Definition
import ClojureLayout.Tree.Newlines
import ClojureLayout.Tree.Requires
import ClojureLayout.Tree.Transform

/-!
# Formatting a tree

The transforms that are on are applied to each root in turn. Blank lines between the roots go last,
since moving lines together can make new ones.
-/

namespace ClojureLayout

/-- A root after the transforms that are on. -/
def Node.format (s : Settings) (root : Node) : Except TreeFault Node := do
  let root ← if s .sortImportRequire && root.isSymbolForm ["ns"] then root.sortNs else .ok root
  let root := if s .removeTrailingNewlines then root.removeTrailingNewlines else root
  let root ←
    if s .fixDefnArglistNewline && root.isSymbolForm ["defn"] then root.fixDefnArglist else .ok root
  let root ←
    if s .fixDefmethodDispatchValNewline && root.isSymbolForm ["defmethod"] then
      root.fixDefmethodDispatchVal
    else .ok root
  return if s .removeExtraBlankLines then root.removeExtraBlankLines else root

/-- A tree after the transforms that are on. -/
def Forest.format (s : Settings) (roots : Forest) : Except TreeFault Forest := do
  let roots ← roots.mapM (Node.format s)
  return if s .removeExtraBlankLines then Node.collapseBlankLines roots else roots

end ClojureLayout
