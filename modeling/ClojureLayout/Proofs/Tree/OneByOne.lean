import ClojureLayout.Proofs.Tree.Total

/-! The transforms one at a time. With one transform on, formatting applies it to each root by itself
    (`Forest.apply`). With several on, formatting goes through all of them root by root; since no transform
    looks beyond its root, and the blank lines between the roots go last, this comes to applying them to
    the whole tree one after the other. -/

namespace ClojureLayout

/-- The settings with one transform on. -/
def Settings.only (t : Transform) : Settings := fun u => decide (u = t)

namespace Node

/-- A root after one transform. -/
def apply : Transform → Node → Except TreeFault Node
  | .sortImportRequire, root => if root.isSymbolForm ["ns"] then root.sortNs else .ok root
  | .removeTrailingNewlines, root => .ok root.removeTrailingNewlines
  | .fixDefnArglistNewline, root => if root.isSymbolForm ["defn"] then root.fixDefnArglist else .ok root
  | .fixDefmethodDispatchValNewline, root =>
    if root.isSymbolForm ["defmethod"] then root.fixDefmethodDispatchVal else .ok root
  | .removeExtraBlankLines, root => .ok root.removeExtraBlankLines

/-- What a transform makes of a root. -/
def applied : Transform → Node → Node
  | .sortImportRequire => changedForm true "ns" sortedClauses
  | .removeTrailingNewlines => removeTrailingNewlines
  | .fixDefnArglistNewline => changedForm true "defn" raiseArglist
  | .fixDefmethodDispatchValNewline => changedForm true "defmethod" raiseDispatchVal
  | .removeExtraBlankLines => removeExtraBlankLines

theorem changedForm_eq_ok {name : String} {f : List Node → List Node} {g : Node → Except TreeFault Node}
    (hg : ∀ n, g n = .ok (n.mapChildren f)) (root : Node) :
    (if root.isSymbolForm [name] then g root else .ok root) = .ok (root.changedForm true name f) := by
  unfold changedForm
  rw [Bool.true_and]
  split
  · exact hg root
  · rfl

theorem apply_eq_ok (t : Transform) (root : Node) : root.apply t = .ok (root.applied t) := by
  cases t with
  | sortImportRequire => exact changedForm_eq_ok sortNs_eq_ok root
  | removeTrailingNewlines => rfl
  | fixDefnArglistNewline => exact changedForm_eq_ok fixDefnArglist_eq_ok root
  | fixDefmethodDispatchValNewline => exact changedForm_eq_ok fixDefmethodDispatchVal_eq_ok root
  | removeExtraBlankLines => rfl

theorem formatted_only (t : Transform) : formatted (Settings.only t) = applied t := by
  cases t <;> rfl

theorem changedForm_eq_ite (on : Bool) (name : String) (f : List Node → List Node) (root : Node) :
    root.changedForm on name f = if on then root.changedForm true name f else root := by
  cases on <;> rfl

/-- A root is formatted by the transforms that are on, one after the other. -/
theorem formatted_eq_foldl (s : Settings) (root : Node) :
    root.formatted s = (Transform.all.filter s).foldl (fun root t => root.applied t) root := by
  have hsorted (n : Node) : n.sortedRoot s = if s .sortImportRequire then n.applied .sortImportRequire else n :=
    changedForm_eq_ite _ _ _ n
  have harglist (n : Node) :
      n.arglistRoot s = if s .fixDefnArglistNewline then n.applied .fixDefnArglistNewline else n :=
    changedForm_eq_ite _ _ _ n
  have hdispatchVal (n : Node) :
      n.dispatchValRoot s = if s .fixDefmethodDispatchValNewline then n.applied .fixDefmethodDispatchValNewline else n :=
    changedForm_eq_ite _ _ _ n
  rw [List.foldl_filter, formatted, hdispatchVal, harglist, hsorted]
  rfl

end Node

namespace Forest
open Node

/-- A tree after one transform. -/
def apply (t : Transform) (roots : Forest) : Except TreeFault Forest := do
  let roots ← roots.mapM (Node.apply t)
  return if t = .removeExtraBlankLines then collapseBlankLines roots else roots

theorem formatted_only (t : Transform) (roots : Forest) : formatted (Settings.only t) roots =
    if t = .removeExtraBlankLines then collapseBlankLines (roots.map (Node.applied t)) else roots.map (Node.applied t) := by
  rw [formatted, Node.formatted_only]
  cases t <;> rfl

theorem format_only (t : Transform) (roots : Forest) : format (Settings.only t) roots = apply t roots := by
  rw [format_eq_ok, apply, mapM_eq_ok (apply_eq_ok t), formatted_only]
  rfl

/-- Changes that go through a list element by element may be made element by element. -/
theorem foldl_map_eq {α τ : Type} {f : List α → τ → List α} {g : α → τ → α} {ts : List τ}
    (hf : ∀ t ∈ ts, ∀ as, f as t = as.map (g · t)) (as : List α) :
    ts.foldl f as = as.map fun a => ts.foldl g a := by
  induction ts generalizing as with
  | nil => exact (List.map_id as).symm
  | cons t ts ih =>
    rw [List.foldl_cons, hf t List.mem_cons_self, ih fun u hu => hf u (List.mem_cons_of_mem t hu), List.map_map]
    rfl

theorem foldlM_eq_ok {α τ ε : Type} {f : α → τ → Except ε α} {g : α → τ → α} (h : ∀ a t, f a t = .ok (g a t)) (a : α)
    (ts : List τ) : ts.foldlM f a = .ok (ts.foldl g a) := by
  induction ts generalizing a with
  | nil => rfl
  | cons t ts ih =>
    rw [List.foldlM_cons, h]
    exact ih (g a t)

/-- The transforms other than the last do not look at the roots around a root. -/
theorem foldl_formatted_only {ts : List Transform} (h : .removeExtraBlankLines ∉ ts) (roots : Forest) :
    ts.foldl (fun roots t => formatted (Settings.only t) roots) roots =
      roots.map fun root => ts.foldl (fun root t => root.applied t) root := by
  refine foldl_map_eq (fun t ht roots => ?_) roots
  have hne : t ≠ .removeExtraBlankLines := by
    rintro rfl
    exact h ht
  rw [formatted_only, if_neg hne]

theorem foldl_formatted (s : Settings) (roots : Forest) :
    (Transform.all.filter s).foldl (fun roots t => formatted (Settings.only t) roots) roots = formatted s roots := by
  -- The last transform alone looks at the list of the roots, so it is taken off first.
  obtain ⟨init, hinit, hmem⟩ : ∃ init, Transform.all = init ++ [.removeExtraBlankLines] ∧ .removeExtraBlankLines ∉ init :=
    ⟨Transform.all.dropLast, rfl, by decide⟩
  have hrest : .removeExtraBlankLines ∉ init.filter s := fun h => hmem (List.mem_filter.mp h).1
  have hroot : Node.formatted s = fun root => (Transform.all.filter s).foldl (fun root t => root.applied t) root :=
    funext (formatted_eq_foldl s)
  rw [formatted, hroot, hinit, List.filter_append, List.foldl_append, foldl_formatted_only hrest]
  cases hlast : s .removeExtraBlankLines with
  | false => simp [hlast]
  | true =>
    simp only [List.filter_cons, hlast, if_true, List.filter_nil, List.foldl_cons, List.foldl_nil, formatted_only,
      List.foldl_append, List.map_map]
    rfl

/-- Formatting a tree comes to applying to it, one after the other and each to all of it, the transforms that are on;
    and with one transform on it applies that one. -/
theorem format_eq_transforms_in_turn (s : Settings) (roots : Forest) : ∃ out, format s roots = .ok out ∧
    (Transform.all.filter s).foldlM (fun roots t => format (Settings.only t) roots) roots = .ok out ∧
    ∀ t trees, format (Settings.only t) trees = apply t trees := by
  refine ⟨formatted s roots, format_eq_ok s roots, ?_, format_only⟩
  rw [foldlM_eq_ok fun roots t => format_eq_ok (Settings.only t) roots, foldl_formatted]

end Forest
end ClojureLayout
