import ClojureLayout.Proofs.Tree.Idempotence
import ClojureLayout.Proofs.Tree.OneByOne

/-! A transform applied twice. Each transform settles by itself: what has moved up does not move again, the
    newlines that were to go have gone, and the lines of a sorted list are read as its own entries, in
    order. (Several of them together need not settle: see `Unsettled`.) -/

namespace ClojureLayout
namespace Node
variable {cs : List Node} {f : List Node → List Node} {p : Node → Node → Prop}

/-! ### Lists of children -/

theorem trimChildren_idem (cs : List Node) : trimChildren (trimChildren cs) = trimChildren cs :=
  trimChildren_eq_self (trimmed_trimChildren cs)

/-- What has moved up has left the place that a node moves from. -/
theorem Raises.idem (hf : Raises f p) (cs : List Node) : f (f cs) = f cs := by
  rcases hf.cases cs with h | ⟨head, name, x, next, rest, rfl, hx, ⟨-, h⟩ | ⟨-, h⟩⟩
  · rw [h, h]
  · rw [h]
    exact hf.stays _ (not_moves_of_third hx)
  · rw [h]
    exact hf.stays _ (not_moves_of_third hx)

theorem sortedChildren_idem (cs : List Node) : sortedChildren (sortedChildren cs) = sortedChildren cs := by
  rcases cs with _ | ⟨head, rest⟩
  · rfl
  · obtain ⟨es, texts, hwritten, hes⟩ := sortedChildren_entries head rest
    have hsorted : es.mergeSort Entry.le = es := by
      rw [mergeSort_eq_self_iff, hes]
      exact List.pairwise_mergeSort mayPrecede_trans mayPrecede_total _
    rw [hwritten, sortedChildren_written (isSemantic_of_map_node hes), hsorted]

theorem sortedChildren_cons (head : Node) (rest : List Node) : ∃ ds, sortedChildren (head :: rest) = head :: ds := by
  obtain ⟨es, texts, hwritten, -⟩ := sortedChildren_entries head rest
  obtain ⟨ds, hds, -⟩ := written_cons head es texts
  exact ⟨ds, hwritten.trans hds⟩

theorem first_sortedChildren (cs : List Node) : first (sortedChildren cs) = first cs := by
  rcases cs with _ | ⟨head, rest⟩
  · rfl
  · obtain ⟨ds, hds⟩ := sortedChildren_cons head rest
    rw [hds]
    rfl

/-! ### Nodes -/

theorem mapChildren_idem (hf : ∀ cs, f (f cs) = f cs) (n : Node) :
    (n.mapChildren f).mapChildren f = n.mapChildren f := by
  cases n using Node.casesOn with
  | leaf l => rfl
  | group shape cs => rw [mapChildren_group, mapChildren_group, hf]

theorem everywhere_idem (hshallow : Shallow f) (hf : ∀ cs, f (f cs) = f cs) (n : Node) :
    (n.everywhere f).everywhere f = n.everywhere f := by
  rw [everywhere_everywhere hshallow, funext hf]

theorem removeTrailingNewlines_idem (n : Node) : n.removeTrailingNewlines.removeTrailingNewlines = n.removeTrailingNewlines :=
  everywhere_idem shallow_trimChildren trimChildren_idem n

theorem removeExtraBlankLines_idem (n : Node) : n.removeExtraBlankLines.removeExtraBlankLines = n.removeExtraBlankLines := by
  simp only [removeExtraBlankLines_eq]
  exact everywhere_idem shallow_collapseBlankLines collapseBlankLines_idem n

theorem isKeywordForm_mapChildren (hf : ∀ cs, first (f cs) = first cs) (names : List String) (n : Node) :
    (n.mapChildren f).isKeywordForm names = n.isKeywordForm names := by
  rw [Bool.eq_iff_iff, isKeywordForm_iff, isKeywordForm_iff]
  simp only [headed_mapChildren hf (Leaf.noConfusion : Leaf.keyword _ = .newline → False)]

theorem sortedClause_idem (c : Node) : c.sortedClause.sortedClause = c.sortedClause := by
  cases hform : c.isKeywordForm [":require", ":import"] with
  | false => simp only [sortedClause, hform, Bool.false_eq_true, if_false]
  | true =>
    have hagain : (c.mapChildren sortedChildren).isKeywordForm [":require", ":import"] = true := by
      rw [isKeywordForm_mapChildren first_sortedChildren, hform]
    simp only [sortedClause, hform, hagain, if_true]
    exact mapChildren_idem sortedChildren_idem c

theorem sortedClauses_idem (cs : List Node) : sortedClauses (sortedClauses cs) = sortedClauses cs := by
  rcases cs with _ | ⟨head, clauses⟩
  · rfl
  · rw [sortedClauses, sortedClauses, List.map_map]
    exact congrArg (head :: ·) (List.map_congr_left fun c _ => sortedClause_idem c)

theorem changedForm_idem (hfirst : ∀ cs, first (f cs) = first cs) (hf : ∀ cs, f (f cs) = f cs) (name : String)
    (n : Node) : (n.changedForm true name f).changedForm true name f = n.changedForm true name f := by
  cases hform : n.isSymbolForm [name] with
  | false => rw [changedForm_eq_self hform, changedForm_eq_self hform]
  | true =>
    have hagain : (n.mapChildren f).isSymbolForm [name] = true := by rw [isSymbolForm_mapChildren hfirst, hform]
    rw [changedForm_eq_mapChildren hform, changedForm_eq_mapChildren hagain, mapChildren_idem hf]

theorem applied_idem (t : Transform) (n : Node) : (n.applied t).applied t = n.applied t := by
  cases t with
  | sortImportRequire => exact changedForm_idem first_sortedClauses sortedClauses_idem "ns" n
  | removeTrailingNewlines => exact removeTrailingNewlines_idem n
  | fixDefnArglistNewline => exact changedForm_idem raises_raiseArglist.first_eq raises_raiseArglist.idem "defn" n
  | fixDefmethodDispatchValNewline =>
    exact changedForm_idem raises_raiseDispatchVal.first_eq raises_raiseDispatchVal.idem "defmethod" n
  | removeExtraBlankLines => exact removeExtraBlankLines_idem n

theorem applied_keepsShape (t : Transform) : KeepsShape (applied t) := by
  rw [← formatted_only]
  exact formatted_keepsShape (Settings.only t)

end Node

namespace Forest
open Node

theorem formatted_only_idem (t : Transform) (roots : Forest) :
    formatted (Settings.only t) (formatted (Settings.only t) roots) = formatted (Settings.only t) roots := by
  rw [formatted_only, formatted_only]
  split
  · rw [map_settles_iff shallow_collapseBlankLines collapseBlankLines_idem quiet_collapseBlankLines (applied_keepsShape t)]
    exact fun root _ => applied_idem t root
  · rw [List.map_map]
    exact List.map_congr_left fun root _ => applied_idem t root

end Forest

/-- The change goes through, and when it is made again it changes nothing more. -/
def Settles {α : Type} (change : α → Except TreeFault α) (a : α) : Prop :=
  ∃ out, change a = .ok out ∧ change out = .ok out

theorem settles_of_idem {α : Type} {change : α → Except TreeFault α} {changed : α → α}
    (hchange : ∀ a, change a = .ok (changed a)) (hidem : ∀ a, changed (changed a) = changed a) (a : α) :
    Settles change a :=
  ⟨changed a, hchange a, by rw [hchange, hidem]⟩

open Node

theorem settles_sortImportRequire {n : Node} (h : n.children ≠ []) : Settles sortImportRequire n := by
  have hagain : (n.mapChildren sortedChildren).children ≠ [] := by
    cases n using Node.casesOn with
    | leaf l => exact h
    | group shape cs =>
      obtain ⟨head, rest, rfl⟩ := List.exists_cons_of_ne_nil h
      obtain ⟨ds, hds⟩ := sortedChildren_cons head rest
      rw [mapChildren_group, children_group, hds]
      exact List.cons_ne_nil head ds
  refine ⟨n.mapChildren sortedChildren, sortImportRequire_eq_ok h, ?_⟩
  rw [sortImportRequire_eq_ok hagain, mapChildren_idem sortedChildren_idem]

/-- Each transform alone settles on every tree, and so does what it consists of on every node; the sort of a list does
    on every node that has a head to sort after. -/
theorem transforms_settle : (∀ t roots, Settles (Forest.format (Settings.only t)) roots) ∧
    (∀ n : Node, n.children ≠ [] → Settles sortImportRequire n) ∧ (∀ n, Settles sortNs n) ∧
    (∀ n : Node, n.removeTrailingNewlines.removeTrailingNewlines = n.removeTrailingNewlines) ∧
    (∀ n, Settles fixDefnArglist n) ∧ (∀ n, Settles fixDefmethodDispatchVal n) ∧
    (∀ n : Node, n.removeExtraBlankLines.removeExtraBlankLines = n.removeExtraBlankLines) ∧
    ∀ cs, collapseBlankLines (collapseBlankLines cs) = collapseBlankLines cs := by
  refine ⟨fun t => ?_, fun n => settles_sortImportRequire, ?_, removeTrailingNewlines_idem, ?_, ?_,
    removeExtraBlankLines_idem, collapseBlankLines_idem⟩
  · exact settles_of_idem (Forest.format_eq_ok _) (Forest.formatted_only_idem t)
  · exact settles_of_idem sortNs_eq_ok (mapChildren_idem sortedClauses_idem)
  · exact settles_of_idem fixDefnArglist_eq_ok (mapChildren_idem raises_raiseArglist.idem)
  · exact settles_of_idem fixDefmethodDispatchVal_eq_ok (mapChildren_idem raises_raiseDispatchVal.idem)

/-- Of two comments beside an entry the second stays beside it; what is left is sorted. -/
theorem transforms_settle_with_adjacent_comments :
    children (.group .list [.leaf (.keyword ":require"), .leaf (.symbol "b"), comment "; 1", comment "; 2", newline,
      comment "; 3", .leaf (.symbol "a")]) ≠ [] ∧
    sortImportRequire (.group .list [.leaf (.keyword ":require"), .leaf (.symbol "b"), comment "; 1", comment "; 2",
      newline, comment "; 3", .leaf (.symbol "a")]) =
      .ok (.group .list [.leaf (.keyword ":require"), comment "; 3", newline, .leaf (.symbol "a"), newline,
        .leaf (.symbol "b"), comment "; 2", newline]) ∧
    sortImportRequire (.group .list [.leaf (.keyword ":require"), comment "; 3", newline, .leaf (.symbol "a"), newline,
      .leaf (.symbol "b"), comment "; 2", newline]) =
      .ok (.group .list [.leaf (.keyword ":require"), comment "; 3", newline, .leaf (.symbol "a"), newline,
        .leaf (.symbol "b"), comment "; 2", newline]) := by
  have hne : children (.group .list [.leaf (.keyword ":require"), .leaf (.symbol "b"), comment "; 1", comment "; 2",
      newline, comment "; 3", .leaf (.symbol "a")]) ≠ [] := List.cons_ne_nil _ _
  have hsort : sortImportRequire (.group .list [.leaf (.keyword ":require"), .leaf (.symbol "b"), comment "; 1",
      comment "; 2", newline, comment "; 3", .leaf (.symbol "a")]) =
      .ok (.group .list [.leaf (.keyword ":require"), comment "; 3", newline, .leaf (.symbol "a"), newline,
        .leaf (.symbol "b"), comment "; 2", newline]) := by cbv
  obtain ⟨out, hout, hagain⟩ := transforms_settle.2.1 _ hne
  obtain rfl := Except.ok.inj (hsort.symm.trans hout)
  exact ⟨hne, hsort, hagain⟩

end ClojureLayout
