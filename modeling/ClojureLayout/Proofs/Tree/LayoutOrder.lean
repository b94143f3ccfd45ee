import ClojureLayout.Proofs.Tree.Arrangement
import ClojureLayout.Proofs.Tree.Meaning
import Mathlib.Data.List.GetD

/-! What the layout of entries has to do with their order. The sort knows an entry by the code in it, but for a
    list or vector that begins with a newline or a comment: that one is taken for one led by no symbol
    (`isVeiled`). So two lists with the same code in their entries can be put in different orders, and it is
    said exactly when they are. -/

namespace ClojureLayout

/-! ### Sorting by one order and by another -/

section
variable {α : Type} {le le' : α → α → Bool}

theorem mergeSort_cons_eq (trans : ∀ a b c, le a b → le b c → le a c) (total : ∀ a b, le a b || le b a) (a : α)
    (l : List α) : (a :: l).mergeSort le =
      (l.mergeSort le).filter (fun b => !le a b) ++ a :: (l.mergeSort le).filter (le a) := by
  obtain ⟨before, after, hcons, hl, hbefore, hafter⟩ := mergeSort_cons trans total a l
  have hleft : before.filter (fun b => !le a b) = before := by simpa using hbefore
  have hleft' : before.filter (le a) = [] := by simpa using hbefore
  have hright : after.filter (fun b => !le a b) = [] := by simpa using hafter
  have hright' : after.filter (le a) = after := by simpa using hafter
  rw [hcons, hl, List.filter_append, List.filter_append, hleft, hleft', hright, hright', List.append_nil,
    List.nil_append]

/-- Two orders sort a list in the same way exactly where they agree on each two of its elements as these stand. -/
theorem mergeSort_eq_iff (trans : ∀ a b c, le a b → le b c → le a c) (total : ∀ a b, le a b || le b a)
    (trans' : ∀ a b c, le' a b → le' b c → le' a c) (total' : ∀ a b, le' a b || le' b a) (l : List α) :
    l.mergeSort le = l.mergeSort le' ↔ l.Pairwise fun a b => le a b = le' a b := by
  constructor
  · intro h
    -- Of a pair that is in order by `le` the sort by `le` keeps the order, and what that sort gives is in order by `le'`.
    refine List.pairwise_of_forall_sublist fun {a b} hsub => Bool.eq_iff_iff.mpr ⟨fun hab => ?_, fun hab => ?_⟩
    · have hsorted := List.pair_sublist_mergeSort trans total hab hsub
      rw [h] at hsorted
      exact (List.pairwise_mergeSort trans' total' l).forall_sublist hsorted
    · have hsorted := List.pair_sublist_mergeSort trans' total' hab hsub
      rw [← h] at hsorted
      exact (List.pairwise_mergeSort trans total l).forall_sublist hsorted
  · intro h
    induction l with
    | nil => rw [List.mergeSort_nil, List.mergeSort_nil]
    | cons a l ih =>
      -- The head goes to one place: the orders agree about it and each element behind it.
      obtain ⟨ha, hl⟩ := List.pairwise_cons.mp h
      have hle : ∀ b ∈ l.mergeSort le', le a b = le' a b := fun b hb => ha b (List.mem_mergeSort.mp hb)
      have hbefore : (l.mergeSort le').filter (fun b => !le a b) = (l.mergeSort le').filter fun b => !le' a b :=
        List.filter_congr fun b hb => by rw [hle b hb]
      rw [mergeSort_cons_eq trans total, mergeSort_cons_eq trans' total', ih hl, hbefore, List.filter_congr hle]

end

/-! ### The order of a list of keys -/

namespace EntryKey

/-- Whether the key at one place may stand before the key at another. -/
def leAt (keys : List EntryKey) (i j : Nat) : Bool := (keys.getD i .other).le (keys.getD j .other)

theorem leAt_trans (keys : List EntryKey) (i j k : Nat) : leAt keys i j → leAt keys j k → leAt keys i k := le_trans

theorem leAt_total (keys : List EntryKey) (i j : Nat) : leAt keys i j || leAt keys j i := le_total _ _

/-- The places of the keys in the order of the sort. -/
def order (keys : List EntryKey) : List Nat := (List.range keys.length).mergeSort (leAt keys)

/-- Two lists of keys are put in one order exactly where each two keys may stand as they stand in both or in none. -/
theorem order_eq_iff {keys keys' : List EntryKey} (h : keys'.length = keys.length) : order keys = order keys' ↔
    (keys.zip keys').Pairwise fun p q => p.1.le q.1 = p.2.le q.2 := by
  rw [order, order, h, mergeSort_eq_iff (leAt_trans keys) (leAt_total keys) (leAt_trans keys') (leAt_total keys'),
    List.pairwise_iff_getElem, List.pairwise_iff_getElem]
  simp only [List.length_range, List.length_zip, h, Nat.min_self, List.getElem_range, List.getElem_zip]
  refine forall₂_congr fun i j => forall₂_congr fun hi hj => ?_
  rw [leAt, leAt, List.getD_eq_getElem _ _ hi, List.getD_eq_getElem _ _ hj, List.getD_eq_getElem _ _ (h ▸ hi),
    List.getD_eq_getElem _ _ (h ▸ hj)]

end EntryKey

namespace Node
variable {n : Node}

theorem map_getElem?_range {α : Type} (as : List α) : (List.range as.length).map (as[·]?) = as.map some := by
  refine List.ext_getElem (by simp) fun i hi _ => ?_
  have hlt : i < as.length := by simpa using hi
  simp [hlt]

/-- The sort puts the nodes in the order of their keys. -/
theorem map_order (ns : List Node) :
    (EntryKey.order (ns.map entryKey)).map (ns[·]?) = (ns.mergeSort mayPrecede).map some := by
  have hkey (i : Nat) : (ns.map entryKey).getD i .other = (ns[i]?.map entryKey).getD .other := by
    rw [List.getD_eq_getElem?_getD, List.getElem?_map]
  let le (a b : Option Node) : Bool := ((a.map entryKey).getD .other).le ((b.map entryKey).getD .other)
  calc (EntryKey.order (ns.map entryKey)).map (ns[·]?)
    _ = ((List.range ns.length).map (ns[·]?)).mergeSort le := by
      rw [EntryKey.order, List.length_map]
      exact List.map_mergeSort fun i _ j _ => by rw [EntryKey.leAt, hkey, hkey]
    _ = (ns.map some).mergeSort le := by rw [map_getElem?_range]
    _ = (ns.mergeSort mayPrecede).map some := by
      have hnodes : ∀ a ∈ ns, ∀ b ∈ ns, mayPrecede a b = le (some a) (some b) := fun _ _ _ _ => rfl
      rw [List.map_mergeSort hnodes]

/-! ### Keys and layout -/

/-- The node is a list or vector that begins with a newline or a comment. -/
def isVeiled (n : Node) : Bool := n.isListOrVector && n.children.head?.any (!·.isSemantic)

/-- The key of a node by its code, but for a veiled one, which counts as led by no symbol. -/
def layoutKey (n : Node) : EntryKey := if n.isVeiled then .unnamedSpec else n.code.entryKey

theorem entryKey_eq_layoutKey (n : Node) : n.entryKey = n.layoutKey := by
  unfold layoutKey
  rcases n with l | ⟨shape, _ | ⟨c, cs⟩⟩
  · rfl
  · cases shape <;> rfl
  · -- The key looks at the first child only: the code drops it where it is layout, and else keeps its shape.
    rw [code_group]
    cases hc : c.isSemantic with
    | false =>
      rcases gap_cases hc with rfl | ⟨text, rfl⟩
      · cases shape <;> rfl
      · cases shape <;> rfl
    | true =>
      have hveiled : isVeiled (.group shape (c :: cs)) = false := by simp [isVeiled, hc]
      rw [hveiled, if_neg Bool.false_ne_true, List.filter_cons_of_pos hc, List.map_cons]
      rcases c with l | ⟨inner, ds⟩
      · rw [code_keepsShape.leaf]
        cases shape <;> cases l <;> rfl
      · rw [code_group]
        cases shape <;> rfl

/-! ### The order of a list -/

/-- The sort puts the entries of a list at their places in the order of their keys. -/
theorem sortImportRequire_order (shape : Shape) (head : Node) (rest : List Node) : ∃ out,
    sortImportRequire (.group shape (head :: rest)) = .ok (.group shape (head :: out)) ∧
    (out.filter isSemantic).map some =
      (EntryKey.order ((rest.filter isSemantic).map layoutKey)).map ((rest.filter isSemantic)[·]?) := by
  obtain ⟨es, texts, hwritten, hes⟩ := sortedChildren_entries head rest
  obtain ⟨out, hout, -⟩ := written_cons head es texts
  refine ⟨out, ?_, ?_⟩
  · rw [sortImportRequire_eq_ok (by simp), mapChildren_group, hwritten, hout]
  · rw [filter_of_written (isSemantic_of_map_node hes) hout, hes, ← funext entryKey_eq_layoutKey, map_order]

theorem layoutKey_congr {m : Node} (hcode : n.code = m.code) (hveiled : n.isVeiled = m.isVeiled) :
    n.layoutKey = m.layoutKey := by
  rw [layoutKey, layoutKey, hcode, hveiled]

theorem map_layoutKey_congr {ns ms : List Node} (hcode : ns.map code = ms.map code)
    (hveiled : ns.map isVeiled = ms.map isVeiled) : ns.map layoutKey = ms.map layoutKey := by
  have hlength : ns.length = ms.length := by simpa using congrArg List.length hcode
  refine List.ext_getElem (by simpa using hlength) fun i hi hi' => ?_
  rw [List.getElem_map, List.getElem_map]
  rw [List.length_map] at hi hi'
  refine layoutKey_congr ?_ ?_
  · simpa [hi, hi'] using congrArg (·[i]?) hcode
  · simpa [hi, hi'] using congrArg (·[i]?) hveiled

/-- The sort puts two lists whose entries have the same code, place by place, in one order exactly where of each two
    entries the first may stand before the second in both lists or in neither, by the keys that their layout gives
    them. So it does where the same entries begin with a newline or a comment. -/
theorem sortImportRequire_order_iff {rest rest' : List Node}
    (h : (rest.filter isSemantic).map code = (rest'.filter isSemantic).map code) (shape shape' : Shape)
    (head head' : Node) : ∃ out out' order order',
    sortImportRequire (.group shape (head :: rest)) = .ok (.group shape (head :: out)) ∧
    sortImportRequire (.group shape' (head' :: rest')) = .ok (.group shape' (head' :: out')) ∧
    order = EntryKey.order ((rest.filter isSemantic).map layoutKey) ∧
    order' = EntryKey.order ((rest'.filter isSemantic).map layoutKey) ∧
    (out.filter isSemantic).map some = order.map ((rest.filter isSemantic)[·]?) ∧
    (out'.filter isSemantic).map some = order'.map ((rest'.filter isSemantic)[·]?) ∧
    (order = order' ↔ ((rest.filter isSemantic).zip (rest'.filter isSemantic)).Pairwise fun p q =>
      p.1.layoutKey.le q.1.layoutKey = p.2.layoutKey.le q.2.layoutKey) ∧
    ((rest.filter isSemantic).map isVeiled = (rest'.filter isSemantic).map isVeiled → order = order') := by
  obtain ⟨out, hsort, hout⟩ := sortImportRequire_order shape head rest
  obtain ⟨out', hsort', hout'⟩ := sortImportRequire_order shape' head' rest'
  have hlength : (rest'.filter isSemantic).length = (rest.filter isSemantic).length := by
    simpa using (congrArg List.length h).symm
  refine ⟨out, out', _, _, hsort, hsort', rfl, rfl, hout, hout', ?_, fun hveiled => ?_⟩
  · rw [EntryKey.order_eq_iff (by simpa using hlength), List.zip_map, List.pairwise_map]
    rfl
  · rw [map_layoutKey_congr h hveiled]

/-- A comment behind the first entry and a newline within the second leave the order as it is. -/
theorem sortImportRequire_order_with_comment :
    ([Node.group .vector [.leaf (.symbol "b")], .group .vector [.leaf (.symbol "a"), .leaf (.symbol "x")]].filter
      isSemantic).map code =
      ([Node.group .vector [.leaf (.symbol "b")], comment "; y", newline,
        .group .vector [.leaf (.symbol "a"), newline, .leaf (.symbol "x")]].filter isSemantic).map code ∧
    ∃ out out' order,
      sortImportRequire (.group .list [.leaf (.keyword ":require"), .group .vector [.leaf (.symbol "b")],
        .group .vector [.leaf (.symbol "a"), .leaf (.symbol "x")]]) =
        .ok (.group .list (.leaf (.keyword ":require") :: out)) ∧
      sortImportRequire (.group .list [.leaf (.keyword ":require"), .group .vector [.leaf (.symbol "b")], comment "; y",
        newline, .group .vector [.leaf (.symbol "a"), newline, .leaf (.symbol "x")]]) =
        .ok (.group .list (.leaf (.keyword ":require") :: out')) ∧
      (out.filter isSemantic).map some = order.map ([Node.group .vector [.leaf (.symbol "b")],
        .group .vector [.leaf (.symbol "a"), .leaf (.symbol "x")]][·]?) ∧
      (out'.filter isSemantic).map some = order.map ([Node.group .vector [.leaf (.symbol "b")],
        .group .vector [.leaf (.symbol "a"), newline, .leaf (.symbol "x")]][·]?) ∧ order = [1, 0] := by
  have hcode : ([Node.group .vector [.leaf (.symbol "b")],
      .group .vector [.leaf (.symbol "a"), .leaf (.symbol "x")]].filter isSemantic).map code =
      ([Node.group .vector [.leaf (.symbol "b")], comment "; y", newline,
        .group .vector [.leaf (.symbol "a"), newline, .leaf (.symbol "x")]].filter isSemantic).map code := by decide
  obtain ⟨out, out', order, order', hsort, hsort', horder, -, hout, hout', -, hsame⟩ :=
    sortImportRequire_order_iff hcode .list .list (.leaf (.keyword ":require")) (.leaf (.keyword ":require"))
  have hplaces : order = [1, 0] := by
    rw [horder]
    cbv
  obtain rfl := hsame (by decide)
  exact ⟨hcode, out, out', order, hsort, hsort', hout, hout', hplaces⟩

/-- Sorted by its name, `[b]` stands before `[c]`; with a newline before its name it stands behind it. -/
theorem sort_order_depends_on_layout :
    [Node.group .vector [.leaf (.symbol "b")], .group .vector [.leaf (.symbol "c")]].map code =
      [Node.group .vector [newline, .leaf (.symbol "b")], .group .vector [.leaf (.symbol "c")]].map code ∧
    sortImportRequire (.group .list [.leaf (.keyword ":require"), .group .vector [.leaf (.symbol "b")],
      .group .vector [.leaf (.symbol "c")]]) =
      .ok (.group .list [.leaf (.keyword ":require"), .group .vector [.leaf (.symbol "b")], newline,
        .group .vector [.leaf (.symbol "c")]]) ∧
    sortImportRequire (.group .list [.leaf (.keyword ":require"), .group .vector [newline, .leaf (.symbol "b")],
      .group .vector [.leaf (.symbol "c")]]) =
      .ok (.group .list [.leaf (.keyword ":require"), .group .vector [.leaf (.symbol "c")], newline,
        .group .vector [newline, .leaf (.symbol "b")]]) ∧
    [Node.group .vector [.leaf (.symbol "b")], .group .vector [.leaf (.symbol "c")]].map code ≠
      [Node.group .vector [.leaf (.symbol "c")], .group .vector [newline, .leaf (.symbol "b")]].map code := by
  refine ⟨by decide, ?_, ?_, by decide⟩
  · cbv
  · cbv

end Node
end ClojureLayout
