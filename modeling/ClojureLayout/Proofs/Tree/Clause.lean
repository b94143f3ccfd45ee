import ClojureLayout.Proofs.Tree.Written
import Mathlib.Data.List.Permutation

/-! Clauses that the sort and the layout settle. Sorting a clause and tidying it comes to tidying its
    entries; done again, it changes the clause only where tidying has put the entries out of order. That is
    where a spec of nothing but newlines, which loses them all, stands behind a spec of another sort
    (`Overtaken`). -/

namespace ClojureLayout

/-! ### The order of entries -/

namespace EntryKey
variable {a b c : EntryKey}

theorem le_iff : a.le b = true ↔ a.rank < b.rank ∨ a.rank = b.rank ∧ a.name ≤ b.name := by
  simp [le]

theorem le_trans (hab : a.le b = true) (hbc : b.le c = true) : a.le c = true := by
  rw [le_iff] at hab hbc ⊢
  rcases hab with hab | ⟨hab, hname⟩
  · rcases hbc with hbc | ⟨hbc, -⟩
    · exact Or.inl (Nat.lt_trans hab hbc)
    · exact Or.inl (hbc ▸ hab)
  · rcases hbc with hbc | ⟨hbc, hname'⟩
    · exact Or.inl (hab ▸ hbc)
    · exact Or.inr ⟨hab.trans hbc, String.le_trans hname hname'⟩

theorem le_total (a b : EntryKey) : (a.le b || b.le a) = true := by
  rw [Bool.or_eq_true, le_iff, le_iff]
  rcases Nat.lt_trichotomy a.rank b.rank with h | h | h
  · exact Or.inl (Or.inl h)
  · rcases String.le_total a.name b.name with hname | hname
    · exact Or.inl (Or.inr ⟨h, hname⟩)
    · exact Or.inr (Or.inr ⟨h.symm, hname⟩)
  · exact Or.inr (Or.inl h)

theorem le_refl (a : EntryKey) : a.le a = true := by simpa using le_total a a

end EntryKey

/-- The sort keeps the order among elements any two of which may stand either way. -/
theorem filter_mergeSort {α : Type} {le : α → α → Bool} (trans : ∀ a b c, le a b → le b c → le a c)
    (total : ∀ a b, le a b || le b a) {p : α → Bool} (hp : ∀ a b, p a → p b → le a b) (l : List α) :
    (l.mergeSort le).filter p = l.filter p := by
  have hsorted : (l.filter p).Pairwise (fun a b => le a b) := by
    refine List.pairwise_of_forall_sublist fun {a b} h => hp a b ?_ ?_
    · exact (List.mem_filter.mp (h.subset (by simp))).2
    · exact (List.mem_filter.mp (h.subset (by simp))).2
  have hsub := (List.sublist_mergeSort trans total hsorted List.filter_sublist).filter p
  rw [List.filter_filter] at hsub
  simp only [Bool.and_self] at hsub
  exact (hsub.eq_of_length ((List.mergeSort_perm l le).filter p).length_eq.symm).symm

/-- An element goes directly behind those that must stand before it. -/
theorem mergeSort_cons {α : Type} {le : α → α → Bool} (trans : ∀ a b c, le a b → le b c → le a c)
    (total : ∀ a b, le a b || le b a) (a : α) (l : List α) : ∃ before after,
    (a :: l).mergeSort le = before ++ a :: after ∧ l.mergeSort le = before ++ after ∧
    (∀ b ∈ before, le a b = false) ∧ ∀ b ∈ after, le a b = true := by
  obtain ⟨before, after, hcons, hl, hbefore⟩ := List.mergeSort_cons trans total a l
  have hsorted := List.pairwise_mergeSort trans total (a :: l)
  rw [hcons] at hsorted
  refine ⟨before, after, hcons, hl, fun b hb => ?_, ?_⟩
  · simpa using hbefore b hb
  · exact (List.pairwise_cons.mp (List.pairwise_append.mp hsorted).2.1).1

theorem Entry.le_trans (a b c : Entry) : a.le b → b.le c → a.le c := EntryKey.le_trans

theorem Entry.le_total (a b : Entry) : a.le b || b.le a := EntryKey.le_total _ _

namespace Node
variable {cs : List Node} {c n a b : Node}

theorem mayPrecede_trans (a b c : Node) : mayPrecede a b → mayPrecede b c → mayPrecede a c := EntryKey.le_trans

theorem mayPrecede_total (a b : Node) : mayPrecede a b || mayPrecede b a := EntryKey.le_total _ _

/-! ### Blank specs -/

/-- A spec of nothing but newlines, of which there is at least one. -/
def Blank (n : Node) : Prop := n.isListOrVector = true ∧ n.children ≠ [] ∧ ∀ c ∈ n.children, c.isNewline = true

theorem tidyChildren_cons (c : Node) (cs : List Node) :
    tidyChildren (c :: cs) = [] ∨ ∃ ds, tidyChildren (c :: cs) = c :: ds := by
  obtain ⟨k, hk⟩ := trimChildren_append (c :: cs)
  unfold tidyChildren
  cases htrim : trimChildren (c :: cs) with
  | nil => exact Or.inl rfl
  | cons d ds =>
    rw [htrim] at hk
    obtain ⟨es, hes, -⟩ := collapseBlankLines_cons d ds
    rw [hes, (List.cons.inj hk).1]
    exact Or.inr ⟨es, rfl⟩

theorem tidyChildren_eq_nil_iff : tidyChildren cs = [] ↔ ∀ c ∈ cs, c.isNewline = true := by
  constructor
  · intro h c hc
    have hfilter := quiet_tidyChildren.filter cs
    rw [h] at hfilter
    simpa using List.filter_eq_nil_iff.mp hfilter.symm c hc
  · intro h
    have hmem : ∀ c ∈ tidyChildren cs, c.isNewline = true := fun c hc => h c ((tidyChildren_sublist cs).subset hc)
    rcases (tidy_tidyChildren cs).1.ends with hnil | ⟨init, d, hcs, hd⟩ | ⟨init, text, hcs⟩
    · exact hnil
    · rw [hmem d (by simp [hcs])] at hd
      cases hd
    · cases hmem (comment text) (by simp [hcs])

theorem isListOrVector_iff : n.isListOrVector = true ↔ ∃ cs, n = .group .list cs ∨ n = .group .vector cs := by
  unfold isListOrVector
  split <;> simp_all

theorem entryKey_of_blank (h : Blank n) : n.entryKey = .unnamedSpec := by
  obtain ⟨hspec, hne, hall⟩ := h
  obtain ⟨cs, hcs⟩ := isListOrVector_iff.mp hspec
  rcases cs with _ | ⟨c, cs⟩
  · rcases hcs with rfl | rfl <;> exact absurd rfl hne
  · rcases hcs with rfl | rfl
    all_goals
      obtain rfl := isNewline_iff.mp (hall c List.mem_cons_self)
      rfl

theorem entryKey_tidied_of_blank (h : Blank n) : n.tidied.entryKey = .emptySpec := by
  obtain ⟨hspec, -, hall⟩ := h
  obtain ⟨cs, hcs⟩ := isListOrVector_iff.mp hspec
  have hnil : tidyChildren (cs.map tidied) = [] := by
    refine tidyChildren_eq_nil_iff.mpr fun d hd => ?_
    obtain ⟨c, hc, rfl⟩ := List.mem_map.mp hd
    rw [tidied_keepsShape.isNewline]
    exact hall c (by rcases hcs with rfl | rfl <;> exact hc)
  rcases hcs with rfl | rfl
  all_goals
    rw [tidied_group, hnil]
    rfl

theorem entryKey_tidied_of_not_blank (h : ¬ Blank n) : n.tidied.entryKey = n.entryKey := by
  cases n using Node.casesOn with
  | leaf l => rw [tidied_keepsShape.leaf]
  | group shape cs =>
    cases hspec : isListOrVector (.group shape cs) with
    | false =>
      rw [tidied_group]
      cases shape <;> first | rfl | cases hspec
    | true =>
      rcases cs with _ | ⟨c, cs⟩
      · rfl
      · have hne : tidyChildren ((c :: cs).map tidied) ≠ [] := by
          intro hnil
          refine h ⟨hspec, List.cons_ne_nil _ _, fun d hd => ?_⟩
          rw [← tidied_keepsShape.isNewline]
          exact tidyChildren_eq_nil_iff.mp hnil _ (List.mem_map_of_mem hd)
        obtain ⟨ds, hds⟩ := (tidyChildren_cons (tidied c) (cs.map tidied)).resolve_left hne
        rw [tidied_group, List.map_cons, hds]
        cases c using Node.casesOn with
        | leaf l =>
          rw [tidied_keepsShape.leaf]
          cases shape <;> cases l <;> rfl
        | group inner es =>
          rw [tidied_group]
          cases shape <;> rfl

/-! ### Entries out of order -/

/-- A blank spec stands behind a spec that goes before it only until it loses its newlines: one led by a
    symbol anywhere among the nodes, or one without a name before it. -/
def Overtaken (ns : List Node) : Prop := ∃ blank ∈ ns, Blank blank ∧
  ((∃ n ∈ ns, ∃ name, n.entryKey = .spec name) ∨
    ∃ n, n.entryKey = .unnamedSpec ∧ ¬ Blank n ∧ [n, blank].Sublist ns)

theorem pair_sublist_of_mem {ns : List Node} (hne : a ≠ b) (ha : a ∈ ns) (hb : b ∈ ns) :
    [a, b].Sublist ns ∨ [b, a].Sublist ns := by
  obtain ⟨init, rest, rfl⟩ := List.append_of_mem ha
  rcases List.mem_append.mp hb with hb | hb
  · exact Or.inr ((List.singleton_sublist.mpr hb).append (List.singleton_sublist.mpr List.mem_cons_self))
  · rcases List.mem_cons.mp hb with rfl | hb
    · exact absurd rfl hne
    · exact Or.inl (((List.singleton_sublist.mpr hb).cons_cons a).trans (List.sublist_append_right _ _))

theorem sublist_of_sublist_mergeSort {ns : List Node} (ha : a.entryKey = .unnamedSpec) (hb : b.entryKey = .unnamedSpec)
    (h : [a, b].Sublist (ns.mergeSort mayPrecede)) : [a, b].Sublist ns := by
  have hfilter := h.filter (fun n => n.entryKey == .unnamedSpec)
  rw [filter_mergeSort mayPrecede_trans mayPrecede_total] at hfilter
  · simp only [List.filter_cons, ha, hb, beq_self_eq_true, if_true, List.filter_nil] at hfilter
    exact hfilter.trans List.filter_sublist
  · intro m n hm hn
    rw [mayPrecede, beq_iff_eq.mp hm, beq_iff_eq.mp hn]
    exact EntryKey.le_refl _

theorem mayPrecede_tidied_of_blank (ha : Blank a) (hle : mayPrecede a b = true) :
    mayPrecede a.tidied b.tidied = true := by
  rw [mayPrecede, entryKey_of_blank ha] at hle
  rw [mayPrecede, entryKey_tidied_of_blank ha]
  by_cases hb : Blank b
  · rw [entryKey_tidied_of_blank hb]
    rfl
  · rw [entryKey_tidied_of_not_blank hb]
    exact EntryKey.le_trans (b := .unnamedSpec) rfl hle

/-- A spec goes before a blank one only until that loses its newlines. -/
theorem mayPrecede_tidied_iff (ha : ¬ Blank a) (hb : Blank b) (hle : mayPrecede a b = true) :
    mayPrecede a.tidied b.tidied = true ↔ ¬ ((∃ name, a.entryKey = .spec name) ∨ a.entryKey = .unnamedSpec) := by
  rw [mayPrecede, entryKey_of_blank hb] at hle
  rw [mayPrecede, entryKey_tidied_of_not_blank ha, entryKey_tidied_of_blank hb]
  cases hkey : a.entryKey with
  | library name => exact iff_of_true rfl (by simp)
  | emptySpec => exact iff_of_true rfl (by simp)
  | spec name => exact iff_of_false (fun h => by cases h) (by simp)
  | unnamedSpec => exact iff_of_false (fun h => by cases h) (by simp)
  | other =>
    rw [hkey] at hle
    cases hle

/-- Tidying keeps the entries in order unless a blank spec is overtaken. -/
theorem pairwise_tidied_iff (ns : List Node) :
    ((ns.mergeSort mayPrecede).map tidied).Pairwise (fun a b => mayPrecede a b) ↔ ¬ Overtaken ns := by
  have hsorted := List.pairwise_mergeSort mayPrecede_trans mayPrecede_total ns
  rw [List.pairwise_map]
  constructor
  · rintro hpair ⟨blank, hmem, hblank, ⟨n, hn, name, hname⟩ | ⟨n, hkey, hn, hsub⟩⟩
    · have hnb : ¬ Blank n := fun h => by
        rw [entryKey_of_blank h] at hname
        cases hname
      have hne : n ≠ blank := fun h => hnb (h ▸ hblank)
      -- Sorted by their keys, the spec with a name stands before the blank one wherever it stood.
      rcases pair_sublist_of_mem hne (List.mem_mergeSort.mpr hn) (List.mem_mergeSort.mpr hmem) with h | h
      · have hle := hsorted.forall_sublist h
        exact (mayPrecede_tidied_iff hnb hblank hle).mp (hpair.forall_sublist h) (Or.inl ⟨name, hname⟩)
      · have hle := hsorted.forall_sublist h
        rw [mayPrecede, entryKey_of_blank hblank, hname] at hle
        cases hle
    · have hle : mayPrecede n blank = true := by
        rw [mayPrecede, hkey, entryKey_of_blank hblank]
        rfl
      have h := List.pair_sublist_mergeSort mayPrecede_trans mayPrecede_total hle hsub
      exact (mayPrecede_tidied_iff hn hblank hle).mp (hpair.forall_sublist h) (Or.inr hkey)
  · intro hnot
    refine List.pairwise_of_forall_sublist fun {a b} h => ?_
    have hle := hsorted.forall_sublist h
    have ha := List.mem_mergeSort.mp (h.subset List.mem_cons_self)
    have hb := List.mem_mergeSort.mp (h.subset (List.mem_cons_of_mem a List.mem_cons_self))
    by_cases hablank : Blank a
    · exact mayPrecede_tidied_of_blank hablank hle
    · by_cases hblank : Blank b
      · refine (mayPrecede_tidied_iff hablank hblank hle).mpr ?_
        rintro (⟨name, hkey⟩ | hkey)
        · exact hnot ⟨b, hb, hblank, Or.inl ⟨a, ha, name, hkey⟩⟩
        · have hsub := sublist_of_sublist_mergeSort hkey (entryKey_of_blank hblank) h
          exact hnot ⟨b, hb, hblank, Or.inr ⟨a, hkey, hablank, hsub⟩⟩
      · rw [mayPrecede, entryKey_tidied_of_not_blank hablank, entryKey_tidied_of_not_blank hblank]
        exact hle

/-! ### Clauses -/

/-- A clause after the sort and without the newlines that a layout can do without. -/
def tidiedClause (c : Node) : Node := c.sortedClause.tidied

/-- A clause of which the sort, done again, goes on to change the order. -/
def UnsettledClause (c : Node) : Prop :=
  c.isKeywordForm [":require", ":import"] = true ∧ Overtaken (c.children.tail.filter isSemantic)

theorem isKeywordForm_iff {names : List String} :
    n.isKeywordForm names = true ↔ ∃ name ∈ names, Headed (.keyword name) n := by
  constructor
  · intro h
    obtain ⟨name, rest, rfl, hmem⟩ := isKeywordForm_children h
    exact ⟨name, hmem, rest, rfl⟩
  · rintro ⟨name, hmem, rest, rfl⟩
    simpa [isKeywordForm] using hmem

theorem tidiedClause_of_not_form (h : c.isKeywordForm [":require", ":import"] = false) : tidiedClause c = c.tidied := by
  rw [tidiedClause, sortedClause, h, if_neg Bool.false_ne_true]

theorem mergeSort_eq_self_iff (es : List Entry) :
    es.mergeSort Entry.le = es ↔ (es.map (·.node)).Pairwise (fun a b => mayPrecede a b) := by
  rw [List.pairwise_map]
  constructor
  · intro h
    rw [← h]
    exact List.pairwise_mergeSort Entry.le_trans Entry.le_total es
  · exact fun h => List.mergeSort_of_pairwise h

theorem tidied_written {l : Leaf} (hl : (Node.leaf l).isSemantic = true) {es : List Entry}
    (h : ∀ e ∈ es, e.node.isSemantic = true) (texts : List String) :
    tidied (.group .list (written (.leaf l) es texts)) =
      .group .list (written (.leaf l) (es.map (Entry.mapNode tidied)) texts) := by
  have hsem : ∀ e ∈ es.map (Entry.mapNode tidied), e.node.isSemantic = true := by
    intro e he
    obtain ⟨d, hd, rfl⟩ := List.mem_map.mp he
    exact (tidied_keepsShape.isSemantic d.node).trans (h d hd)
  rw [tidied_group, written_map tidied_keepsShape, tidied_keepsShape.leaf, (tidy_written hl hsem texts).tidyChildren_eq]

theorem tidiedClause_written {name : String} (hname : name ∈ [":require", ":import"]) {es : List Entry}
    (h : ∀ e ∈ es, e.node.isSemantic = true) (texts : List String) :
    tidiedClause (.group .list (written (.leaf (.keyword name)) es texts)) = .group .list
      (written (.leaf (.keyword name)) ((es.mergeSort Entry.le).map (Entry.mapNode tidied)) texts) := by
  have hform : isKeywordForm [":require", ":import"] (.group .list (written (.leaf (.keyword name)) es texts)) = true := by
    obtain ⟨rest, hrest, -⟩ := written_cons (.leaf (.keyword name)) es texts
    exact isKeywordForm_iff.mpr ⟨name, hname, rest, by rw [hrest]⟩
  have hsem : ∀ e ∈ es.mergeSort Entry.le, e.node.isSemantic = true := fun e he => h e (List.mem_mergeSort.mp he)
  rw [tidiedClause, sortedClause, hform, if_pos rfl, mapChildren_group, sortedChildren_written h, tidied_written rfl hsem]

theorem map_mapNode_tidied {es : List Entry} (h : ∀ e ∈ es, e.node.tidied = e.node) :
    es.map (Entry.mapNode tidied) = es := by
  conv => rhs; rw [← List.map_id es]
  exact List.map_congr_left fun e he => by rw [Entry.mapNode, h e he]; rfl

/-- A clause is settled exactly where tidying its entries leaves them in order. -/
theorem tidiedClause_idem_iff (c : Node) : tidiedClause (tidiedClause c) = tidiedClause c ↔ ¬ UnsettledClause c := by
  cases hform : c.isKeywordForm [":require", ":import"] with
  | false =>
    have hform' : c.tidied.isKeywordForm [":require", ":import"] = false := by
      rw [← hform, Bool.eq_iff_iff, isKeywordForm_iff, isKeywordForm_iff]
      simp only [tidied, headed_everywhere first_tidyChildren (Leaf.noConfusion : Leaf.keyword _ = .newline → False)]
    rw [tidiedClause_of_not_form hform, tidiedClause_of_not_form hform', tidied_idem]
    simp [UnsettledClause, hform]
  | true =>
    obtain ⟨name, rest, rfl, hname⟩ := isKeywordForm_children hform
    obtain ⟨es, texts, hwritten, hes⟩ := sortedChildren_entries (.leaf (.keyword name)) rest
    have hsem := isSemantic_of_map_node hes
    have honce : tidiedClause (.group .list (.leaf (.keyword name) :: rest)) =
        .group .list (written (.leaf (.keyword name)) (es.map (Entry.mapNode tidied)) texts) := by
      rw [tidiedClause, sortedClause, hform, if_pos rfl, mapChildren_group, hwritten, tidied_written rfl hsem]
    have hsem' : ∀ e ∈ es.map (Entry.mapNode tidied), e.node.isSemantic = true := by
      intro e he
      obtain ⟨d, hd, rfl⟩ := List.mem_map.mp he
      exact (tidied_keepsShape.isSemantic d.node).trans (hsem d hd)
    have htidied : ∀ e ∈ (es.map (Entry.mapNode tidied)).mergeSort Entry.le, e.node.tidied = e.node := by
      intro e he
      obtain ⟨d, -, rfl⟩ := List.mem_map.mp (List.mem_mergeSort.mp he)
      exact tidied_idem d.node
    have hnodes : (es.map (Entry.mapNode tidied)).map (·.node) =
        ((rest.filter isSemantic).mergeSort mayPrecede).map tidied := by
      rw [← hes, List.map_map, List.map_map]
      rfl
    rw [honce, tidiedClause_written hname hsem', map_mapNode_tidied htidied]
    calc
      Node.group .list (written _ _ _) = .group .list (written _ (es.map (Entry.mapNode tidied)) texts)
        ↔ (es.map (Entry.mapNode tidied)).mergeSort Entry.le = es.map (Entry.mapNode tidied) := by
          constructor
          · intro h
            exact (written_injective (fun e he => hsem' e (List.mem_mergeSort.mp he)) hsem' (Node.group.inj h).2).1
          · intro h
            rw [h]
      _ ↔ ¬ Overtaken (rest.filter isSemantic) := by rw [mergeSort_eq_self_iff, hnodes, pairwise_tidied_iff]
      _ ↔ ¬ UnsettledClause (.group .list (.leaf (.keyword name) :: rest)) := by simp [UnsettledClause, hform]

end Node
end ClojureLayout
