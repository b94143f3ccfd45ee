import ClojureLayout.Proofs.Tree.Newlines
import ClojureLayout.Proofs.Tree.Total

/-! Entries and the nodes they are read from. Reading keeps the code among the nodes as the nodes of the
    entries, in order; the lines of entries hold that code again; and reading the lines of entries
    gives the entries back, so a sorted list is read as its own entries. -/

namespace ClojureLayout
open Node

namespace Entries
variable {r : Entries} {n : Node} {es : List Entry}

/-! ### Reading -/

theorem add_of_isSemantic (r : Entries) (h : n.isSemantic = true) :
    r.add n = { entries := { node := n, above := r.comments.reverse } :: r.entries, comments := [], onLine := true } := by
  unfold add
  split
  · cases h
  · cases h
  · rfl

theorem add_newline (r : Entries) : r.add newline = { r with onLine := false } := rfl

theorem add_comment (r : Entries) (text : String) : r.add (comment text) = r.addComment text := rfl

theorem nodes_addComment (r : Entries) (text : String) :
    (r.addComment text).entries.map (·.node) = r.entries.map (·.node) := by
  unfold addComment
  split
  · rename_i he
    simp [he]
  · rfl

/-- The nodes of the entries, in the order in which they were read. -/
def nodes (r : Entries) : List Node := (r.entries.map (·.node)).reverse

theorem nodes_add (r : Entries) (n : Node) : (r.add n).nodes = r.nodes ++ [n].filter isSemantic := by
  cases hn : n.isSemantic with
  | true => simp [nodes, add_of_isSemantic r hn, hn]
  | false =>
    have hkind : n.isNewline = true ∨ n.isComment = true := by
      unfold isSemantic at hn
      revert hn
      cases n.isNewline <;> cases n.isComment <;> simp
    rcases hkind with h | h
    · obtain rfl := isNewline_iff.mp h
      simp [nodes, add_newline, hn]
    · obtain ⟨text, rfl⟩ := isComment_iff.mp h
      simp [nodes, add_comment, nodes_addComment, hn]

theorem nodes_addAll (r : Entries) (ns : List Node) : (r.addAll ns).nodes = r.nodes ++ ns.filter isSemantic := by
  induction ns generalizing r with
  | nil => simp [addAll]
  | cons n ns ih =>
    have := ih (r.add n)
    rw [nodes_add, List.append_assoc, ← List.filter_append] at this
    exact this

/-- The nodes of the entries are the code among the nodes read. -/
theorem nodes_addAll_empty (ns : List Node) : (addAll {} ns).nodes = ns.filter isSemantic :=
  nodes_addAll {} ns

theorem addAll_append (r : Entries) (ns ms : List Node) : r.addAll (ns ++ ms) = (r.addAll ns).addAll ms :=
  List.foldl_append

/-! ### Reading lines back -/

theorem addAll_commentLines (es : List Entry) (cs ds : List String) :
    addAll { entries := es, comments := ds } (Entry.commentLines cs) = { entries := es, comments := cs.reverse ++ ds } := by
  induction cs generalizing ds with
  | nil => rfl
  | cons c cs ih =>
    rw [List.reverse_cons, List.append_assoc]
    exact ih (c :: ds)

theorem addAll_lines {e : Entry} (h : e.node.isSemantic = true) (es : List Entry) :
    addAll { entries := es } e.lines = { entries := e :: es } := by
  obtain ⟨node, above, beside⟩ := e
  have hnode : add { entries := es, comments := above.reverse } node =
      { entries := { node, above } :: es, comments := [], onLine := true } := by
    rw [add_of_isSemantic _ h, List.reverse_reverse]
  rw [Entry.lines, addAll_append, addAll_commentLines, List.append_nil]
  cases beside with
  | none => exact congrArg (add · newline) hnode
  | some text =>
    show add (add (add _ node) (comment text)) newline = _
    rw [hnode]
    rfl

theorem addAll_flatMap_lines (h : ∀ e ∈ es, e.node.isSemantic = true) (before : List Entry) :
    addAll { entries := before } (es.flatMap Entry.lines) = { entries := es.reverse ++ before } := by
  induction es generalizing before with
  | nil => rfl
  | cons e es ih =>
    rw [List.flatMap_cons, addAll_append, addAll_lines (h e List.mem_cons_self),
      ih fun d hd => h d (List.mem_cons_of_mem e hd)]
    simp

/-- The lines of entries and of the comments after them are read as these entries and comments. -/
theorem addAll_empty_lines (h : ∀ e ∈ es, e.node.isSemantic = true) (cs : List String) :
    addAll {} (es.flatMap Entry.lines ++ Entry.commentLines cs) = { entries := es.reverse, comments := cs.reverse } := by
  rw [addAll_append, addAll_flatMap_lines h, addAll_commentLines]
  simp

end Entries

/-! ### The final newline -/

theorem Entry.lines_concat (e : Entry) : ∃ init, e.lines = init ++ [newline] :=
  ⟨commentLines e.above ++ e.node :: e.beside.toList.map Node.comment, by simp [lines]⟩

theorem Entry.commentLines_concat (cs : List String) : cs = [] ∨ ∃ init, commentLines cs = init ++ [newline] := by
  rcases List.eq_nil_or_concat cs with rfl | ⟨ds, d, hcat⟩
  · exact Or.inl rfl
  · obtain rfl := hcat.trans List.concat_eq_append
    exact Or.inr ⟨commentLines ds ++ [comment d], by simp [commentLines]⟩

namespace Node
variable {head n : Node} {ns : List Node}

theorem dropFinalNewline_concat (ns : List Node) (n last : Node) : dropFinalNewline (ns ++ [n, last]) =
    if n.isComment then ns ++ [n, last] else ns ++ [n] := by
  simp [dropFinalNewline]

/-- A list of which the lines after the head end in a newline keeps them, or loses the newline where it
    ends no comment. -/
theorem dropFinalNewline_cons (head : Node) {ls : List Node} (h : ls = [] ∨ ∃ init, ls = init ++ [newline]) :
    dropFinalNewline (head :: ls) = head :: ls ∧ (ls = [] ∨ ∃ init text, head :: ls = init ++ [comment text, newline]) ∨
      ∃ init, ls = init ++ [newline] ∧ dropFinalNewline (head :: ls) = head :: init ∧
        ∃ before last, head :: init = before ++ [last] ∧ last.isComment = false := by
  rcases h with rfl | ⟨init, rfl⟩
  · exact Or.inl ⟨rfl, Or.inl rfl⟩
  · obtain ⟨before, last, hlast⟩ : ∃ before last, head :: init = before ++ [last] := by
      rcases List.eq_nil_or_concat (head :: init) with h | ⟨before, last, h⟩
      · cases h
      · exact ⟨before, last, h.trans List.concat_eq_append⟩
    have hcons : head :: (init ++ [newline]) = before ++ [last, newline] := by
      rw [← List.cons_append, hlast, List.append_assoc]
      rfl
    cases hc : last.isComment with
    | true =>
      obtain ⟨text, rfl⟩ := isComment_iff.mp hc
      exact Or.inl ⟨by rw [hcons, dropFinalNewline_concat, hc, if_pos rfl], Or.inr ⟨before, text, hcons⟩⟩
    | false =>
      refine Or.inr ⟨init, rfl, ?_, before, last, hlast, hc⟩
      rw [hcons, dropFinalNewline_concat, hc, hlast]
      rfl

/-! ### Written lists -/

/-- The children of a list that holds entries, and comments after them, one to a line. -/
def written (head : Node) (es : List Entry) (cs : List String) : List Node :=
  dropFinalNewline (head :: (es.flatMap Entry.lines ++ Entry.commentLines cs))

variable {es : List Entry} {cs : List String}

theorem lines_concat (es : List Entry) (cs : List String) : es.flatMap Entry.lines ++ Entry.commentLines cs = [] ∨
    ∃ init, es.flatMap Entry.lines ++ Entry.commentLines cs = init ++ [newline] := by
  rcases Entry.commentLines_concat cs with rfl | ⟨init, hinit⟩
  · rcases List.eq_nil_or_concat es with rfl | ⟨es, e, rfl⟩
    · exact Or.inl rfl
    · obtain ⟨init, hinit⟩ := e.lines_concat
      refine Or.inr ⟨es.flatMap Entry.lines ++ init, ?_⟩
      rw [List.concat_eq_append, List.flatMap_append, List.flatMap_singleton, hinit]
      simp [Entry.commentLines]
  · exact Or.inr ⟨_, by rw [hinit, List.append_assoc]⟩

theorem sortedChildren_eq_written (head : Node) (rest : List Node) : sortedChildren (head :: rest) =
    written head ((Entries.addAll {} rest).entries.reverse.mergeSort Entry.le)
      (Entries.addAll {} rest).comments.reverse :=
  rfl

/-- A written list has its head and, but for a newline at the end, its lines. -/
theorem written_cons (head : Node) (es : List Entry) (cs : List String) : ∃ rest, written head es cs = head :: rest ∧
    (rest = es.flatMap Entry.lines ++ Entry.commentLines cs ∨
      rest ++ [newline] = es.flatMap Entry.lines ++ Entry.commentLines cs) := by
  rcases dropFinalNewline_cons head (lines_concat es cs) with ⟨h, -⟩ | ⟨init, hinit, h, -⟩
  · exact ⟨_, h, Or.inl rfl⟩
  · exact ⟨init, h, Or.inr hinit.symm⟩

/-- A written list is read as its entries and comments, whether or not it ends in a newline. -/
theorem addAll_written (h : ∀ e ∈ es, e.node.isSemantic = true) {rest : List Node}
    (hrest : written head es cs = head :: rest) :
    (Entries.addAll {} rest).entries = es.reverse ∧ (Entries.addAll {} rest).comments = cs.reverse := by
  obtain ⟨rest', hrest', hls⟩ := written_cons head es cs
  obtain rfl : rest' = rest := (List.cons.inj (hrest'.symm.trans hrest)).2
  have hread := Entries.addAll_empty_lines h cs
  rcases hls with hls | hls
  · rw [hls, hread]
    exact ⟨rfl, rfl⟩
  · rw [← hls, Entries.addAll_append] at hread
    exact ⟨congrArg Entries.entries hread, congrArg Entries.comments hread⟩

/-- Sorting a written list sorts its entries. -/
theorem sortedChildren_written (h : ∀ e ∈ es, e.node.isSemantic = true) :
    sortedChildren (written head es cs) = written head (es.mergeSort Entry.le) cs := by
  obtain ⟨rest, hrest, -⟩ := written_cons head es cs
  obtain ⟨hes, hcs⟩ := addAll_written h hrest
  rw [hrest, sortedChildren_eq_written, hes, hcs, List.reverse_reverse, List.reverse_reverse]

theorem written_injective {es' : List Entry} {cs' : List String} (h : ∀ e ∈ es, e.node.isSemantic = true)
    (h' : ∀ e ∈ es', e.node.isSemantic = true) (heq : written head es cs = written head es' cs') :
    es = es' ∧ cs = cs' := by
  obtain ⟨rest, hrest, -⟩ := written_cons head es cs
  obtain ⟨hes, hcs⟩ := addAll_written h hrest
  obtain ⟨hes', hcs'⟩ := addAll_written h' (heq.symm.trans hrest)
  exact ⟨List.reverse_inj.mp (hes.symm.trans hes'), List.reverse_inj.mp (hcs.symm.trans hcs')⟩

/-! ### The code of a written list -/

theorem filter_commentLines (cs : List String) : (Entry.commentLines cs).filter isSemantic = [] := by
  induction cs with
  | nil => rfl
  | cons c cs ih => exact ih

theorem filter_lines {e : Entry} (h : e.node.isSemantic = true) : e.lines.filter isSemantic = [e.node] := by
  obtain ⟨node, above, beside⟩ := e
  have hnode : node.isSemantic = true := h
  rw [Entry.lines, List.filter_append, filter_commentLines]
  cases beside <;> simp [hnode]

theorem filter_flatMap_lines (h : ∀ e ∈ es, e.node.isSemantic = true) :
    (es.flatMap Entry.lines).filter isSemantic = es.map (·.node) := by
  induction es with
  | nil => rfl
  | cons e es ih =>
    rw [List.flatMap_cons, List.filter_append, filter_lines (h e List.mem_cons_self),
      ih fun d hd => h d (List.mem_cons_of_mem e hd)]
    rfl

/-- The code behind the head of a written list is the nodes of its entries. -/
theorem filter_of_written (h : ∀ e ∈ es, e.node.isSemantic = true) {rest : List Node}
    (hrest : written head es cs = head :: rest) : rest.filter isSemantic = es.map (·.node) := by
  have hlines : (es.flatMap Entry.lines ++ Entry.commentLines cs).filter isSemantic = es.map (·.node) := by
    rw [List.filter_append, filter_flatMap_lines h, filter_commentLines, List.append_nil]
  obtain ⟨rest', hrest', hls⟩ := written_cons head es cs
  obtain rfl : rest' = rest := (List.cons.inj (hrest'.symm.trans hrest)).2
  rcases hls with hls | hls
  · rw [hls, hlines]
  · rw [← hlines, ← hls, List.filter_append]
    simp

/-- The code of a written list is its head and the nodes of its entries. -/
theorem filter_written (hhead : head.isSemantic = true) (h : ∀ e ∈ es, e.node.isSemantic = true) :
    (written head es cs).filter isSemantic = head :: es.map (·.node) := by
  obtain ⟨rest, hrest, -⟩ := written_cons head es cs
  rw [hrest, List.filter_cons_of_pos hhead, filter_of_written h hrest]

/-! ### The sort of a list -/

/-- Whether `a` may stand before `b` among the entries of a clause. -/
def mayPrecede (a b : Node) : Bool := a.entryKey.le b.entryKey

/-- The sort writes the entries of a list in order. -/
theorem sortedChildren_entries (head : Node) (rest : List Node) : ∃ es texts,
    sortedChildren (head :: rest) = written head es texts ∧
    es.map (·.node) = (rest.filter isSemantic).mergeSort mayPrecede := by
  refine ⟨_, _, sortedChildren_eq_written head rest, ?_⟩
  have hle : ∀ d ∈ (Entries.addAll {} rest).entries.reverse, ∀ e ∈ (Entries.addAll {} rest).entries.reverse,
      Entry.le d e = mayPrecede d.node e.node := fun _ _ _ _ => rfl
  rw [List.map_mergeSort hle, ← Entries.nodes_addAll_empty, Entries.nodes, List.map_reverse]

theorem isSemantic_of_map_node {ns : List Node} (h : es.map (·.node) = (ns.filter isSemantic).mergeSort mayPrecede) :
    ∀ e ∈ es, e.node.isSemantic = true := by
  intro e he
  have hmem : e.node ∈ es.map (·.node) := List.mem_map_of_mem he
  rw [h, List.mem_mergeSort] at hmem
  exact (List.mem_filter.mp hmem).2

/-- The sort keeps the code of a list, with the entries in another order. -/
theorem filter_sortedChildren (hhead : head.isSemantic = true) (rest : List Node) :
    ∃ entries, (sortedChildren (head :: rest)).filter isSemantic = head :: entries ∧
      entries.Perm (rest.filter isSemantic) := by
  obtain ⟨es, texts, hwritten, hes⟩ := sortedChildren_entries head rest
  refine ⟨es.map (·.node), ?_, ?_⟩
  · rw [hwritten, filter_written hhead (isSemantic_of_map_node hes)]
  · rw [hes]
    exact List.mergeSort_perm _ _

end Node
end ClojureLayout
