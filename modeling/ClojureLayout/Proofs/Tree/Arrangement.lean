import ClojureLayout.Proofs.Tree.Clause

/-! The arrangement of a require or import list. What follows the head of a list divides in one way only into
    entries with the comments that belong to each, and the comments behind the last (`Listed`). The sort
    puts these entries in order, those with one key in the order in which they stood, and writes each
    with its comments (`Arranged`). -/

namespace ClojureLayout
open Node

/-! ### Entries and their comments -/

/-- The texts of the comments among the nodes. -/
def Node.commentTexts (cs : List Node) : List String := cs.filterMap fun
  | .leaf (.comment text) => some text
  | _ => none

/-- The nodes hold the entries `es`, and behind them the comments `after`. Between two entries, and before
    the first, there is a gap of newlines and comments. A comment directly behind an entry stands beside
    it; the others stand on no entry's line and belong to the next entry. -/
inductive Listed : List Node → List Entry → List String → Prop
  | last {gap : List Node} (hgap : ∀ c ∈ gap, c.isSemantic = false) : Listed gap [] (commentTexts gap)
  | entry {gap rest : List Node} {node : Node} {beside : Option String} {es : List Entry} {after : List String}
      (hgap : ∀ c ∈ gap, c.isSemantic = false) (hnode : node.isSemantic = true)
      (hrest : ∀ c ∈ rest.head?, c.isComment = false) (hlisted : Listed rest es after) :
      Listed (gap ++ node :: (beside.toList.map Node.comment ++ rest))
        ({ node, above := commentTexts gap, beside } :: es) after

/-- No comment stands directly behind a comment. -/
def Sparse (cs : List Node) : Prop := cs.IsChain fun a b => a.isComment = true → b.isComment = false

/-- The nodes of an entry: its comments and itself. -/
def Entry.nodes (e : Entry) : List Node := e.above.map Node.comment ++ e.node :: e.beside.toList.map Node.comment

variable {ns gap : List Node} {n head : Node} {es : List Entry} {after : List String}

namespace Node

/-- What is no code is a newline or a comment. -/
theorem gap_cases (h : n.isSemantic = false) : n = newline ∨ ∃ text, n = comment text := by
  cases hnl : n.isNewline with
  | true => exact Or.inl (isNewline_iff.mp hnl)
  | false =>
    cases hc : n.isComment with
    | true => exact Or.inr (isComment_iff.mp hc)
    | false =>
      rw [isSemantic_iff.mpr ⟨hnl, hc⟩] at h
      cases h

theorem filter_gap (h : ∀ c ∈ gap, c.isSemantic = false) :
    gap.filter (!·.isNewline) = (commentTexts gap).map comment := by
  induction gap with
  | nil => rfl
  | cons c gap ih =>
    have hrest := ih fun d hd => h d (List.mem_cons_of_mem c hd)
    rcases gap_cases (h c List.mem_cons_self) with rfl | ⟨text, rfl⟩
    · exact hrest
    · exact congrArg (comment text :: ·) hrest

end Node

namespace Entries

theorem addComment_of_not_onLine {r : Entries} (h : r.onLine = false) (text : String) :
    r.addComment text = { r with comments := text :: r.comments } := by
  unfold addComment
  rw [h]

/-- A gap adds its comments, unless it begins with one on the line of an entry. -/
theorem addAll_gap (h : ∀ c ∈ gap, c.isSemantic = false) (r : Entries)
    (hr : r.onLine = true → ∀ c ∈ gap.head?, c.isComment = false) :
    (r.addAll gap).entries = r.entries ∧ (r.addAll gap).comments = (commentTexts gap).reverse ++ r.comments := by
  induction gap generalizing r with
  | nil => exact ⟨rfl, rfl⟩
  | cons c gap ih =>
    have hrest : ∀ d ∈ gap, d.isSemantic = false := fun d hd => h d (List.mem_cons_of_mem c hd)
    rcases gap_cases (h c List.mem_cons_self) with rfl | ⟨text, rfl⟩
    · exact ih hrest { r with onLine := false } fun hl => by cases hl
    · have hl : r.onLine = false := Bool.eq_false_iff.mpr fun hl => by cases hr hl (comment text) rfl
      have hadd : r.add (comment text) = { r with comments := text :: r.comments } := addComment_of_not_onLine hl text
      obtain ⟨hentries, hcomments⟩ := ih hrest { r with comments := text :: r.comments } fun hl' => by
        rw [hl] at hl'
        cases hl'
      rw [addAll, List.foldl_cons, hadd]
      refine ⟨hentries, hcomments.trans ?_⟩
      show _ = (text :: commentTexts gap).reverse ++ r.comments
      rw [List.reverse_cons, List.append_assoc]
      rfl

theorem add_entry (r : Entries) (hn : n.isSemantic = true) (beside : Option String) :
    r.addAll (n :: beside.toList.map comment) =
      { entries := { node := n, above := r.comments.reverse, beside } :: r.entries, comments := [], onLine := true } := by
  rw [addAll, List.foldl_cons, add_of_isSemantic r hn]
  cases beside <;> rfl

end Entries

namespace Listed

/-- Reading the nodes gives the entries and the comments behind them. -/
theorem addAll (h : Listed ns es after) (r : Entries) (hcomments : r.comments = [])
    (hr : r.onLine = true → ∀ c ∈ ns.head?, c.isComment = false) :
    (r.addAll ns).entries = es.reverse ++ r.entries ∧ (r.addAll ns).comments = after.reverse := by
  induction h generalizing r with
  | last hgap =>
    obtain ⟨hentries, htexts⟩ := Entries.addAll_gap hgap r hr
    exact ⟨hentries, by rw [htexts, hcomments, List.append_nil]⟩
  | @entry gap rest node beside es after hgap hnode hrest _ ih =>
    have hr' : r.onLine = true → ∀ c ∈ gap.head?, c.isComment = false := by
      intro hl c hc
      refine hr hl c ?_
      rw [List.head?_append, Option.mem_def.mp hc]
      rfl
    obtain ⟨hentries, htexts⟩ := Entries.addAll_gap hgap r hr'
    rw [hcomments, List.append_nil] at htexts
    rw [Entries.addAll_append, ← List.cons_append, Entries.addAll_append, Entries.add_entry _ hnode, hentries, htexts,
      List.reverse_reverse, List.reverse_cons, List.append_assoc]
    exact ih _ rfl fun _ => hrest

theorem read (h : Listed ns es after) :
    (Entries.addAll {} ns).entries.reverse = es ∧ (Entries.addAll {} ns).comments.reverse = after := by
  obtain ⟨hentries, hcomments⟩ := h.addAll {} rfl fun hl => by cases hl
  rw [hentries, hcomments]
  simp

/-- The nodes divide in one way only. -/
theorem unique (h : Listed ns es after) {es' : List Entry} {after' : List String} (h' : Listed ns es' after') :
    es' = es ∧ after' = after :=
  ⟨h'.read.1.symm.trans h.read.1, h'.read.2.symm.trans h.read.2⟩

theorem isSemantic (h : Listed ns es after) : ∀ e ∈ es, e.node.isSemantic = true := by
  induction h with
  | last => exact fun e he => by cases he
  | entry _ hnode _ _ ih =>
    intro e he
    rcases List.mem_cons.mp he with rfl | he
    · exact hnode
    · exact ih e he

/-- The entries and the comments behind them are all that the nodes hold but newlines. -/
theorem nodes (h : Listed ns es after) :
    ns.filter (!·.isNewline) = es.flatMap Entry.nodes ++ after.map comment := by
  induction h with
  | last hgap => exact filter_gap hgap
  | @entry gap rest node beside es after hgap hnode _ _ ih =>
    have hbeside : (beside.toList.map comment).filter (!·.isNewline) = beside.toList.map comment := by
      cases beside <;> rfl
    rw [List.filter_append, filter_gap hgap, List.filter_cons_of_pos (by simp [(isSemantic_iff.mp hnode).1]),
      List.filter_append, hbeside, ih, List.flatMap_cons, Entry.nodes]
    simp only [List.append_assoc, List.cons_append]

/-- A newline or comment more before the nodes is part of their first gap. -/
theorem cons_gap (h : Listed ns es after) (hn : n.isSemantic = false) : ∃ es after, Listed (n :: ns) es after := by
  have hcons {gap : List Node} (hgap : ∀ c ∈ gap, c.isSemantic = false) : ∀ c ∈ n :: gap, c.isSemantic = false :=
    List.forall_mem_cons.mpr ⟨hn, hgap⟩
  cases h with
  | last hgap => exact ⟨_, _, .last (hcons hgap)⟩
  | entry hgap hnode hrest hlisted => exact ⟨_, _, .entry (hcons hgap) hnode hrest hlisted⟩

theorem cons_entry (h : Listed ns es after) (hn : n.isSemantic = true) (beside : Option String)
    (hns : ∀ c ∈ ns.head?, c.isComment = false) :
    ∃ es after, Listed (n :: (beside.toList.map comment ++ ns)) es after :=
  ⟨_, _, .entry (List.forall_mem_nil _) hn hns h⟩

/-- Where no comment stands behind another, the nodes divide into entries. -/
theorem exists_of_sparse : ∀ ns : List Node, Sparse ns → ∃ es after, Listed ns es after
  | [], _ => ⟨[], [], .last (fun _ hc => by cases hc)⟩
  | n :: ns, h => by
    obtain ⟨hhead, hns⟩ := List.isChain_cons.mp h
    obtain ⟨es, after, hlisted⟩ := exists_of_sparse ns hns
    cases hn : n.isSemantic with
    | false => exact hlisted.cons_gap hn
    | true =>
      match ns, hns with
      | [], _ => exact hlisted.cons_entry hn none (fun _ hc => by cases hc)
      | m :: ms, hns =>
        cases hm : m.isComment with
        | false => exact hlisted.cons_entry hn none fun c hc => by rwa [← Option.some.inj hc]
        | true =>
          -- The comment is beside the entry, so the nodes behind the comment are divided instead.
          obtain ⟨text, rfl⟩ := isComment_iff.mp hm
          obtain ⟨hms, hrest⟩ := List.isChain_cons.mp hns
          obtain ⟨es, after, hlisted⟩ := exists_of_sparse ms hrest
          exact hlisted.cons_entry hn (some text) fun c hc => hms c hc rfl

end Listed

/-! ### Arranged lists -/

/-- The list `out` holds, behind its head, the entries `es` in the order of their keys, and then the comments
    `after`, one to a line. -/
structure Arranged (head : Node) (es : List Entry) (after : List String) (sorted : List Entry) (out : List Node) :
    Prop where
  entries : sorted.Perm es
  ascending : sorted.Pairwise fun a b => a.node.entryKey.le b.node.entryKey = true
  /-- Entries with one key keep their order. -/
  stable : ∀ key, (sorted.filter fun e => e.node.entryKey == key) = es.filter fun e => e.node.entryKey == key
  /-- A newline follows each comment above an entry, each entry with the comment beside it, and each comment behind
      the entries; the last newline may be missing. -/
  lines : ∃ missing, missing <+: [newline] ∧ out ++ missing =
    head :: ((sorted.flatMap fun e => (e.above.flatMap fun text => [comment text, newline]) ++
      e.node :: (e.beside.toList.map comment ++ [newline])) ++ after.flatMap fun text => [comment text, newline])
  /-- It is there if a comment comes before it, and only then. -/
  final : out.getLast? = some newline ↔ ∃ text, (out.filter (!·.isNewline)).getLast? = some (comment text)

namespace Entry

theorem filter_commentLines (texts : List String) :
    (commentLines texts).filter (!·.isNewline) = texts.map Node.comment := by
  induction texts with
  | nil => rfl
  | cons text texts ih => exact congrArg (Node.comment text :: ·) ih

theorem filter_lines {e : Entry} (h : e.node.isNewline = false) : e.lines.filter (!·.isNewline) = e.nodes := by
  obtain ⟨node, above, beside⟩ := e
  rw [lines, nodes, List.filter_append, filter_commentLines]
  cases beside <;> simp_all

end Entry

namespace Node

theorem filter_written_lines (hhead : head.isSemantic = true) (h : ∀ e ∈ es, e.node.isSemantic = true)
    (after : List String) :
    (written head es after).filter (!·.isNewline) = head :: (es.flatMap Entry.nodes ++ after.map comment) := by
  have hlines : (es.flatMap Entry.lines).filter (!·.isNewline) = es.flatMap Entry.nodes := by
    rw [List.filter_flatMap]
    exact List.flatMap_congr fun e he => Entry.filter_lines (isSemantic_iff.mp (h e he)).1
  have hall : (head :: (es.flatMap Entry.lines ++ Entry.commentLines after)).filter (!·.isNewline) =
      head :: (es.flatMap Entry.nodes ++ after.map comment) := by
    rw [List.filter_cons_of_pos (by simp [(isSemantic_iff.mp hhead).1]), List.filter_append, hlines,
      Entry.filter_commentLines]
  obtain ⟨rest, hrest, hls | hls⟩ := written_cons head es after
  · rw [hrest, hls, hall]
  · rw [hrest, ← hall, ← hls, ← List.cons_append, List.filter_append]
    simp

theorem final_written (hhead : head.isSemantic = true) (h : ∀ e ∈ es, e.node.isSemantic = true)
    (after : List String) : (written head es after).getLast? = some newline ↔
      ∃ text, ((written head es after).filter (!·.isNewline)).getLast? = some (comment text) := by
  rcases (lined_written hhead h after).2 with ⟨init, last, heq, hlast⟩ | ⟨init, text, heq⟩
  · obtain ⟨hnl, hcomment⟩ := isSemantic_iff.mp hlast
    rw [heq, List.filter_append, List.filter_cons_of_pos (by simp [hnl]), List.getLast?_concat, List.filter_nil,
      List.getLast?_concat]
    refine iff_of_false ?_ ?_
    · intro hlast
      rw [Option.some.inj hlast] at hnl
      cases hnl
    · rintro ⟨text, htext⟩
      rw [Option.some.inj htext] at hcomment
      cases hcomment
  · rw [heq]
    refine iff_of_true ?_ ⟨text, ?_⟩
    · rw [List.append_cons, List.getLast?_concat]
    · simp [List.filter_append]

/-- The written list of the sorted entries is arranged. -/
theorem arranged_written (hhead : head.isSemantic = true) (h : ∀ e ∈ es, e.node.isSemantic = true)
    (after : List String) :
    Arranged head es after (es.mergeSort Entry.le) (written head (es.mergeSort Entry.le) after) := by
  have hsorted : ∀ e ∈ es.mergeSort Entry.le, e.node.isSemantic = true := fun e he => h e (List.mem_mergeSort.mp he)
  refine ⟨List.mergeSort_perm es _, List.pairwise_mergeSort Entry.le_trans Entry.le_total es, fun key => ?_, ?_,
    final_written hhead hsorted after⟩
  · refine filter_mergeSort Entry.le_trans Entry.le_total (fun a b ha hb => ?_) es
    rw [Entry.le, beq_iff_eq.mp ha, beq_iff_eq.mp hb]
    exact EntryKey.le_refl key
  · obtain ⟨rest, hrest, hls | hls⟩ := written_cons head (es.mergeSort Entry.le) after
    · exact ⟨[], List.nil_prefix, by rw [hrest, hls, List.append_nil]; rfl⟩
    · exact ⟨[newline], List.prefix_rfl, by rw [hrest, List.cons_append, hls]; rfl⟩

/-- The sort arranges what follows the head of a group in one way: it divides it into entries with their comments,
    puts these in order and writes them one to a line. Nothing is lost or doubled but newlines. -/
theorem sortImportRequire_arranged (shape : Shape) {head : Node} {rest : List Node} (hhead : head.isSemantic = true)
    (hsparse : Sparse (head :: rest)) : ∃ es after sorted out,
    Listed rest es after ∧ (∀ es' after', Listed rest es' after' → es' = es ∧ after' = after) ∧
    sortImportRequire (.group shape (head :: rest)) = .ok (.group shape out) ∧ Arranged head es after sorted out ∧
    (out.filter (!·.isNewline)).Perm ((head :: rest).filter (!·.isNewline)) := by
  obtain ⟨es, after, hlisted⟩ := Listed.exists_of_sparse rest (List.isChain_cons.mp hsparse).2
  obtain ⟨hes, hafter⟩ := hlisted.read
  have hsort : sortImportRequire (.group shape (head :: rest)) =
      .ok (.group shape (written head (es.mergeSort Entry.le) after)) := by
    rw [sortImportRequire_eq_ok (by simp), mapChildren_group, sortedChildren_eq_written, hes, hafter]
  have hsorted : ∀ e ∈ es.mergeSort Entry.le, e.node.isSemantic = true :=
    fun e he => hlisted.isSemantic e (List.mem_mergeSort.mp he)
  refine ⟨es, after, _, _, hlisted, fun _ _ h => hlisted.unique h, hsort,
    arranged_written hhead hlisted.isSemantic after, ?_⟩
  rw [filter_written_lines hhead hsorted, List.filter_cons_of_pos (by simp [(isSemantic_iff.mp hhead).1]), hlisted.nodes]
  exact (((List.mergeSort_perm es _).flatMap_right _).append_right _).cons head

/-- The comments go with the entries they stand above or beside, and the two entries `[b ...]` keep their order. -/
theorem sortImportRequire_arranged_comments :
    sortImportRequire (.group .list [.leaf (.keyword ":require"), comment "; tools", newline,
      .group .vector [.leaf (.symbol "b"), .leaf (.string "1")], comment "; old", newline, newline, comment "; first", newline,
      .leaf (.symbol "z"), .group .vector [.leaf (.symbol "b"), .leaf (.string "2")], newline, .leaf (.symbol "a"), newline,
      comment "; end"]) =
      .ok (.group .list [.leaf (.keyword ":require"), .leaf (.symbol "a"), newline, comment "; first", newline,
        .leaf (.symbol "z"), newline, comment "; tools", newline,
        .group .vector [.leaf (.symbol "b"), .leaf (.string "1")], comment "; old", newline,
        .group .vector [.leaf (.symbol "b"), .leaf (.string "2")], newline, comment "; end", newline]) ∧
    ∃ sorted, Arranged (.leaf (.keyword ":require"))
      [{ node := .group .vector [.leaf (.symbol "b"), .leaf (.string "1")], above := ["; tools"], beside := some "; old" },
        { node := .leaf (.symbol "z"), above := ["; first"] },
        { node := .group .vector [.leaf (.symbol "b"), .leaf (.string "2")] }, { node := .leaf (.symbol "a") }] ["; end"]
      sorted [.leaf (.keyword ":require"), .leaf (.symbol "a"), newline, comment "; first", newline,
        .leaf (.symbol "z"), newline, comment "; tools", newline,
        .group .vector [.leaf (.symbol "b"), .leaf (.string "1")], comment "; old", newline,
        .group .vector [.leaf (.symbol "b"), .leaf (.string "2")], newline, comment "; end", newline] := by
  have hsort : sortImportRequire (.group .list [.leaf (.keyword ":require"), comment "; tools", newline,
      .group .vector [.leaf (.symbol "b"), .leaf (.string "1")], comment "; old", newline, newline, comment "; first", newline,
      .leaf (.symbol "z"), .group .vector [.leaf (.symbol "b"), .leaf (.string "2")], newline, .leaf (.symbol "a"), newline,
      comment "; end"]) =
      .ok (.group .list [.leaf (.keyword ":require"), .leaf (.symbol "a"), newline, comment "; first", newline,
        .leaf (.symbol "z"), newline, comment "; tools", newline,
        .group .vector [.leaf (.symbol "b"), .leaf (.string "1")], comment "; old", newline,
        .group .vector [.leaf (.symbol "b"), .leaf (.string "2")], newline, comment "; end", newline]) := by cbv
  refine ⟨hsort, ?_⟩
  have hsparse : Sparse [.leaf (.keyword ":require"), comment "; tools", newline,
      .group .vector [.leaf (.symbol "b"), .leaf (.string "1")], comment "; old", newline, newline, comment "; first", newline,
      .leaf (.symbol "z"), .group .vector [.leaf (.symbol "b"), .leaf (.string "2")], newline, .leaf (.symbol "a"), newline,
      comment "; end"] := by simp [Sparse, isComment]
  obtain ⟨es, after, sorted, out, hlisted, -, hout, harranged, -⟩ := sortImportRequire_arranged .list rfl hsparse
  obtain ⟨rfl, rfl⟩ := hlisted.read
  injection Except.ok.inj (hsort.symm.trans hout) with _ hchildren
  subst hchildren
  exact ⟨sorted, harranged⟩

end Node
end ClojureLayout
