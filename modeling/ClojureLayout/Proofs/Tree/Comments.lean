import ClojureLayout.Proofs.Tree.Clause
import ClojureLayout.Proofs.Tree.Shifts

/-! Comments and the newlines that end them. In a tree whose comments are ended (`Closed`) the sort ends
    each comment that it moves, and the newlines that go from the ends of groups and from blank lines
    end none. Moving a node up to the name, though, takes the newline from a comment that stands in the
    place of the name (`Swallows`). -/

namespace ClojureLayout
namespace Node
variable {cs ds : List Node} {c n head : Node} {f : List Node → List Node} {φ : Node → Node}
variable {p : Node → Node → Prop}

/-- A newline follows each comment that any node follows. -/
def Parted (cs : List Node) : Prop := cs.IsChain fun a b => a.isComment = true → b.isNewline = true

/-- A newline follows each comment. -/
def Ended (cs : List Node) : Prop := Parted cs ∧ ∀ last ∈ cs.getLast?, last.isComment = false

theorem ended_iff_concat (hc : c.isNewline = false) : Ended cs ↔ Parted (cs ++ [c]) := by
  rw [Ended, Parted, Parted, List.isChain_append]
  constructor
  · rintro ⟨hcs, hlast⟩
    refine ⟨hcs, .singleton c, fun a ha b _ hcomment => ?_⟩
    rw [hlast a ha] at hcomment
    cases hcomment
  · rintro ⟨hcs, -, hlast⟩
    refine ⟨hcs, fun a ha => Bool.eq_false_iff.mpr fun hcomment => ?_⟩
    rw [hlast a ha c (by simp) hcomment] at hc
    cases hc

theorem Parted.of_begins (h : Parted cs) (hbegins : ds <+: cs) : Parted ds := List.IsChain.prefix h hbegins

theorem parted_map (hφ : KeepsShape φ) (cs : List Node) : Parted (cs.map φ) ↔ Parted cs := by
  rw [Parted, List.isChain_map]
  simp only [hφ.isComment, hφ.isNewline]
  rfl

theorem ended_map (hφ : KeepsShape φ) (cs : List Node) : Ended (cs.map φ) ↔ Ended cs := by
  rw [Ended, Ended, parted_map hφ]
  simp [hφ.isComment]

/-! ### Newlines taken away -/

theorem head?_collapseAfter_zero (cs : List Node) : (collapseAfter 0 cs).head? = cs.head? := by
  cases cs with
  | nil => rfl
  | cons c cs =>
    obtain ⟨ds, hds, -⟩ := collapseBlankLines_cons c cs
    rw [← collapseBlankLines, hds]
    rfl

theorem parted_newline_cons : Parted (newline :: cs) ↔ Parted cs := by
  rw [Parted, List.isChain_cons]
  exact ⟨And.right, fun h => ⟨(fun _ _ hc => by cases hc), h⟩⟩

/-- The first newline behind a comment is not taken away. -/
theorem parted_collapseAfter_iff (run : Nat) (cs : List Node) : Parted (collapseAfter run cs) ↔ Parted cs := by
  induction cs generalizing run with
  | nil => rfl
  | cons c cs ih =>
    cases hc : c.isNewline with
    | false =>
      rw [collapseAfter_cons _ _ hc, Parted, List.isChain_cons, head?_collapseAfter_zero, Parted, List.isChain_cons]
      exact and_congr_right fun _ => ih 0
    | true =>
      rw [isNewline_iff.mp hc, parted_newline_cons, collapseAfter_newline]
      split
      · rw [parted_newline_cons, ih]
      · exact ih (run + 1)

theorem ended_collapseBlankLines_iff (cs : List Node) : Ended (collapseBlankLines cs) ↔ Ended cs := by
  have hx : (Node.group .list []).isNewline = false := rfl
  have hcollapse : collapseAfter 0 (cs ++ [.group .list []]) = collapseAfter 0 cs ++ [.group .list []] :=
    collapseAfter_append_cons 0 cs hx
  rw [ended_iff_concat hx, ended_iff_concat hx, ← parted_collapseAfter_iff 0 (cs ++ [_]), hcollapse]
  rfl

theorem trimEnd_of_comment {rs : List Node} (h : ∃ last ∈ (trimEnd rs).head?, last.isComment = true) :
    trimEnd rs = rs := by
  fun_induction trimEnd rs with
  | case1 => rfl
  | case2 last before rest hcomment hlast ih =>
    obtain ⟨c, hc, hcc⟩ := h
    rw [ih ⟨c, hc, hcc⟩] at hc
    exact absurd (Option.some.inj hc ▸ hcc) hcomment
  | case3 => rfl
  | case4 =>
    obtain ⟨c, hc, -⟩ := h
    cases hc
  | case5 => rfl
  | case6 => rfl

/-- A comment at the end after newlines are taken off was there before. -/
theorem trimChildren_of_comment (h : ∃ last ∈ (trimChildren cs).getLast?, last.isComment = true) :
    trimChildren cs = cs := by
  rw [trimChildren, List.getLast?_reverse] at h
  rw [trimChildren, trimEnd_of_comment h, List.reverse_reverse]

theorem ended_trimChildren_iff (cs : List Node) : Ended (trimChildren cs) ↔ Ended cs := by
  constructor
  · intro h
    obtain ⟨k, hk⟩ := trimChildren_append cs
    have hx : (Node.group .list []).isNewline = false := rfl
    rw [ended_iff_concat hx, hk, List.append_assoc, Parted]
    refine h.1.append ?_ fun a ha b _ hcomment => ?_
    · clear hk
      induction k with
      | zero => exact .singleton _
      | succ k ih => exact parted_newline_cons.mpr ih
    · rw [h.2 a ha] at hcomment
      cases hcomment
  · rintro ⟨hparted, hlast⟩
    refine ⟨hparted.of_begins (trimChildren_begins cs), fun last hmem => Bool.eq_false_iff.mpr fun hc => ?_⟩
    have hself := trimChildren_of_comment ⟨last, hmem, hc⟩
    rw [hself] at hmem
    rw [hlast last hmem] at hc
    cases hc

/-- A change that takes only newlines away, and none that ends a comment, changes nothing about whether
    comments are ended. -/
theorem each_ended_everywhere_iff (hf : ∀ cs, Ended (f cs) ↔ Ended cs) (hquiet : Quiet f) (n : Node) :
    (n.everywhere f).Each Ended ↔ n.Each Ended := by
  induction n with
  | leaf l => rw [everywhere_leaf]
  | group shape cs ih =>
    rw [everywhere_group, each_group_iff, each_group_iff, hf, ended_map (everywhere_keepsShape f),
      forall_mem_congr (Each.leaf _) (hquiet.filter _), List.forall_mem_map]
    exact and_congr_right fun _ => forall₂_congr ih

/-! ### The sort -/

theorem ended_written {es : List Entry} (hhead : head.isSemantic = true) (h : ∀ e ∈ es, e.node.isSemantic = true)
    (texts : List String) : Ended (written head es texts) := by
  obtain ⟨hlined, hends⟩ := lined_written hhead h texts
  refine ⟨hlined.imp fun _ _ hab => hab.2, fun last hmem => ?_⟩
  rcases hends with ⟨init, last', heq, hlast⟩ | ⟨init, text, heq⟩
  · rw [heq, List.getLast?_concat] at hmem
    exact Option.some.inj hmem ▸ (isSemantic_iff.mp hlast).2
  · rw [heq, List.append_cons, List.getLast?_concat] at hmem
    exact Option.some.inj hmem ▸ rfl

theorem each_ended_sortedClause (h : c.Each Ended) : c.sortedClause.Each Ended := by
  unfold sortedClause
  split
  · rename_i hform
    obtain ⟨name, rest, rfl, -⟩ := isKeywordForm_children hform
    obtain ⟨es, texts, hwritten, hes⟩ := sortedChildren_entries (.leaf (.keyword name)) rest
    rw [mapChildren_group, hwritten]
    refine .group (ended_written rfl (isSemantic_of_map_node hes) texts) fun d hd => ?_
    rcases mem_written hd with rfl | ⟨l, rfl⟩ | hmem
    · exact .leaf _
    · exact .leaf l
    · rw [hes, List.mem_mergeSort] at hmem
      exact (each_group_iff.mp h).2 d (List.mem_cons_of_mem _ (List.mem_filter.mp hmem).1)
  · exact h

theorem each_ended_sortedClauses (hns : n.isSymbolForm ["ns"] = true) (h : n.Each Ended) :
    (n.mapChildren sortedClauses).Each Ended := by
  obtain ⟨clauses, rfl⟩ := isSymbolForm_iff.mp hns
  obtain ⟨hcs, hc⟩ := each_group_iff.mp h
  rw [mapChildren_group, sortedClauses_eq_map]
  refine .group ((ended_map sortedClause_keepsShape _).mpr hcs) fun d hd => ?_
  obtain ⟨c, hmem, rfl⟩ := List.mem_map.mp hd
  exact each_ended_sortedClause (hc c hmem)

/-! ### Moves -/

theorem parted_cons (hc : c.isComment = false) (h : Parted ds) : Parted (c :: ds) :=
  h.cons fun _ _ hcomment => by rw [hc] at hcomment; cases hcomment

/-- A comment stands in the place of the name, and on the line after it a node that satisfies `p`. -/
def Swallowed (p : Node → Node → Prop) (cs : List Node) : Prop :=
  ∃ head text x next rest, cs = head :: comment text :: newline :: x :: next :: rest ∧ p x next

theorem ended_of_moves {name x next : Node} {rest : List Node} (hx : x.isSemantic = true)
    (h : Ended (head :: name :: newline :: x :: next :: rest)) :
    Ended (head :: name :: x :: if next.isNewline then next :: rest else newline :: next :: rest) ↔
      name.isComment = false := by
  obtain ⟨hnl, hcomment⟩ := isSemantic_iff.mp hx
  obtain ⟨hparted, hlast⟩ := h
  obtain ⟨hhead, hrest⟩ := List.isChain_cons_cons.mp hparted
  have hnext : Parted (next :: rest) := (List.isChain_cons.mp (List.isChain_cons.mp (List.isChain_cons.mp hrest).2).2).2
  constructor
  · rintro ⟨hparted', -⟩
    refine Bool.eq_false_iff.mpr fun hname => ?_
    rw [(List.isChain_cons_cons.mp (List.isChain_cons_cons.mp hparted').2).1 hname] at hnl
    cases hnl
  · intro hname
    refine ⟨.cons_cons hhead (parted_cons hname (parted_cons hcomment ?_)), ?_⟩
    · split
      · exact hnext
      · exact parted_newline_cons.mpr hnext
    · split <;> simpa using hlast

/-- Moving a node up leaves comments ended but for one in the place of the name. -/
theorem each_ended_mapChildren_iff (hf : Raises f p) (h : n.Each Ended) :
    (n.mapChildren f).Each Ended ↔ ¬ Swallowed p n.children := by
  cases n using Node.casesOn with
  | leaf l =>
    refine iff_of_true h ?_
    rintro ⟨_, _, _, _, _, heq, -⟩
    cases heq
  | group shape cs =>
    rw [mapChildren_group, children_group]
    by_cases hmoves : Moves p cs
    · obtain ⟨head, name, x, next, rest, rfl, hp⟩ := hmoves
      obtain ⟨hended, hall⟩ := each_group_iff.mp h
      have hfilter := hf.quiet.filter (head :: name :: newline :: x :: next :: rest)
      rw [each_group_iff, forall_mem_congr (Each.leaf _) hfilter, hf.moves head name x next rest hp,
        ended_of_moves (hf.code x next hp) hended, and_iff_left hall]
      constructor
      · rintro hname ⟨_, text, _, _, _, heq, -⟩
        rw [(List.cons.inj (List.cons.inj heq).2).1] at hname
        cases hname
      · intro hnot
        refine Bool.eq_false_iff.mpr fun hname => hnot ?_
        obtain ⟨text, rfl⟩ := isComment_iff.mp hname
        exact ⟨head, text, x, next, rest, rfl, hp⟩
    · rw [hf.stays cs hmoves]
      refine iff_of_true h ?_
      rintro ⟨head, text, x, next, rest, heq, hp⟩
      exact hmoves ⟨head, comment text, x, next, rest, heq, hp⟩

theorem swallowed_map (hφ : KeepsShape φ) (hp : ∀ x next, p (φ x) (φ next) ↔ p x next) (cs : List Node) :
    Swallowed p (cs.map φ) ↔ Swallowed p cs := by
  constructor
  · rintro ⟨head, text, x, next, rest, heq, h⟩
    rcases cs with _ | ⟨head', _ | ⟨name, _ | ⟨gap, _ | ⟨x', _ | ⟨next', rest'⟩⟩⟩⟩⟩
    · simp at heq
    · simp at heq
    · simp at heq
    · simp at heq
    · simp at heq
    · simp only [List.map_cons, List.cons.injEq] at heq
      obtain ⟨-, hname, hgap, rfl, rfl, -⟩ := heq
      have hleaf {n : Node} {l : Leaf} (h : φ n = .leaf l) : n = .leaf l :=
        Option.some.inj ((map_eq_leaf (o := some n) hφ).mp (congrArg some h))
      rw [hleaf hname, hleaf hgap]
      exact ⟨head', text, x', next', rest', rfl, (hp x' next').mp h⟩
  · rintro ⟨head, text, x, next, rest, rfl, h⟩
    refine ⟨φ head, text, φ x, φ next, rest.map φ, ?_, (hp x next).mpr h⟩
    simp [hφ.leaf]

theorem isArglist_map (hφ : KeepsShape φ) (x next : Node) : IsArglist (φ x) (φ next) ↔ IsArglist x next := by
  rw [IsArglist, IsArglist, hφ.isVector, hφ.isNewline]

theorem isDispatchVal_map (hφ : KeepsShape φ) (x next : Node) : IsDispatchVal (φ x) (φ next) ↔ IsDispatchVal x next := by
  rw [IsDispatchVal, IsDispatchVal, hφ.isKeyword]

/-! ### Roots -/

/-- The children that are there for the moves: without the newlines at the end, if these are taken off. -/
def spared (s : Settings) (cs : List Node) : List Node := if s .removeTrailingNewlines then trimChildren cs else cs

/-- A comment stands in the place of the name where a node moves up to the name, and loses its newline. -/
def Swallows (s : Settings) (root : Node) : Prop :=
  (s .fixDefnArglistNewline = true ∧ root.isSymbolForm ["defn"] = true ∧
    Swallowed IsArglist (spared s root.children)) ∨
  (s .fixDefmethodDispatchValNewline = true ∧ root.isSymbolForm ["defmethod"] = true ∧
    Swallowed IsDispatchVal (spared s root.children))

theorem each_ended_removeTrailingNewlines_iff (n : Node) : n.removeTrailingNewlines.Each Ended ↔ n.Each Ended :=
  each_ended_everywhere_iff ended_trimChildren_iff quiet_trimChildren n

theorem each_ended_removeExtraBlankLines_iff (n : Node) : n.removeExtraBlankLines.Each Ended ↔ n.Each Ended := by
  rw [removeExtraBlankLines_eq]
  exact each_ended_everywhere_iff ended_collapseBlankLines_iff quiet_collapseBlankLines n

theorem each_ended_sortedRoot (s : Settings) (h : n.Each Ended) : (n.sortedRoot s).Each Ended := by
  unfold sortedRoot changedForm
  split
  · rename_i hns
    exact each_ended_sortedClauses (Bool.and_eq_true_iff.mp hns).2 h
  · exact h

theorem each_ended_trimmedRoot_iff (s : Settings) (n : Node) : (n.trimmedRoot s).Each Ended ↔ n.Each Ended := by
  unfold trimmedRoot
  split
  · exact each_ended_removeTrailingNewlines_iff n
  · rfl

theorem each_ended_collapsedRoot_iff (s : Settings) (n : Node) : (n.collapsedRoot s).Each Ended ↔ n.Each Ended := by
  unfold collapsedRoot
  split
  · exact each_ended_removeExtraBlankLines_iff n
  · rfl

theorem isSymbolForm_trimmedRoot (s : Settings) (name : String) (n : Node) :
    (n.trimmedRoot s).isSymbolForm [name] = n.isSymbolForm [name] := by
  unfold trimmedRoot
  split
  · exact isSymbolForm_removeTrailingNewlines name n
  · rfl

theorem swallowed_trimmedRoot (s : Settings) (hp : ∀ φ, KeepsShape φ → ∀ x next, p (φ x) (φ next) ↔ p x next)
    (n : Node) : Swallowed p (n.trimmedRoot s).children ↔ Swallowed p (spared s n.children) := by
  unfold trimmedRoot spared
  split
  · cases n using Node.casesOn with
    | leaf l => rfl
    | group shape cs =>
      have hφ := everywhere_keepsShape trimChildren
      rw [removeTrailingNewlines, everywhere_group, children_group, shallow_trimChildren _ hφ]
      exact swallowed_map hφ (hp _ hφ) _
  · rfl

theorem each_ended_changedForm_iff (hf : Raises f p) (h : n.Each Ended) (on : Bool) (name : String) :
    (n.changedForm on name f).Each Ended ↔
      ¬ (on = true ∧ n.isSymbolForm [name] = true ∧ Swallowed p n.children) := by
  unfold changedForm
  split
  · rename_i hform
    rw [each_ended_mapChildren_iff hf h]
    simp_all
  · rename_i hform
    refine iff_of_true h ?_
    simp_all

/-- A root with its comments ended has them ended after the transforms unless a move swallows one. -/
theorem each_ended_formatted_iff (s : Settings) {root : Node} (h : root.Each Ended) :
    (root.formatted s).Each Ended ↔ ¬ Swallows s root := by
  have hbefore : ((root.sortedRoot s).trimmedRoot s).Each Ended :=
    (each_ended_trimmedRoot_iff s _).mpr (each_ended_sortedRoot s h)
  have hform (name : String) : ((root.sortedRoot s).trimmedRoot s).isSymbolForm [name] = root.isSymbolForm [name] :=
    (isSymbolForm_trimmedRoot s name _).trans (isSymbolForm_changedForm first_sortedClauses _ _ name root)
  rw [formatted, each_ended_collapsedRoot_iff]
  -- A root is headed by one symbol, so only one of the moves can change it.
  cases hdefn : root.isSymbolForm ["defn"] with
  | true =>
    have hns : root.isSymbolForm ["ns"] = false := isSymbolForm_ne hdefn (by decide)
    have hdefmethod : root.isSymbolForm ["defmethod"] = false := isSymbolForm_ne hdefn (by decide)
    have hother : (((root.sortedRoot s).trimmedRoot s).arglistRoot s).isSymbolForm ["defmethod"] = false :=
      (isSymbolForm_changedForm raises_raiseArglist.first_eq _ _ _ _).trans ((hform _).trans hdefmethod)
    rw [dispatchValRoot, changedForm_eq_self hother, arglistRoot,
      each_ended_changedForm_iff raises_raiseArglist hbefore, hform, hdefn, sortedRoot, changedForm_eq_self hns,
      swallowed_trimmedRoot s fun _ => isArglist_map]
    simp [Swallows, hdefn, hdefmethod]
  | false =>
    rw [arglistRoot, changedForm_eq_self ((hform _).trans hdefn), dispatchValRoot,
      each_ended_changedForm_iff raises_raiseDispatchVal hbefore, hform]
    cases hdefmethod : root.isSymbolForm ["defmethod"] with
    | true =>
      have hns : root.isSymbolForm ["ns"] = false := isSymbolForm_ne hdefmethod (by decide)
      rw [sortedRoot, changedForm_eq_self hns, swallowed_trimmedRoot s fun _ => isDispatchVal_map]
      simp [Swallows, hdefn, hdefmethod]
    | false => simp [Swallows, hdefn, hdefmethod]

end Node

namespace Forest
open Node

/-- A newline follows each comment, at every depth, but for a comment at the end. -/
def Closed (roots : Forest) : Prop := Parted roots ∧ ∀ root ∈ roots, root.Each Ended

/-- Formatting leaves no comment without the newline that ends it exactly where no move swallows one. -/
theorem format_closed_iff (s : Settings) {roots : Forest} (h : Closed roots) : ∃ out, Forest.format s roots = .ok out ∧
    (Closed out ↔ ∀ root ∈ roots, ¬ Swallows s root) := by
  have hmap : Parted (roots.map (Node.formatted s)) := (parted_map (formatted_keepsShape s) roots).mpr h.1
  have hroots : (∀ out ∈ roots.map (Node.formatted s), out.Each Ended) ↔ ∀ root ∈ roots, ¬ Swallows s root := by
    rw [List.forall_mem_map]
    exact forall₂_congr fun root hmem => each_ended_formatted_iff s (h.2 root hmem)
  refine ⟨formatted s roots, format_eq_ok s roots, ?_⟩
  rw [← hroots, Closed, formatted]
  split
  · rw [forall_mem_congr (Each.leaf _) (filter_collapseBlankLines _)]
    exact and_iff_right ((parted_collapseAfter_iff 0 _).mpr hmap)
  · exact and_iff_right hmap

/-- A comment at the end of a list keeps its newline. -/
theorem format_closed_at_end :
    Closed [.group .list [.leaf (.symbol "defn"), comment "; f", newline]] ∧
    ∃ out, Forest.format Settings.default [.group .list [.leaf (.symbol "defn"), comment "; f", newline]] = .ok out ∧
      (Closed out ↔
        ∀ root ∈ [Node.group .list [.leaf (.symbol "defn"), comment "; f", newline]], ¬ Swallows Settings.default root) := by
  have hclosed : Closed [.group .list [.leaf (.symbol "defn"), comment "; f", newline]] := by
    simp [Closed, Parted, Ended, each_group_iff, Each.leaf, isNewline, isComment]
  exact ⟨hclosed, format_closed_iff Settings.default hclosed⟩

/-- A comment in the place of the name loses its newline to the vector. -/
theorem format_not_closed :
    Closed [.group .list [.leaf (.symbol "defn"), comment "; f", newline, .group .vector [], .leaf (.symbol "y")]] ∧
    Forest.format Settings.default [.group .list [.leaf (.symbol "defn"), comment "; f", newline, .group .vector [],
      .leaf (.symbol "y")]] =
      .ok [.group .list [.leaf (.symbol "defn"), comment "; f", .group .vector [], newline, .leaf (.symbol "y")]] ∧
    ¬ Closed [.group .list [.leaf (.symbol "defn"), comment "; f", .group .vector [], newline, .leaf (.symbol "y")]] := by
  refine ⟨?_, rfl, ?_⟩
  · simp [Closed, Parted, Ended, each_group_iff, Each.leaf, isNewline, isComment]
  · simp [Closed, Parted, Ended, each_group_iff, isNewline, isComment]

end Forest
end ClojureLayout
