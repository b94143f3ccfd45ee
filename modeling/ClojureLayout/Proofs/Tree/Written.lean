import ClojureLayout.Proofs.Tree.Entries
import ClojureLayout.Proofs.Tree.Tidy
import Mathlib.Data.List.Chain

/-! Written lists are tidy: each newline in them ends an entry or a comment, so none stands behind another
    and none stands at the end but behind a comment. A change of the nodes in them that keeps their shapes
    is a change of the nodes of their entries. -/

namespace ClojureLayout
namespace Node
variable {cs ds : List Node} {c head : Node} {φ : Node → Node}

/-! ### Lines -/

/-- No newline behind a newline, and a newline behind each comment that any node follows. -/
def Lined (cs : List Node) : Prop := cs.IsChain fun a b =>
  (a.isNewline = true → b.isNewline = false) ∧ (a.isComment = true → b.isNewline = true)

theorem Lined.collapseAfter_eq (h : Lined (c :: cs)) : collapseAfter (if c.isNewline then 1 else 0) cs = cs := by
  induction cs generalizing c with
  | nil => rfl
  | cons d ds ih =>
    obtain ⟨⟨hcd, -⟩, hd⟩ := List.isChain_cons_cons.mp h
    have hrest := ih hd
    cases hnl : d.isNewline with
    | false =>
      rw [hnl] at hrest
      rw [collapseAfter_cons _ _ hnl]
      exact congrArg (d :: ·) hrest
    | true =>
      have hc : c.isNewline = false := Bool.eq_false_iff.mpr fun hc => by simp [hcd hc] at hnl
      obtain rfl := isNewline_iff.mp hnl
      rw [hc, collapseAfter_newline]
      exact congrArg (newline :: ·) hrest

theorem Lined.collapseBlankLines_eq (h : Lined cs) : collapseBlankLines cs = cs := by
  cases cs with
  | nil => rfl
  | cons c cs =>
    have hrest := h.collapseAfter_eq
    cases hc : c.isNewline with
    | false =>
      rw [hc] at hrest
      exact (collapseAfter_cons 0 cs hc).trans (congrArg (c :: ·) hrest)
    | true =>
      rw [hc] at hrest
      obtain rfl := isNewline_iff.mp hc
      exact (collapseAfter_newline 0 cs).trans (congrArg (newline :: ·) hrest)

/-- Any node may follow code. -/
theorem Lined.cons (h : Lined ds) (hc : c.isSemantic = true) : Lined (c :: ds) := by
  obtain ⟨hnl, hcomment⟩ := isSemantic_iff.mp hc
  refine List.IsChain.cons h fun d _ => ⟨fun h => ?_, fun h => ?_⟩
  · rw [hnl] at h
    cases h
  · rw [hcomment] at h
    cases h

theorem Lined.newline_cons (h : Lined (c :: ds)) (hc : c.isNewline = false) : Lined (newline :: c :: ds) :=
  .cons_cons ⟨fun _ => hc, (fun h => by cases h)⟩ h

theorem Lined.comment_cons (h : Lined (newline :: ds)) (text : String) : Lined (comment text :: newline :: ds) :=
  .cons_cons ⟨(fun h => by cases h), fun _ => rfl⟩ h

-- The newline in front stands for the end of the line before: what follows it must not be a newline.
theorem lined_commentLines (texts : List String) (h : Lined (newline :: ds)) :
    Lined (newline :: (Entry.commentLines texts ++ ds)) := by
  induction texts with
  | nil => exact h
  | cons text texts ih => exact (ih.comment_cons text).newline_cons rfl

theorem lined_lines {e : Entry} (he : e.node.isSemantic = true) (h : Lined (newline :: ds)) :
    Lined (newline :: (e.lines ++ ds)) := by
  obtain ⟨node, above, beside⟩ := e
  rw [Entry.lines, List.append_assoc]
  refine lined_commentLines above (Lined.newline_cons ?_ (isSemantic_iff.mp he).1)
  cases beside with
  | none => exact h.cons he
  | some text => exact (h.comment_cons text).cons he

theorem lined_flatMap_lines {es : List Entry} (h : ∀ e ∈ es, e.node.isSemantic = true) (texts : List String) :
    Lined (newline :: (es.flatMap Entry.lines ++ Entry.commentLines texts)) := by
  induction es with
  | nil =>
    rw [← List.append_nil (Entry.commentLines texts)]
    exact lined_commentLines texts (.singleton _)
  | cons e es ih =>
    rw [List.flatMap_cons, List.append_assoc]
    exact lined_lines (h e List.mem_cons_self) (ih fun d hd => h d (List.mem_cons_of_mem e hd))

/-- A written list ends in code, or in a comment and its newline. -/
theorem lined_written {es : List Entry} (hhead : head.isSemantic = true) (h : ∀ e ∈ es, e.node.isSemantic = true)
    (texts : List String) : Lined (written head es texts) ∧
      ((∃ init last, written head es texts = init ++ [last] ∧ last.isSemantic = true) ∨
        ∃ init text, written head es texts = init ++ [comment text, newline]) := by
  have hlined : Lined (head :: (es.flatMap Entry.lines ++ Entry.commentLines texts)) :=
    Lined.cons (List.isChain_cons.mp (lined_flatMap_lines h texts)).2 hhead
  rcases dropFinalNewline_cons head (lines_concat es texts) with ⟨hw, hls⟩ | ⟨init, hinit, hw, before, last, hlast, hc⟩
  · rw [written, hw]
    refine ⟨hlined, ?_⟩
    rcases hls with hls | hls
    · exact Or.inl ⟨[], head, by rw [hls]; rfl, hhead⟩
    · exact Or.inr hls
  · rw [hinit, ← List.cons_append, hlast] at hlined
    have hkept : Lined (before ++ [last]) := List.IsChain.prefix hlined (List.prefix_append _ _)
    have hnl : last.isNewline = false := by
      rw [List.append_assoc] at hlined
      exact Bool.eq_false_iff.mpr fun hl => by cases (List.isChain_append_cons_cons.mp hlined).2.1.1 hl
    rw [written, hw, hlast]
    exact ⟨hkept, Or.inl ⟨before, last, rfl, isSemantic_iff.mpr ⟨hnl, hc⟩⟩⟩

theorem tidy_written {es : List Entry} (hhead : head.isSemantic = true) (h : ∀ e ∈ es, e.node.isSemantic = true)
    (texts : List String) : Tidy (written head es texts) := by
  obtain ⟨hlined, hends⟩ := lined_written hhead h texts
  refine ⟨?_, hlined.collapseBlankLines_eq⟩
  rcases hends with ⟨init, last, heq, hlast⟩ | ⟨init, text, heq⟩
  · rw [heq]
    exact trimmed_concat init (isSemantic_iff.mp hlast).1
  · rw [heq]
    exact trimmed_comment init text

/-! ### Written lists and their entries -/

theorem mem_commentLines {texts : List String} (h : c ∈ Entry.commentLines texts) : ∃ l, c = .leaf l := by
  obtain ⟨text, -, hc⟩ := List.mem_flatMap.mp h
  rcases List.mem_cons.mp hc with rfl | hc
  · exact ⟨_, rfl⟩
  · exact ⟨_, List.mem_singleton.mp hc⟩

theorem mem_lines {e : Entry} (h : c ∈ e.lines) : (∃ l, c = .leaf l) ∨ c = e.node := by
  rcases List.mem_append.mp h with h | h
  · exact Or.inl (mem_commentLines h)
  · rcases List.mem_cons.mp h with rfl | h
    · exact Or.inr rfl
    · rcases List.mem_append.mp h with h | h
      · obtain ⟨text, -, rfl⟩ := List.mem_map.mp h
        exact Or.inl ⟨_, rfl⟩
      · exact Or.inl ⟨_, List.mem_singleton.mp h⟩

/-- What stands in a written list is its head, a leaf, or the node of an entry. -/
theorem mem_written {es : List Entry} {texts : List String} (h : c ∈ written head es texts) :
    c = head ∨ (∃ l, c = .leaf l) ∨ c ∈ es.map (·.node) := by
  obtain ⟨rest, hrest, hls⟩ := written_cons head es texts
  rw [hrest] at h
  rcases List.mem_cons.mp h with rfl | h
  · exact Or.inl rfl
  have hline : c ∈ es.flatMap Entry.lines ++ Entry.commentLines texts := by
    rcases hls with hls | hls
    · exact hls ▸ h
    · exact hls ▸ List.mem_append_left _ h
  refine Or.inr ?_
  rcases List.mem_append.mp hline with hline | hline
  · obtain ⟨e, he, hc⟩ := List.mem_flatMap.mp hline
    rcases mem_lines hc with hleaf | rfl
    · exact Or.inl hleaf
    · exact Or.inr (List.mem_map_of_mem he)
  · exact Or.inl (mem_commentLines hline)

theorem shallow_dropFinalNewline : Shallow dropFinalNewline := by
  intro φ hφ cs
  unfold dropFinalNewline
  rw [← List.map_reverse]
  rcases cs.reverse with _ | ⟨last, _ | ⟨before, rest⟩⟩
  · rfl
  · rfl
  · simp only [List.map_cons, hφ.isComment]
    split
    · rfl
    · rw [List.map_reverse, List.map_cons]

theorem map_commentLines (hφ : KeepsShape φ) (texts : List String) :
    (Entry.commentLines texts).map φ = Entry.commentLines texts := by
  induction texts with
  | nil => rfl
  | cons text texts ih =>
    show [φ (comment text), φ newline] ++ (Entry.commentLines texts).map φ = _
    rw [hφ.leaf, hφ.leaf, ih]
    rfl

end Node

/-- The entry with its node changed. -/
def Entry.mapNode (φ : Node → Node) (e : Entry) : Entry := { e with node := φ e.node }

theorem Entry.lines_mapNode {φ : Node → Node} (hφ : Node.KeepsShape φ) (e : Entry) :
    (e.mapNode φ).lines = e.lines.map φ := by
  obtain ⟨node, above, beside⟩ := e
  simp only [mapNode, lines, List.map_append, List.map_cons, Node.map_commentLines hφ]
  cases beside <;> simp [hφ.leaf]

namespace Node
variable {φ : Node → Node}

theorem written_map (hφ : KeepsShape φ) (head : Node) (es : List Entry) (texts : List String) :
    (written head es texts).map φ = written (φ head) (es.map (Entry.mapNode φ)) texts := by
  have hlines : (es.flatMap Entry.lines).map φ = (es.map (Entry.mapNode φ)).flatMap Entry.lines := by
    rw [List.map_flatMap, List.flatMap_map]
    exact List.flatMap_congr fun e _ => (Entry.lines_mapNode hφ e).symm
  rw [written, ← shallow_dropFinalNewline φ hφ, List.map_cons, List.map_append, hlines, map_commentLines hφ]
  rfl

end Node

end ClojureLayout
