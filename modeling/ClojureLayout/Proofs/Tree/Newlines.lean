import ClojureLayout.Proofs.Tree.Structure
import ClojureLayout.Tree.Newlines

/-! What taking newlines away does to a list of nodes. Newlines go at the end of the list (`trimChildren`)
    or past the second in a row (`collapseBlankLines`); nothing else goes, and the order stays. -/

namespace ClojureLayout
namespace Node
variable {cs ds : List Node} {c : Node} {φ : Node → Node}

@[simp] theorem isNewline_newline : isNewline newline = true := rfl

@[simp] theorem isNewline_comment (text : String) : isNewline (comment text) = false := rfl

@[simp] theorem isComment_comment (text : String) : isComment (comment text) = true := rfl

@[simp] theorem isSemantic_newline : isSemantic newline = false := rfl

@[simp] theorem isSemantic_comment (text : String) : isSemantic (comment text) = false := rfl

theorem isNewline_iff {n : Node} : n.isNewline = true ↔ n = newline := by
  unfold isNewline
  split
  · simp
  · simp_all

theorem isComment_iff {n : Node} : n.isComment = true ↔ ∃ text, n = comment text := by
  unfold isComment
  split
  · simp
  · rename_i hne
    simp only [Bool.false_eq_true, false_iff, not_exists]
    exact hne

theorem isSemantic_iff {n : Node} : n.isSemantic = true ↔ n.isNewline = false ∧ n.isComment = false := by
  simp [isSemantic]

/-- What holds of newlines holds of all nodes of a list if it does of those that are no newlines. -/
theorem forall_mem_filter_iff {P : Node → Prop} (hP : P newline) (cs : List Node) :
    (∀ c ∈ cs.filter (!·.isNewline), P c) ↔ ∀ c ∈ cs, P c := by
  refine ⟨fun h c hc => ?_, fun h c hc => h c (List.mem_filter.mp hc).1⟩
  cases hnl : c.isNewline with
  | false => exact h c (List.mem_filter.mpr ⟨hc, by rw [hnl]; rfl⟩)
  | true =>
    rw [isNewline_iff.mp hnl]
    exact hP

theorem forall_mem_congr {P : Node → Prop} (hP : P newline)
    (h : ds.filter (!·.isNewline) = cs.filter (!·.isNewline)) : (∀ c ∈ ds, P c) ↔ ∀ c ∈ cs, P c := by
  rw [← forall_mem_filter_iff hP ds, h, forall_mem_filter_iff hP]

/-! ### At the end -/

theorem trimEnd_append (rs : List Node) : ∃ k, rs = List.replicate k newline ++ trimEnd rs := by
  fun_induction trimEnd rs with
  | case1 => exact ⟨0, rfl⟩
  | case2 last before rest hcomment hlast ih =>
    obtain ⟨k, hk⟩ := ih
    refine ⟨k + 1, ?_⟩
    rw [isNewline_iff.mp hlast, List.replicate_succ, List.cons_append, ← hk]
  | case3 => exact ⟨0, rfl⟩
  | case4 last hlast => exact ⟨1, by rw [isNewline_iff.mp hlast]; rfl⟩
  | case5 => exact ⟨0, rfl⟩
  | case6 => exact ⟨0, rfl⟩

/-- What is taken off is a run of newlines. -/
theorem trimChildren_append (cs : List Node) : ∃ k, cs = trimChildren cs ++ List.replicate k newline := by
  obtain ⟨k, hk⟩ := trimEnd_append cs.reverse
  refine ⟨k, ?_⟩
  have := congrArg List.reverse hk
  rwa [List.reverse_reverse, List.reverse_append, List.reverse_replicate] at this

/-- A newline at the end ends a comment. -/
def Trimmed (cs : List Node) : Prop :=
  ∀ init, cs = init ++ [newline] → ∃ text, init.getLast? = some (comment text)

theorem trimmed_iff_reverse : Trimmed cs ↔
    ∀ rest, cs.reverse = newline :: rest → ∃ text, rest.head? = some (comment text) := by
  constructor
  · intro h rest hr
    simpa using h rest.reverse (by rw [← List.reverse_reverse cs, hr, List.reverse_cons])
  · rintro h init rfl
    simpa using h init.reverse List.reverse_concat

theorem trimmed_trimChildren (cs : List Node) : Trimmed (trimChildren cs) := by
  rw [trimmed_iff_reverse, trimChildren, List.reverse_reverse]
  fun_induction trimEnd cs.reverse with
  | case1 last before rest hcomment =>
    intro rest' h
    obtain ⟨text, rfl⟩ := isComment_iff.mp hcomment
    exact ⟨text, by rw [← (List.cons.inj h).2, List.head?_cons]⟩
  | case2 _ _ _ _ _ ih => exact ih
  | case3 last before rest hcomment hlast =>
    intro rest' h
    exact absurd (isNewline_iff.mpr (List.cons.inj h).1) hlast
  | case4 => exact fun _ h => by cases h
  | case5 last hlast =>
    intro rest' h
    exact absurd (isNewline_iff.mpr (List.cons.inj h).1) hlast
  | case6 => exact fun _ h => by cases h

theorem trimEnd_eq_self {rs : List Node}
    (h : ∀ rest, rs = newline :: rest → ∃ text, rest.head? = some (comment text)) : trimEnd rs = rs := by
  fun_cases trimEnd rs with
  | case1 => rfl
  | case2 last before rest hcomment hlast =>
    obtain ⟨text, ht⟩ := h (before :: rest) (by rw [isNewline_iff.mp hlast])
    exact absurd (isComment_iff.mpr ⟨text, Option.some.inj ht⟩) hcomment
  | case3 => rfl
  | case4 last hlast =>
    obtain ⟨text, ht⟩ := h [] (by rw [isNewline_iff.mp hlast])
    cases ht
  | case5 => rfl
  | case6 => rfl

theorem trimChildren_eq_self (h : Trimmed cs) : trimChildren cs = cs := by
  rw [trimChildren, trimEnd_eq_self (trimmed_iff_reverse.mp h), List.reverse_reverse]

theorem trimEnd_map (hφ : KeepsShape φ) (rs : List Node) : trimEnd (rs.map φ) = (trimEnd rs).map φ := by
  fun_induction trimEnd rs with
  | case1 last before rest hcomment => simp [trimEnd, hφ, hcomment]
  | case2 last before rest hcomment hlast ih =>
    rw [← ih]
    simp [trimEnd, hφ, hcomment, hlast]
  | case3 last before rest hcomment hlast => simp [trimEnd, hφ, hcomment, hlast]
  | case4 last hlast => simp [trimEnd, hφ, hlast]
  | case5 last hlast => simp [trimEnd, hφ, hlast]
  | case6 => rfl

theorem shallow_trimChildren : Shallow trimChildren := by
  intro φ hφ cs
  rw [trimChildren, trimChildren, ← List.map_reverse, trimEnd_map hφ, List.map_reverse]

/-- Only what follows a node that is no newline matters. -/
theorem trimmed_append_cons (cs : List Node) (hc : c.isNewline = false) : Trimmed (cs ++ c :: ds) ↔ Trimmed (c :: ds) := by
  have hne : c ≠ newline := by rintro rfl; cases hc
  simp only [trimmed_iff_reverse, List.reverse_append, List.reverse_cons, List.append_assoc, List.singleton_append]
  cases ds.reverse with
  | nil => simp [hne]
  | cons d ds => cases ds <;> simp

theorem trimmed_concat (cs : List Node) (hc : c.isNewline = false) : Trimmed (cs ++ [c]) := by
  intro init h
  obtain ⟨-, hlast⟩ := List.append_inj' h rfl
  rw [(List.cons.inj hlast).1] at hc
  cases hc

theorem trimmed_comment (cs : List Node) (text : String) : Trimmed (cs ++ [comment text, newline]) := by
  intro init h
  rw [List.append_cons] at h
  obtain ⟨rfl, -⟩ := List.append_inj' h rfl
  exact ⟨text, List.getLast?_concat⟩

/-- A trimmed list is empty, ends in a node that is no newline, or ends in a comment and its newline. -/
theorem Trimmed.ends (h : Trimmed cs) : cs = [] ∨ (∃ init d, cs = init ++ [d] ∧ d.isNewline = false) ∨
    ∃ init text, cs = init ++ [comment text, newline] := by
  rcases List.eq_nil_or_concat cs with rfl | ⟨init, d, hcat⟩
  · exact Or.inl rfl
  · obtain rfl := hcat.trans (List.concat_eq_append)
    cases hd : d.isNewline with
    | false => exact Or.inr (Or.inl ⟨init, d, rfl, hd⟩)
    | true =>
      obtain rfl := isNewline_iff.mp hd
      obtain ⟨text, ht⟩ := h init rfl
      obtain ⟨before, rfl⟩ := List.getLast?_eq_some_iff.mp ht
      exact Or.inr (Or.inr ⟨before, text, by rw [List.append_assoc]; rfl⟩)

theorem trimChildren_cons (hc : c.isNewline = false) (cs : List Node) : ∃ ds, trimChildren (c :: cs) = c :: ds := by
  obtain ⟨k, hk⟩ := trimChildren_append (c :: cs)
  cases htrim : trimChildren (c :: cs) with
  | nil =>
    rw [htrim, List.nil_append] at hk
    have hmem : c ∈ List.replicate k newline := by
      rw [← hk]
      exact List.mem_cons_self
    rw [(List.mem_replicate.mp hmem).2] at hc
    cases hc
  | cons d ds =>
    rw [htrim] at hk
    exact ⟨ds, by rw [(List.cons.inj hk).1]⟩

theorem filter_trimChildren (cs : List Node) :
    (trimChildren cs).filter (!·.isNewline) = cs.filter (!·.isNewline) := by
  obtain ⟨k, hk⟩ := trimChildren_append cs
  conv => rhs; rw [hk, List.filter_append]
  simp

theorem trimChildren_begins (cs : List Node) : trimChildren cs <+: cs := by
  obtain ⟨k, hk⟩ := trimChildren_append cs
  exact ⟨_, hk.symm⟩

/-! ### In a row -/

theorem collapseAfter_cons (run : Nat) (cs : List Node) (hc : c.isNewline = false) :
    collapseAfter run (c :: cs) = c :: collapseAfter 0 cs := by
  simp [collapseAfter, hc]

theorem collapseAfter_newline (run : Nat) (cs : List Node) : collapseAfter run (newline :: cs) =
    if run ≤ 1 then newline :: collapseAfter (run + 1) cs else collapseAfter (run + 1) cs := by
  simp [collapseAfter, isNewline]

theorem collapseAfter_sublist (run : Nat) (cs : List Node) : (collapseAfter run cs).Sublist cs := by
  fun_induction collapseAfter run cs with
  | case1 => exact .slnil
  | case2 _ c _ _ _ ih => exact ih.cons_cons c
  | case3 _ c _ _ _ ih => exact ih.cons c

/-- Newlines before a node that is none do not count behind it. -/
theorem collapseAfter_append_cons (run : Nat) (cs : List Node) (hc : c.isNewline = false) :
    collapseAfter run (cs ++ c :: ds) = collapseAfter run cs ++ c :: collapseAfter 0 ds := by
  induction cs generalizing run with
  | nil => exact collapseAfter_cons run ds hc
  | cons d cs ih =>
    rw [List.cons_append]
    cases hd : d.isNewline with
    | false => rw [collapseAfter_cons _ _ hd, collapseAfter_cons _ _ hd, ih, List.cons_append]
    | true =>
      rw [isNewline_iff.mp hd, collapseAfter_newline, collapseAfter_newline, ih]
      split <;> rfl

theorem collapseAfter_of_two_le {run : Nat} (hrun : 2 ≤ run) (cs : List Node) :
    collapseAfter run cs = collapseAfter 2 cs := by
  induction cs generalizing run with
  | nil => rfl
  | cons d cs ih =>
    cases hd : d.isNewline with
    | false => rw [collapseAfter_cons _ _ hd, collapseAfter_cons _ _ hd]
    | true =>
      rw [isNewline_iff.mp hd, collapseAfter_newline, collapseAfter_newline, if_neg (by omega), if_neg (by omega),
        ih (show 2 ≤ run + 1 by omega), ih (show 2 ≤ 2 + 1 by omega)]

theorem collapseAfter_idem (run : Nat) (cs : List Node) :
    collapseAfter run (collapseAfter run cs) = collapseAfter run cs := by
  induction cs generalizing run with
  | nil => rfl
  | cons d cs ih =>
    cases hd : d.isNewline with
    | false => rw [collapseAfter_cons _ _ hd, collapseAfter_cons _ _ hd, ih]
    | true =>
      rw [isNewline_iff.mp hd, collapseAfter_newline]
      split
      · rename_i hrun
        rw [collapseAfter_newline, if_pos hrun, ih]
      · rename_i hrun
        rw [collapseAfter_of_two_le (show 2 ≤ run + 1 by omega), collapseAfter_of_two_le (show 2 ≤ run by omega), ih]

theorem collapseAfter_map (hφ : KeepsShape φ) (run : Nat) (cs : List Node) :
    collapseAfter run (cs.map φ) = (collapseAfter run cs).map φ := by
  induction cs generalizing run with
  | nil => rfl
  | cons d cs ih =>
    simp only [List.map_cons, collapseAfter, hφ.isNewline, ih]
    split <;> split <;> rfl

theorem filter_collapseAfter (run : Nat) (cs : List Node) :
    (collapseAfter run cs).filter (!·.isNewline) = cs.filter (!·.isNewline) := by
  induction cs generalizing run with
  | nil => rfl
  | cons d cs ih =>
    cases hd : d.isNewline with
    | false => simp [collapseAfter_cons _ _ hd, ih, hd]
    | true =>
      rw [isNewline_iff.mp hd, collapseAfter_newline]
      split <;> simp [ih]

theorem filter_collapseBlankLines (cs : List Node) :
    (collapseBlankLines cs).filter (!·.isNewline) = cs.filter (!·.isNewline) :=
  filter_collapseAfter 0 cs

theorem collapseBlankLines_of_length_le (h : cs.length ≤ 2) : collapseBlankLines cs = cs := by
  match cs, h with
  | [], _ => rfl
  | [c], _ => cases hc : c.isNewline <;> simp [collapseBlankLines, collapseAfter, hc]
  | [c, d], _ =>
    cases hc : c.isNewline <;> cases hd : d.isNewline <;> simp [collapseBlankLines, collapseAfter, hc, hd]

/-- The short lists that are passed over hold no third newline in a row. -/
theorem collapseChildren_eq (cs : List Node) : collapseChildren cs = collapseBlankLines cs := by
  unfold collapseChildren
  split
  · rfl
  · rename_i h
    exact (collapseBlankLines_of_length_le (by omega)).symm

theorem collapseBlankLines_sublist (cs : List Node) : (collapseBlankLines cs).Sublist cs :=
  collapseAfter_sublist 0 cs

theorem Trimmed.collapse (h : Trimmed cs) : Trimmed (collapseBlankLines cs) := by
  rcases h.ends with rfl | ⟨init, d, rfl, hd⟩ | ⟨init, text, rfl⟩
  · exact h
  · rw [collapseBlankLines, collapseAfter_append_cons _ _ hd, trimmed_append_cons _ hd]
    exact (trimmed_append_cons _ hd).mp h
  · have hcomment : (comment text).isNewline = false := rfl
    rw [collapseBlankLines, collapseAfter_append_cons _ _ hcomment, trimmed_append_cons _ hcomment]
    exact (trimmed_append_cons _ hcomment).mp h

/-! ### Quiet changes -/

/-- The change takes away newlines or moves them, and does nothing else. -/
structure Quiet (f : List Node → List Node) : Prop where
  filter : ∀ cs, (f cs).filter (!·.isNewline) = cs.filter (!·.isNewline)
  count : ∀ cs, (f cs).countP isNewline ≤ cs.countP isNewline

theorem quiet_trimChildren : Quiet trimChildren :=
  ⟨filter_trimChildren, fun cs => (trimChildren_begins cs).sublist.countP_le⟩

theorem quiet_collapseBlankLines : Quiet collapseBlankLines :=
  ⟨filter_collapseBlankLines, fun cs => (collapseBlankLines_sublist cs).countP_le⟩

theorem quiet_collapseChildren : Quiet collapseChildren := by
  rw [show collapseChildren = collapseBlankLines from funext collapseChildren_eq]
  exact quiet_collapseBlankLines

end Node
end ClojureLayout
