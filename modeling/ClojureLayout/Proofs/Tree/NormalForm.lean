import ClojureLayout.Proofs.Tree.Tidy
import Mathlib.Data.List.Infix

/-! The normal form of a tree. With the two transforms on that take newlines away, formatting leaves no
    newline at the end of a group but behind a comment, and no three newlines in a row, neither in a group
    nor among the roots. What comes between them, the moves of vectors and dispatch values, brings no
    newline to the end of a group (`Raises.each_trimmed`). -/

namespace ClojureLayout
namespace Node
variable {cs : List Node} {n : Node} {f : List Node → List Node} {φ : Node → Node} {p : Node → Node → Prop}

/-! ### Newlines in a row -/

/-- No three newlines stand in a row. -/
def NoThird (cs : List Node) : Prop := ¬ [newline, newline, newline] <:+: cs

/-- What has been read decides about what follows only by the newlines at its end. -/
theorem collapseAfter_append (run : Nat) (cs ds : List Node) :
    ∃ run', collapseAfter run (cs ++ ds) = collapseAfter run cs ++ collapseAfter run' ds := by
  induction cs generalizing run with
  | nil => exact ⟨run, rfl⟩
  | cons c cs ih =>
    simp only [List.cons_append, collapseAfter]
    generalize (if c.isNewline = true then run + 1 else 0) = next
    obtain ⟨run', hrest⟩ := ih next
    refine ⟨run', ?_⟩
    rw [hrest]
    split <;> rfl

theorem length_collapseAfter_third (run : Nat) (cs : List Node) :
    (collapseAfter run ([newline, newline, newline] ++ cs)).length ≤ cs.length + 2 := by
  have hrest := (collapseAfter_sublist (run + 3) cs).length_le
  have hthird : collapseAfter (run + 2) (newline :: cs) = collapseAfter (run + 3) cs := by
    rw [collapseAfter_newline, if_neg (by omega)]
  have hsecond : (collapseAfter (run + 1) (newline :: newline :: cs)).length ≤ cs.length + 1 := by
    rw [collapseAfter_newline, hthird]
    split
    · exact Nat.succ_le_succ hrest
    · exact Nat.le_succ_of_le hrest
  show (collapseAfter run (newline :: newline :: newline :: cs)).length ≤ cs.length + 2
  rw [collapseAfter_newline]
  split
  · exact Nat.succ_le_succ hsecond
  · exact Nat.le_succ_of_le hsecond

/-- A list that loses nothing holds no third newline in a row. -/
theorem noThird_of_collapse (h : collapseBlankLines cs = cs) : NoThird cs := by
  rintro ⟨init, rest, rfl⟩
  rw [List.append_assoc] at h
  obtain ⟨run, happend⟩ := collapseAfter_append 0 init ([newline, newline, newline] ++ rest)
  have hinit := (collapseAfter_sublist 0 init).length_le
  have hthird := length_collapseAfter_third run rest
  have hlength := congrArg List.length (happend.symm.trans h)
  simp only [List.length_append, List.length_cons, List.length_nil] at hlength hthird
  omega

theorem Tidy.noThird (h : Tidy cs) : NoThird cs := noThird_of_collapse h.2

/-! ### What each transform leaves -/

theorem Trimmed.map (hφ : KeepsShape φ) (h : Trimmed cs) : Trimmed (cs.map φ) := by
  rw [← trimChildren_eq_self h, ← shallow_trimChildren φ hφ]
  exact trimmed_trimChildren _

theorem each_trimmed_removeTrailingNewlines (n : Node) : n.removeTrailingNewlines.Each Trimmed :=
  each_everywhere trimmed_trimChildren (fun cs => (trimChildren_begins cs).subset) n

/-- A move within a group leaves its end as it was, and takes no node away but a newline. -/
theorem Raises.each_trimmed (hf : Raises f p) (h : n.Each Trimmed) : (n.mapChildren f).Each Trimmed := by
  cases n using Node.casesOn with
  | leaf l => exact h
  | group shape cs =>
    obtain ⟨hcs, hc⟩ := each_group_iff.mp h
    exact .group (hf.trimmed hcs) ((forall_mem_congr (Each.leaf _) (hf.quiet.filter cs)).mpr hc)

theorem Raises.each_trimmed_changedForm (hf : Raises f p) (on : Bool) (name : String) (h : n.Each Trimmed) :
    (n.changedForm on name f).Each Trimmed := by
  unfold changedForm
  split
  · exact hf.each_trimmed h
  · exact h

theorem each_tidy_removeExtraBlankLines (h : n.Each Trimmed) : n.removeExtraBlankLines.Each Tidy := by
  rw [removeExtraBlankLines_eq]
  induction n with
  | leaf l =>
    rw [everywhere_leaf]
    exact .leaf l
  | group shape cs ih =>
    obtain ⟨hcs, hc⟩ := each_group_iff.mp h
    rw [everywhere_group]
    refine .group (hcs.map (everywhere_keepsShape _)).tidy fun c hmem => ?_
    obtain ⟨d, hd, rfl⟩ := List.mem_map.mp ((collapseBlankLines_sublist _).subset hmem)
    exact ih d hd (hc d hd)

theorem each_tidy_formatted {s : Settings} (htrim : s .removeTrailingNewlines = true)
    (hblank : s .removeExtraBlankLines = true) (root : Node) : (root.formatted s).Each Tidy := by
  have htrimmed : ((root.sortedRoot s).trimmedRoot s).Each Trimmed := by
    rw [trimmedRoot, htrim, if_pos rfl]
    exact each_trimmed_removeTrailingNewlines _
  have harglist := raises_raiseArglist.each_trimmed_changedForm (s .fixDefnArglistNewline) "defn" htrimmed
  have hdispatchVal := raises_raiseDispatchVal.each_trimmed_changedForm (s .fixDefmethodDispatchValNewline) "defmethod"
    harglist
  rw [formatted, collapsedRoot, hblank, if_pos rfl]
  exact each_tidy_removeExtraBlankLines hdispatchVal

theorem Each.imp {P Q : List Node → Prop} (hPQ : ∀ cs, P cs → Q cs) (h : n.Each P) : n.Each Q := by
  induction h with
  | leaf l => exact .leaf l
  | group hcs _ ih => exact .group (hPQ _ hcs) ih

end Node

namespace Forest
open Node

/-- With both transforms on that take newlines away, and whatever the others, formatting leaves a newline at the end
    of a group only behind a comment, and three newlines in a row nowhere. -/
theorem format_normal {s : Settings} (htrim : s .removeTrailingNewlines = true)
    (hblank : s .removeExtraBlankLines = true) (roots : Forest) : ∃ out, Forest.format s roots = .ok out ∧
    NoThird out ∧ ∀ root ∈ out, root.Each fun cs => Trimmed cs ∧ NoThird cs := by
  have hout : formatted s roots = collapseBlankLines (roots.map (Node.formatted s)) := by
    rw [formatted, hblank, if_pos rfl]
  refine ⟨formatted s roots, format_eq_ok s roots, ?_, fun root hmem => ?_⟩
  · rw [hout]
    exact noThird_of_collapse (collapseBlankLines_idem _)
  · rw [hout] at hmem
    obtain ⟨before, -, rfl⟩ := List.mem_map.mp ((collapseBlankLines_sublist _).subset hmem)
    exact (each_tidy_formatted htrim hblank before).imp fun cs hcs => ⟨hcs.1, hcs.noThird⟩

/-- Of the newlines at the end one stays, since it ends a comment; of those between the roots two stay. -/
theorem format_normal_of_definition :
    Forest.format Settings.default [.group .list [.leaf (.symbol "defn"), .leaf (.symbol "f"), newline, .group .vector [],
      comment "; x", newline, newline], newline, newline, newline, .leaf (.symbol "y")] =
      .ok [.group .list [.leaf (.symbol "defn"), .leaf (.symbol "f"), .group .vector [], newline, comment "; x", newline],
        newline, newline, .leaf (.symbol "y")] ∧
    NoThird [.group .list [.leaf (.symbol "defn"), .leaf (.symbol "f"), .group .vector [], newline, comment "; x",
        newline], newline, newline, .leaf (.symbol "y")] ∧
    ∀ root ∈ [.group .list [.leaf (.symbol "defn"), .leaf (.symbol "f"), .group .vector [], newline, comment "; x",
        newline], newline, newline, .leaf (.symbol "y")], root.Each fun cs => Trimmed cs ∧ NoThird cs := by
  have hformat : Forest.format Settings.default [.group .list [.leaf (.symbol "defn"), .leaf (.symbol "f"), newline,
      .group .vector [], comment "; x", newline, newline], newline, newline, newline, .leaf (.symbol "y")] =
      .ok [.group .list [.leaf (.symbol "defn"), .leaf (.symbol "f"), .group .vector [], newline, comment "; x", newline],
        newline, newline, .leaf (.symbol "y")] := rfl
  obtain ⟨out, hout, hnormal⟩ := format_normal (s := Settings.default) rfl rfl
    [.group .list [.leaf (.symbol "defn"), .leaf (.symbol "f"), newline, .group .vector [], comment "; x", newline,
      newline], newline, newline, newline, .leaf (.symbol "y")]
  obtain rfl := Except.ok.inj (hformat.symm.trans hout)
  exact ⟨hformat, hnormal⟩

end Forest
end ClojureLayout
