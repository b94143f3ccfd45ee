import ClojureLayout.Proofs.Tree.Shifts
import Mathlib.Data.List.Forall2

/-! Newlines by their runs. The two transforms that take newlines away do so one newline at a time; here each is
    told by the runs of newlines in a list of children (`EndCut`, `RunsCut`) and by what becomes of a whole node
    when such a rule rewrites its groups from the outside in (`Rewritten`). -/

namespace ClojureLayout
namespace Node
variable {cs ds : List Node} {c : Node} {f : List Node → List Node} {rule : List Node → List Node → Prop}

/-! ### Rewriting every group -/

/-- The children of every group are rewritten by the rule, those of a group before those of the groups in it. -/
inductive Rewritten (rule : List Node → List Node → Prop) : Node → Node → Prop
  | leaf (l : Leaf) : Rewritten rule (.leaf l) (.leaf l)
  | group {shape cs ds es} : rule cs ds → List.Forall₂ (Rewritten rule) ds es →
      Rewritten rule (.group shape cs) (.group shape es)

theorem map_eq_iff_forall₂ {φ : Node → Node} {R : Node → Node → Prop} {es : List Node}
    (h : ∀ c ∈ cs, ∀ e, φ c = e ↔ R c e) : cs.map φ = es ↔ List.Forall₂ R cs es := by
  induction cs generalizing es with
  | nil => rw [List.map_nil, List.forall₂_nil_left_iff, eq_comm]
  | cons c cs ih =>
    rw [List.forall_mem_cons] at h
    rw [List.map_cons, List.forall₂_cons_left_iff]
    constructor
    · rintro rfl
      exact ⟨φ c, cs.map φ, (h.1 _).mp rfl, (ih h.2).mp rfl, rfl⟩
    · rintro ⟨e, es, he, hes, rfl⟩
      rw [(h.1 e).mpr he, (ih h.2).mpr hes]

/-- A change made from the inside out rewrites from the outside in, if it looks at the sorts of the children alone
    and brings no new ones. -/
theorem everywhere_eq_iff_rewritten (hrule : ∀ cs ds, f cs = ds ↔ rule cs ds) (hf : Shallow f)
    (hsub : ∀ cs, f cs ⊆ cs) (n m : Node) : n.everywhere f = m ↔ Rewritten rule n m := by
  induction n generalizing m with
  | leaf l =>
    rw [everywhere_leaf]
    constructor
    · rintro rfl
      exact .leaf l
    · rintro ⟨⟩
      rfl
  | group shape cs ih =>
    have hinside : ∀ es, (f cs).map (everywhere f) = es ↔ List.Forall₂ (Rewritten rule) (f cs) es := fun es =>
      map_eq_iff_forall₂ fun c hc => ih c (hsub cs hc)
    rw [everywhere_group, hf _ (everywhere_keepsShape f)]
    constructor
    · rintro rfl
      exact .group ((hrule cs _).mp rfl) ((hinside _).mp rfl)
    · rintro (_ | @⟨_, _, ds, es, hcs, hes⟩)
      obtain rfl := (hrule cs ds).mpr hcs
      rw [(hinside es).mpr hes]

/-! ### The run at the end -/

/-- The newlines at the end of a list, however many, are cut to one behind a comment and to none elsewhere. -/
inductive EndCut : (cs ds : List Node) → Prop
  | behindComment (before : List Node) (text : String) (k : Nat) :
      EndCut (before ++ comment text :: List.replicate k newline)
        (before ++ comment text :: List.replicate (min k 1) newline)
  | behindCode {c : Node} (before : List Node) (k : Nat) : c.isSemantic = true →
      EndCut (before ++ c :: List.replicate k newline) (before ++ [c])
  /-- A list of nothing but newlines. -/
  | alone (k : Nat) : EndCut (List.replicate k newline) []

theorem trimEnd_cons (hc : c.isNewline = false) (rs : List Node) : trimEnd (c :: rs) = c :: rs :=
  trimEnd_eq_self fun rest h => by
    rw [(List.cons.inj h).1] at hc
    cases hc

theorem trimEnd_replicate_comment (k : Nat) (text : String) (rs : List Node) :
    trimEnd (List.replicate k newline ++ comment text :: rs) =
      List.replicate (min k 1) newline ++ comment text :: rs := by
  match k with
  | 0 => exact trimEnd_cons rfl rs
  | 1 => rfl
  | k + 2 =>
    have hrest := trimEnd_replicate_comment (k + 1) text rs
    rw [show min (k + 2) 1 = min (k + 1) 1 by omega, ← hrest]
    rfl

theorem trimEnd_replicate_code (hc : c.isSemantic = true) (k : Nat) (rs : List Node) :
    trimEnd (List.replicate k newline ++ c :: rs) = c :: rs := by
  obtain ⟨hnewline, hcomment⟩ := isSemantic_iff.mp hc
  match k with
  | 0 => exact trimEnd_cons hnewline rs
  | 1 =>
    have hlast : trimEnd (newline :: c :: rs) = trimEnd (c :: rs) := by
      rw [trimEnd, if_neg (by simp [hcomment]), if_pos isNewline_newline]
    exact hlast.trans (trimEnd_cons hnewline rs)
  | k + 2 => exact trimEnd_replicate_code hc (k + 1) rs

theorem trimEnd_replicate (k : Nat) : trimEnd (List.replicate k newline) = [] := by
  match k with
  | 0 => rfl
  | 1 => rfl
  | k + 2 => exact trimEnd_replicate (k + 1)

theorem EndCut.trimChildren_eq (h : EndCut cs ds) : trimChildren cs = ds := by
  rw [trimChildren, ← List.reverse_inj, List.reverse_reverse]
  cases h with
  | behindComment before text k => simpa using trimEnd_replicate_comment k text before.reverse
  | behindCode before k hc => simpa using trimEnd_replicate_code hc k before.reverse
  | alone k => simpa using trimEnd_replicate k

theorem EndCut.exists (cs : List Node) : ∃ ds, EndCut cs ds := by
  obtain ⟨k, hk⟩ := trimChildren_append cs
  rcases (trimmed_trimChildren cs).ends with h | ⟨init, d, h, hd⟩ | ⟨init, text, h⟩
  · rw [h, List.nil_append] at hk
    exact ⟨[], hk ▸ .alone k⟩
  · rw [h, List.append_assoc, List.singleton_append] at hk
    subst hk
    cases hcomment : d.isComment with
    | false => exact ⟨_, .behindCode init k (isSemantic_iff.mpr ⟨hd, hcomment⟩)⟩
    | true =>
      obtain ⟨text, rfl⟩ := isComment_iff.mp hcomment
      exact ⟨_, .behindComment init text k⟩
  · rw [h, List.append_assoc] at hk
    subst hk
    exact ⟨_, .behindComment init text (k + 1)⟩

theorem trimChildren_eq_iff (cs ds : List Node) : trimChildren cs = ds ↔ EndCut cs ds := by
  constructor
  · rintro rfl
    obtain ⟨ds, hds⟩ := EndCut.exists cs
    rwa [hds.trimChildren_eq]
  · exact EndCut.trimChildren_eq

/-- Without the newlines before closing delimiters, a node is what cutting the run of newlines at the end of each of
    its groups makes of it. -/
theorem removeTrailingNewlines_eq_iff (n m : Node) : n.removeTrailingNewlines = m ↔ Rewritten EndCut n m :=
  everywhere_eq_iff_rewritten trimChildren_eq_iff shallow_trimChildren (fun cs => (trimChildren_begins cs).subset) n m

/-! ### Every run -/

/-- Each longest run of newlines is cut to two. -/
inductive RunsCut : (cs ds : List Node) → Prop
  | last (k : Nat) : RunsCut (List.replicate k newline) (List.replicate (min k 2) newline)
  | before {c : Node} {cs ds : List Node} (k : Nat) : c.isNewline = false → RunsCut cs ds →
      RunsCut (List.replicate k newline ++ c :: cs) (List.replicate (min k 2) newline ++ c :: ds)

theorem collapseBlankLines_replicate (k : Nat) :
    collapseBlankLines (List.replicate k newline) = List.replicate (min k 2) newline := by
  match k with
  | 0 => rfl
  | 1 => rfl
  | k + 2 =>
    have hrest := collapseAfter_replicate k []
    rw [List.append_nil] at hrest
    rw [show min (k + 2) 2 = 2 by omega, List.replicate_succ, List.replicate_succ, collapseBlankLines,
      collapseAfter_newline, collapseAfter_newline, hrest]
    rfl

theorem RunsCut.collapseBlankLines_eq (h : RunsCut cs ds) : collapseBlankLines cs = ds := by
  induction h with
  | last k => exact collapseBlankLines_replicate k
  | @before c cs ds k hc _ ih =>
    rw [collapseBlankLines, collapseAfter_append_cons _ _ hc]
    exact congrArg₂ (· ++ c :: ·) (collapseBlankLines_replicate k) ih

/-- One more newline at the head belongs to the first run. -/
theorem RunsCut.newline_cons (h : RunsCut cs ds) : ∃ es, RunsCut (newline :: cs) es := by
  cases h with
  | last k => exact ⟨_, .last (k + 1)⟩
  | before k hc h => exact ⟨_, .before (k + 1) hc h⟩

theorem RunsCut.exists (cs : List Node) : ∃ ds, RunsCut cs ds := by
  induction cs with
  | nil => exact ⟨[], .last 0⟩
  | cons c cs ih =>
    obtain ⟨ds, hds⟩ := ih
    cases hc : c.isNewline with
    | false => exact ⟨_, .before 0 hc hds⟩
    | true =>
      rw [isNewline_iff.mp hc]
      exact hds.newline_cons

theorem collapseBlankLines_eq_iff (cs ds : List Node) : collapseBlankLines cs = ds ↔ RunsCut cs ds := by
  constructor
  · rintro rfl
    obtain ⟨ds, hds⟩ := RunsCut.exists cs
    rwa [hds.collapseBlankLines_eq]
  · exact RunsCut.collapseBlankLines_eq

/-- Without the newlines past the second in a row, a list of nodes is what cutting each of its runs makes of it, and
    a node what cutting those of each of its groups does, the groups of one or two children included. -/
theorem removeExtraBlankLines_eq_iff : (∀ cs ds, collapseBlankLines cs = ds ↔ RunsCut cs ds) ∧
    ∀ n m : Node, n.removeExtraBlankLines = m ↔ Rewritten RunsCut n m := by
  refine ⟨collapseBlankLines_eq_iff, fun n m => ?_⟩
  rw [removeExtraBlankLines_eq]
  exact everywhere_eq_iff_rewritten collapseBlankLines_eq_iff shallow_collapseBlankLines
    (fun cs => (collapseBlankLines_sublist cs).subset) n m

end Node
end ClojureLayout
