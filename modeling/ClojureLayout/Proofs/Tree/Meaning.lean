import ClojureLayout.Proofs.Tree.Definition
import ClojureLayout.Proofs.Tree.Entries
import Mathlib.Data.List.Forall2

/-! Formatting keeps the code of a tree. Every transform but the sort keeps the tree without its newlines,
    comments included, and adds no newline to any list of children (`Respaced`). The sort changes the
    order of the entries of a clause that requires or imports, and nothing else among the code
    (`RootKept`). -/

namespace ClojureLayout
namespace Node

/-! ### Views of a tree -/

/-- The node without the newlines in it. -/
def bare (n : Node) : Node := n.everywhere (List.filter (!·.isNewline))

/-- The node without the newlines and comments in it. -/
def code (n : Node) : Node := n.everywhere (List.filter isSemantic)

mutual

/-- The number of newlines among the children of each group, outer groups first. -/
def newlineCounts : Node → List Nat
  | .leaf _ => []
  | .group _ cs => cs.countP isNewline :: newlineCountsAll cs

/-- The numbers for each of the nodes in turn. -/
def newlineCountsAll : List Node → List Nat
  | [] => []
  | c :: cs => newlineCounts c ++ newlineCountsAll cs

end

theorem filter_map_keepsShape {φ : Node → Node} {p : Node → Bool} (hp : ∀ n, p (φ n) = p n) (cs : List Node) :
    (cs.map φ).filter p = (cs.filter p).map φ := by
  rw [List.filter_map]
  congr 1
  exact List.filter_congr fun c _ => hp c

theorem bare_group (shape : Shape) (cs : List Node) :
    bare (.group shape cs) = .group shape ((cs.filter (!·.isNewline)).map bare) := by
  rw [bare, everywhere_group, filter_map_keepsShape fun n => by rw [(everywhere_keepsShape _).isNewline]]
  rfl

theorem code_group (shape : Shape) (cs : List Node) :
    code (.group shape cs) = .group shape ((cs.filter isSemantic).map code) := by
  rw [code, everywhere_group, filter_map_keepsShape (everywhere_keepsShape _).isSemantic]
  rfl

theorem code_keepsShape : KeepsShape code := everywhere_keepsShape _

theorem bare_keepsShape : KeepsShape bare := everywhere_keepsShape _

theorem filter_isSemantic_filter (cs : List Node) : (cs.filter (!·.isNewline)).filter isSemantic = cs.filter isSemantic := by
  rw [List.filter_filter]
  refine List.filter_congr fun c _ => ?_
  unfold isSemantic
  cases c.isNewline <;> cases c.isComment <;> rfl

/-- The code of a node is the code of what is left without newlines. -/
theorem code_bare (n : Node) : n.bare.code = n.code := by
  induction n with
  | leaf l => rfl
  | group shape cs ih =>
    rw [bare_group, code_group, code_group, filter_map_keepsShape bare_keepsShape.isSemantic, filter_isSemantic_filter,
      List.map_map]
    congr 1
    exact List.map_congr_left fun c hc => ih c (List.mem_filter.mp hc).1

theorem newlineCountsAll_filter (cs : List Node) :
    newlineCountsAll (cs.filter (!·.isNewline)) = newlineCountsAll cs := by
  induction cs with
  | nil => rfl
  | cons c cs ih =>
    cases hc : c.isNewline with
    | false => simp [newlineCountsAll, hc, ih]
    | true =>
      obtain rfl := isNewline_iff.mp hc
      simp [newlineCountsAll, newlineCounts, ih]

/-! ### Respacing -/

/-- `b` is `a` with newlines taken away or moved among their neighbours. -/
structure Respaced (a b : Node) : Prop where
  bare : b.bare = a.bare
  counts : List.Forall₂ (· ≤ ·) b.newlineCounts a.newlineCounts

theorem forall₂_le_trans {as bs cs : List Nat} (h : List.Forall₂ (· ≤ ·) as bs) (k : List.Forall₂ (· ≤ ·) bs cs) :
    List.Forall₂ (· ≤ ·) as cs := by
  induction h generalizing cs with
  | nil => exact k
  | cons hab _ ih =>
    cases k with
    | cons hbc ht => exact .cons (Nat.le_trans hab hbc) (ih ht)

theorem Respaced.refl (a : Node) : Respaced a a :=
  ⟨rfl, List.forall₂_same.mpr fun _ _ => Nat.le_refl _⟩

theorem Respaced.trans {a b c : Node} (h : Respaced a b) (k : Respaced b c) : Respaced a c :=
  ⟨k.bare.trans h.bare, forall₂_le_trans k.counts h.counts⟩

theorem Respaced.code {a b : Node} (h : Respaced a b) : b.code = a.code := by
  rw [← code_bare, h.bare, code_bare]

end Node

namespace Forest
open Node

/-- The tree without the newlines in it. -/
def bare (roots : Forest) : Forest := (roots.filter (!·.isNewline)).map Node.bare

/-- The number of newlines among the roots, then among the children of each group. -/
def newlineCounts (roots : Forest) : List Nat := roots.countP isNewline :: newlineCountsAll roots

/-- `out` is `roots` with newlines taken away or moved among their neighbours. -/
structure Respaced (roots out : Forest) : Prop where
  bare : Forest.bare out = Forest.bare roots
  counts : List.Forall₂ (· ≤ ·) (Forest.newlineCounts out) (Forest.newlineCounts roots)

variable {f : List Node → List Node} {φ : Node → Node} {cs : List Node}

theorem newlineCountsAll_map_le (h : ∀ c ∈ cs, Node.Respaced c (φ c)) :
    List.Forall₂ (· ≤ ·) (newlineCountsAll (cs.map φ)) (newlineCountsAll cs) := by
  induction cs with
  | nil => exact .nil
  | cons c cs ih =>
    exact List.rel_append (h c List.mem_cons_self).counts (ih fun d hd => h d (List.mem_cons_of_mem c hd))

/-- A quiet change of nodes that are respaced themselves respaces their list. -/
theorem respaced_map (hf : Quiet f) (hφ : KeepsShape φ) (h : ∀ c ∈ cs, Node.Respaced c (φ c)) :
    Respaced cs (f (cs.map φ)) where
  bare := by
    rw [bare, bare, hf.filter, filter_map_keepsShape fun c => by rw [hφ.isNewline], List.map_map]
    exact List.map_congr_left fun c hc => (h c (List.mem_filter.mp hc).1).bare
  counts := by
    refine .cons ?_ ?_
    · refine Nat.le_trans (hf.count _) (Nat.le_of_eq ?_)
      rw [List.countP_map]
      exact List.countP_congr fun c _ => by rw [Function.comp_apply, hφ.isNewline]
    · rw [← newlineCountsAll_filter, hf.filter, newlineCountsAll_filter]
      exact newlineCountsAll_map_le h

end Forest

namespace Node
variable {f : List Node → List Node}

theorem respaced_group {cs ds : List Node} (shape : Shape) (h : Forest.Respaced cs ds) :
    Respaced (.group shape cs) (.group shape ds) :=
  ⟨by rw [bare_group, bare_group]; exact congrArg (Node.group shape) h.bare, h.counts⟩

theorem respaced_everywhere (hf : Quiet f) (n : Node) : Respaced n (n.everywhere f) := by
  induction n with
  | leaf l =>
    rw [everywhere_leaf]
    exact .refl _
  | group shape cs ih =>
    rw [everywhere_group]
    exact respaced_group shape (Forest.respaced_map hf (everywhere_keepsShape f) ih)

theorem respaced_mapChildren (hf : Quiet f) (n : Node) : Respaced n (n.mapChildren f) := by
  cases n using Node.casesOn with
  | leaf l => exact .refl _
  | group shape cs =>
    have h : Forest.Respaced cs (f (cs.map id)) :=
      Forest.respaced_map hf ⟨fun _ => rfl, fun _ ds => ⟨ds, rfl⟩⟩ fun c _ => .refl c
    rw [List.map_id] at h
    exact respaced_group shape h

/-! ### The sort -/

/-- The code of a clause, up to the order of the entries of a clause that requires or imports. -/
def ClauseKept (clause code : Node) : Prop :=
  code = clause.code ∨ clause.isKeywordForm [":require", ":import"] = true ∧
    ∃ head entries entries', clause.code = .group .list (head :: entries) ∧
      code = .group .list (head :: entries') ∧ entries'.Perm entries

/-- The code of a namespace declaration, up to the order of the entries of its clauses. -/
def NsKept (root code : Node) : Prop :=
  root.isSymbolForm ["ns"] = true ∧ ∃ head clauses codes, root = .group .list (head :: clauses) ∧
    code = .group .list (head :: codes) ∧ List.Forall₂ ClauseKept (clauses.filter isSemantic) codes

theorem clauseKept_sortedClause (clause : Node) : ClauseKept clause clause.sortedClause.code := by
  unfold sortedClause
  split
  · rename_i h
    obtain ⟨name, rest, rfl, -⟩ := isKeywordForm_children h
    have hhead : isSemantic (.leaf (.keyword name)) = true := rfl
    obtain ⟨entries, hcode, hperm⟩ := filter_sortedChildren hhead rest
    refine Or.inr ⟨h, .leaf (.keyword name), (rest.filter isSemantic).map code, entries.map code, ?_, ?_, hperm.map code⟩
    · rw [code_group, List.filter_cons_of_pos (by rfl), List.map_cons, code_keepsShape.leaf]
    · rw [mapChildren_group, code_group, hcode, List.map_cons, code_keepsShape.leaf]
  · exact Or.inl rfl

theorem nsKept_sortedClauses {root : Node} (h : root.isSymbolForm ["ns"] = true) :
    NsKept root (root.mapChildren sortedClauses).code := by
  obtain ⟨name, clauses, rfl, -⟩ := isSymbolForm_children h
  refine ⟨h, _, clauses, (clauses.filter isSemantic).map fun c => c.sortedClause.code, rfl, ?_, ?_⟩
  · rw [mapChildren_group, sortedClauses, code_group, List.filter_cons_of_pos (by rfl),
      filter_map_keepsShape sortedClause_keepsShape.isSemantic, List.map_cons, List.map_map]
    rfl
  · exact List.forall₂_map_right_iff.mpr (List.forall₂_same.mpr fun c _ => clauseKept_sortedClause c)

/-! ### Roots and trees -/

/-- The code of a root, up to the sort where that is on. -/
def RootKept (s : Settings) (root out : Node) : Prop :=
  out.code = root.code ∨ s .sortImportRequire = true ∧ NsKept root out.code

theorem respaced_ite {φ : Node → Node} {b : Bool} {n : Node} (h : Respaced n (φ n)) :
    Respaced n (if b then φ n else n) := by
  split
  · exact h
  · exact .refl n

/-- What follows the sort respaces what the sort leaves. -/
theorem respaced_formatted (s : Settings) (root : Node) : Respaced (root.sortedRoot s) (root.formatted s) := by
  have htrimmed (n : Node) : Respaced n (n.trimmedRoot s) := respaced_ite (respaced_everywhere quiet_trimChildren n)
  have harglist (n : Node) : Respaced n (n.arglistRoot s) := respaced_ite (respaced_mapChildren raises_raiseArglist.quiet n)
  have hdispatchVal (n : Node) : Respaced n (n.dispatchValRoot s) :=
    respaced_ite (respaced_mapChildren raises_raiseDispatchVal.quiet n)
  have hcollapsed (n : Node) : Respaced n (n.collapsedRoot s) :=
    respaced_ite (respaced_everywhere quiet_collapseChildren n)
  exact (((htrimmed _).trans (harglist _)).trans (hdispatchVal _)).trans (hcollapsed _)

theorem rootKept_formatted (s : Settings) (root : Node) : RootKept s root (root.formatted s) := by
  have h := (respaced_formatted s root).code
  unfold sortedRoot changedForm at h
  split at h
  · rename_i hsort
    obtain ⟨hon, hns⟩ := Bool.and_eq_true_iff.mp hsort
    refine Or.inr ⟨hon, ?_⟩
    rw [h]
    exact nsKept_sortedClauses hns
  · exact Or.inl h

end Node

namespace Forest
open Node

theorem filter_isSemantic_formatted (s : Settings) (roots : Forest) :
    (formatted s roots).filter isSemantic = (roots.filter isSemantic).map (Node.formatted s) := by
  have hmap := filter_map_keepsShape (formatted_keepsShape s).isSemantic roots
  unfold formatted
  split
  · rw [← filter_isSemantic_filter, quiet_collapseBlankLines.filter, filter_isSemantic_filter, hmap]
  · exact hmap

theorem respaced_formatted {s : Settings} (hsort : s .sortImportRequire = false) (roots : Forest) :
    Respaced roots (formatted s roots) := by
  have hroot (root) : Node.Respaced root (root.formatted s) := by
    have := Node.respaced_formatted s root
    rwa [sortedRoot, changedForm, hsort] at this
  unfold formatted
  split
  · exact respaced_map quiet_collapseBlankLines (formatted_keepsShape s) fun root _ => hroot root
  · exact respaced_map ⟨fun _ => rfl, fun _ => Nat.le_refl _⟩ (formatted_keepsShape s) fun root _ => hroot root

/-- Formatting keeps the meaning of a tree: it keeps the code of each root, but for the entries that the
    sort puts in another order; and without the sort it only takes newlines away or moves them. -/
theorem format_keeps_meaning (s : Settings) (roots : Forest) : ∃ out, Forest.format s roots = .ok out ∧
    List.Forall₂ (RootKept s) (roots.filter isSemantic) (out.filter isSemantic) ∧
    (s .sortImportRequire = false → Forest.Respaced roots out) := by
  refine ⟨formatted s roots, format_eq_ok s roots, ?_, fun hsort => respaced_formatted hsort roots⟩
  rw [filter_isSemantic_formatted]
  exact List.forall₂_map_right_iff.mpr (List.forall₂_same.mpr fun root _ => rootKept_formatted s root)

end Forest
end ClojureLayout
