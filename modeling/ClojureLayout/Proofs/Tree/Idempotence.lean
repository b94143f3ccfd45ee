import ClojureLayout.Proofs.Tree.Clause
import ClojureLayout.Proofs.Tree.Shifts

/-! Formatting a tree twice, with all transforms on. What the first run leaves is left by the second too,
    but for three sorts of roots (`Unsettled`): a namespace with an unsettled clause, and a definition
    of a function or of a method in which newlines after the head shift its nodes. -/

namespace ClojureLayout
namespace Node
variable {cs : List Node} {n : Node} {f : List Node → List Node} {φ : Node → Node}

/-! ### Roots -/

theorem formatted_default (n : Node) : n.formatted Settings.default =
    (changedForm true "defmethod" raiseDispatchVal (changedForm true "defn" raiseArglist
      (changedForm true "ns" sortedClauses n).removeTrailingNewlines)).removeExtraBlankLines :=
  rfl

theorem formatted_ns (h : n.isSymbolForm ["ns"] = true) :
    n.formatted Settings.default = n.mapChildren fun cs => tidyChildren (cs.map tidiedClause) := by
  have hother {name : String} (hne : name ≠ "ns") :
      (n.mapChildren sortedClauses).removeTrailingNewlines.isSymbolForm [name] = false := by
    rw [isSymbolForm_removeTrailingNewlines, isSymbolForm_mapChildren first_sortedClauses, isSymbolForm_ne h hne]
  rw [formatted_default, changedForm_eq_mapChildren h, changedForm_eq_self (hother (by decide)),
    changedForm_eq_self (hother (by decide)), tidied_eq]
  obtain ⟨clauses, rfl⟩ := isSymbolForm_iff.mp h
  rw [mapChildren_group, mapChildren_group, sortedClauses_eq_map, tidied_group, List.map_map]
  rfl

theorem formatted_defn (h : n.isSymbolForm ["defn"] = true) :
    n.formatted Settings.default = n.mapChildren fun cs => laidOut raiseArglist (cs.map tidied) := by
  have hdefn : n.removeTrailingNewlines.isSymbolForm ["defn"] = true := by rwa [isSymbolForm_removeTrailingNewlines]
  have hdefmethod : (n.removeTrailingNewlines.mapChildren raiseArglist).isSymbolForm ["defmethod"] = false := by
    rw [isSymbolForm_mapChildren raises_raiseArglist.first_eq, isSymbolForm_ne hdefn (by decide)]
  rw [formatted_default, changedForm_eq_self (isSymbolForm_ne h (by decide)), changedForm_eq_mapChildren hdefn,
    changedForm_eq_self hdefmethod]
  exact removeExtraBlankLines_mapChildren raises_raiseArglist.shallow n

theorem formatted_defmethod (h : n.isSymbolForm ["defmethod"] = true) :
    n.formatted Settings.default = n.mapChildren fun cs => laidOut raiseDispatchVal (cs.map tidied) := by
  have hdefmethod : n.removeTrailingNewlines.isSymbolForm ["defmethod"] = true := by
    rwa [isSymbolForm_removeTrailingNewlines]
  rw [formatted_default, changedForm_eq_self (isSymbolForm_ne h (by decide)),
    changedForm_eq_self (isSymbolForm_ne hdefmethod (by decide)), changedForm_eq_mapChildren hdefmethod]
  exact removeExtraBlankLines_mapChildren raises_raiseDispatchVal.shallow n

theorem formatted_other (hns : n.isSymbolForm ["ns"] = false) (hdefn : n.isSymbolForm ["defn"] = false)
    (hdefmethod : n.isSymbolForm ["defmethod"] = false) : n.formatted Settings.default = n.tidied := by
  rw [← isSymbolForm_removeTrailingNewlines] at hdefn hdefmethod
  rw [formatted_default, changedForm_eq_self hns, changedForm_eq_self hdefn, changedForm_eq_self hdefmethod, tidied_eq]

/-- A change of a list that settles by itself settles together with a change of the nodes in it exactly where
    that settles on each of them. -/
theorem map_settles_iff (hf : Shallow f) (hidem : ∀ cs, f (f cs) = f cs) (hquiet : Quiet f) (hφ : KeepsShape φ)
    (cs : List Node) :
    f ((f (cs.map φ)).map φ) = f (cs.map φ) ↔ ∀ c ∈ cs, φ (φ c) = φ c := by
  rw [← hf φ hφ, hidem, hf φ hφ, hf φ hφ, List.map_map, List.map_inj_left]
  exact forall_mem_congr (by rw [Function.comp_apply, hφ.leaf, hφ.leaf]) (hquiet.filter cs)

theorem tidyChildren_idem (cs : List Node) : tidyChildren (tidyChildren cs) = tidyChildren cs :=
  (tidy_tidyChildren cs).tidyChildren_eq

theorem tidiedClause_keepsShape : KeepsShape tidiedClause :=
  tidied_keepsShape.comp sortedClause_keepsShape

theorem laidOut_settles_iff {p : Node → Node → Prop} (hf : Raises f p) {head : Node} (hhead : head.isNewline = false) :
    laidOut f ((laidOut f ((head :: cs).map tidied)).map tidied) = laidOut f ((head :: cs).map tidied) ↔
      ¬ Shifts p (trimChildren (head :: cs)) := by
  have hshallow := hf.shallow_laidOut _ tidied_keepsShape
  have hidem : (laidOut f ((head :: cs).map tidied)).map tidied = laidOut f ((head :: cs).map tidied) := by
    rw [hshallow, List.map_map]
    exact List.map_congr_left fun c _ => tidied_idem c
  rw [hidem, hshallow, hshallow]
  constructor
  -- The node that the second run puts in the third place is no newline, and the one it finds there is.
  · intro h hshifts
    obtain ⟨x, rest, rest', honce, htwice, hx⟩ := hf.laidOut_of_shifts hhead hshifts
    rw [htwice, honce] at h
    have hthird := (List.cons.inj (List.cons.inj (List.cons.inj h).2).2).1
    rw [← tidied_keepsShape.isNewline, hthird, tidied_keepsShape.isNewline] at hx
    cases hx
  · exact fun h => congrArg (List.map tidied) (hf.laidOut_idem hhead h)

/-- The root is one that a second run goes on to change. -/
def Unsettled (root : Node) : Prop :=
  (root.isSymbolForm ["ns"] = true ∧ ∃ clause ∈ root.children, UnsettledClause clause) ∨
  (root.isSymbolForm ["defn"] = true ∧ Shifts IsArglist (trimChildren root.children)) ∨
  (root.isSymbolForm ["defmethod"] = true ∧ Shifts IsDispatchVal (trimChildren root.children))

theorem formatted_idem_iff_of_form {name : String} {g : List Node → List Node}
    (hformatted : ∀ n : Node, n.isSymbolForm [name] = true → n.formatted Settings.default = n.mapChildren g)
    (hfirst : ∀ cs, first cs = some (.leaf (.symbol name)) → first (g cs) = some (.leaf (.symbol name)))
    (h : n.isSymbolForm [name] = true) :
    (n.formatted Settings.default).formatted Settings.default = n.formatted Settings.default ↔
      g (g n.children) = g n.children := by
  obtain ⟨cs, rfl⟩ := isSymbolForm_iff.mp h
  have hagain : (mapChildren g (.group .list (.leaf (.symbol name) :: cs))).isSymbolForm [name] = true :=
    isSymbolForm_iff.mpr ((headed_group Leaf.noConfusion).mpr ⟨rfl, hfirst _ rfl⟩)
  rw [hformatted _ h, hformatted _ hagain, mapChildren_group, mapChildren_group, children_group]
  simp

theorem first_map_leaf (hφ : KeepsShape φ) {l : Leaf} (h : first cs = some (.leaf l)) :
    first (cs.map φ) = some (.leaf l) := by
  rw [first_map hφ]
  exact (map_eq_leaf hφ).mpr h

theorem first_laidOut (hf : ∀ cs, first (f cs) = first cs) (cs : List Node) : first (laidOut f cs) = first cs := by
  rw [laidOut, first_collapseBlankLines, hf, first_trimChildren]

/-- The second run leaves a root as the first has left it exactly where the root is settled. -/
theorem formatted_idem_iff (root : Node) :
    (root.formatted Settings.default).formatted Settings.default = root.formatted Settings.default ↔
      ¬ Unsettled root := by
  -- The head of a root decides which transform changes its form, in the second run as in the first.
  cases hns : root.isSymbolForm ["ns"] with
  | true =>
    have hdefn : root.isSymbolForm ["defn"] = false := isSymbolForm_ne hns (by decide)
    have hdefmethod : root.isSymbolForm ["defmethod"] = false := isSymbolForm_ne hns (by decide)
    rw [formatted_idem_iff_of_form (fun n => formatted_ns) ?_ hns]
    · rw [map_settles_iff shallow_tidyChildren tidyChildren_idem quiet_tidyChildren tidiedClause_keepsShape]
      simp [Unsettled, hns, hdefn, hdefmethod, tidiedClause_idem_iff]
    · intro cs h
      rw [first_tidyChildren]
      exact first_map_leaf tidiedClause_keepsShape h
  | false =>
    cases hdefn : root.isSymbolForm ["defn"] with
    | true =>
      have hdefmethod : root.isSymbolForm ["defmethod"] = false := isSymbolForm_ne hdefn (by decide)
      rw [formatted_idem_iff_of_form (fun n => formatted_defn) ?_ hdefn]
      · obtain ⟨cs, rfl⟩ := isSymbolForm_iff.mp hdefn
        rw [children_group, laidOut_settles_iff raises_raiseArglist rfl]
        simp [Unsettled, hns, hdefn, hdefmethod]
      · intro cs h
        rw [first_laidOut raises_raiseArglist.first_eq]
        exact first_map_leaf tidied_keepsShape h
    | false =>
      cases hdefmethod : root.isSymbolForm ["defmethod"] with
      | true =>
        rw [formatted_idem_iff_of_form (fun n => formatted_defmethod) ?_ hdefmethod]
        · obtain ⟨cs, rfl⟩ := isSymbolForm_iff.mp hdefmethod
          rw [children_group, laidOut_settles_iff raises_raiseDispatchVal rfl]
          simp [Unsettled, hns, hdefn, hdefmethod]
        · intro cs h
          rw [first_laidOut raises_raiseDispatchVal.first_eq]
          exact first_map_leaf tidied_keepsShape h
      | false =>
        have hother := formatted_other hns hdefn hdefmethod
        have hagain : root.tidied.formatted Settings.default = root.tidied.tidied := by
          refine formatted_other ?_ ?_ ?_
          all_goals rwa [tidied, isSymbolForm_everywhere first_tidyChildren]
        rw [hother, hagain, tidied_idem]
        simp [Unsettled, hns, hdefn, hdefmethod]

end Node

namespace Forest
open Node

/-- A second run leaves a tree as the first has left it exactly where no root is unsettled. -/
theorem format_idempotent_iff (roots : Forest) : ∃ out, Forest.format Settings.default roots = .ok out ∧
    (Forest.format Settings.default out = .ok out ↔ ∀ root ∈ roots, ¬ Unsettled root) := by
  refine ⟨formatted Settings.default roots, format_eq_ok _ roots, ?_⟩
  have hformatted (roots : Forest) : formatted Settings.default roots =
      collapseBlankLines (roots.map (Node.formatted Settings.default)) := rfl
  rw [format_eq_ok, Except.ok.injEq, hformatted, hformatted,
    map_settles_iff shallow_collapseBlankLines collapseBlankLines_idem quiet_collapseBlankLines (formatted_keepsShape _)]
  simp only [formatted_idem_iff]

/-- Three newlines before a vector become two in the first run, and in the second one of them goes behind
    the vector. -/
theorem format_not_idempotent :
    Forest.format Settings.default [.group .list [.leaf (.symbol "defn"), newline, newline, newline, .group .vector [],
      .leaf (.symbol "y")]] =
      .ok [.group .list [.leaf (.symbol "defn"), newline, newline, .group .vector [], .leaf (.symbol "y")]] ∧
    Forest.format Settings.default [.group .list [.leaf (.symbol "defn"), newline, newline, .group .vector [],
      .leaf (.symbol "y")]] ≠
      .ok [.group .list [.leaf (.symbol "defn"), newline, newline, .group .vector [], .leaf (.symbol "y")]] := by
  refine ⟨rfl, fun h => ?_⟩
  have hmoved : Forest.format Settings.default [.group .list [.leaf (.symbol "defn"), newline, newline, .group .vector [],
      .leaf (.symbol "y")]] =
      .ok [.group .list [.leaf (.symbol "defn"), newline, .group .vector [], newline, .leaf (.symbol "y")]] := rfl
  exact absurd (Except.ok.inj (hmoved.symm.trans h)) (by decide)

end Forest
end ClojureLayout
