import ClojureLayout.Proofs.Tree.Definition

/-! Trees without spare newlines. Taking newlines off the ends of groups and then the third in a row
    everywhere is one change of every group (`tidied`). It settles, and it keeps what a list is headed by. -/

namespace ClojureLayout
namespace Node
variable {cs ds : List Node} {c n : Node} {φ : Node → Node} {f g : List Node → List Node}

theorem everywhere_everywhere (hf : Shallow f) (n : Node) :
    (n.everywhere f).everywhere g = n.everywhere fun cs => g (f cs) := by
  induction n with
  | leaf l => simp only [everywhere_leaf]
  | group shape cs ih =>
    have hmap : cs.map (everywhere g ∘ everywhere f) = cs.map (everywhere fun cs => g (f cs)) := List.map_congr_left ih
    rw [everywhere_group, everywhere_group, everywhere_group, ← hf _ (everywhere_keepsShape g), List.map_map, hmap]

/-! ### Tidy lists -/

/-- The nodes without the newlines that a layout can do without. -/
def tidyChildren (cs : List Node) : List Node := collapseBlankLines (trimChildren cs)

/-- No newline at the end but behind a comment, and no third newline in a row. -/
def Tidy (cs : List Node) : Prop := Trimmed cs ∧ collapseBlankLines cs = cs

theorem collapseBlankLines_idem (cs : List Node) : collapseBlankLines (collapseBlankLines cs) = collapseBlankLines cs :=
  collapseAfter_idem 0 cs

theorem Trimmed.tidy (h : Trimmed cs) : Tidy (collapseBlankLines cs) := ⟨h.collapse, collapseBlankLines_idem cs⟩

theorem tidy_tidyChildren (cs : List Node) : Tidy (tidyChildren cs) := (trimmed_trimChildren cs).tidy

theorem Tidy.tidyChildren_eq (h : Tidy cs) : tidyChildren cs = cs := by rw [tidyChildren, trimChildren_eq_self h.1, h.2]

theorem shallow_collapseBlankLines : Shallow collapseBlankLines := fun _ hφ => collapseAfter_map hφ 0

theorem Shallow.comp (hf : Shallow f) (hg : Shallow g) : Shallow fun cs => g (f cs) := by
  intro φ hφ cs
  show g (f (cs.map φ)) = (g (f cs)).map φ
  rw [hf φ hφ, hg φ hφ]

theorem shallow_tidyChildren : Shallow tidyChildren := shallow_trimChildren.comp shallow_collapseBlankLines

theorem tidyChildren_sublist (cs : List Node) : (tidyChildren cs).Sublist cs :=
  (collapseBlankLines_sublist _).trans (trimChildren_begins cs).sublist

theorem Quiet.comp (hf : Quiet f) (hg : Quiet g) : Quiet fun cs => g (f cs) :=
  ⟨fun cs => (hg.filter (f cs)).trans (hf.filter cs), fun cs => Nat.le_trans (hg.count (f cs)) (hf.count cs)⟩

theorem quiet_tidyChildren : Quiet tidyChildren := quiet_trimChildren.comp quiet_collapseBlankLines

/-! ### Tidy trees -/

/-- The node without the newlines that a layout can do without, at every depth. -/
def tidied (n : Node) : Node := n.everywhere tidyChildren

theorem removeExtraBlankLines_eq (n : Node) : n.removeExtraBlankLines = n.everywhere collapseBlankLines :=
  congrArg (everywhere · n) (funext collapseChildren_eq)

theorem tidied_eq (n : Node) : n.removeTrailingNewlines.removeExtraBlankLines = n.tidied := by
  rw [removeExtraBlankLines_eq]
  exact everywhere_everywhere shallow_trimChildren n

theorem tidied_keepsShape : KeepsShape tidied := everywhere_keepsShape tidyChildren

theorem tidied_group (shape : Shape) (cs : List Node) :
    tidied (.group shape cs) = .group shape (tidyChildren (cs.map tidied)) :=
  everywhere_group shape cs

theorem each_tidied (n : Node) : n.tidied.Each Tidy :=
  each_everywhere tidy_tidyChildren (fun cs => (tidyChildren_sublist cs).subset) n

theorem tidied_eq_self (h : n.Each Tidy) : n.tidied = n := by
  refine everywhere_eq_self ?_
  induction n with
  | leaf l => exact .leaf l
  | group shape cs ih =>
    obtain ⟨hcs, hc⟩ := each_group_iff.mp h
    exact .group hcs.tidyChildren_eq fun c hmem => ih c hmem (hc c hmem)

theorem tidied_idem (n : Node) : n.tidied.tidied = n.tidied := tidied_eq_self (each_tidied n)

/-- The last transform after a change of the children of a node that the first has been applied to. -/
theorem removeExtraBlankLines_mapChildren (hf : Shallow f) (n : Node) :
    (n.removeTrailingNewlines.mapChildren f).removeExtraBlankLines =
      n.mapChildren fun cs => collapseBlankLines (f (trimChildren (cs.map tidied))) := by
  cases n using Node.casesOn with
  | leaf l => simp [removeTrailingNewlines, removeExtraBlankLines]
  | group shape cs =>
    rw [removeExtraBlankLines_eq, removeTrailingNewlines, everywhere_group, mapChildren_group, everywhere_group,
      mapChildren_group, ← hf _ (everywhere_keepsShape _), ← shallow_trimChildren _ (everywhere_keepsShape _),
      List.map_map]
    congr 4
    exact List.map_congr_left fun c _ => everywhere_everywhere shallow_trimChildren c

/-! ### What heads a list -/

/-- The first of the nodes, if it is no newline. -/
def first (cs : List Node) : Option Node := cs.head?.filter (!·.isNewline)

theorem first_cons (hc : c.isNewline = false) (cs : List Node) : first (c :: cs) = some c := by simp [first, hc]

theorem first_map (hφ : KeepsShape φ) (cs : List Node) : first (cs.map φ) = (first cs).map φ := by
  cases cs with
  | nil => rfl
  | cons c cs => cases hc : c.isNewline <;> simp [first, Option.filter, hφ.isNewline, hc]

theorem first_trimChildren (cs : List Node) : first (trimChildren cs) = first cs := by
  obtain ⟨k, hk⟩ := trimChildren_append cs
  cases htrim : trimChildren cs with
  | nil =>
    rw [hk, htrim]
    cases k <;> rfl
  | cons d ds =>
    rw [hk, htrim]
    rfl

theorem collapseBlankLines_cons (c : Node) (cs : List Node) :
    ∃ ds, collapseBlankLines (c :: cs) = c :: ds ∧ ds.Sublist cs := by
  cases hc : c.isNewline with
  | false => exact ⟨_, collapseAfter_cons 0 cs hc, collapseAfter_sublist 0 cs⟩
  | true =>
    obtain rfl := isNewline_iff.mp hc
    exact ⟨_, collapseAfter_newline 0 cs, collapseAfter_sublist 1 cs⟩

theorem first_collapseBlankLines (cs : List Node) : first (collapseBlankLines cs) = first cs := by
  cases cs with
  | nil => rfl
  | cons c cs =>
    obtain ⟨ds, hds, -⟩ := collapseBlankLines_cons c cs
    rw [hds]
    rfl

theorem first_tidyChildren (cs : List Node) : first (tidyChildren cs) = first cs :=
  (first_collapseBlankLines _).trans (first_trimChildren cs)

theorem Raises.first_eq {p : Node → Node → Prop} (hf : Raises f p) (cs : List Node) : first (f cs) = first cs := by
  rcases hf.cases cs with h | ⟨head, name, x, next, rest, rfl, -, ⟨-, h⟩ | ⟨-, h⟩⟩
  · rw [h]
  · rw [h]
    rfl
  · rw [h]
    rfl

theorem first_sortedClauses (cs : List Node) : first (sortedClauses cs) = first cs := by cases cs <;> rfl

/-- The node is a list headed by the leaf. -/
def Headed (l : Leaf) (n : Node) : Prop := ∃ cs, n = .group .list (.leaf l :: cs)

theorem headed_group {l : Leaf} (hl : l ≠ .newline) {shape : Shape} :
    Headed l (.group shape cs) ↔ shape = .list ∧ first cs = some (.leaf l) := by
  constructor
  · rintro ⟨ds, h⟩
    obtain ⟨rfl, rfl⟩ := Node.group.inj h
    exact ⟨rfl, first_cons (by cases l <;> first | rfl | exact absurd rfl hl) ds⟩
  · rintro ⟨rfl, h⟩
    cases cs with
    | nil => cases h
    | cons c cs =>
      obtain ⟨hc, -⟩ := Option.filter_eq_some_iff.mp h
      exact ⟨cs, by rw [Option.some.inj hc]⟩

theorem map_eq_leaf (hφ : KeepsShape φ) {l : Leaf} {o : Option Node} : o.map φ = some (.leaf l) ↔ o = some (.leaf l) := by
  rcases o with _ | n
  · simp
  · cases n using Node.casesOn with
    | leaf m => simp [hφ.leaf]
    | group shape cs =>
      obtain ⟨ds, hds⟩ := hφ.group shape cs
      simp [hds]

theorem headed_everywhere (hf : ∀ cs, first (f cs) = first cs) {l : Leaf} (hl : l ≠ .newline) :
    Headed l (n.everywhere f) ↔ Headed l n := by
  cases n using Node.casesOn with
  | leaf m => rw [everywhere_leaf]
  | group shape cs =>
    rw [everywhere_group, headed_group hl, headed_group hl, hf, first_map (everywhere_keepsShape f),
      map_eq_leaf (everywhere_keepsShape f)]

theorem headed_mapChildren (hf : ∀ cs, first (f cs) = first cs) {l : Leaf} (hl : l ≠ .newline) :
    Headed l (n.mapChildren f) ↔ Headed l n := by
  cases n using Node.casesOn with
  | leaf m => rfl
  | group shape cs => rw [mapChildren_group, headed_group hl, headed_group hl, hf]

theorem isSymbolForm_iff {name : String} : n.isSymbolForm [name] = true ↔ Headed (.symbol name) n := by
  constructor
  · intro h
    obtain ⟨name', rest, rfl, hmem⟩ := isSymbolForm_children h
    exact ⟨rest, by rw [List.mem_singleton.mp hmem]⟩
  · rintro ⟨cs, rfl⟩
    simp [isSymbolForm]

theorem isSymbolForm_congr {name : String} {m : Node} (h : Headed (.symbol name) m ↔ Headed (.symbol name) n) :
    m.isSymbolForm [name] = n.isSymbolForm [name] := by
  rw [Bool.eq_iff_iff, isSymbolForm_iff, isSymbolForm_iff, h]

theorem isSymbolForm_mapChildren (hf : ∀ cs, first (f cs) = first cs) (name : String) (n : Node) :
    (n.mapChildren f).isSymbolForm [name] = n.isSymbolForm [name] :=
  isSymbolForm_congr (headed_mapChildren hf Leaf.noConfusion)

theorem isSymbolForm_everywhere (hf : ∀ cs, first (f cs) = first cs) (name : String) (n : Node) :
    (n.everywhere f).isSymbolForm [name] = n.isSymbolForm [name] :=
  isSymbolForm_congr (headed_everywhere hf Leaf.noConfusion)

theorem isSymbolForm_removeTrailingNewlines (name : String) (n : Node) :
    n.removeTrailingNewlines.isSymbolForm [name] = n.isSymbolForm [name] :=
  isSymbolForm_everywhere first_trimChildren name n

theorem isSymbolForm_changedForm (hf : ∀ cs, first (f cs) = first cs) (on : Bool) (form name : String) (n : Node) :
    (n.changedForm on form f).isSymbolForm [name] = n.isSymbolForm [name] := by
  unfold changedForm
  split
  · exact isSymbolForm_mapChildren hf name n
  · rfl

theorem changedForm_eq_mapChildren {name : String} (h : n.isSymbolForm [name] = true) :
    n.changedForm true name f = n.mapChildren f := by
  rw [changedForm, h, Bool.and_self, if_pos rfl]

theorem changedForm_eq_self {name : String} {on : Bool} (h : n.isSymbolForm [name] = false) :
    n.changedForm on name f = n := by
  rw [changedForm, h, Bool.and_false, if_neg Bool.false_ne_true]

theorem isSymbolForm_ne {name other : String} (h : n.isSymbolForm [name] = true) (hne : other ≠ name) :
    n.isSymbolForm [other] = false := by
  obtain ⟨cs, rfl⟩ := isSymbolForm_iff.mp h
  simp [isSymbolForm, hne.symm]

end Node
end ClojureLayout
