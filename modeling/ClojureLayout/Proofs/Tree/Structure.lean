import ClojureLayout.Tree.Node

/-! Trees by their groups: what `everywhere` does to a node, what holds of the children of every group
    (`Each`), and the sort of a node (newline, comment or code), which no change inside a node
    alters. -/

namespace ClojureLayout
namespace Node

@[induction_eliminator] theorem induction {motive : Node → Prop} (leaf : ∀ l, motive (.leaf l))
    (group : ∀ shape cs, (∀ c ∈ cs, motive c) → motive (.group shape cs)) : ∀ n, motive n
  | .leaf l => leaf l
  | .group shape cs => group shape cs fun c _ => induction leaf group c

/-! ### Changing every group -/

variable {f g h : List Node → List Node}

@[simp] theorem everywhere_leaf (l : Leaf) : everywhere f (.leaf l) = .leaf l := by rw [everywhere]

@[simp] theorem everywhere_group (shape : Shape) (cs : List Node) :
    everywhere f (.group shape cs) = .group shape (f (cs.map (everywhere f))) := by
  rw [everywhere, everywhereAll_eq_map]

/-- The group with its children changed; a leaf stays as it is. -/
def mapChildren (f : List Node → List Node) : Node → Node
  | .leaf l => .leaf l
  | .group shape cs => .group shape (f cs)

@[simp] theorem mapChildren_leaf (l : Leaf) : mapChildren f (.leaf l) = .leaf l := rfl

@[simp] theorem mapChildren_group (shape : Shape) (cs : List Node) :
    mapChildren f (.group shape cs) = .group shape (f cs) := rfl

@[simp] theorem children_leaf (l : Leaf) : children (.leaf l) = [] := rfl

@[simp] theorem children_group (shape : Shape) (cs : List Node) : children (.group shape cs) = cs := rfl

/-- The children of every group satisfy `P`. -/
inductive Each (P : List Node → Prop) : Node → Prop
  | leaf (l : Leaf) : Each P (.leaf l)
  | group {shape cs} : P cs → (∀ c ∈ cs, Each P c) → Each P (.group shape cs)

theorem each_group_iff {P : List Node → Prop} {shape : Shape} {cs : List Node} :
    Each P (.group shape cs) ↔ P cs ∧ ∀ c ∈ cs, Each P c :=
  ⟨fun h => by cases h with | group hcs hc => exact ⟨hcs, hc⟩, fun h => .group h.1 h.2⟩

/-! ### Leaves and shapes kept -/

/-- The change keeps the leaves and the shapes of groups. -/
structure KeepsShape (φ : Node → Node) : Prop where
  leaf : ∀ l, φ (.leaf l) = .leaf l
  group : ∀ shape cs, ∃ ds, φ (.group shape cs) = .group shape ds

namespace KeepsShape
variable {φ ψ : Node → Node}

theorem comp (h : KeepsShape φ) (k : KeepsShape ψ) : KeepsShape (φ ∘ ψ) where
  leaf l := by rw [Function.comp_apply, k.leaf, h.leaf]
  group shape cs := by
    obtain ⟨ds, hds⟩ := k.group shape cs
    obtain ⟨es, hes⟩ := h.group shape ds
    exact ⟨es, by rw [Function.comp_apply, hds, hes]⟩

theorem ite (h : KeepsShape φ) (p : Node → Bool) : KeepsShape fun n => if p n then φ n else n where
  leaf l := by
    split
    · exact h.leaf l
    · rfl
  group shape cs := by
    split
    · exact h.group shape cs
    · exact ⟨cs, rfl⟩

/-- A test that looks at a leaf or at the shape of a group gives the same before and after. -/
theorem test {α : Type} (h : KeepsShape φ) {t : Node → α} (ht : ∀ shape cs ds, t (.group shape cs) = t (.group shape ds))
    (n : Node) : t (φ n) = t n := by
  cases n using Node.casesOn with
  | leaf l => rw [h.leaf]
  | group shape cs =>
    obtain ⟨ds, hds⟩ := h.group shape cs
    rw [hds]
    exact ht shape ds cs

@[simp] theorem isNewline (h : KeepsShape φ) (n : Node) : (φ n).isNewline = n.isNewline :=
  h.test (fun _ _ _ => rfl) n

@[simp] theorem isComment (h : KeepsShape φ) (n : Node) : (φ n).isComment = n.isComment :=
  h.test (fun _ _ _ => rfl) n

@[simp] theorem isSemantic (h : KeepsShape φ) (n : Node) : (φ n).isSemantic = n.isSemantic :=
  h.test (fun _ _ _ => rfl) n

@[simp] theorem isVector (h : KeepsShape φ) (n : Node) : (φ n).isVector = n.isVector :=
  h.test (fun shape _ _ => by cases shape <;> rfl) n

@[simp] theorem isKeyword (h : KeepsShape φ) (n : Node) : (φ n).isKeyword = n.isKeyword :=
  h.test (fun _ _ _ => rfl) n

end KeepsShape

theorem everywhere_keepsShape (f : List Node → List Node) : KeepsShape (everywhere f) :=
  ⟨everywhere_leaf, fun shape cs => ⟨_, everywhere_group shape cs⟩⟩

theorem mapChildren_keepsShape (f : List Node → List Node) : KeepsShape (mapChildren f) :=
  ⟨fun _ => rfl, fun _ cs => ⟨f cs, rfl⟩⟩

/-! ### Changes that settle -/

/-- The change depends on the sorts of the nodes alone, not on what is in the groups among them. -/
def Shallow (f : List Node → List Node) : Prop :=
  ∀ φ, KeepsShape φ → ∀ cs, f (cs.map φ) = (f cs).map φ

/-- What `f` leaves as it is in every group, `everywhere f` leaves as it is. -/
theorem everywhere_eq_self {n : Node} (h : n.Each fun cs => f cs = cs) : everywhere f n = n := by
  induction n with
  | leaf l => exact everywhere_leaf l
  | group shape cs ih =>
    obtain ⟨hcs, hc⟩ := each_group_iff.mp h
    have hmap : cs.map (everywhere f) = cs :=
      (List.map_congr_left fun c hmem => ih c hmem (hc c hmem)).trans (List.map_id cs)
    rw [everywhere_group, hmap, hcs]

/-- A change that only takes children away, and after which `P` holds, makes `P` hold in every group. -/
theorem each_everywhere {P : List Node → Prop} (hP : ∀ cs, P (f cs)) (hsub : ∀ cs, f cs ⊆ cs) (n : Node) :
    (everywhere f n).Each P := by
  induction n with
  | leaf l =>
    rw [everywhere_leaf]
    exact .leaf l
  | group shape cs ih =>
    rw [everywhere_group]
    refine .group (hP _) fun c hmem => ?_
    obtain ⟨d, hd, rfl⟩ := List.mem_map.mp (hsub _ hmem)
    exact ih d hd

end Node
end ClojureLayout
