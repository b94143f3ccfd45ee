import ClojureLayout.Proofs.Tree.Newlines
import ClojureLayout.Proofs.Tree.Total

/-! What moving a vector or a dispatch value up to the name does to the children of a definition. Both are
    one change with a condition of its own (`Raises`): the newline before the node goes behind it, or is
    dropped where there is one already. -/

namespace ClojureLayout
namespace Node
variable {cs : List Node} {f : List Node → List Node} {p : Node → Node → Prop}

/-- A node on the line after the name, which satisfies `p` with the node behind it. -/
def Moves (p : Node → Node → Prop) (cs : List Node) : Prop :=
  ∃ head name x next rest, cs = head :: name :: newline :: x :: next :: rest ∧ p x next

/-- The change moves a node on the line after the name up to the name if `p` holds there, and does nothing
    else. -/
structure Raises (f : List Node → List Node) (p : Node → Node → Prop) : Prop where
  shallow : Shallow f
  code : ∀ x next, p x next → x.isSemantic = true
  moves : ∀ head name x next rest, p x next → f (head :: name :: newline :: x :: next :: rest) =
    head :: name :: x :: if next.isNewline then next :: rest else newline :: next :: rest
  stays : ∀ cs, ¬ Moves p cs → f cs = cs

namespace Raises

theorem isNewline (hf : Raises f p) {x next : Node} (hp : p x next) : x.isNewline = false :=
  (isSemantic_iff.mp (hf.code x next hp)).1

theorem cases (hf : Raises f p) (cs : List Node) : f cs = cs ∨
    ∃ head name x next rest, cs = head :: name :: newline :: x :: next :: rest ∧ x.isNewline = false ∧
      (next.isNewline = true ∧ f cs = head :: name :: x :: next :: rest ∨
        next.isNewline = false ∧ f cs = head :: name :: x :: newline :: next :: rest) := by
  by_cases h : Moves p cs
  · obtain ⟨head, name, x, next, rest, rfl, hp⟩ := h
    refine Or.inr ⟨head, name, x, next, rest, rfl, hf.isNewline hp, ?_⟩
    rw [hf.moves head name x next rest hp]
    cases hnext : next.isNewline with
    | true => exact Or.inl ⟨rfl, rfl⟩
    | false => exact Or.inr ⟨rfl, rfl⟩
  · exact Or.inl (hf.stays cs h)

theorem trimmed (hf : Raises f p) (h : Trimmed cs) : Trimmed (f cs) := by
  rcases hf.cases cs with heq | ⟨head, name, x, next, rest, rfl, hx, ⟨-, heq⟩ | ⟨hnext, heq⟩⟩
  · rw [heq]
    exact h
  · rw [heq]
    exact (trimmed_append_cons [head, name] hx).mpr ((trimmed_append_cons [head, name, newline] hx).mp h)
  · rw [heq]
    exact (trimmed_append_cons [head, name, x, newline] hnext).mpr
      ((trimmed_append_cons [head, name, newline, x] hnext).mp h)

theorem quiet (hf : Raises f p) : Quiet f := by
  constructor
  all_goals
    intro cs
    rcases hf.cases cs with h | ⟨head, name, x, next, rest, rfl, hx, ⟨-, h⟩ | ⟨-, h⟩⟩
  · rw [h]
  · rw [h]
    simp [List.filter_cons]
  · rw [h]
    simp [List.filter_cons, hx]
  · exact Nat.le_of_eq (congrArg (List.countP Node.isNewline) h)
  · rw [h]
    simp only [List.countP_cons, isNewline_newline]
    omega
  · rw [h]
    simp only [List.countP_cons, isNewline_newline]
    omega

end Raises

/-! ### Vectors and dispatch values -/

/-- The node is a vector, and code or a comment follows it on its line. -/
def IsArglist (args next : Node) : Prop := args.isVector = true ∧ next.isNewline = false

/-- The node is a keyword, and something follows it. -/
def IsDispatchVal (value _next : Node) : Prop := value.isKeyword = true

theorem isSemantic_of_isVector {n : Node} (h : n.isVector = true) : n.isSemantic = true := by
  unfold isVector at h
  split at h
  · rfl
  · cases h

theorem isSemantic_of_isKeyword {n : Node} (h : n.isKeyword = true) : n.isSemantic = true := by
  unfold isKeyword at h
  split at h
  · rfl
  · cases h

theorem raises_raiseArglist : Raises raiseArglist IsArglist where
  shallow := by
    intro φ hφ cs
    rcases cs with _ | ⟨head, _ | ⟨name, _ | ⟨gap, _ | ⟨args, _ | ⟨next, rest⟩⟩⟩⟩⟩
    · rfl
    · rfl
    · rfl
    · rfl
    · rfl
    · simp only [List.map_cons, raiseArglist, hφ.isNewline, hφ.isVector]
      split <;> rfl
  code x next h := isSemantic_of_isVector h.1
  moves head name args next rest h := by simp [raiseArglist, h.1, h.2]
  stays cs h := by
    unfold raiseArglist
    split
    · rename_i head name gap args next rest
      split
      · rename_i hmoves
        simp only [Bool.and_eq_true, Bool.not_eq_true'] at hmoves
        obtain rfl := isNewline_iff.mp hmoves.1.1
        exact absurd ⟨head, name, args, next, rest, rfl, hmoves.2, hmoves.1.2⟩ h
      · rfl
    · rfl

theorem raises_raiseDispatchVal : Raises raiseDispatchVal IsDispatchVal where
  shallow := by
    intro φ hφ cs
    rcases cs with _ | ⟨head, _ | ⟨name, _ | ⟨gap, _ | ⟨value, _ | ⟨next, rest⟩⟩⟩⟩⟩
    · rfl
    · rfl
    · rfl
    · rfl
    · rfl
    · simp only [List.map_cons, raiseDispatchVal, hφ.isNewline, hφ.isKeyword]
      split
      · split <;> rfl
      · rfl
  code x next h := isSemantic_of_isKeyword h
  moves head name value next rest h := by
    simp only [raiseDispatchVal, isNewline_newline, Bool.true_and, show value.isKeyword = true from h, if_true]
    split <;> rfl
  stays cs h := by
    unfold raiseDispatchVal
    split
    · rename_i head name gap value next rest
      split
      · rename_i hmoves
        rw [Bool.and_eq_true] at hmoves
        obtain rfl := isNewline_iff.mp hmoves.1
        exact absurd ⟨head, name, value, next, rest, rfl, hmoves.2⟩ h
      · rfl
    · rfl

end Node
end ClojureLayout
