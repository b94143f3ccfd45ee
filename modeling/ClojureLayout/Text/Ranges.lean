/-!
# Sets of characters as ranges of code points

A character class is written down as its inclusive code-point ranges in ascending order. Looking a
character up stops at the first range that starts above it; for an ascending list this finds exactly
the ranges' members (`contains_iff`).
-/

namespace ClojureLayout.Text

/-- Inclusive ranges of code points. -/
abbrev Ranges := List (Nat × Nat)

namespace Ranges

/-- Whether `n` lies in one of the ranges, reading no further than the first range above `n`. -/
def contains : Ranges → Nat → Bool
  | [], _ => false
  | (lo, hi) :: rest, n => if n < lo then false else if n ≤ hi then true else contains rest n

/-- Every range starts above the end of the one before it, the first one at `floor` or above. -/
def ascendingFrom (floor : Nat) : Ranges → Bool
  | [] => true
  | (lo, hi) :: rest => decide (floor ≤ lo) && decide (lo ≤ hi) && ascendingFrom (hi + 1) rest

/-- The ranges are in ascending order and share no code point. -/
def ascending (table : Ranges) : Bool := table.ascendingFrom 0

theorem le_of_ascendingFrom {floor : Nat} {table : Ranges} (h : table.ascendingFrom floor = true) :
    ∀ r ∈ table, floor ≤ r.1 := by
  induction table generalizing floor with
  | nil => intro r hr; cases hr
  | cons head rest ih =>
    obtain ⟨lo, hi⟩ := head
    simp only [ascendingFrom, Bool.and_eq_true, decide_eq_true_eq] at h
    intro r hr
    rcases List.mem_cons.mp hr with rfl | hr
    · exact h.1.1
    · have := ih h.2 r hr
      omega

theorem contains_iff_of_ascendingFrom {floor : Nat} {table : Ranges}
    (h : table.ascendingFrom floor = true) (n : Nat) :
    table.contains n = true ↔ ∃ r ∈ table, r.1 ≤ n ∧ n ≤ r.2 := by
  induction table generalizing floor with
  | nil => simp [contains]
  | cons head rest ih =>
    obtain ⟨lo, hi⟩ := head
    simp only [ascendingFrom, Bool.and_eq_true, decide_eq_true_eq] at h
    have above := le_of_ascendingFrom h.2
    simp only [contains, List.mem_cons, or_and_right, exists_or, exists_eq_left]
    split
    · rename_i hlt
      refine ⟨fun hf => absurd hf Bool.false_ne_true, ?_⟩
      rintro (hin | ⟨r, hr, hin⟩)
      · omega
      · have := above r hr
        omega
    · split
      · rename_i hge hle
        exact ⟨fun _ => Or.inl ⟨by omega, hle⟩, fun _ => rfl⟩
      · rename_i hge hgt
        rw [ih h.2]
        refine ⟨Or.inr, ?_⟩
        rintro (hin | hin)
        · omega
        · exact hin

/-- A look-up in an ascending table finds exactly the members of its ranges. -/
theorem contains_iff {table : Ranges} (h : table.ascending = true) (n : Nat) :
    table.contains n = true ↔ ∃ r ∈ table, r.1 ≤ n ∧ n ≤ r.2 :=
  contains_iff_of_ascendingFrom h n

end Ranges

end ClojureLayout.Text
