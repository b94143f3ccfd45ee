import ClojureLayout.Proofs.Tree.Tidy

/-! Definitions that the layout settles. What has moved up to the name stays there; but newlines after the
    head, once there are no more than two of them, can bring a node into the place of one that moves
    (`Shifts`). -/

namespace ClojureLayout
namespace Node
variable {cs ds : List Node} {c head : Node} {f : List Node → List Node}

/-! ### Runs of newlines -/

theorem collapseAfter_replicate (k : Nat) (cs : List Node) :
    collapseAfter 2 (List.replicate k newline ++ cs) = collapseAfter 2 cs := by
  induction k with
  | zero => rfl
  | succ k ih =>
    rw [List.replicate_succ, List.cons_append, collapseAfter_newline, if_neg (by omega),
      collapseAfter_of_two_le (by omega), ih]

/-- What comes first behind at most one newline is not taken away. -/
theorem collapseAfter_eq_cons {run : Nat} (hrun : run ≤ 1) (h : collapseAfter run cs = c :: ds) :
    ∃ rest, cs = c :: rest ∧ ds = collapseAfter (if c.isNewline then run + 1 else 0) rest := by
  rcases cs with _ | ⟨d, rest⟩
  · cases h
  · cases hd : d.isNewline with
    | false =>
      rw [collapseAfter_cons _ _ hd] at h
      obtain ⟨rfl, rfl⟩ := List.cons.inj h
      exact ⟨rest, rfl, by rw [hd]; rfl⟩
    | true =>
      rw [isNewline_iff.mp hd, collapseAfter_newline, if_pos hrun] at h
      obtain ⟨rfl, rfl⟩ := List.cons.inj h
      exact ⟨rest, by rw [isNewline_iff.mp hd], rfl⟩

/-- Behind two newlines all newlines that follow are taken away. -/
theorem collapseAfter_two_eq_cons (hc : c.isNewline = false) (h : collapseAfter 2 cs = c :: ds) :
    ∃ k rest, cs = List.replicate k newline ++ c :: rest ∧ ds = collapseAfter 0 rest := by
  induction cs with
  | nil => cases h
  | cons d cs ih =>
    cases hd : d.isNewline with
    | false =>
      rw [collapseAfter_cons _ _ hd] at h
      obtain ⟨rfl, rfl⟩ := List.cons.inj h
      exact ⟨0, cs, rfl, rfl⟩
    | true =>
      obtain rfl := isNewline_iff.mp hd
      rw [collapseAfter_newline, if_neg (by omega), collapseAfter_of_two_le (by omega)] at h
      obtain ⟨k, rest, rfl, hds⟩ := ih h
      exact ⟨k + 1, rest, rfl, hds⟩

/-! ### Shifts -/

/-- Three newlines at least after the head, and then nodes that satisfy `p`. -/
def Shifts (p : Node → Node → Prop) (cs : List Node) : Prop :=
  ∃ head k x next rest, cs = head :: (List.replicate (k + 3) newline ++ x :: next :: rest) ∧ p x next

/-- The children of a definition after the transforms that change them. -/
def laidOut (f : List Node → List Node) (cs : List Node) : List Node := collapseBlankLines (f (trimChildren cs))

variable {p : Node → Node → Prop}

theorem not_moves_of_third {name x : Node} (hx : x.isNewline = false) : ¬ Moves p (head :: name :: x :: ds) := by
  rintro ⟨_, _, _, _, _, heq, -⟩
  rw [(List.cons.inj (List.cons.inj (List.cons.inj heq).2).2).1] at hx
  cases hx

namespace Raises

/-- Taking newlines away brings about a move only where there were three or more. -/
theorem moves_of_collapse (hf : Raises f p) (hhead : head.isNewline = false)
    (h : Moves p (collapseBlankLines (head :: cs))) : Moves p (head :: cs) ∨ Shifts p (head :: cs) := by
  obtain ⟨head', name, x, next, rest, heq, hp⟩ := h
  have hx := hf.isNewline hp
  rw [collapseBlankLines, collapseAfter_cons _ _ hhead] at heq
  obtain ⟨tail, rfl, hname⟩ := collapseAfter_eq_cons (Nat.zero_le 1) (List.cons.inj heq).2
  -- A newline in the place of the name may be what is left of a longer row of them.
  cases hnl : name.isNewline with
  | false =>
    rw [hnl] at hname
    obtain ⟨tail, rfl, hgap⟩ := collapseAfter_eq_cons (Nat.zero_le 1) hname.symm
    obtain ⟨tail, rfl, hvalue⟩ := collapseAfter_eq_cons (Nat.le_refl 1) hgap.symm
    rw [hx] at hvalue
    obtain ⟨tail, rfl, -⟩ := collapseAfter_eq_cons (Nat.zero_le 1) hvalue.symm
    exact Or.inl ⟨head, name, x, next, tail, rfl, hp⟩
  | true =>
    rw [hnl] at hname
    obtain rfl := isNewline_iff.mp hnl
    obtain ⟨tail, rfl, hgap⟩ := collapseAfter_eq_cons (Nat.le_refl 1) hname.symm
    obtain ⟨k, tail, rfl, hvalue⟩ := collapseAfter_two_eq_cons hx hgap.symm
    obtain ⟨tail, rfl, -⟩ := collapseAfter_eq_cons (Nat.zero_le 1) hvalue.symm
    cases k with
    | zero => exact Or.inl ⟨head, newline, x, next, tail, rfl, hp⟩
    | succ k => exact Or.inr ⟨head, k, x, next, tail, rfl, hp⟩

theorem collapse_of_shifts (hf : Raises f p) (hhead : head.isNewline = false) (h : Shifts p (head :: cs)) :
    ∃ x next rest, collapseBlankLines (head :: cs) = head :: newline :: newline :: x :: next :: rest ∧ p x next := by
  obtain ⟨head', k, x, next, rest, heq, hp⟩ := h
  obtain ⟨rfl, rfl⟩ := List.cons.inj heq
  obtain ⟨ds, hds, -⟩ := collapseBlankLines_cons next rest
  refine ⟨x, next, ds, ?_, hp⟩
  rw [collapseBlankLines, collapseAfter_cons _ _ hhead]
  show head :: newline :: newline :: collapseAfter 2 (List.replicate (k + 1) newline ++ x :: next :: rest) = _
  rw [collapseAfter_replicate, collapseAfter_cons _ _ (hf.isNewline hp)]
  exact congrArg (fun es => head :: newline :: newline :: x :: es) hds

/-- What has moved up stays there. -/
theorem collapse_of_moves (hf : Raises f p) (hhead : head.isNewline = false) {x next : Node} (hp : p x next)
    (name : Node) (rest : List Node) :
    ∃ ds, collapseBlankLines (f (head :: name :: newline :: x :: next :: rest)) = head :: name :: x :: ds := by
  have hx := hf.isNewline hp
  rw [hf.moves head name x next rest hp, collapseBlankLines, collapseAfter_cons _ _ hhead]
  refine ⟨collapseAfter 0 (if next.isNewline then next :: rest else newline :: next :: rest), ?_⟩
  cases hnl : name.isNewline with
  | false => rw [collapseAfter_cons _ _ hnl, collapseAfter_cons _ _ hx]
  | true => rw [isNewline_iff.mp hnl, collapseAfter_newline, if_pos (Nat.zero_le 1), collapseAfter_cons _ _ hx]

theorem shallow_laidOut (hf : Raises f p) : Shallow (laidOut f) :=
  (shallow_trimChildren.comp hf.shallow).comp shallow_collapseBlankLines

theorem trimChildren_laidOut (hf : Raises f p) (cs : List Node) : trimChildren (laidOut f cs) = laidOut f cs :=
  trimChildren_eq_self (hf.trimmed (trimmed_trimChildren cs)).collapse

theorem not_moves_of_shifts (hf : Raises f p) (h : Shifts p cs) : ¬ Moves p cs := by
  obtain ⟨_, k, _, _, _, rfl, -⟩ := h
  rintro ⟨_, _, x, next, _, heq, hp⟩
  have hx := hf.isNewline hp
  rw [← (List.cons.inj (List.cons.inj (List.cons.inj (List.cons.inj heq).2).2).2).1] at hx
  cases hx

/-- The second run finds nothing to move unless the first has shifted it. -/
theorem laidOut_idem (hf : Raises f p) (hhead : head.isNewline = false) (h : ¬ Shifts p (trimChildren (head :: cs))) :
    laidOut f (laidOut f (head :: cs)) = laidOut f (head :: cs) := by
  obtain ⟨tail, htrim⟩ := trimChildren_cons hhead cs
  rw [htrim] at h
  have hstays : ¬ Moves p (laidOut f (head :: cs)) := by
    rw [laidOut, htrim]
    by_cases hmoves : Moves p (head :: tail)
    · obtain ⟨head, name, x, next, rest, heq, hp⟩ := hmoves
      obtain ⟨rfl, rfl⟩ := List.cons.inj heq
      obtain ⟨ds, hds⟩ := hf.collapse_of_moves hhead hp name rest
      rw [hds]
      exact not_moves_of_third (hf.isNewline hp)
    · rw [hf.stays _ hmoves]
      exact fun hmoves' => (hf.moves_of_collapse hhead hmoves').elim hmoves h
  rw [laidOut, trimChildren_laidOut hf, hf.stays _ hstays]
  exact collapseBlankLines_idem _

/-- Where the newlines shift the nodes, the second run puts another node in the third place. -/
theorem laidOut_of_shifts (hf : Raises f p) (hhead : head.isNewline = false)
    (h : Shifts p (trimChildren (head :: cs))) :
    ∃ x rest rest', laidOut f (head :: cs) = head :: newline :: newline :: rest ∧
      laidOut f (laidOut f (head :: cs)) = head :: newline :: x :: rest' ∧ x.isNewline = false := by
  obtain ⟨tail, htrim⟩ := trimChildren_cons hhead cs
  rw [htrim] at h
  obtain ⟨x, next, rest, hcollapse, hp⟩ := hf.collapse_of_shifts hhead h
  have honce : laidOut f (head :: cs) = head :: newline :: newline :: x :: next :: rest := by
    rw [laidOut, htrim, hf.stays _ (hf.not_moves_of_shifts h), hcollapse]
  obtain ⟨ds, htwice⟩ := hf.collapse_of_moves hhead hp newline rest
  refine ⟨x, x :: next :: rest, ds, honce, ?_, hf.isNewline hp⟩
  rw [laidOut, trimChildren_laidOut hf, honce, htwice]

end Raises

end Node
end ClojureLayout
