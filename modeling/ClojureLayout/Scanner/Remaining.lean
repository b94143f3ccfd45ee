import ClojureLayout.Scanner

/-!
# Reading uses up the source

`Scanner.remaining` counts the reads to come, the character put back included. A read that gives a
character lowers it, putting one back raises it by one at most, and the other operations keep it. A
program that never raises it is called `Settling`; this is what bounds the loops of a scan.
-/

namespace ClojureLayout.Scan

/-- No successful run leaves more to read than there was. -/
def Settling {α : Type} (x : Scan α) : Prop :=
  ∀ (s : Scanner) (a : α) (t : Scanner), x s = .ok a t → t.remaining ≤ s.remaining

theorem bind_apply {α β : Type} (x : Scan α) (f : α → Scan β) (s : Scanner) :
    (x >>= f) s = match x s with
      | .ok a t => f a t
      | .error e t => .error e t := by
  show EStateM.bind x f s = _
  unfold EStateM.bind
  cases x s <;> rfl

theorem pure_apply {α : Type} (a : α) (s : Scanner) : (pure a : Scan α) s = .ok a s := rfl

theorem Settling.pure {α : Type} (a : α) : Settling (pure a : Scan α) := by
  intro s b t h
  cases h
  exact Nat.le_refl _

theorem Settling.bind {α β : Type} {x : Scan α} {f : α → Scan β} (hx : Settling x)
    (hf : ∀ a, Settling (f a)) : Settling (x >>= f) := by
  intro s b u h
  rw [bind_apply] at h
  split at h
  · rename_i a t ht
    exact Nat.le_trans (hf a _ _ _ h) (hx _ _ _ ht)
  · cases h

/-- A read that gives a character uses up a read or the character put back. -/
theorem remaining_lt_of_next {s t : Scanner} {c : Char} (h : next s = .ok (some c) t) :
    t.remaining < s.remaining := by
  unfold next at h
  split at h
  · rename_i d hd
    cases h
    simp [Scanner.remaining, Scanner.consume, hd]
  · rename_i hd
    split at h
    · cases h
    · cases h
    · rename_i d rest hr
      cases h
      simp [Scanner.remaining, Scanner.consume, hd, hr]
    · cases h

/-- A read that gives nothing leaves the source as it is, or uses up a read. -/
theorem remaining_le_of_next_none {s t : Scanner} (h : next s = .ok none t) :
    t.remaining ≤ s.remaining := by
  unfold next at h
  split at h
  · cases h
  · rename_i hd
    split at h
    · cases h
      exact Nat.le_refl _
    · rename_i rest hr
      cases h
      simp [Scanner.remaining, hd, hr]
    · cases h
    · cases h

/-- Putting a character back leaves at most one read more. -/
theorem remaining_le_of_back {s t : Scanner} (h : back s = .ok () t) :
    t.remaining ≤ s.remaining + 1 := by
  unfold back at h
  split at h
  · cases h
  · split at h
    · cases h
    · cases h
      simp only [Scanner.remaining, Option.toList_some, List.length_singleton]
      omega

theorem settling_next : Settling next := by
  intro s a t h
  cases a with
  | none => exact remaining_le_of_next_none h
  | some c => exact Nat.le_of_lt (remaining_lt_of_next h)

theorem settling_takeIf (p : Char → Bool) : Settling (takeIf p) := by
  intro s a t h
  simp only [takeIf, bind_apply] at h
  split at h
  · rename_i c u hu
    split at h
    · rename_i hback
      obtain ⟨d, rfl⟩ := Option.isSome_iff_exists.mp (Option.isSome_of_any hback)
      simp only [bind_apply, pure_apply] at h
      split at h
      · rename_i v hv
        cases h
        have := remaining_lt_of_next hu
        have := remaining_le_of_back hv
        omega
      · cases h
    · cases h
      exact settling_next _ _ _ hu
  · cases h

theorem settling_skip : Settling skip := by
  intro s a t h
  cases h
  exact Nat.le_refl _

theorem settling_get : Settling (get : Scan Scanner) := by
  intro s a t h
  cases h
  exact Nat.le_refl _

theorem settling_emit (kind : Kind) (value : Option String) : Settling (emit kind value) :=
  settling_get.bind fun _ => settling_skip.bind fun _ => .pure _

theorem settling_errorToken (message : String) : Settling (errorToken message) :=
  settling_get.bind fun _ => .pure _

end ClojureLayout.Scan
