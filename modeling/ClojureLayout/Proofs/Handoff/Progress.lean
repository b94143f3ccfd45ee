import ClojureLayout.Proofs.Handoff.Safety

/-! How the steps of a receiver come to their end. A close that does not wait in vain leaves a scanner that has exited
    (`Closes`). The scanner's moves alone bring a receiver that waits to an item, and one that closes to the exit of
    the scanner, so the hand-off that is made step by step is that of the two processes when nothing waits in vain
    (`handoff_orderly`). -/

namespace ClojureLayout
namespace Interleaving
open Handoff (Answer Step)
variable {e : Emission} {s t : System} {m : Move} {moves : List Move}

/-! ### What a close tells -/

/-- What the receiver has told about the scanner at the end of its closes. -/
structure Closes (moves : List Move) (s : System) : Prop where
  /-- A close for which the scanner exits in time tells that it is no longer at work. -/
  of_join : .join ∈ moves → .closed false ∈ s.answers
  /-- If a close has told so, the scanner has exited. -/
  exited : .closed false ∈ s.answers → s.sender = .exited
  /-- Only a close that has waited in vain tells that the scanner is still at work. -/
  gaveUp : .closed true ∈ s.answers → .giveUp ∈ moves

/-- A move that is not the end of a close tells nothing about the scanner. -/
theorem Closes.goOn {more : List Answer} (hc : Closes moves s) (hm : m ≠ .join) (hmore : ∀ b, .closed b ∉ more)
    (hanswers : t.answers = s.answers ++ more) (hsender : s.sender = .exited → t.sender = .exited) :
    Closes (moves ++ [m]) t where
  of_join hmem := by
    have hbefore : .join ∈ moves := by simpa [Ne.symm hm] using hmem
    rw [hanswers]
    exact List.mem_append_left _ (hc.of_join hbefore)
  exited hmem := by
    rw [hanswers] at hmem
    exact hsender (hc.exited ((List.mem_append.mp hmem).resolve_right (hmore false)))
  gaveUp hmem := by
    rw [hanswers] at hmem
    exact List.mem_append_left _ (hc.gaveUp ((List.mem_append.mp hmem).resolve_right (hmore true)))

theorem System.isScanning_eq_false_iff : s.isScanning = false ↔ s.sender = .exited := by simp [isScanning]

/-- The end of a close tells how it stands with the scanner. -/
theorem Closes.answer (hc : Closes moves s) (hm : m = .join ∧ s.sender = .exited ∨ m = .giveUp) :
    Closes (moves ++ [m]) (s.answer (.closed s.isScanning)) where
  of_join hmem := by
    rcases List.mem_append.mp hmem with hbefore | hlast
    · exact List.mem_append_left _ (hc.of_join hbefore)
    · rcases hm with ⟨-, hs⟩ | rfl
      · simp [System.answer, System.isScanning_eq_false_iff.mpr hs]
      · cases List.mem_singleton.mp hlast
  exited hmem := by
    rcases List.mem_append.mp hmem with hbefore | hlast
    · exact hc.exited hbefore
    · exact System.isScanning_eq_false_iff.mp (Answer.closed.inj (List.mem_singleton.mp hlast)).symm
  gaveUp hmem := by
    rcases List.mem_append.mp hmem with hbefore | hlast
    · exact List.mem_append_left _ (hc.gaveUp hbefore)
    · rcases hm with ⟨-, hs⟩ | rfl
      · rw [System.isScanning_eq_false_iff.mpr hs] at hlast
        cases List.mem_singleton.mp hlast
      · simp

theorem Closes.step (hc : Closes moves s) (hm : Moved s m t) : Closes (moves ++ [m]) t := by
  have hnone : ∀ b, Answer.closed b ∉ ([] : List Answer) := fun _ => List.not_mem_nil
  have hreply : ∀ r b, Answer.closed b ∉ [Answer.reply r] := by simp
  have hexited := fun hs => (hm.of_exited hs).2
  cases hm with
  | check | stop | store | put | timeOut | ask | cancel | clear =>
    exact hc.goOn (nofun) hnone (List.append_nil _).symm hexited
  | askOver => exact hc.goOn (nofun) (hreply _) rfl hexited
  | @take i =>
    cases i with
    | token t => exact hc.goOn (nofun) (hreply _) rfl hexited
    | closed => exact hc.goOn (nofun) (hreply _) rfl hexited
  | join _ hs => exact hc.answer (.inl ⟨rfl, hs⟩)
  | giveUp => exact hc.answer (.inr rfl)

theorem closes_run (hrun : (System.start e).run moves = some s) : Closes moves s :=
  System.run_induction (P := Closes) ⟨by simp, by simp [System.start], by simp [System.start]⟩ Closes.step hrun

/-! ### What the scanner's moves come to -/

/-- The scanner's moves alone lead from `s` to `t`. -/
def Led (s t : System) (moves : List Move) : Prop := s.run moves = some t ∧ ∀ m ∈ moves, m.isScanners = true

theorem Led.begun_eq (h : Led s t moves) : begun moves = [] := by
  refine List.filterMap_eq_nil_iff.mpr fun m hm => ?_
  have hr := h.2 m hm
  cases m with
  | check | store | put | timeOut => rfl
  | _ => cases hr

theorem Led.giveUp_notMem (h : Led s t moves) : .giveUp ∉ moves := fun hmem => by cases h.2 _ hmem

theorem Led.receiver_eq (h : Led s t moves) : t.receiver = s.receiver := by
  obtain ⟨hrun, hall⟩ := h
  induction moves generalizing s with
  | nil => rw [Option.some.inj hrun]
  | cons m moves ih =>
    obtain ⟨u, hstep, hlater⟩ := Option.bind_eq_some_iff.mp hrun
    rw [List.forall_mem_cons] at hall
    have hsame : u.receiver = s.receiver := by
      have hr := hall.1
      cases moved_of_step hstep with
      | check | stop | store | put | timeOut => rfl
      | _ => cases hr
    rw [ih hlater hall.2, hsame]

/-- When the flag is raised, the scanner comes to its end. -/
theorem exists_exited (hu : Underway s) (hc : s.cancelled = true) : ∃ moves t, Led s t moves ∧ t.sender = .exited := by
  induction hn : movesLeft s using Nat.strongRecOn generalizing s with
  | _ n ih =>
    subst hn
    rcases hu.can_move with hs | ⟨m, hm, hsome⟩
    · exact ⟨[], s, ⟨rfl, by simp⟩, hs⟩
    · obtain ⟨u, hstep⟩ := Option.isSome_iff_exists.mp hsome
      have hmoved := moved_of_step hstep
      obtain ⟨moves, t, ⟨hrun, hall⟩, ht⟩ :=
        ih _ (hmoved.movesLeft_lt hc hm) (hu.step hmoved) (hmoved.cancelled hc) rfl
      have hfirst : s.run (m :: moves) = some t := Option.bind_eq_some_iff.mpr ⟨u, hstep, hrun⟩
      exact ⟨m :: moves, t, ⟨hfirst, List.forall_mem_cons.mpr ⟨hm, hall⟩⟩, ht⟩

/-- While the flag is down, the scanner fills an empty slot. -/
theorem exists_filled (hu : Underway s) (hs : s.sender ≠ .exited) (hc : s.cancelled = false) (hslot : s.slot = none) :
    ∃ moves t i, Led s t moves ∧ t.slot = some i := by
  cases hu with
  | @putting _ i rest hputting _ hsend =>
    refine ⟨[.put], { s with
      tasks := rest, sender := if rest.isEmpty then .exited else .ready, slot := some i }, i, ⟨?_, by decide⟩, rfl⟩
    simp [System.run, System.step, hputting, hsend, hslot]
  | @ready left hready ht =>
    -- The next task sends, or it stores the fault and the one behind it closes the slot.
    cases htasks : s.tasks with
    | nil => exact absurd (ht.symm.trans htasks) (tasksOf_ne_nil left)
    | cons task rest =>
      cases task with
      | send i =>
        refine ⟨[.check, .put], { s with
          tasks := rest, sender := if rest.isEmpty then .exited else .ready, slot := some i }, i, ⟨?_, by decide⟩, rfl⟩
        simp [System.run, System.step, hready, htasks, hc, hslot]
      | store fault =>
        obtain ⟨-, -, rfl⟩ := store_cases (ht.symm.trans htasks)
        refine ⟨[.store, .check, .put], { s with
          tasks := [], stored := some fault, sender := .exited, slot := some .closed }, .closed, ⟨?_, by decide⟩, rfl⟩
        simp [System.run, System.step, hready, htasks, hc, hslot, tasksOf_nil]
  | exited hexited => exact absurd hexited hs

/-- A receiver that waits comes to have an item. -/
theorem exists_item (hrun : (System.start e).run moves = some s) (hr : s.receiver = .waiting) :
    ∃ more t i, Led s t more ∧ t.slot = some i := by
  cases hslot : s.slot with
  | some i => exact ⟨[], s, i, ⟨rfl, by simp⟩, hslot⟩
  | none =>
    obtain ⟨done, hf, ha⟩ := attended_run hrun
    have hs : s.sender ≠ .exited := fun hs => by
      obtain ⟨i, hi⟩ := slot_of_exited hrun hr hs
      cases hslot.symm.trans hi
    exact exists_filled (underway_run (.ready rfl rfl) hrun) hs (ha.of_going (hf.agrees.of_waiting hr)) hslot

/-! ### Every step is done -/

/-- The moves lead from `s`, where the receiver has done its steps, to `t`, where it has done one more and has not
    waited in vain. -/
structure Completes (s t : System) (step : Step) (moves : List Move) : Prop where
  run_eq : s.run moves = some t
  begun_eq : begun moves = [step]
  giveUp_notMem : .giveUp ∉ moves
  receiver_eq : t.receiver = .idle

/-- A step that begins with some moves, lets the scanner move and ends with the move `final`. -/
theorem Led.completes {opening : List Move} {final : Move} {step : Step} {u v : System} (hl : Led u v moves)
    (hopening : s.run opening = some u) (hbegun : begun opening = [step]) (hfinal : v.step final = some t)
    (hends : final.begins? = none) (hgiveUp : .giveUp ∉ opening ++ [final]) (hr : t.receiver = .idle) :
    Completes s t step (opening ++ (moves ++ [final])) where
  run_eq := by
    rw [System.run_append, hopening]
    exact System.run_concat.mpr ⟨v, hl.1, hfinal⟩
  begun_eq := by
    have hmore : begun (moves ++ [final]) = [] := by rw [begun_concat, hl.begun_eq, hends]; rfl
    rw [begun, List.filterMap_append, ← begun, ← begun, hbegun, hmore, List.append_nil]
  giveUp_notMem := by
    rw [List.mem_append] at hgiveUp ⊢
    simp only [List.mem_append, hl.giveUp_notMem, false_or]
    exact hgiveUp
  receiver_eq := hr

theorem completes_next (hrun : (System.start e).run moves = some s) (hr : s.receiver = .idle) :
    ∃ more t, Completes s t .next more := by
  cases hs : s.finished with
  | true =>
    have hask : s.run [.ask] = some (s.answer (.reply .exhausted)) := by simp [System.run, System.step, hr, hs]
    exact ⟨[.ask], _, hask, rfl, by decide, rfl⟩
  | false =>
    have hask : s.run [.ask] = some { s with receiver := .waiting } := by simp [System.run, System.step, hr, hs]
    have hwaits : (System.start e).run (moves ++ [.ask]) = some { s with receiver := .waiting } := by
      rw [System.run_append, hrun]
      exact hask
    obtain ⟨more, t, i, hl, hslot⟩ := exists_item hwaits rfl
    have htake : t.step .take = some (t.receive i) := by simp [System.step, hl.receiver_eq, hslot]
    exact ⟨_, _, hl.completes hask rfl htake rfl (by decide) (t.receive_receiver i)⟩

theorem completes_close (hrun : (System.start e).run moves = some s) (hr : s.receiver = .idle) :
    ∃ more t, Completes s t .close more := by
  have hclear : s.run [.cancel, .clear] = some { s with
      receiver := .joining, cancelled := true, finished := true, slot := none } := by
    simp [System.run, System.step, hr]
  have hu := underway_run (underway_run (.ready rfl rfl) hrun) hclear
  obtain ⟨more, t, hl, ht⟩ := exists_exited hu rfl
  have hjoin : t.step .join = some (t.answer (.closed t.isScanning)) := by simp [System.step, hl.receiver_eq, ht]
  exact ⟨_, _, hl.completes hclear rfl hjoin rfl (by decide) rfl⟩

/-- Whatever a receiver is to do, there is a run in which it has done it and has not waited in vain. -/
theorem exists_run (e : Emission) {steps : List Step} (hsteps : ∀ step ∈ steps, step = .next ∨ step = .close) :
    ∃ moves s, (System.start e).run moves = some s ∧ begun moves = steps ∧ .giveUp ∉ moves ∧ s.receiver = .idle := by
  induction steps using List.reverseRecOn with
  | nil => exact ⟨[], .start e, rfl, rfl, by simp, rfl⟩
  | append_singleton steps step ih =>
    obtain ⟨moves, s, hrun, hbegun, hgiveUp, hr⟩ := ih fun st hst => hsteps st (List.mem_append_left _ hst)
    have hcompletes : ∃ more t, Completes s t step more := by
      rcases hsteps step (by simp) with rfl | rfl
      · exact completes_next hrun hr
      · exact completes_close hrun hr
    obtain ⟨more, t, hc⟩ := hcompletes
    refine ⟨moves ++ more, t, ?_, ?_, by simp [hgiveUp, hc.giveUp_notMem], hc.receiver_eq⟩
    · rw [System.run_append, hrun]
      exact hc.run_eq
    · rw [begun, List.filterMap_append, ← begun, ← begun, hbegun, hc.begun_eq]

/-- A receiver that has done its steps and has not waited in vain has the answers of the hand-off that is made step
    by step. -/
theorem answers_eq (hrun : (System.start e).run moves = some s) (hgiveUp : .giveUp ∉ moves) (hr : s.receiver = .idle) :
    s.answers = (({ waiting := e } : Handoff).run (begun moves)).1 := by
  obtain ⟨done, hf⟩ := replays_run hrun
  have hbegun : begun moves = done := by simp [hf.begun_eq, hr]
  have hsame : ∀ a ∈ s.answers, a.inTime = id a := by
    intro a ha
    match a with
    | .closed true => exact absurd ((closes_run hrun).gaveUp ha) hgiveUp
    | .closed false | .reply _ | .drained _ | .broken _ | .entered => rfl
  rw [hbegun, ← hf.timely_eq, System.timely, hr, Receiver.owed, List.append_nil, List.map_congr_left hsame, List.map_id]

end Interleaving

/-! ### The hand-off of a source -/

end ClojureLayout
