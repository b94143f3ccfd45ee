import ClojureLayout.Proofs.Handoff.Interleaving

/-! What holds however the scanner and its receiver take turns: the receiver gets the tokens in order, it is told of
    the fault once and after all tokens, and it never waits for a scanner that has exited. When the flag is
    raised, only a scanner that had looked at it before may still fill the slot, and only once
    (`handoff_safe`). -/

namespace ClojureLayout
namespace Handoff

/-! ### Replies in order -/

/-- Replies that a hand-off of `e` may give one by one: the first of its tokens, its fault perhaps when all were
    given, and nothing more after that. -/
inductive Told (e : Emission) : List Reply → Prop
  | tokens {given : List Token} (n : Nat) : given <+: e.tokens → Told e (given.map .token ++ List.replicate n .exhausted)
  | failed {fault : ScanFault} (n : Nat) : e.fault = some fault →
      Told e (e.tokens.map .token ++ .failed fault :: List.replicate n .exhausted)

section Told
variable {e : Emission} {replies earlier later : List Reply} {fault : ScanFault} {h : Handoff} {steps : List Step}

theorem Told.exhausted (ht : Told e replies) : Told e (replies ++ [.exhausted]) := by
  cases ht with
  | tokens n hgiven =>
    rw [List.append_assoc, ← List.replicate_succ']
    exact .tokens (n + 1) hgiven
  | failed n hfault =>
    rw [List.append_assoc, List.cons_append, ← List.replicate_succ']
    exact .failed (n + 1) hfault

theorem Told.of_failed (ht : Told e replies) (hreplies : replies = earlier ++ .failed fault :: later) :
    e.fault = some fault ∧ earlier = e.tokens.map .token := by
  cases ht with
  | tokens n hgiven =>
    have hmem : Reply.failed fault ∈ earlier ++ .failed fault :: later := by simp
    rw [← hreplies] at hmem
    simp at hmem
  | failed n hfault =>
    -- There is one fault among the replies, since no token is one and nothing after it is.
    rcases List.append_eq_append_iff.mp hreplies with ⟨as, rfl, has⟩ | ⟨as, hmap, has⟩
    · cases as with
      | nil =>
        obtain ⟨hsame, -⟩ := List.cons.inj has
        cases hsame
        exact ⟨hfault, List.append_nil _⟩
      | cons a as =>
        obtain ⟨-, hrest⟩ := List.cons.inj has
        have hmem : Reply.failed fault ∈ List.replicate n Reply.exhausted := by simp [hrest]
        simp at hmem
    · cases as with
      | nil =>
        obtain ⟨hsame, -⟩ := List.cons.inj has
        cases hsame
        exact ⟨hfault, by simpa using hmap.symm⟩
      | cons a as =>
        obtain ⟨rfl, -⟩ := List.cons.inj has
        have hmem : Reply.failed fault ∈ e.tokens.map .token := by simp [hmap]
        simp at hmem

/-- A hand-off of `e` has given `replies`, and waits for what it has not given. -/
structure Tells (e : Emission) (replies : List Reply) (h : Handoff) : Prop where
  told : Told e replies
  going : h.finished = false → ∃ given, replies = given.map .token ∧ e.tokens = given ++ h.waiting.tokens ∧
    e.fault = h.waiting.fault

theorem tells_start (e : Emission) : Tells e [] { waiting := e } :=
  ⟨.tokens 0 List.nil_prefix, fun _ => ⟨[], rfl, rfl, rfl⟩⟩

theorem Tells.next (ht : Tells e replies h) : Tells e (replies ++ [h.next.1]) h.next.2 := by
  cases hf : h.finished with
  | true =>
    rw [next_of_finished hf]
    exact ⟨ht.told.exhausted, fun hg => by cases hf.symm.trans hg⟩
  | false =>
    obtain ⟨given, rfl, htokens, hfault⟩ := ht.going hf
    rcases hw : h.waiting with ⟨tokens, left⟩
    rw [hw] at htokens hfault
    cases tokens with
    | nil =>
      obtain rfl : e.tokens = given := htokens.trans (List.append_nil _)
      rw [next_of_nil hf hw]
      refine ⟨?_, fun hg => by cases hg⟩
      cases left with
      | none => exact .tokens 1 List.prefix_rfl
      | some fault => exact .failed 0 hfault
    | cons t tokens =>
      have hnext : e.tokens = given ++ [t] ++ tokens := by rw [htokens, List.append_assoc, List.singleton_append]
      have hmap : given.map Reply.token ++ [.token t] = (given ++ [t]).map .token := by simp
      rw [next_of_cons hf hw, hmap]
      refine ⟨?_, fun _ => ⟨given ++ [t], rfl, hnext, hfault⟩⟩
      rw [← List.append_nil (List.map _ _)]
      exact .tokens 0 ⟨tokens, hnext.symm⟩

theorem tells_run (e : Emission) (hsteps : ∀ s ∈ steps, s = .next ∨ s = .close) :
    Tells e ((({ waiting := e } : Handoff).run steps).1.filterMap Answer.reply?)
      (({ waiting := e } : Handoff).run steps).2 := by
  induction steps using List.reverseRecOn with
  | nil => exact tells_start e
  | append_singleton steps s ih =>
    have hbefore := ih fun s' hs' => hsteps s' (List.mem_append_left _ hs')
    rw [run_concat, List.filterMap_append]
    rcases hsteps s (by simp) with rfl | rfl
    · exact hbefore.next
    · refine ⟨?_, fun hg => by cases hg⟩
      show Told e (_ ++ [])
      rw [List.append_nil]
      exact hbefore.told

end Told
end Handoff

namespace Interleaving
open Handoff (Reply Told)
variable {e : Emission} {s t : System} {m : Move} {moves : List Move}

theorem Replays.next_or_close {done : List Handoff.Step} (hf : Replays e moves s done) :
    ∀ step ∈ done, step = .next ∨ step = .close := by
  intro step hstep
  have hbegun : step ∈ begun moves := by
    rw [hf.begun_eq]
    exact List.mem_append_left _ hstep
  obtain ⟨m, -, hm⟩ := List.mem_filterMap.mp hbegun
  cases m with
  | ask => exact .inl (Option.some.inj hm).symm
  | cancel => exact .inr (Option.some.inj hm).symm
  | _ => cases hm

theorem told_run (hrun : (System.start e).run moves = some s) : Told e s.replies := by
  obtain ⟨done, hf⟩ := replays_run hrun
  rw [hf.replies_eq]
  exact (Handoff.tells_run e hf.next_or_close).told

theorem received_of_told (ht : Told e s.replies) : s.received <+: e.tokens := by
  unfold System.received
  generalize s.replies = replies at ht
  cases ht with
  | tokens n hgiven => simpa [Function.comp_def] using hgiven
  | failed n hfault =>
    simp only [List.filterMap_append, List.filterMap_map, Function.comp_def, List.filterMap_some,
      List.filterMap_cons_none, List.filterMap_replicate_of_none, List.append_nil, List.prefix_rfl]

theorem raised_of_told (ht : Told e s.replies) : s.raised ≤ 1 := by
  unfold System.raised
  generalize s.replies = replies at ht
  cases ht with
  | tokens n hgiven => simp [Function.comp_def, List.countP_replicate]
  | failed n hfault => simp [Function.comp_def, List.countP_replicate]

/-! ### Waiting -/

/-- While the receiver goes on, the flag is down; a scanner that has exited saw the flag or has sent everything. -/
structure Attended (s : System) : Prop where
  of_going : s.finished = false → s.cancelled = false
  of_exited : s.sender = .exited → s.cancelled = true ∨ s.tasks = []

theorem Attended.step (ha : Attended s) (hw : s.receiver = .waiting → s.finished = false) (hm : Moved s m t) :
    Attended t := by
  cases hm with
  | check => exact ⟨ha.of_going, fun h => by cases h⟩
  | stop _ _ hc => exact ⟨ha.of_going, fun _ => .inl hc⟩
  | store hs => exact ⟨ha.of_going, fun h => by cases hs.symm.trans h⟩
  | @put i rest =>
    -- A put lets the scanner exit only when it was the last task.
    refine ⟨ha.of_going, fun h => .inr ?_⟩
    cases rest with
    | nil => rfl
    | cons => cases h
  | timeOut => exact ⟨ha.of_going, fun h => by cases h⟩
  | @take i hr =>
    have hc := ha.of_going (hw hr)
    cases i <;> exact ⟨fun _ => hc, ha.of_exited⟩
  | cancel => exact ⟨(fun h => by cases h), fun _ => .inl rfl⟩
  | ask | askOver | clear | join | giveUp => exact ⟨ha.of_going, ha.of_exited⟩

theorem attended_run (hrun : (System.start e).run moves = some s) :
    ∃ done, Replays e moves s done ∧ Attended s := by
  refine System.run_induction (P := fun moves s => ∃ done, Replays e moves s done ∧ Attended s) ?_ ?_ hrun
  · exact ⟨[], replays_start e, fun _ => rfl, fun h => by cases h⟩
  · rintro before m s t ⟨done, hf, ha⟩ hm
    obtain ⟨done', hf'⟩ := hf.step hm
    exact ⟨done', hf', ha.step hf.agrees.of_waiting hm⟩

theorem slot_of_exited (hrun : (System.start e).run moves = some s) (hr : s.receiver = .waiting)
    (hs : s.sender = .exited) : ∃ i, s.slot = some i := by
  obtain ⟨done, hf, ha⟩ := attended_run hrun
  have hgoing := hf.agrees.of_waiting hr
  have htasks : s.tasks = [] := (ha.of_exited hs).resolve_left (by simp [ha.of_going hgoing])
  cases hf.agrees.pending hgoing with
  | level ht | ahead ht => exact absurd (ht.symm.trans htasks) (tasksOf_ne_nil _)
  | closed _ hslot => exact ⟨_, hslot⟩

/-! ### Closing -/

/-- How often the scanner can fill the slot at most when the flag is raised. -/
def putsLeft (s : System) : Nat := if s.sender = .putting then 1 else 0

theorem putsLeft_le (s : System) : putsLeft s ≤ 1 := by
  unfold putsLeft
  split <;> omega

theorem Moved.putsLeft_le (hm : Moved s m t) (hc : s.cancelled = true) :
    [m].countP (· == .put) + putsLeft t ≤ putsLeft s := by
  cases hr : m.isScanners with
  | false =>
    have hput : (m == .put) = false := by cases m <;> first | rfl | cases hr
    simp [putsLeft, (hm.sender_eq hr).1, hput]
  | true =>
    cases hm with
    | check _ _ hc' => cases hc.symm.trans hc'
    | stop | store | timeOut => simp [putsLeft]
    | @put i rest hs => cases rest <;> simp [putsLeft, hs]
    | _ => cases hr

theorem count_put_le (hc : s.cancelled = true) (hrun : s.run moves = some t) :
    moves.count .put + putsLeft t ≤ putsLeft s :=
  countP_le_of_cancelled (fun hc hm => hm.putsLeft_le hc) hc hrun

/-- The flag is raised, and the scanner is about to look at it. -/
structure AboutToExit (s : System) : Prop where
  cancelled : s.cancelled = true
  ready : s.sender = .ready
  sends : ∃ i rest, s.tasks = .send i :: rest

theorem AboutToExit.check (ha : AboutToExit s) : s.step .check = some { s with sender := .exited } := by
  obtain ⟨i, rest, ht⟩ := ha.sends
  simp [System.step, ha.ready, ht, ha.cancelled]

theorem AboutToExit.step (ha : AboutToExit s) (hm : Moved s m t) :
    (m.isScanners = false ∧ AboutToExit t) ∨ (m = .check ∧ t.sender = .exited) := by
  obtain ⟨i, rest, hsend⟩ := ha.sends
  cases hr : m.isScanners with
  | false =>
    obtain ⟨hsender, htasks⟩ := hm.sender_eq hr
    exact .inl ⟨rfl, hm.cancelled ha.cancelled, hsender.trans ha.ready, i, rest, htasks.trans hsend⟩
  | true =>
    cases hm with
    | check _ _ hc => cases ha.cancelled.symm.trans hc
    | stop => exact .inr ⟨rfl, rfl⟩
    | store _ ht => cases hsend.symm.trans ht
    | put hs | timeOut hs => cases ha.ready.symm.trans hs
    | _ => cases hr

theorem Moved.of_exited (hm : Moved s m t) (hs : s.sender = .exited) : m.isScanners = false ∧ t.sender = .exited := by
  cases hr : m.isScanners with
  | false => exact ⟨rfl, (hm.sender_eq hr).1.trans hs⟩
  | true =>
    cases hm with
    | check hs' | stop hs' | store hs' | put hs' | timeOut hs' => cases hs.symm.trans hs'
    | _ => cases hr

/-- The look at the flag is the scanner's next move, and its last. -/
theorem AboutToExit.run (ha : AboutToExit s) (hrun : s.run moves = some t) :
    (moves.filter Move.isScanners = [] ∧ t.step .check = some { t with sender := .exited }) ∨
    (moves.filter Move.isScanners = [.check] ∧ t.sender = .exited) := by
  suffices h : (moves.filter Move.isScanners = [] ∧ AboutToExit t) ∨
      (moves.filter Move.isScanners = [.check] ∧ t.sender = .exited) from
    h.imp_left fun ⟨hnone, hat⟩ => ⟨hnone, hat.check⟩
  refine System.run_induction (P := fun moves t => (moves.filter Move.isScanners = [] ∧ AboutToExit t) ∨
    (moves.filter Move.isScanners = [.check] ∧ t.sender = .exited)) (.inl ⟨rfl, ha⟩) ?_ hrun
  rintro before m u v (⟨hnone, hau⟩ | ⟨hcheck, hu⟩) hm
  · rcases hau.step hm with ⟨hr, hav⟩ | ⟨rfl, hv⟩
    · exact .inl ⟨by simp [hnone, hr], hav⟩
    · exact .inr ⟨by rw [List.filter_append, hnone]; rfl, hv⟩
  · obtain ⟨hr, hv⟩ := hm.of_exited hu
    exact .inr ⟨by simp [hcheck, hr], hv⟩

/-- A scanner that waits for the slot when the flag is raised is about to exit as soon as it has waited too long. -/
theorem aboutToExit_of_timeOut {i : Item} (hu : Underway s) (hc : s.cancelled = true) (hs : s.sender = .putting)
    (hslot : s.slot = some i) : ∃ u, s.step .timeOut = some u ∧ AboutToExit u := by
  cases hu with
  | ready hs' => cases hs.symm.trans hs'
  | putting _ _ hsend => exact ⟨{ s with sender := .ready }, by simp [System.step, hs, hslot], hc, rfl, _, _, hsend⟩
  | exited hs' => cases hs.symm.trans hs'

/-- Let a scanner that emits `e` and its receiver take any turns, first `before` and then `after`. The tokens received
    are the first of `e`; its fault is raised once at most, after all of its tokens; a receiver that waits for a
    scanner that has exited finds the slot filled. If the flag was raised in `before`, one more item is put at most,
    and none unless the scanner had looked at the flag before it was raised; and a scanner that finds the slot full
    and waits too long for it looks at the flag and exits. -/
theorem handoff_safe (e : Emission) {before after : List Move} {s t : System}
    (hbefore : (System.start e).run before = some s) (hafter : s.run after = some t) :
    s.received <+: e.tokens ∧
    s.raised ≤ 1 ∧
    (∀ earlier fault later, s.replies = earlier ++ Reply.failed fault :: later →
      e.fault = some fault ∧ earlier = e.tokens.map .token) ∧
    (s.receiver = .waiting → s.sender = .exited → ∃ i, s.slot = some i) ∧
    (.cancel ∈ before →
      after.count .put ≤ 1 ∧
      (s.sender ≠ .putting → .put ∉ after) ∧
      ∀ i, s.sender = .putting → s.slot = some i → ∃ u, s.step .timeOut = some u ∧
        ∀ later v, u.run later = some v →
          (later.filter Move.isScanners = [] ∧ v.step .check = some { v with sender := .exited }) ∨
          (later.filter Move.isScanners = [.check] ∧ v.sender = .exited)) := by
  have htold := told_run hbefore
  refine ⟨received_of_told htold, raised_of_told htold, fun _ _ _ => htold.of_failed, slot_of_exited hbefore, ?_⟩
  intro hcancel
  have hc := cancelled_of_mem hbefore hcancel
  have hcount := count_put_le hc hafter
  refine ⟨?_, fun hs => ?_, fun i hs hslot => ?_⟩
  · have := putsLeft_le s
    omega
  · have hnone : putsLeft s = 0 := if_neg hs
    exact List.count_eq_zero.mp (by omega)
  · obtain ⟨u, hstep, hexit⟩ := aboutToExit_of_timeOut (underway_run (.ready rfl rfl) hbefore) hc hs hslot
    exact ⟨u, hstep, fun _ _ => hexit.run⟩

/-- A receiver that waits when the scanner has stored the fault and exited, and one that closes while the scanner
    waits for the slot. -/
theorem handoff_safe_at_fault_and_at_close :
    (∃ s t, (System.start (scan "f" [.char '(', .fault (.breakdown "gone")])).run
        [.check, .put, .ask, .take, .store, .check, .put, .ask] = some s ∧
      s.receiver = .waiting ∧ s.sender = .exited ∧ (∃ i, s.slot = some i) ∧ s.run [.take] = some t ∧
      t.replies = [.token ⟨.leftParen, "", "(", ⟨"f", 0, 1, 1⟩⟩, .failed (.read (.breakdown "gone"))] ∧ t.raised ≤ 1 ∧
      [.token ⟨.leftParen, "", "(", ⟨"f", 0, 1, 1⟩⟩] =
        (scan "f" [.char '(', .fault (.breakdown "gone")]).tokens.map Reply.token) ∧
    ∃ s u v, (System.start (scan "f" [.char '(', .char ')'])).run
        [.check, .put, .ask, .take, .check, .put, .check, .cancel] = some s ∧
      s.received <+: (scan "f" [.char '(', .char ')']).tokens ∧
      s.sender = .putting ∧ s.slot = some (.token ⟨.rightParen, "", ")", ⟨"f", 1, 1, 2⟩⟩) ∧
      s.step .timeOut = some u ∧ u.run [.clear, .check] = some v ∧
      [Move.timeOut, .clear, .check].count .put ≤ 1 ∧ v.sender = .exited := by
  have hfault : ((System.start (scan "f" [.char '(', .fault (.breakdown "gone")])).run
      [.check, .put, .ask, .take, .store, .check, .put, .ask]).map (fun s => (s.receiver, s.sender)) =
        some (.waiting, .exited) := by
    decide +kernel
  have htaken : ((System.start (scan "f" [.char '(', .fault (.breakdown "gone")])).run
      ([.check, .put, .ask, .take, .store, .check, .put, .ask] ++ [.take])).map (·.replies) =
        some [.token ⟨.leftParen, "", "(", ⟨"f", 0, 1, 1⟩⟩, .failed (.read (.breakdown "gone"))] := by
    decide +kernel
  have hclose : ((System.start (scan "f" [.char '(', .char ')'])).run
      [.check, .put, .ask, .take, .check, .put, .check, .cancel]).map
        (fun s => (s.sender, s.slot, (s.run [.timeOut, .clear, .check]).isSome)) =
        some (.putting, some (.token ⟨.rightParen, "", ")", ⟨"f", 1, 1, 2⟩⟩), true) := by
    decide +kernel
  constructor
  · obtain ⟨s, hs, hstands⟩ := Option.map_eq_some_iff.mp hfault
    obtain ⟨hreceiver, hsender⟩ := Prod.mk.inj hstands
    obtain ⟨t, ht, hreplies⟩ := Option.map_eq_some_iff.mp htaken
    obtain ⟨s', hs', htake⟩ := System.run_concat.mp ht
    obtain rfl := Option.some.inj (hs.symm.trans hs')
    have hhalt : ∀ u : System, u.run [] = some u := fun _ => rfl
    obtain ⟨-, -, -, hslot, -⟩ := handoff_safe _ hs (hhalt s)
    obtain ⟨-, hraised, hlast, -⟩ := handoff_safe _ ht (hhalt t)
    refine ⟨s, t, hs, hreceiver, hsender, hslot hreceiver hsender, ?_, hreplies, hraised, ?_⟩
    · exact Option.bind_eq_some_iff.mpr ⟨t, htake, rfl⟩
    · exact (hlast [_] _ [] hreplies).2
  · obtain ⟨s, hs, hstands⟩ := Option.map_eq_some_iff.mp hclose
    obtain ⟨hsender, hlater⟩ := Prod.mk.inj hstands
    obtain ⟨hslot, hsome⟩ := Prod.mk.inj hlater
    obtain ⟨v, hv⟩ := Option.isSome_iff_exists.mp hsome
    obtain ⟨u, hu, hlast⟩ := Option.bind_eq_some_iff.mp hv
    obtain ⟨hreceived, -, -, -, hclosed⟩ := handoff_safe _ hs hv
    obtain ⟨hcount, -, htimeOut⟩ := hclosed (by decide)
    obtain ⟨u', hu', hexits⟩ := htimeOut _ hsender hslot
    obtain rfl := Option.some.inj (hu.symm.trans hu')
    rcases hexits _ v hlast with ⟨hnone, -⟩ | ⟨-, hexited⟩
    · exact absurd hnone (by decide)
    · exact ⟨s, u, v, hs, hreceived, hsender, hslot, hu, hlast, hcount, hexited⟩

end Interleaving
end ClojureLayout
