import ClojureLayout.Handoff.Interleaving
import ClojureLayout.Proofs.Handoff.History

/-! However the scanner and its receiver take turns, the answers are those of the hand-off that is made step by
    step, but for what a close tells that waited in vain: what is in the slot and what the scanner has still to send
    are what that hand-off waits for. Once the receiver has begun to close, the scanner is not held up and has at
    most three moves left. -/

namespace ClojureLayout.Interleaving
open Handoff (Answer Reply Step)

/-- Whether a move is the scanner's. -/
def Move.isScanners : Move → Bool
  | .check | .store | .put | .timeOut => true
  | _ => false

/-- The step of the receiver that begins with a move. -/
def Move.begins? : Move → Option Step
  | .ask => some .next
  | .cancel => some .close
  | _ => none

/-- The steps that the receiver has begun in some moves, in order. -/
def begun (moves : List Move) : List Step := moves.filterMap Move.begins?

/-! ### What a move does -/

/-- What a move asks of the system, and what it leaves. -/
inductive Moved (s : System) : Move → System → Prop
  | check {i : Item} {rest : List Task} (hs : s.sender = .ready) (ht : s.tasks = .send i :: rest)
      (hc : s.cancelled = false) : Moved s .check { s with sender := .putting }
  | stop {i : Item} {rest : List Task} (hs : s.sender = .ready) (ht : s.tasks = .send i :: rest)
      (hc : s.cancelled = true) : Moved s .check { s with sender := .exited }
  | store {fault : ScanFault} {rest : List Task} (hs : s.sender = .ready) (ht : s.tasks = .store fault :: rest) :
      Moved s .store { s with tasks := rest, stored := some fault }
  | put {i : Item} {rest : List Task} (hs : s.sender = .putting) (ht : s.tasks = .send i :: rest)
      (hslot : s.slot = none) :
      Moved s .put { s with tasks := rest, sender := if rest.isEmpty then .exited else .ready, slot := some i }
  | timeOut {i : Item} (hs : s.sender = .putting) (hslot : s.slot = some i) :
      Moved s .timeOut { s with sender := .ready }
  | ask (hr : s.receiver = .idle) (hf : s.finished = false) : Moved s .ask { s with receiver := .waiting }
  | askOver (hr : s.receiver = .idle) (hf : s.finished = true) : Moved s .ask (s.answer (.reply .exhausted))
  | take {i : Item} (hr : s.receiver = .waiting) (hslot : s.slot = some i) : Moved s .take (s.receive i)
  | cancel (hr : s.receiver = .idle) :
      Moved s .cancel { s with receiver := .clearing, cancelled := true, finished := true }
  | clear (hr : s.receiver = .clearing) : Moved s .clear { s with receiver := .joining, slot := none }
  | join (hr : s.receiver = .joining) (hs : s.sender = .exited) : Moved s .join (s.answer (.closed s.isScanning))
  | giveUp (hr : s.receiver = .joining) : Moved s .giveUp (s.answer (.closed s.isScanning))

theorem moved_of_step {s t : System} {m : Move} (h : s.step m = some t) : Moved s m t := by
  cases m <;> simp only [System.step] at h
  case check =>
    split at h
    next hs ht =>
      split at h <;> cases h
      next hc => exact .stop hs ht hc
      next hc => exact .check hs ht (Bool.eq_false_iff.mpr hc)
    next => cases h
  case ask =>
    split at h
    next hr =>
      split at h <;> cases h
      next hf => exact .askOver hr hf
      next hf => exact .ask hr (Bool.eq_false_iff.mpr hf)
    next => cases h
  -- All other moves can be made in one way only.
  all_goals
    split at h <;> cases h
    constructor <;> assumption

@[simp] theorem System.receive_receiver (s : System) (i : Item) : (s.receive i).receiver = .idle := by
  cases i <;> rfl

theorem System.run_append (s : System) (before after : List Move) :
    s.run (before ++ after) = (s.run before).bind (·.run after) := by
  induction before generalizing s with
  | nil => rfl
  | cons m before ih => cases h : s.step m <;> simp [run, h, ih]

theorem System.run_concat {s u : System} {moves : List Move} {m : Move} :
    s.run (moves ++ [m]) = some u ↔ ∃ t, s.run moves = some t ∧ t.step m = some u := by
  simp [run_append, run, Option.bind_eq_some_iff]

/-- What the moves of a run keep, holds after the run. -/
theorem System.run_induction {P : List Move → System → Prop} {s t : System} {moves : List Move} (start : P [] s)
    (step : ∀ {before m s t}, P before s → Moved s m t → P (before ++ [m]) t) (hrun : s.run moves = some t) :
    P moves t := by
  induction moves using List.reverseRecOn generalizing t with
  | nil => exact Option.some.inj hrun ▸ start
  | append_singleton moves m ih =>
    obtain ⟨s', hs', hstep⟩ := System.run_concat.mp hrun
    exact step (ih hs') (moved_of_step hstep)

/-! ### What the scanner has to do -/

theorem tasksOf_cons (t : Token) (ts : List Token) (fault : Option ScanFault) :
    tasksOf ⟨t :: ts, fault⟩ = .send (.token t) :: tasksOf ⟨ts, fault⟩ := by
  simp [tasksOf]

theorem tasksOf_fault (fault : ScanFault) : tasksOf ⟨[], some fault⟩ = .store fault :: tasksOf ⟨[], none⟩ := rfl

theorem tasksOf_nil : tasksOf ⟨[], none⟩ = [.send .closed] := rfl

theorem tasksOf_ne_nil (e : Emission) : tasksOf e ≠ [] := by
  simp [tasksOf]

/-- The scanner sends tokens first and closes the slot last of all. -/
theorem send_cases {e : Emission} {i : Item} {rest : List Task} (h : tasksOf e = .send i :: rest) :
    (∃ t ts, e.tokens = t :: ts ∧ i = .token t ∧ rest = tasksOf ⟨ts, e.fault⟩) ∨
    (e.tokens = [] ∧ e.fault = none ∧ i = .closed ∧ rest = []) := by
  obtain ⟨_ | ⟨t, ts⟩, _ | fault⟩ := e
  · rw [tasksOf_nil] at h
    cases h
    exact .inr ⟨rfl, rfl, rfl, rfl⟩
  · rw [tasksOf_fault] at h
    cases h
  all_goals
    rw [tasksOf_cons] at h
    cases h
    exact .inl ⟨t, ts, rfl, rfl, rfl⟩

/-- The scanner stores a fault when all tokens are sent. -/
theorem store_cases {e : Emission} {fault : ScanFault} {rest : List Task} (h : tasksOf e = .store fault :: rest) :
    e.tokens = [] ∧ e.fault = some fault ∧ rest = tasksOf ⟨[], none⟩ := by
  obtain ⟨_ | ⟨t, ts⟩, _ | fault⟩ := e
  · rw [tasksOf_nil] at h
    cases h
  · rw [tasksOf_fault] at h
    cases h
    exact ⟨rfl, rfl, rfl⟩
  all_goals
    rw [tasksOf_cons] at h
    cases h

/-! ### The replies -/

/-- The fault of a scan is stored, or the scanner has still to store it. -/
def Stored (fault stored left : Option ScanFault) : Prop :=
  (stored = none ∧ left = fault) ∨ (stored = fault ∧ left = none)

theorem Stored.eq {fault stored : Option ScanFault} (h : Stored fault stored none) : stored = fault := by
  obtain ⟨hs, hl⟩ | ⟨hs, -⟩ := h
  · exact hs.trans hl
  · exact hs

theorem Stored.store {fault stored : Option ScanFault} {f : ScanFault} (h : Stored fault stored (some f)) :
    Stored fault (some f) none := by
  obtain ⟨-, hl⟩ | ⟨-, hl⟩ := h
  · exact .inr ⟨hl, rfl⟩
  · cases hl

/-- The hand-off that is made step by step waits for `w`: the scanner is level with it, or ahead by a token in the
    slot, or has closed the slot. -/
inductive Pending (w : Emission) (tasks : List Task) (slot : Option Item) (stored : Option ScanFault) : Prop
  | level {e : Emission} (ht : tasks = tasksOf e) (hslot : slot = none) (hw : w.tokens = e.tokens)
      (hfault : Stored w.fault stored e.fault)
  | ahead {e : Emission} {t : Token} (ht : tasks = tasksOf e) (hslot : slot = some (.token t))
      (hw : w.tokens = t :: e.tokens) (hfault : Stored w.fault stored e.fault)
  | closed (ht : tasks = []) (hslot : slot = some .closed) (hw : w.tokens = []) (hfault : stored = w.fault)

section Pending
variable {w : Emission} {tasks rest : List Task} {slot : Option Item} {stored : Option ScanFault}

theorem Pending.store {fault : ScanFault} (hp : Pending w tasks slot stored) (ht : tasks = .store fault :: rest) :
    Pending w rest slot (some fault) := by
  cases hp with
  | level ht' hslot hw hfault =>
    obtain ⟨htokens, he, rfl⟩ := store_cases (ht'.symm.trans ht)
    rw [he] at hfault
    exact .level rfl hslot (hw.trans htokens) hfault.store
  | ahead ht' hslot hw hfault =>
    obtain ⟨htokens, he, rfl⟩ := store_cases (ht'.symm.trans ht)
    rw [he] at hfault
    exact .ahead rfl hslot (by rw [hw, htokens]) hfault.store
  | closed ht' => cases ht'.symm.trans ht

theorem Pending.put {i : Item} (hp : Pending w tasks slot stored) (ht : tasks = .send i :: rest) (hslot : slot = none) :
    Pending w rest (some i) stored := by
  cases hp with
  | level ht' _ hw hfault =>
    obtain ⟨t, ts, htokens, rfl, rfl⟩ | ⟨htokens, he, rfl, rfl⟩ := send_cases (ht'.symm.trans ht)
    · exact .ahead rfl rfl (hw.trans htokens) hfault
    · rw [he] at hfault
      exact .closed rfl rfl (hw.trans htokens) hfault.eq
  | ahead _ hsome => cases hslot.symm.trans hsome
  | closed _ hsome => cases hslot.symm.trans hsome

end Pending

/-- The hand-off that is made step by step and the system agree on what is still to come. -/
structure Agrees (h : Handoff) (s : System) : Prop where
  finished_eq : s.finished = h.finished
  of_waiting : s.receiver = .waiting → s.finished = false
  of_clearing : s.receiver = .clearing → s.finished = true
  pending : s.finished = false → Pending h.waiting s.tasks s.slot s.stored

section Agrees
variable {h : Handoff} {s : System}

theorem agrees_start (e : Emission) : Agrees { waiting := e } (.start e) where
  finished_eq := rfl
  of_waiting hr := by cases hr
  of_clearing hr := by cases hr
  pending _ := .level rfl rfl rfl (.inl ⟨rfl, rfl⟩)

/-- Taking an item from the slot is asking for the next token. -/
theorem Agrees.receive {i : Item} (ha : Agrees h s) (hr : s.receiver = .waiting) (hslot : s.slot = some i) :
    (s.receive i).answers = s.answers ++ [.reply h.next.1] ∧ Agrees h.next.2 (s.receive i) := by
  have hs := ha.of_waiting hr
  have hh : h.finished = false := ha.finished_eq.symm.trans hs
  have hp := ha.pending hs
  generalize hw : h.waiting = w at hp
  obtain ⟨tokens, fault⟩ := w
  cases hp with
  | level _ hnone => cases hslot.symm.trans hnone
  | ahead ht hsome htokens hfault =>
    cases hslot.symm.trans hsome
    cases htokens
    rw [Handoff.next_of_cons hh hw]
    exact ⟨rfl, {
      finished_eq := rfl
      of_waiting := fun hr => by cases hr
      of_clearing := fun hr => by cases hr
      pending := fun _ => .level ht rfl rfl hfault }⟩
  | closed _ hsome htokens hfault =>
    cases hslot.symm.trans hsome
    cases htokens
    rw [Handoff.next_of_nil hh hw]
    refine ⟨by simp [System.receive, System.answer, hfault], {
      finished_eq := rfl
      of_waiting := fun hr => by cases hr
      of_clearing := fun hr => by cases hr
      pending := fun hf => by cases hf }⟩

end Agrees

/-- The answer to a close under way, if the scanner exits in time. -/
def Receiver.owed : Receiver → List Answer
  | .clearing | .joining => [.closed false]
  | .idle | .waiting => []

/-- The answers of the receiver, the one to a close under way included, had no close waited in vain. -/
def System.timely (s : System) : List Answer := s.answers.map Answer.inTime ++ s.receiver.owed

/-- A run has come to `s`: the receiver has done some steps of the hand-off of `e`, with the answers that these give,
    and is perhaps in the middle of one more. A close counts as done when the flag is raised. -/
structure Replays (e : Emission) (moves : List Move) (s : System) (done : List Step) : Prop where
  begun_eq : begun moves = done ++ (if s.receiver = .waiting then [.next] else [])
  timely_eq : s.timely = (({ waiting := e } : Handoff).run done).1
  agrees : Agrees (({ waiting := e } : Handoff).run done).2 s

section Replays
variable {e : Emission} {moves : List Move} {s t : System} {m : Move} {done : List Step}

theorem begun_concat (moves : List Move) (m : Move) : begun (moves ++ [m]) = begun moves ++ m.begins?.toList := by
  cases hm : m.begins? <;> simp [begun, hm]

theorem replays_start (e : Emission) : Replays e [] (.start e) [] := ⟨rfl, rfl, agrees_start e⟩

/-- Whether a close waited in vain makes no difference to the replies. -/
theorem System.filterMap_timely (s : System) : s.timely.filterMap Answer.reply? = s.replies := by
  have hsame : Answer.reply? ∘ Answer.inTime = Answer.reply? := by
    funext a
    cases a <;> rfl
  have howed : s.receiver.owed.filterMap Answer.reply? = [] := by cases s.receiver <;> rfl
  rw [timely, List.filterMap_append, List.filterMap_map, howed, List.append_nil, hsame, replies]

theorem Replays.replies_eq (hf : Replays e moves s done) :
    s.replies = (({ waiting := e } : Handoff).run done).1.filterMap Answer.reply? := by
  rw [← hf.timely_eq, System.filterMap_timely]

/-- A move with which the receiver begins nothing and ends nothing but a close. -/
theorem Replays.goOn (hf : Replays e moves s done) (hm : m.begins? = none)
    (hwaiting : t.receiver = .waiting ↔ s.receiver = .waiting) (htimely : t.timely = s.timely)
    (ha : Agrees (({ waiting := e } : Handoff).run done).2 t) : Replays e (moves ++ [m]) t done where
  begun_eq := by simp only [begun_concat, hf.begun_eq, hm, hwaiting, Option.toList_none, List.append_nil]
  timely_eq := htimely.trans hf.timely_eq
  agrees := ha

/-- A move with which the receiver has done a step. -/
theorem Replays.finish (hf : Replays e moves s done) (step : Step) (hr : t.receiver ≠ .waiting)
    (hbegun : begun (moves ++ [m]) = done ++ [step])
    (htimely : t.timely = s.timely ++ [((({ waiting := e } : Handoff).run done).2.step step).1])
    (ha : Agrees ((({ waiting := e } : Handoff).run done).2.step step).2 t) :
    Replays e (moves ++ [m]) t (done ++ [step]) where
  begun_eq := by simp [hbegun, hr]
  timely_eq := by rw [Handoff.run_concat, htimely, hf.timely_eq]
  agrees := by rwa [Handoff.run_concat]

/-- The receiver has closed the hand-off, in time or not. -/
theorem Replays.closed (hf : Replays e moves s done) (hm : m.begins? = none) (hr : s.receiver = .joining)
    (scanning : Bool) : Replays e (moves ++ [m]) (s.answer (.closed scanning)) done := by
  have ha := hf.agrees
  refine hf.goOn hm (by simp [hr, System.answer]) ?_ { ha with
    of_waiting := fun hr => by cases hr
    of_clearing := fun hr => by cases hr }
  simp [System.timely, System.answer, hr, Receiver.owed, Answer.inTime]

theorem Replays.step (hf : Replays e moves s done) (hm : Moved s m t) : ∃ done', Replays e (moves ++ [m]) t done' := by
  have ha := hf.agrees
  -- The scanner's moves leave what is still to come as it is. A step of the hand-off is done at once, or when the
  -- item that the receiver waits for is taken.
  cases hm with
  | check | stop | timeOut => exact ⟨done, hf.goOn rfl .rfl rfl { ha with }⟩
  | store _ ht => exact ⟨done, hf.goOn rfl .rfl rfl { ha with pending := fun hs => (ha.pending hs).store ht }⟩
  | put _ ht hslot => exact ⟨done, hf.goOn rfl .rfl rfl { ha with pending := fun hs => (ha.pending hs).put ht hslot }⟩
  | ask hr hs =>
    refine ⟨done, ?_, ?_, { ha with of_waiting := fun _ => hs, of_clearing := fun hr => by cases hr }⟩
    · simp [begun_concat, hf.begun_eq, hr, Move.begins?]
    · rw [← hf.timely_eq, System.timely, System.timely, hr]
      rfl
  | askOver hr hs =>
    have hnext := Handoff.next_of_finished (ha.finished_eq.symm.trans hs)
    refine ⟨_, hf.finish .next (by simp [System.answer]) ?_ ?_ ?_⟩
    · simp [begun_concat, hf.begun_eq, hr, Move.begins?]
    · simp [System.timely, System.answer, hr, Receiver.owed, Answer.inTime, Handoff.step, hnext]
    · rw [Handoff.step, hnext]
      exact { ha with
        of_waiting := fun hr => by cases hr
        of_clearing := fun hr => by cases hr }
  | take hr hslot =>
    obtain ⟨hanswers, ha'⟩ := ha.receive hr hslot
    refine ⟨_, hf.finish .next (by simp) ?_ ?_ ha'⟩
    · simp [begun_concat, hf.begun_eq, hr, Move.begins?]
    · simp [System.timely, hanswers, hr, Receiver.owed, Answer.inTime, Handoff.step]
  | cancel hr =>
    refine ⟨_, hf.finish .close (by simp) ?_ ?_ {
      finished_eq := rfl
      of_waiting := fun hr => by cases hr
      of_clearing := fun _ => rfl
      pending := fun hs => by cases hs }⟩
    · simp [begun_concat, hf.begun_eq, hr, Move.begins?]
    · simp [System.timely, hr, Receiver.owed, Handoff.step]
  | clear hr =>
    have hs := ha.of_clearing hr
    refine ⟨done, hf.goOn rfl (by simp [hr]) ?_ { ha with
      of_waiting := fun hr => by cases hr
      of_clearing := fun hr => by cases hr
      pending := fun hs' => by cases hs.symm.trans hs' }⟩
    rw [System.timely, System.timely, hr]
    rfl
  | join hr => exact ⟨done, hf.closed rfl hr _⟩
  | giveUp hr => exact ⟨done, hf.closed rfl hr _⟩

theorem replays_run (hrun : (System.start e).run moves = some s) : ∃ done, Replays e moves s done :=
  System.run_induction (P := fun moves s => ∃ done, Replays e moves s done) ⟨[], replays_start e⟩
    (fun ⟨_, hf⟩ hm => hf.step hm) hrun

end Replays

/-! ### How the scanner comes to its end -/

/-- Whether a task stores a fault. -/
def Task.isStore : Task → Bool
  | .store _ => true
  | .send _ => false

theorem countP_isStore_tasksOf_le (e : Emission) : (tasksOf e).countP Task.isStore ≤ 1 := by
  obtain ⟨ts, fault⟩ := e
  induction ts with
  | nil => cases fault <;> simp [tasksOf, List.countP_cons, Task.isStore]
  | cons t ts ih =>
    rw [tasksOf_cons, List.countP_cons]
    simpa [Task.isStore] using ih

/-- Where the scanner stands among its tasks. -/
inductive Underway (s : System) : Prop
  | ready {e : Emission} (hs : s.sender = .ready) (ht : s.tasks = tasksOf e)
  | putting {e : Emission} {i : Item} {rest : List Task} (hs : s.sender = .putting) (ht : s.tasks = tasksOf e)
      (hsend : s.tasks = .send i :: rest)
  | exited (hs : s.sender = .exited)

/-- How many moves the scanner can make at most when the flag is raised. -/
def movesLeft (s : System) : Nat :=
  match s.sender with
  | .ready => s.tasks.countP Task.isStore + 1
  | .putting => s.tasks.countP Task.isStore + 2
  | .exited => 0

section Underway
variable {s t : System} {m : Move} {moves : List Move}

theorem Moved.sender_eq (hm : Moved s m t) (hr : m.isScanners = false) : t.sender = s.sender ∧ t.tasks = s.tasks := by
  cases hm with
  | check | stop | store | put | timeOut => cases hr
  | @take i => cases i <;> exact ⟨rfl, rfl⟩
  | ask | askOver | cancel | clear | join | giveUp => exact ⟨rfl, rfl⟩

theorem Moved.cancelled (hm : Moved s m t) (hc : s.cancelled = true) : t.cancelled = true := by
  cases hm with
  | @take i => cases i <;> exact hc
  | cancel => rfl
  | _ => exact hc

theorem cancelled_of_mem (hrun : s.run moves = some t) (hmem : .cancel ∈ moves) : t.cancelled = true := by
  refine System.run_induction (P := fun moves t => .cancel ∈ moves → t.cancelled = true) (by simp) ?_ hrun hmem
  intro before m u v hu hm hmem
  rcases List.mem_append.mp hmem with hmem | hmem
  · exact hm.cancelled (hu hmem)
  · obtain rfl := List.mem_singleton.mp hmem
    cases hm
    rfl

theorem Underway.of_eq (hu : Underway s) (h : t.sender = s.sender ∧ t.tasks = s.tasks) : Underway t := by
  cases hu with
  | ready hs ht => exact .ready (h.1.trans hs) (h.2.trans ht)
  | putting hs ht hsend => exact .putting (h.1.trans hs) (h.2.trans ht) (h.2.trans hsend)
  | exited hs => exact .exited (h.1.trans hs)

/-- The tasks of a scanner that has not exited are those of an emission. -/
theorem Underway.tasks_eq (hu : Underway s) (hs : s.sender ≠ .exited) : ∃ e, s.tasks = tasksOf e := by
  cases hu with
  | ready _ ht => exact ⟨_, ht⟩
  | putting _ ht => exact ⟨_, ht⟩
  | exited h => exact absurd h hs

theorem Underway.step (hu : Underway s) (hm : Moved s m t) : Underway t := by
  cases hr : m.isScanners with
  | false => exact hu.of_eq (hm.sender_eq hr)
  | true =>
    have htasks := hu.tasks_eq
    cases hm with
    | check hs ht =>
      obtain ⟨e, he⟩ := htasks (by simp [hs])
      exact .putting rfl he ht
    | stop => exact .exited rfl
    | store hs ht =>
      obtain ⟨e, he⟩ := htasks (by simp [hs])
      exact .ready hs (store_cases (he.symm.trans ht)).2.2
    | put hs ht =>
      obtain ⟨e, he⟩ := htasks (by simp [hs])
      obtain ⟨t, ts, -, -, rfl⟩ | ⟨-, -, -, rfl⟩ := send_cases (he.symm.trans ht)
      · exact .ready (by simp [tasksOf_ne_nil]) rfl
      · exact .exited rfl
    | timeOut hs =>
      obtain ⟨e, he⟩ := htasks (by simp [hs])
      exact .ready rfl he
    | _ => cases hr

theorem underway_run (hu : Underway s) (hrun : s.run moves = some t) : Underway t :=
  System.run_induction (P := fun _ t => Underway t) hu Underway.step hrun

/-- A scanner that has not exited can move. -/
theorem Underway.can_move (hu : Underway s) :
    s.sender = .exited ∨ ∃ m, m.isScanners = true ∧ (s.step m).isSome = true := by
  cases hu with
  | @ready e hs ht =>
    cases htasks : s.tasks with
    | nil => exact absurd (ht.symm.trans htasks) (tasksOf_ne_nil e)
    | cons task rest =>
      cases task with
      | send i => exact .inr ⟨.check, rfl, by simp [System.step, hs, htasks]⟩
      | store fault => exact .inr ⟨.store, rfl, by simp [System.step, hs, htasks]⟩
  | putting hs _ hsend =>
    cases hslot : s.slot with
    | none => exact .inr ⟨.put, rfl, by simp [System.step, hs, hsend, hslot]⟩
    | some i => exact .inr ⟨.timeOut, rfl, by simp [System.step, hs, hslot]⟩
  | exited hs => exact .inl hs

theorem Underway.movesLeft_le (hu : Underway s) : movesLeft s ≤ 3 := by
  cases hu with
  | @ready e hs ht =>
    have := countP_isStore_tasksOf_le e
    simp only [movesLeft, hs, ht]
    omega
  | @putting e _ _ hs ht =>
    have := countP_isStore_tasksOf_le e
    simp only [movesLeft, hs, ht]
    omega
  | exited hs => simp [movesLeft, hs]

/-- When the flag is raised, each move of the scanner brings it nearer to its end. -/
theorem Moved.movesLeft_lt (hm : Moved s m t) (hc : s.cancelled = true) (hr : m.isScanners = true) :
    movesLeft t < movesLeft s := by
  cases hm with
  | check _ _ hc' => cases hc.symm.trans hc'
  | stop hs => simp [movesLeft, hs]
  | store hs ht => simp [movesLeft, hs, ht, List.countP_cons, Task.isStore]
  | @put _ rest hs ht =>
    cases rest <;> simp [movesLeft, hs, ht, List.countP_cons, Task.isStore]
  | timeOut hs => simp [movesLeft, hs]
  | _ => cases hr

/-- What each move uses up once the flag is raised bounds the moves of a run. -/
theorem countP_le_of_cancelled {p : Move → Bool} {left : System → Nat}
    (hmoved : ∀ {u v m}, u.cancelled = true → Moved u m v → [m].countP p + left v ≤ left u)
    (hc : s.cancelled = true) (hrun : s.run moves = some t) : moves.countP p + left t ≤ left s := by
  suffices h : t.cancelled = true ∧ moves.countP p + left t ≤ left s from h.2
  refine System.run_induction (P := fun moves t => t.cancelled = true ∧ moves.countP p + left t ≤ left s)
    ⟨hc, by simp⟩ ?_ hrun
  rintro before m u v ⟨hu, hle⟩ hm
  have := hmoved hu hm
  refine ⟨hm.cancelled hu, ?_⟩
  rw [List.countP_append]
  omega

/-- The moves that the scanner makes after the flag is raised are no more than it has left then. -/
theorem countP_isScanners_le (hc : s.cancelled = true) (hrun : s.run moves = some t) :
    moves.countP Move.isScanners + movesLeft t ≤ movesLeft s := by
  refine countP_le_of_cancelled (fun {u v m} hu hm => ?_) hc hrun
  rw [List.countP_singleton]
  cases hr : m.isScanners with
  | true =>
    have := hm.movesLeft_lt hu hr
    simp only [if_true]
    omega
  | false =>
    have : movesLeft v = movesLeft u := by simp only [movesLeft, hm.sender_eq hr]
    simp only [Bool.false_eq_true, if_false]
    omega

end Underway

end Interleaving

end ClojureLayout
