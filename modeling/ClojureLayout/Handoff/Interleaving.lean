import ClojureLayout.Handoff

/-!
# The hand-off between two processes

The scanner and its receiver run side by side. The scanner sends what it emits through a slot that
holds one item, and closes the slot at the end; if the scan breaks off, the fault is stored before
that. It looks at a cancel flag before every attempt to fill the slot, and tries again when the slot
stays full for too long. The receiver waits for the slot to be filled, or closes the hand-off: it
raises the flag, empties the slot and waits for the scanner to exit, but not for too long. It tells
whether the scanner is still at work when it goes on.

A system moves by one step of one of the two (`System.step`); a run is any list of moves, so that
every interleaving is one.
-/

namespace ClojureLayout.Interleaving

/-- What the slot can hold. -/
inductive Item where
  | token (t : Token)
  /-- The scanner has sent everything. -/
  | closed
deriving DecidableEq

/-- What the scanner has to do. -/
inductive Task where
  | send (i : Item)
  | store (fault : ScanFault)
deriving DecidableEq

/-- All that the scanner has to do about an emission. -/
def tasksOf (e : Emission) : List Task :=
  e.tokens.map (fun t => .send (.token t)) ++ e.fault.toList.map .store ++ [.send .closed]

/-- Where the scanner stands. -/
inductive Sender where
  /-- About to begin its next task. -/
  | ready
  /-- Past the look at the flag, about to fill the slot. -/
  | putting
  | exited
deriving DecidableEq

/-- Where the receiver stands. -/
inductive Receiver where
  | idle
  /-- Waiting for the slot to be filled. -/
  | waiting
  /-- Closing, the flag raised, about to empty the slot. -/
  | clearing
  /-- Closing, waiting for the scanner. -/
  | joining
deriving DecidableEq

/-- The two processes, what they share, and the answers to the steps that the receiver has done, in
    order. -/
structure System where
  tasks : List Task
  sender : Sender := .ready
  receiver : Receiver := .idle
  slot : Option Item := none
  cancelled : Bool := false
  stored : Option ScanFault := none
  finished : Bool := false
  answers : List Handoff.Answer := []
deriving DecidableEq

/-- The steps of the two processes. -/
inductive Move where
  /-- The scanner looks at the flag before a task that sends. -/
  | check
  /-- The scanner stores the fault that broke the scan off. -/
  | store
  /-- The scanner fills the slot. -/
  | put
  /-- The scanner has waited too long for a full slot. -/
  | timeOut
  /-- The receiver asks for a token. -/
  | ask
  /-- The receiver empties the filled slot it waits for. -/
  | take
  /-- The receiver begins to close: it raises the flag. -/
  | cancel
  /-- The receiver empties the slot while closing. -/
  | clear
  /-- The scanner has exited, and the receiver has done with closing. -/
  | join
  /-- The receiver has waited too long for the scanner, and has done with closing. -/
  | giveUp
deriving DecidableEq

namespace System

/-- The two processes before their first step. -/
def start (e : Emission) : System := { tasks := tasksOf e }

/-- Whether the scanner is still at work. -/
def isScanning (s : System) : Bool := s.sender != .exited

/-- The receiver has done a step, with an answer. -/
def answer (s : System) (a : Handoff.Answer) : System :=
  { s with receiver := .idle, answers := s.answers ++ [a] }

/-- What the receiver makes of an item. -/
def receive (s : System) : Item → System
  | .token t => answer { s with slot := none, finished := t.kind.isTerminal } (.reply (.token t))
  | .closed =>
    answer { s with slot := none, finished := true } (.reply (s.stored.elim .exhausted .failed))

/-- The system after a move, if the move can be made. -/
def step (s : System) : Move → Option System
  | .check =>
    match s.sender, s.tasks with
    | .ready, .send _ :: _ =>
      some (if s.cancelled then { s with sender := .exited } else { s with sender := .putting })
    | _, _ => none
  | .store =>
    match s.sender, s.tasks with
    | .ready, .store fault :: rest => some { s with tasks := rest, stored := some fault }
    | _, _ => none
  | .put =>
    match s.sender, s.tasks, s.slot with
    | .putting, .send i :: rest, none =>
      some { s with
        tasks := rest
        sender := if rest.isEmpty then .exited else .ready
        slot := some i }
    | _, _, _ => none
  | .timeOut =>
    match s.sender, s.slot with
    | .putting, some _ => some { s with sender := .ready }
    | _, _ => none
  | .ask =>
    match s.receiver with
    | .idle =>
      some (if s.finished then s.answer (.reply .exhausted) else { s with receiver := .waiting })
    | _ => none
  | .take =>
    match s.receiver, s.slot with
    | .waiting, some i => some (s.receive i)
    | _, _ => none
  | .cancel =>
    match s.receiver with
    | .idle => some { s with receiver := .clearing, cancelled := true, finished := true }
    | _ => none
  | .clear =>
    match s.receiver with
    | .clearing => some { s with receiver := .joining, slot := none }
    | _ => none
  | .join =>
    match s.receiver, s.sender with
    | .joining, .exited => some (s.answer (.closed s.isScanning))
    | _, _ => none
  | .giveUp =>
    match s.receiver with
    | .joining => some (s.answer (.closed s.isScanning))
    | _ => none

/-- The system after some moves, if they can be made in this order. -/
def run (s : System) : List Move → Option System
  | [] => some s
  | m :: rest => (s.step m).bind fun t => t.run rest

/-- The replies given so far, in order. -/
def replies (s : System) : List Handoff.Reply := s.answers.filterMap Handoff.Answer.reply?

/-- The tokens handed over so far, in order. -/
def received (s : System) : List Token :=
  s.replies.filterMap fun
    | .token t => some t
    | _ => none

/-- How often the scan's fault was raised. -/
def raised (s : System) : Nat :=
  s.replies.countP fun
    | .failed _ => true
    | _ => false

end System

end ClojureLayout.Interleaving
