import ClojureLayout.Scanner.Emission

/-!
# Handing tokens over

The tokens of a scan are handed over one by one, on demand. The hand-off is finished when the token
that ends the scan has been handed over, when the fault that broke the scan off has been raised, or
when it was closed; nothing is handed over after that.

The scan itself goes on in a process of its own (`Handoff/Interleaving.lean`). Here the steps of a
receiver are taken for which that process is always in time.
-/

namespace ClojureLayout

/-- The receiving end of a scan: what is still to come, and whether the hand-off is finished. -/
structure Handoff where
  waiting : Emission
  finished : Bool := false
deriving DecidableEq

namespace Handoff

/-- What asking for a token comes to. -/
inductive Reply where
  | token (t : Token)
  /-- Nothing is handed over any more. -/
  | exhausted
  /-- The scan broke off here. No fault is the signal that ends an iteration, so a receiver tells
      this from `exhausted`. -/
  | failed (fault : ScanFault)
deriving DecidableEq

/-- The hand-off of a source that is about to be scanned. -/
def ofReads (name : String) (reads : List Read) : Handoff := { waiting := scan name reads }

/-- Asks for the next token. -/
def next (h : Handoff) : Reply × Handoff :=
  if h.finished then (.exhausted, h)
  else
    match h.waiting with
    | ⟨t :: rest, fault⟩ =>
      (.token t, { h with waiting := ⟨rest, fault⟩, finished := t.kind.isTerminal })
    | ⟨[], some fault⟩ => (.failed fault, { h with finished := true })
    | ⟨[], none⟩ => (.exhausted, { h with finished := true })

theorem length_lt_of_next_token {h k : Handoff} {t : Token} (hn : h.next = (.token t, k)) :
    k.waiting.tokens.length < h.waiting.tokens.length := by
  unfold next at hn
  split at hn
  · cases hn
  · split at hn
    · rename_i hw
      cases hn
      simp [hw]
    · cases hn
    · cases hn

/-- Asks for tokens until there are no more. If the scan breaks off on the way, the tokens received
    are lost. -/
def drain (h : Handoff) : Except ScanFault (List Token) × Handoff :=
  match _ : h.next with
  | (.token t, k) =>
    let later := drain k
    (later.1.map (t :: ·), later.2)
  | (.exhausted, k) => (.ok [], k)
  | (.failed fault, k) => (.error fault, k)
termination_by h.waiting.tokens.length
decreasing_by all_goals exact length_lt_of_next_token ‹_›

/-- Stops the scan; what it has not handed over is dropped. -/
def close (h : Handoff) : Handoff :=
  { h with waiting := { tokens := [] }, finished := true }

/-- What a receiver does. -/
inductive Step where
  | next
  | nextToken
  | drain
  /-- Enters the block at whose end the hand-off is closed. -/
  | enter
  | close
deriving DecidableEq

/-- What a step comes to. -/
inductive Answer where
  | reply (r : Reply)
  /-- All tokens that were still to come. -/
  | drained (ts : List Token)
  /-- A drain met the fault that broke the scan off. -/
  | broken (fault : ScanFault)
  | entered
  /-- The hand-off is closed; the scan may still be going on, or not. -/
  | closed (scanning : Bool)
deriving DecidableEq

/-- The reply that an answer is. -/
def Answer.reply? : Answer → Option Reply
  | .reply r => some r
  | _ => none

/-- A step and what it leaves. A close has not waited in vain for the scan to stop. -/
def step (h : Handoff) : Step → Answer × Handoff
  | .next | .nextToken => (.reply h.next.1, h.next.2)
  | .drain =>
    match h.drain with
    | (.ok ts, k) => (.drained ts, k)
    | (.error fault, k) => (.broken fault, k)
  | .enter => (.entered, h)
  | .close => (.closed false, h.close)

/-- Some steps, one after the other, and what they leave. -/
def run (h : Handoff) : List Step → List Answer × Handoff
  | [] => ([], h)
  | s :: rest =>
    let later := (h.step s).2.run rest
    ((h.step s).1 :: later.1, later.2)

end Handoff

end ClojureLayout
