import Mathlib.Data.List.Induction
import ClojureLayout.Handoff
import ClojureLayout.Proofs.Scanner.Accounting

/-! What a receiver is handed over is determined by its scan and by the answers it had before: the tokens so far
    are the first of the scan, a step gets the next one, or the rest, or the fault where it is reached, and
    once the last of the scan was handed over or the hand-off was closed there is nothing more. -/

namespace ClojureLayout
namespace Handoff

/-- The tokens that an answer hands over. A drain that meets a fault hands over none. -/
def Answer.tokens : Answer → List Token
  | .reply (.token t) => [t]
  | .drained ts => ts
  | _ => []

/-- The fault that an answer raises. -/
def Answer.fault? : Answer → Option ScanFault
  | .reply (.failed fault) | .broken fault => some fault
  | _ => none

/-- The answer, had nothing waited in vain. -/
def Answer.inTime : Answer → Answer
  | .closed _ => .closed false
  | a => a

/-- The tokens that some answers hand over, in order. -/
def handed (before : List Answer) : List Token := before.flatMap Answer.tokens

/-- An answer after which nothing is handed over: it hands over the token that ends the scan, raises the fault
    that broke it off, or tells that the hand-off is closed. -/
def Answer.Last (a : Answer) : Prop :=
  (∃ t ∈ a.tokens, t.kind.isTerminal = true) ∨ a.fault?.isSome = true ∨ ∃ scanning, a = .closed scanning

/-- Nothing is handed over after these answers. -/
def Over (before : List Answer) : Prop := ∃ a ∈ before, a.Last

theorem handed_concat (before : List Answer) (a : Answer) : handed (before ++ [a]) = handed before ++ a.tokens := by
  simp [handed]

theorem over_concat {before : List Answer} {a : Answer} : Over (before ++ [a]) ↔ Over before ∨ a.Last := by
  simp [Over, or_and_right, exists_or]

/-! ### Single steps -/

section Steps
variable {h k : Handoff} {t : Token} {ts : List Token} {fault : ScanFault}

theorem next_of_finished (hf : h.finished = true) : h.next = (.exhausted, h) := by
  simp [next, hf]

theorem next_of_cons (hf : h.finished = false) {later : Option ScanFault} (hw : h.waiting = ⟨t :: ts, later⟩) :
    h.next = (.token t, { h with waiting := ⟨ts, later⟩, finished := t.kind.isTerminal }) := by
  simp [next, hf, hw]

theorem next_of_nil {left : Option ScanFault} (hf : h.finished = false) (hw : h.waiting = ⟨[], left⟩) :
    h.next = (left.elim .exhausted .failed, { h with finished := true }) := by
  cases left <;> simp [next, hf, hw]

theorem next_of_fault (hf : h.finished = false) (hw : h.waiting = ⟨[], some fault⟩) :
    h.next = (.failed fault, { h with finished := true }) :=
  next_of_nil hf hw

theorem drain_of_token (hn : h.next = (.token t, k)) : h.drain = (k.drain.1.map (t :: ·), k.drain.2) := by
  rw [drain]
  split <;> simp_all

theorem drain_of_exhausted (hn : h.next = (.exhausted, k)) : h.drain = (.ok [], k) := by
  rw [drain]
  split <;> simp_all

theorem drain_of_failed (hn : h.next = (.failed fault, k)) : h.drain = (.error fault, k) := by
  rw [drain]
  split <;> simp_all

theorem drain_of_finished (hf : h.finished = true) : h.drain = (.ok [], h) :=
  drain_of_exhausted (next_of_finished hf)

theorem step_drain (hd : h.drain = (.ok ts, k)) : h.step .drain = (.drained ts, k) := by
  simp only [step, hd]

theorem step_drain_broken (hd : h.drain = (.error fault, k)) : h.step .drain = (.broken fault, k) := by
  simp only [step, hd]

/-- What a drain makes of an emission. -/
def drained (e : Emission) : Except ScanFault (List Token) :=
  match e.fault with
  | none => .ok e.tokens
  | some fault => .error fault

theorem drained_of_none {e : Emission} (he : e.fault = none) : drained e = .ok e.tokens := by
  simp only [drained, he]

theorem drained_of_some {e : Emission} (he : e.fault = some fault) : drained e = .error fault := by
  simp only [drained, he]

theorem drained_cons (t : Token) (e : Emission) : drained (e.cons t) = (drained e).map (t :: ·) := by
  cases hf : e.fault <;> simp [drained, Emission.cons, hf, Except.map]

/-- A drain hands over all that is left, or raises the fault that is reached, and finishes the hand-off. -/
theorem drain_of_ends {e : Emission} (hends : e.Ends) (hf : h.finished = false) (hw : h.waiting = e) :
    ∃ k, h.drain = (drained e, k) ∧ k.finished = true := by
  induction hends generalizing h with
  | @final t ht =>
    refine ⟨{ h with waiting := ⟨[], none⟩, finished := t.kind.isTerminal }, ?_, ht⟩
    rw [drain_of_token (next_of_cons hf hw), drain_of_finished ht]
    rfl
  | broken fault => exact ⟨_, drain_of_failed (next_of_fault hf hw), rfl⟩
  | @cons t e ht _ ih =>
    obtain ⟨k, hk, hfinished⟩ := ih (h := { h with waiting := e, finished := t.kind.isTerminal }) ht rfl
    refine ⟨k, ?_, hfinished⟩
    rw [drain_of_token (next_of_cons hf hw), hk, drained_cons]

end Steps

/-! ### Histories -/

theorem run_concat (h : Handoff) (steps : List Step) (s : Step) :
    h.run (steps ++ [s]) = ((h.run steps).1 ++ [((h.run steps).2.step s).1], ((h.run steps).2.step s).2) := by
  induction steps generalizing h with
  | nil => rfl
  | cons s' steps ih => simp only [List.cons_append, run, ih]

/-- The faults that some answers raise, in order. -/
def raised (before : List Answer) : List ScanFault := before.filterMap Answer.fault?

theorem raised_concat (before : List Answer) (a : Answer) :
    raised (before ++ [a]) = raised before ++ a.fault?.toList := by
  cases ha : a.fault? <;> simp [raised, ha]

/-- `h` is a hand-off of `e` after the answers `before`. As long as it is not finished, what it still waits for is
    what they have not handed over. -/
structure Remembers (e : Emission) (before : List Answer) (h : Handoff) : Prop where
  finished_iff : h.finished = true ↔ Over before
  handed_prefix : handed before <+: e.tokens
  raised_prefix : raised before <+: e.fault.toList
  ends : h.finished = false → h.waiting.Ends
  tokens_eq : h.finished = false → e.tokens = handed before ++ h.waiting.tokens
  fault_eq : h.finished = false → h.waiting.fault = e.fault
  raised_eq : h.finished = false → raised before = []

section Remembers
variable {e : Emission} {before : List Answer} {h k : Handoff} {a : Answer}

theorem remembers_start (hends : e.Ends) : Remembers e [] { waiting := e } where
  finished_iff := by simp [Over]
  handed_prefix := List.nil_prefix
  raised_prefix := List.nil_prefix
  ends _ := hends
  tokens_eq _ := rfl
  fault_eq _ := rfl
  raised_eq _ := rfl

/-- A finished hand-off stays finished, and its answers hand over nothing. -/
theorem Remembers.finished (hr : Remembers e before h) (hh : h.finished = true) (hk : k.finished = true)
    (htokens : a.tokens = []) (hfault : a.fault? = none) : Remembers e (before ++ [a]) k where
  finished_iff := by simp [hk, over_concat, hr.finished_iff.mp hh]
  handed_prefix := by simpa [handed_concat, htokens] using hr.handed_prefix
  raised_prefix := by simpa [raised_concat, hfault] using hr.raised_prefix
  ends h := by simp [hk] at h
  tokens_eq h := by simp [hk] at h
  fault_eq h := by simp [hk] at h
  raised_eq h := by simp [hk] at h

/-- The last answer that hands anything over, or closes the hand-off, finishes it. -/
theorem Remembers.finish (hr : Remembers e before h) (hh : h.finished = false) (hk : k.finished = true) (hlast : a.Last)
    (htokens : a.tokens <+: h.waiting.tokens) (hfault : a.fault?.toList <+: h.waiting.fault.toList) :
    Remembers e (before ++ [a]) k where
  finished_iff := by simp [hk, over_concat, hlast]
  handed_prefix := by
    rw [handed_concat, hr.tokens_eq hh]
    exact (List.prefix_append_right_inj _).mpr htokens
  raised_prefix := by
    rw [raised_concat, hr.raised_eq hh, ← hr.fault_eq hh]
    exact hfault
  ends h := by simp [hk] at h
  tokens_eq h := by simp [hk] at h
  fault_eq h := by simp [hk] at h
  raised_eq h := by simp [hk] at h

/-- An answer that is not the last takes its tokens from what is left. -/
theorem Remembers.goOn (hr : Remembers e before h) (hh : h.finished = false) (hk : k.finished = false) (hlast : ¬a.Last)
    (hends : k.waiting.Ends) (htokens : h.waiting.tokens = a.tokens ++ k.waiting.tokens)
    (hfault : k.waiting.fault = h.waiting.fault) (hnone : a.fault? = none) : Remembers e (before ++ [a]) k where
  finished_iff := by
    have hover : ¬Over before := fun h => by simp [hr.finished_iff.mpr h] at hh
    simp [hk, over_concat, hlast, hover]
  handed_prefix := by
    rw [handed_concat, hr.tokens_eq hh, htokens, ← List.append_assoc]
    exact List.prefix_append _ _
  raised_prefix := by simpa [raised_concat, hnone] using hr.raised_prefix
  ends _ := hends
  tokens_eq _ := by rw [handed_concat, hr.tokens_eq hh, htokens, List.append_assoc]
  fault_eq _ := hfault.trans (hr.fault_eq hh)
  raised_eq _ := by simp [raised_concat, hnone, hr.raised_eq hh]

theorem remembers_next (hr : Remembers e before h) : Remembers e (before ++ [.reply h.next.1]) h.next.2 := by
  cases hh : h.finished with
  | true =>
    rw [next_of_finished hh]
    exact hr.finished hh hh rfl rfl
  | false =>
    have hends := hr.ends hh
    generalize hw : h.waiting = w at hends
    cases hends with
    | @final t ht =>
      rw [next_of_cons hh hw]
      exact hr.finish hh ht (.inl ⟨t, by simp [Answer.tokens], ht⟩) (by simp [Answer.tokens, hw]) List.nil_prefix
    | broken fault =>
      rw [next_of_fault hh hw]
      exact hr.finish hh rfl (.inr (.inl rfl)) List.nil_prefix (by simp [Answer.fault?, hw])
    | @cons t later ht hlater =>
      rw [next_of_cons hh hw]
      have hlast : ¬(Answer.reply (.token t)).Last := by simp [Answer.Last, Answer.tokens, Answer.fault?, ht]
      exact hr.goOn hh ht hlast hlater (by rw [hw]; rfl) (by rw [hw]; rfl) rfl

theorem remembers_drain (hr : Remembers e before h) :
    Remembers e (before ++ [(h.step .drain).1]) (h.step .drain).2 := by
  cases hh : h.finished with
  | true =>
    rw [step_drain (drain_of_finished hh)]
    exact hr.finished hh hh rfl rfl
  | false =>
    have hends := hr.ends hh
    obtain ⟨k, hk, hfinished⟩ := drain_of_ends hends hh rfl
    cases hfault : h.waiting.fault with
    | none =>
      rw [drained_of_none hfault] at hk
      rw [step_drain hk]
      obtain ⟨t, ht, hterminal⟩ := hends.terminal_mem hfault
      exact hr.finish hh hfinished (.inl ⟨t, ht, hterminal⟩) List.prefix_rfl List.nil_prefix
    | some fault =>
      rw [drained_of_some hfault] at hk
      rw [step_drain_broken hk]
      exact hr.finish hh hfinished (.inr (.inl rfl)) List.nil_prefix (by simp [Answer.fault?, hfault])

theorem Remembers.step (hr : Remembers e before h) (s : Step) :
    Remembers e (before ++ [(h.step s).1]) (h.step s).2 := by
  cases s with
  | next => exact remembers_next hr
  | nextToken => exact remembers_next hr
  | drain => exact remembers_drain hr
  | enter =>
    cases hh : h.finished with
    | true => exact hr.finished hh hh rfl rfl
    | false =>
      have hlast : ¬Answer.entered.Last := by simp [Answer.Last, Answer.tokens, Answer.fault?]
      exact hr.goOn hh hh hlast (hr.ends hh) rfl rfl rfl
  | close =>
    cases hh : h.finished with
    | true => exact hr.finished hh rfl rfl rfl
    | false => exact hr.finish hh rfl (.inr (.inr ⟨_, rfl⟩)) List.nil_prefix List.nil_prefix

theorem remembers_run (hends : e.Ends) (steps : List Step) :
    Remembers e (({ waiting := e } : Handoff).run steps).1 (({ waiting := e } : Handoff).run steps).2 := by
  induction steps using List.reverseRecOn with
  | nil => exact remembers_start hends
  | append_singleton steps s ih =>
    rw [run_concat]
    exact ih.step s

end Remembers

/-! ### What a receiver may rely on -/

/-- What a scan has left after some answers. -/
def left (e : Emission) (before : List Answer) : Emission := { e with tokens := e.tokens.drop (handed before).length }

/-- The reply that is due when `e` is left. -/
inductive Due : Emission → Reply → Prop
  | token (t : Token) (e : Emission) : Due (e.cons t) (.token t)
  | failed (fault : ScanFault) : Due ⟨[], some fault⟩ (.failed fault)

/-- What the answers `before` have been, and what each next step comes to, if `e` is scanned and `h` is left. -/
structure Orderly (e : Emission) (before : List Answer) (h : Handoff) : Prop where
  /-- The tokens so far are the first of the scan: none was lost, repeated or handed over out of order. -/
  handed_prefix : handed before <+: e.tokens
  /-- The fault was raised once at most. -/
  raised_prefix : raised before <+: e.fault.toList
  /-- A single step gets the next token, or the fault when all tokens have been handed over. -/
  next_due : ¬Over before →
    ∃ r, Due (left e before) r ∧ (h.step .next).1 = .reply r ∧ (h.step .nextToken).1 = .reply r
  /-- A drain gets all tokens that are left, unless there is a fault to come. -/
  drain_due : ¬Over before → (h.step .drain).1 =
    match e.fault with
    | none => .drained (left e before).tokens
    | some fault => .broken fault
  next_over : Over before → (h.step .next).1 = .reply .exhausted ∧ (h.step .nextToken).1 = .reply .exhausted
  drain_over : Over before → (h.step .drain).1 = .drained []
  enter_eq : h.step .enter = (.entered, h)

section Orderly
variable {e : Emission} {before : List Answer} {h : Handoff}

theorem Remembers.left_eq (hr : Remembers e before h) (hf : h.finished = false) : left e before = h.waiting := by
  simp [left, hr.tokens_eq hf, ← hr.fault_eq hf]

theorem Remembers.next_due (hr : Remembers e before h) (hf : h.finished = false) : Due (left e before) h.next.1 := by
  rw [hr.left_eq hf]
  have hends := hr.ends hf
  generalize hw : h.waiting = w at hends
  cases hends with
  | @final t _ =>
    rw [next_of_cons hf hw]
    exact .token t ⟨[], none⟩
  | broken fault =>
    rw [next_of_fault hf hw]
    exact .failed fault
  | @cons t later _ _ =>
    rw [next_of_cons hf hw]
    exact .token t later

theorem Remembers.drain_eq (hr : Remembers e before h) (hf : h.finished = false) :
    h.drain.1 = drained (left e before) := by
  rw [hr.left_eq hf]
  obtain ⟨k, hk, -⟩ := drain_of_ends (hr.ends hf) hf rfl
  rw [hk]

theorem Remembers.orderly (hr : Remembers e before h) : Orderly e before h where
  handed_prefix := hr.handed_prefix
  raised_prefix := hr.raised_prefix
  next_due hover := by
    have hf : h.finished = false := Bool.eq_false_iff.mpr (mt hr.finished_iff.mp hover)
    exact ⟨h.next.1, hr.next_due hf, rfl, rfl⟩
  drain_due hover := by
    have hf : h.finished = false := Bool.eq_false_iff.mpr (mt hr.finished_iff.mp hover)
    have hdrain := hr.drain_eq hf
    cases hfault : e.fault with
    | none => rw [step_drain (Prod.ext (hdrain.trans (drained_of_none hfault)) rfl)]
    | some fault => rw [step_drain_broken (Prod.ext (hdrain.trans (drained_of_some hfault)) rfl)]
  next_over hover := by
    have hnext := congrArg (fun r => Answer.reply r.1) (next_of_finished (hr.finished_iff.mpr hover))
    exact ⟨hnext, hnext⟩
  drain_over hover := by rw [step_drain (drain_of_finished (hr.finished_iff.mpr hover))]
  enter_eq := rfl

end Orderly
end Handoff
end ClojureLayout
