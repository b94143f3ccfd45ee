import ClojureLayout.Proofs.Scanner.Accounting

/-! The operations of a scanner in any order. A scan puts a character back only where it can; called in any other
    order the operations still account for every character of the source (`Accounted`), and a character cannot be
    put back in two cases only: none was read since the last one put back, or the text of the last one read is
    emitted or skipped (`calls_accounted`). -/

namespace ClojureLayout

/-- A call of an operation on a scanner. -/
inductive Operation where
  | next
  | back
  | takeWhile (p : Char → Bool)
  | skip
  | emit (kind : Kind) (value : Option String)
  | errorToken (message : String)

/-- What may happen to the text of a source. -/
inductive Event where
  | read (c : Char)
  /-- The character read last is put back. -/
  | putBack
  /-- The text gathered is emitted or skipped. -/
  | finished (text : List Char)
deriving DecidableEq

namespace Operation

/-- The operation as a program, without what it gives. -/
def program : Operation → Scan Unit
  | next => do let _ ← Scan.next; return ()
  | back => Scan.back
  | takeWhile p => Scan.takeWhile p
  | skip => Scan.skip
  | emit kind value => do let _ ← Scan.emit kind value; return ()
  | errorToken message => do let _ ← Scan.errorToken message; return ()

/-! The events of a call are those of its run from the scanner given, latest first. -/

def eventsOfNext (s : Scanner) : List Event :=
  match Scan.next s with
  | .ok (some c) _ => [.read c]
  | _ => []

def eventsOfBack (s : Scanner) : List Event :=
  match Scan.back s with
  | .ok () _ => [.putBack]
  | .error _ _ => []

def eventsWhile (p : Char → Bool) (s : Scanner) : List Event :=
  match _ : Scan.next s with
  | .ok (some c) t => (if p c then eventsWhile p t else eventsOfBack t) ++ [.read c]
  | _ => []
termination_by s.remaining
decreasing_by exact Scan.remaining_lt_of_next ‹_›

def events (op : Operation) (s : Scanner) : List Event :=
  match op with
  | next => eventsOfNext s
  | back => eventsOfBack s
  | takeWhile p => eventsWhile p s
  | skip => [.finished s.gathered.reverse]
  | emit kind value =>
    match Scan.emit kind value s with
    | .ok token _ => [.finished token.raw.toList]
    | .error _ _ => []
  | errorToken _ => []

theorem eventsWhile_of_next {p : Char → Bool} {s t : Scanner} {c : Char} (h : Scan.next s = .ok (some c) t) :
    eventsWhile p s = (if p c then eventsWhile p t else eventsOfBack t) ++ [.read c] := by
  rw [eventsWhile]
  split <;> simp_all

theorem eventsWhile_of_not_next {p : Char → Bool} {s : Scanner} (h : ∀ c t, Scan.next s ≠ .ok (some c) t) :
    eventsWhile p s = [] := by
  rw [eventsWhile]
  split
  · exact absurd ‹_› (h _ _)
  · rfl

end Operation

/-- A scanner and what happened to the text of its source, latest first. -/
structure Session where
  scanner : Scanner
  history : List Event
deriving DecidableEq

namespace Session

/-- The start of a source. -/
def ofReads (name : String) (reads : List Read) : Session := ⟨Scanner.ofReads name reads, []⟩

/-- Calls one after the other, those that fail included. Only when the text of a character that was to be put back is
    gone, there is no more to be said. -/
def calls (s : Session) : List Operation → Option Session
  | [] => some s
  | op :: ops =>
    match op.program s.scanner with
    | .error .nothingGathered _ => none
    | .ok _ t | .error _ t => calls ⟨t, op.events s.scanner ++ s.history⟩ ops

end Session

/-! ### Histories -/

/-- The text emitted or skipped. -/
def finishedText : List Event → List Char
  | [] => []
  | .finished text :: earlier => finishedText earlier ++ text
  | _ :: earlier => finishedText earlier

/-- No character was read since the last one was put back, or since the start. -/
def NothingRead (history : List Event) : Prop :=
  ∀ later c earlier, history = later ++ .read c :: earlier → .putBack ∈ later

/-- The text that ends in the character read last was emitted or skipped. -/
def LastFinished (history : List Event) : Prop :=
  ∃ later text c earlier, history = later ++ .finished (text ++ [c]) :: .read c :: earlier ∧
    ∀ e ∈ later, ∃ text, e = .finished text

section History
variable {history : List Event} {c : Char}

theorem nothingRead_nil : NothingRead [] := by
  intro later c earlier h
  simp at h

theorem nothingRead_putBack (history : List Event) : NothingRead (.putBack :: history) := by
  intro later c earlier h
  cases later with
  | nil => cases h
  | cons e later =>
    rw [← (List.cons.inj h).1]
    exact List.mem_cons_self

theorem NothingRead.finished (h : NothingRead history) (text : List Char) : NothingRead (.finished text :: history) := by
  intro later c earlier hsplit
  cases later with
  | nil => cases hsplit
  | cons e later => exact List.mem_cons_of_mem e (h later c earlier (List.cons.inj hsplit).2)

theorem not_nothingRead_read : ¬NothingRead (.read c :: history) := fun h =>
  List.not_mem_nil (h [] c history rfl)

theorem LastFinished.finished (h : LastFinished history) (text : List Char) :
    LastFinished (.finished text :: history) := by
  obtain ⟨later, text', c, earlier, rfl, hlater⟩ := h
  exact ⟨.finished text :: later, text', c, earlier, rfl, List.forall_mem_cons.mpr ⟨⟨text, rfl⟩, hlater⟩⟩

theorem not_lastFinished_read : ¬LastFinished (.read c :: history) := by
  rintro ⟨later, text, d, earlier, hsplit, hlater⟩
  cases later with
  | nil => cases hsplit
  | cons e later =>
    obtain ⟨text', he⟩ := hlater e List.mem_cons_self
    rw [he] at hsplit
    cases hsplit

theorem LastFinished.not_nothingRead (h : LastFinished history) : ¬NothingRead history := by
  obtain ⟨later, text, c, earlier, rfl, hlater⟩ := h
  intro hnothing
  have hmem := hnothing (later ++ [.finished (text ++ [c])]) c earlier (by simp)
  rcases List.mem_append.mp hmem with hmem | hmem
  · obtain ⟨text', he⟩ := hlater _ hmem
    cases he
  · simp at hmem

end History

/-! ### Accounting -/

/-- What a scanner remembers of the character read last: nothing, or its place while it is the last one gathered, or
    that it was there when its text has gone. -/
inductive Recalls (s : Scanner) (history : List Event) : Prop
  | nothing : s.last = none → NothingRead history → Recalls s history
  | gathered {c gathered earlier} : s.last = some ⟨c, s.start.advanceAll gathered.reverse⟩ → s.pushback = none →
      s.gathered = c :: gathered → history = .read c :: earlier → Recalls s history
  | finished {lastRead} : s.last = some lastRead → s.pushback = none → s.gathered = [] → LastFinished history →
      Recalls s history

/-- Behind the scanner is the text that is emitted or skipped; what it holds and what it has ahead is all the rest
    of the source. -/
structure Accounted (source : List Read) (s : Scanner) (history : List Event) : Prop where
  reads_suffix : s.reads <:+ source
  chars_eq : Read.chars source = finishedText history ++ s.content
  pos_eq : s.pos = s.start.advanceAll s.gathered.reverse
  memory : Recalls s history

/-- What a call comes to that fails only where a read fails. -/
def Accountable {α : Type} (source : List Read) (history : List Event) : EStateM.Result ScanFault Scanner α → Prop
  | .ok _ t => Accounted source t history
  | .error fault t => Accounted source t history ∧ ∃ cause, fault = .read cause ∧ .fault cause ∈ source

/-- Where a read leaves a scanner. -/
theorem Scan.next_stands (s : Scanner) :
    match Scan.next s with
    | .ok (some c) t => t.start = s.start ∧ t.pos = s.pos.advance c
    | .ok none t => t = { s with reads := t.reads }
    | .error _ t => t = s := by
  -- `cases` on the character put back would take it out of `{ s with .. }` too.
  obtain hp | ⟨d, hp⟩ := Option.eq_none_or_eq_some s.pushback
  · match hr : s.reads with
    | [] =>
      have hend : Scan.next s = .ok none s := by simp [Scan.next, hp, hr]
      rw [hend]
    | .nothing :: later => simp [Scan.next, hp, hr]
    | .char d :: later => simp [Scan.next, hp, hr, Scanner.consume]
    | .fault cause :: later => simp [Scan.next, hp, hr]
  · simp [Scan.next, hp, Scanner.consume]

namespace Accounted
open Scanner
variable {source : List Read} {s t : Scanner} {history : List Event} {c : Char}

theorem start (name : String) (source : List Read) : Accounted source (ofReads name source) [] :=
  ⟨List.suffix_rfl, rfl, rfl, .nothing rfl nothingRead_nil⟩

theorem next_some (h : Accounted source s history) (hn : Scan.next s = .ok (some c) t) :
    Accounted source t (.read c :: history) := by
  obtain ⟨hfollows, hpushback, hgathered, hlast⟩ := Scan.next_some hn
  have hstands := Scan.next_stands s
  rw [hn] at hstands
  obtain ⟨hstart, hpos⟩ := hstands
  refine ⟨hfollows.reads_suffix.trans h.reads_suffix, ?_, ?_, ?_⟩
  · rw [hfollows.content_eq]
    exact h.chars_eq
  · rw [hpos, hstart, hgathered, List.reverse_cons, h.pos_eq, Position.advanceAll, Position.advanceAll,
      List.foldl_append]
    rfl
  · rw [h.pos_eq, ← hstart] at hlast
    exact .gathered hlast hpushback hgathered rfl

/-- A read that gives nothing touches nothing but the reads to come. -/
theorem next_none (h : Accounted source s history) (hn : Scan.next s = .ok none t) : Accounted source t history := by
  obtain ⟨hfollows, -, -⟩ := Scan.next_none hn
  have ht := Scan.next_stands s
  rw [hn] at ht
  refine ⟨hfollows.reads_suffix.trans h.reads_suffix, ?_, ?_, ?_⟩
  · rw [hfollows.content_eq]
    exact h.chars_eq
  · rw [ht]
    exact h.pos_eq
  · rw [ht]
    cases h.memory with
    | nothing hlast hhistory => exact .nothing hlast hhistory
    | gathered hlast hpushback hgathered hhistory => exact .gathered hlast hpushback hgathered hhistory
    | finished hlast hpushback hgathered hhistory => exact .finished hlast hpushback hgathered hhistory

theorem next_error {fault : ScanFault} (h : Accounted source s history) (hn : Scan.next s = .error fault t) :
    Accounted source t history ∧ ∃ cause, fault = .read cause ∧ .fault cause ∈ source := by
  obtain ⟨hfollows, -, cause, later, hcause, hreads⟩ := Scan.next_error hn
  have ht := Scan.next_stands s
  rw [hn] at ht
  have hmem : Read.fault cause ∈ t.reads := by simp [hreads]
  refine ⟨?_, cause, hcause, (hfollows.reads_suffix.trans h.reads_suffix).subset hmem⟩
  rw [ht]
  exact h

/-- Putting a character back does so, or tells what is in its way. -/
theorem back (h : Accounted source s history) :
    (∃ c earlier t, history = .read c :: earlier ∧ Scan.back s = .ok () t ∧
      Accounted source t (.putBack :: history)) ∨
    (NothingRead history ∧ Scan.back s = .error .nothingRead s) ∨
    (LastFinished history ∧ ∃ t, Scan.back s = .error .nothingGathered t) := by
  cases h.memory with
  | nothing hlast hhistory => exact .inr (.inl ⟨hhistory, by simp only [Scan.back, hlast]⟩)
  | @gathered c gathered earlier hlast hpushback hgathered hhistory =>
    have hback : Scan.back s = .ok () { s with
        pushback := some c, pos := s.start.advanceAll gathered.reverse, gathered := gathered, last := none } := by
      simp only [Scan.back, hlast, hgathered]
    refine .inl ⟨c, earlier, _, hhistory, hback, h.reads_suffix, ?_, rfl, .nothing rfl (nothingRead_putBack history)⟩
    simpa [content, ahead, hpushback, hgathered, finishedText] using h.chars_eq
  | finished hlast hpushback hgathered hhistory =>
    exact .inr (.inr ⟨hhistory, by simp [Scan.back, hlast, hgathered]⟩)

/-- Right behind a read, the character is put back. -/
theorem back_of_read (h : Accounted source s (.read c :: history)) :
    ∃ t, Scan.back s = .ok () t ∧ Accounted source t (Operation.eventsOfBack s ++ .read c :: history) := by
  rcases h.back with ⟨d, earlier, t, -, ht, hacc⟩ | ⟨hnothing, -⟩ | ⟨hfinished, -⟩
  · refine ⟨t, ht, ?_⟩
    rw [Operation.eventsOfBack, ht]
    exact hacc
  · exact absurd hnothing not_nothingRead_read
  · exact absurd hfinished not_lastFinished_read

theorem takeWhile (p : Char → Bool) (h : Accounted source s history) :
    Accountable source (Operation.eventsWhile p s ++ history) (Scan.takeWhile p s) := by
  fun_induction Scan.takeWhile p s generalizing history with
  | case1 s c u hu hp ih =>
    rw [Operation.eventsWhile_of_next hu, if_pos hp, List.append_assoc]
    exact ih (h.next_some hu)
  | case2 s c u hu hp =>
    obtain ⟨t, ht, hacc⟩ := (h.next_some hu).back_of_read
    rw [Operation.eventsWhile_of_next hu, if_neg hp, List.append_assoc, ht]
    exact hacc
  | case3 s u hu =>
    rw [Operation.eventsWhile_of_not_next (by simp [hu])]
    exact h.next_none hu
  | case4 s fault u hu =>
    rw [Operation.eventsWhile_of_not_next (by simp [hu])]
    exact h.next_error hu

/-- The text gathered is emitted or skipped, whatever it is. -/
theorem finish (h : Accounted source s history) :
    Accounted source { s with start := s.pos, gathered := [] } (.finished s.gathered.reverse :: history) := by
  refine ⟨h.reads_suffix, ?_, rfl, ?_⟩
  · rw [h.chars_eq]
    simp [finishedText, content, ahead]
  · cases h.memory with
    | nothing hlast hhistory => exact .nothing hlast (hhistory.finished _)
    | @gathered c gathered earlier hlast hpushback hgathered hhistory =>
      rw [hgathered, hhistory, List.reverse_cons]
      exact .finished hlast hpushback rfl ⟨[], gathered.reverse, c, earlier, rfl, by simp⟩
    | finished hlast hpushback hgathered hhistory => exact .finished hlast hpushback rfl (hhistory.finished _)

/-- A call of any operation but `back` fails only where a read fails. -/
theorem program_of_ne_back {op : Operation} (h : Accounted source s history) (hop : op ≠ .back) :
    Accountable source (op.events s ++ history) (op.program s) := by
  cases op with
  | next =>
    simp only [Operation.program, Operation.events, Operation.eventsOfNext, Scan.bind_apply]
    match hn : Scan.next s with
    | .ok (some c) t => exact h.next_some hn
    | .ok none t => exact h.next_none hn
    | .error fault t => exact h.next_error hn
  | back => exact absurd rfl hop
  | takeWhile p => exact h.takeWhile p
  | skip => exact h.finish
  | emit kind value =>
    have hraw : s.text.toList = s.gathered.reverse := String.toList_ofList
    show Accounted source { s with start := s.pos, gathered := [] } (.finished s.text.toList :: history)
    rw [hraw]
    exact h.finish
  | errorToken message => exact h

/-- A run of calls, those that fail included. -/
theorem calls {ops : List Operation} {before after : Session} (h : Accounted source before.scanner before.history)
    (hcalls : before.calls ops = some after) : Accounted source after.scanner after.history := by
  induction ops generalizing before with
  | nil =>
    obtain rfl := Option.some.inj hcalls
    exact h
  | cons op ops ih =>
    rw [Session.calls] at hcalls
    by_cases hop : op = .back
    · -- Two of its three outcomes go on, one of them with nothing changed; the third ends the run.
      subst hop
      rcases h.back with ⟨c, earlier, t, -, ht, hacc⟩ | ⟨-, ht⟩ | ⟨-, t, ht⟩
      · simp only [Operation.program, Operation.events, Operation.eventsOfBack, ht] at hcalls
        exact ih hacc hcalls
      · simp only [Operation.program, Operation.events, Operation.eventsOfBack, ht] at hcalls
        exact ih h hcalls
      · simp only [Operation.program, ht] at hcalls
        cases hcalls
    · have hmet := h.program_of_ne_back hop
      cases hp : op.program before.scanner with
      | ok a t =>
        rw [hp] at hmet hcalls
        exact @ih ⟨t, _⟩ hmet hcalls
      | error fault t =>
        rw [hp] at hmet hcalls
        obtain ⟨hacc, cause, rfl, -⟩ := hmet
        exact @ih ⟨t, _⟩ hacc hcalls

theorem back_nothingRead_iff (h : Accounted source s history) :
    Scan.back s = .error .nothingRead t ↔ NothingRead history ∧ t = s := by
  rcases h.back with ⟨c, earlier, u, rfl, hu, -⟩ | ⟨hnothing, hu⟩ | ⟨hfinished, u, hu⟩
  · simp [hu, not_nothingRead_read]
  · simp [hu, hnothing, eq_comm]
  · simp [hu, hfinished.not_nothingRead]

theorem back_nothingGathered_iff (h : Accounted source s history) :
    (∃ t, Scan.back s = .error .nothingGathered t) ↔ LastFinished history := by
  rcases h.back with ⟨c, earlier, u, rfl, hu, -⟩ | ⟨hnothing, hu⟩ | ⟨hfinished, u, hu⟩
  · simp [hu, not_lastFinished_read]
  · have hnot : ¬LastFinished history := fun hfinished => hfinished.not_nothingRead hnothing
    simp [hu, hnot]
  · simp [hu, hfinished]

theorem pushback_of_last (h : Accounted source s history) (hlast : s.last.isSome) : s.pushback = none := by
  cases h.memory with
  | nothing hnone => simp [hnone] at hlast
  | gathered _ hpushback => exact hpushback
  | finished _ hpushback => exact hpushback

end Accounted

/-- After any calls, the position reached is that of the start advanced over the text gathered; the characters of the
    source are those emitted or skipped, those gathered, the one put back and those of the reads to come; none waits
    put back while the one read last is remembered. A character cannot be put back just where none was read since
    the last one put back, which changes nothing, and where the text of the last one read is emitted or skipped.
    Any other call fails only where a read fails. -/
theorem calls_accounted {name : String} {reads : List Read} {ops : List Operation} {s : Session}
    (h : (Session.ofReads name reads).calls ops = some s) :
    s.scanner.pos = s.scanner.start.advanceAll s.scanner.gathered.reverse ∧
    s.scanner.reads <:+ reads ∧
    Read.chars reads = finishedText s.history ++ s.scanner.gathered.reverse ++ s.scanner.pushback.toList ++
      Read.chars s.scanner.reads ∧
    (s.scanner.last.isSome → s.scanner.pushback = none) ∧
    (∀ t, Scan.back s.scanner = .error .nothingRead t ↔ NothingRead s.history ∧ t = s.scanner) ∧
    ((∃ t, Scan.back s.scanner = .error .nothingGathered t) ↔ LastFinished s.history) ∧
    ∀ (op : Operation) (fault : ScanFault) (t : Scanner), op.program s.scanner = .error fault t →
      op = .back ∨ ∃ cause, fault = .read cause ∧ .fault cause ∈ reads := by
  have hacc := (Accounted.start name reads).calls h
  refine ⟨hacc.pos_eq, hacc.reads_suffix, ?_, hacc.pushback_of_last, fun t => hacc.back_nothingRead_iff,
    hacc.back_nothingGathered_iff, ?_⟩
  · rw [hacc.chars_eq, Scanner.content, Scanner.ahead]
    cases s.scanner.pushback <;> simp
  · intro op fault t hfails
    by_cases hop : op = .back
    · exact .inl hop
    · have hmet := hacc.program_of_ne_back hop
      rw [hfails] at hmet
      exact .inr hmet.2

/-- Where nothing was read, and right behind a run of characters, none can be put back; where the space is skipped,
    although a read gave nothing in between, it is told apart. -/
theorem calls_accounted_at_space_skipped :
    (Session.ofReads "f" (Read.ofText "ab " ++ [.nothing, .char '('])).calls
      [.back, .takeWhile isSymbolChar, .back, .emit .symbol none, .next, .next, .skip] =
        some ⟨{ reads := [.char '('], pos := ⟨"f", 3, 1, 4⟩, start := ⟨"f", 3, 1, 4⟩,
                last := some ⟨' ', ⟨"f", 2, 1, 3⟩⟩ },
          [.finished [' '], .read ' ', .finished ['a', 'b'], .putBack, .read ' ', .read 'b', .read 'a']⟩ ∧
    LastFinished [.finished [' '], .read ' ', .finished ['a', 'b'], .putBack, .read ' ', .read 'b', .read 'a'] := by
  have hcalls : (Session.ofReads "f" (Read.ofText "ab " ++ [.nothing, .char '('])).calls
      [.back, .takeWhile isSymbolChar, .back, .emit .symbol none, .next, .next, .skip] =
        some ⟨{ reads := [.char '('], pos := ⟨"f", 3, 1, 4⟩, start := ⟨"f", 3, 1, 4⟩,
                last := some ⟨' ', ⟨"f", 2, 1, 3⟩⟩ },
          [.finished [' '], .read ' ', .finished ['a', 'b'], .putBack, .read ' ', .read 'b', .read 'a']⟩ := by
    decide +kernel
  obtain ⟨-, -, -, -, -, hfinished, -⟩ := calls_accounted hcalls
  exact ⟨hcalls, hfinished.mp ⟨_, rfl⟩⟩

end ClojureLayout
