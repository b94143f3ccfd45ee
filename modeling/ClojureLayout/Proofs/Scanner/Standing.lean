import ClojureLayout.Scanner.Emission

/-! Where a scanner stands: the start of its token, the text it has gathered for it, and the reads ahead
    of it. Whether the next character waits in the reads or was put back makes no difference to what
    a scanner does, so each operation is described by what it does to these three. -/

namespace ClojureLayout

/-! ### One step of a loop -/

namespace Scan
variable {s t : Scanner} {c : Char}

theorem bind_of_ok {α β : Type} {x : Scan α} {f : α → Scan β} {a : α} (h : x s = .ok a t) : (x >>= f) s = f a t := by
  rw [bind_apply, h]

theorem takeWhile_of_next {p : Char → Bool} (h : next s = .ok (some c) t) :
    takeWhile p s = if p c then takeWhile p t else back t := by
  rw [takeWhile]
  split <;> simp_all

theorem takeWhile_of_next_none {p : Char → Bool} (h : next s = .ok none t) :
    takeWhile p s = .ok () t := by
  rw [takeWhile]
  split <;> simp_all

theorem takeWhile_of_next_error {p : Char → Bool} {fault : ScanFault} (h : next s = .error fault t) :
    takeWhile p s = .error fault t := by
  rw [takeWhile]
  split <;> simp_all

theorem takeString_of_next {escaped : Bool} (h : next s = .ok (some c) t) :
    takeString escaped s =
      if c = '\x22' then if escaped then takeString false t else .ok true t
      else if c = '\\' then takeString (!escaped) t
      else takeString false t := by
  rw [takeString]
  split <;> simp_all

theorem takeString_of_next_none {escaped : Bool} (h : next s = .ok none t) :
    takeString escaped s = .ok false t := by
  rw [takeString]
  split <;> simp_all

theorem takeString_of_next_error {escaped : Bool} {fault : ScanFault} (h : next s = .error fault t) :
    takeString escaped s = .error fault t := by
  rw [takeString]
  split <;> simp_all

end Scan

namespace Scanner

/-- The reads ahead, the character put back first. -/
def ahead (s : Scanner) : List Read := s.pushback.toList.map .char ++ s.reads

/-- The scanner is in a token that starts at `start`, has gathered `text` for it and has the reads
    `more` ahead. -/
structure Stands (s : Scanner) (start : Position) (text : List Char) (more : List Read) : Prop where
  start_eq : s.start = start
  pos_eq : s.pos = start.advanceAll text
  gathered_eq : s.gathered.reverse = text
  ahead_eq : s.ahead = more

theorem ofReads_stands (name : String) (reads : List Read) :
    (ofReads name reads).Stands { name } [] reads :=
  ⟨rfl, rfl, rfl, rfl⟩

/-- The next read gives no character: there is none, or it gives nothing. `left` are the reads behind it. -/
inductive Silent : (reads left : List Read) → Prop
  | none : Silent [] []
  | nothing {more} : Silent (.nothing :: more) more

theorem Silent.suffix {reads left : List Read} (h : Silent reads left) : left <:+ reads := by
  cases h with
  | none => exact List.suffix_rfl
  | nothing => exact List.suffix_cons _ _

/-- What stops a run: a character that does not belong to it and stays unread, or a read that gives none. -/
inductive Stops (p : Char → Bool) : (reads left : List Read) → Prop
  | char {c more} : p c = false → Stops p (.char c :: more) (.char c :: more)
  | silent {reads left} : Silent reads left → Stops p reads left

/-- What is left of the reads behind a text when a run has stopped before the `rest` of the text. -/
inductive Behind : (rest : List Char) → (reads left : List Read) → Prop
  | char {c rest reads} : Behind (c :: rest) reads reads
  | silent {reads left} : Silent reads left → Behind [] reads left

theorem Behind.of_end {rest : List Char} {reads : List Read} (h : rest = [] → reads = []) : Behind rest reads reads := by
  cases rest with
  | nil =>
    obtain rfl := h rfl
    exact .silent .none
  | cons => exact .char

namespace Stands
variable {s : Scanner} {start : Position} {text : List Char} {reads more : List Read} {c : Char}

/-! ### Single characters -/

/-- A scanner that has read a character holds no other back and remembers where it read it. -/
theorem next_char (h : s.Stands start text (.char c :: more)) :
    ∃ t, Scan.next s = .ok (some c) t ∧ t.Stands start (text ++ [c]) more ∧ t.pushback = none ∧
      t.last = some ⟨c, start.advanceAll text⟩ := by
  obtain ⟨hstart, hpos, htext, hahead⟩ := h
  unfold Scanner.ahead at hahead
  cases hp : s.pushback with
  | some d =>
    simp only [hp, Option.toList_some, List.map_cons, List.map_nil, List.cons_append, List.nil_append,
      List.cons.injEq, Read.char.injEq] at hahead
    obtain ⟨rfl, hreads⟩ := hahead
    refine ⟨{ s with pushback := none }.consume d, by simp [Scan.next, hp], ⟨hstart, ?_, ?_, ?_⟩, rfl, ?_⟩
    · simp [consume, hpos, Position.advanceAll]
    · simp [consume, htext]
    · simp [consume, Scanner.ahead, hreads]
    · simp [consume, hpos]
  | none =>
    simp only [hp, Option.toList_none, List.map_nil, List.nil_append] at hahead
    refine ⟨{ s with reads := more }.consume c, by simp [Scan.next, hp, hahead], ⟨hstart, ?_, ?_, ?_⟩, hp, ?_⟩
    · simp [consume, hpos, Position.advanceAll]
    · simp [consume, htext]
    · simp [consume, Scanner.ahead, hp]
    · simp [consume, hpos]

/-- A read that gives nothing is used up; where there are no reads to come, there is nothing to use up. -/
theorem next_silent (hreads : Silent reads more) (h : s.Stands start text reads) :
    ∃ t, Scan.next s = .ok none t ∧ t.Stands start text more := by
  obtain ⟨hstart, hpos, htext, hahead⟩ := h
  unfold Scanner.ahead at hahead
  cases hp : s.pushback with
  | some d =>
    rw [hp] at hahead
    cases hreads <;> simp at hahead
  | none =>
    simp only [hp, Option.toList_none, List.map_nil, List.nil_append] at hahead
    cases hreads with
    | none => exact ⟨s, by simp [Scan.next, hp, hahead], hstart, hpos, htext, by simp [Scanner.ahead, hp, hahead]⟩
    | nothing =>
      exact ⟨{ s with reads := more }, by simp [Scan.next, hp, hahead], hstart, hpos, htext,
        by simp [Scanner.ahead, hp]⟩

/-- Putting the character just read back undoes the reading. -/
theorem back (h : s.Stands start (text ++ [c]) more) (hp : s.pushback = none)
    (hl : s.last = some ⟨c, start.advanceAll text⟩) :
    ∃ t, Scan.back s = .ok () t ∧ t.Stands start text (.char c :: more) := by
  have hg : s.gathered = c :: text.reverse := by
    rw [← List.reverse_reverse s.gathered, h.gathered_eq, List.reverse_concat]
  have hahead : s.reads = more := by simpa [Scanner.ahead, hp] using h.ahead_eq
  refine ⟨{ s with pushback := some c, pos := start.advanceAll text, gathered := text.reverse, last := none },
    by simp only [Scan.back, hl, hg], ⟨h.start_eq, rfl, List.reverse_reverse _, ?_⟩⟩
  simp [Scanner.ahead, hahead]

theorem takeIf_taken {p : Char → Bool} (hc : p c = true) (h : s.Stands start text (.char c :: more)) :
    ∃ t, Scan.takeIf p s = .ok (some c) t ∧ t.Stands start (text ++ [c]) more := by
  obtain ⟨t, ht, hst, -, -⟩ := h.next_char
  refine ⟨t, ?_, hst⟩
  simp only [Scan.takeIf, Scan.bind_apply, ht, Option.any_some, hc, Bool.not_true, Bool.false_eq_true, ↓reduceIte,
    Scan.pure_apply]

theorem takeIf_left {p : Char → Bool} (hc : p c = false) (h : s.Stands start text (.char c :: more)) :
    ∃ t, Scan.takeIf p s = .ok (some c) t ∧ t.Stands start text (.char c :: more) := by
  obtain ⟨u, hu, hsu, hp, hl⟩ := h.next_char
  obtain ⟨t, ht, hst⟩ := hsu.back hp hl
  refine ⟨t, ?_, hst⟩
  simp only [Scan.takeIf, Scan.bind_apply, hu, Option.any_some, hc, Bool.not_false, ↓reduceIte, ht, Scan.pure_apply]

theorem takeIf_silent (p : Char → Bool) (hreads : Silent reads more) (h : s.Stands start text reads) :
    ∃ t, Scan.takeIf p s = .ok none t ∧ t.Stands start text more := by
  obtain ⟨t, ht, hst⟩ := h.next_silent hreads
  refine ⟨t, ?_, hst⟩
  simp only [Scan.takeIf, Scan.bind_apply, ht, Option.any_none, Bool.false_eq_true, ↓reduceIte, Scan.pure_apply]

theorem peek_char (h : s.Stands start text (.char c :: more)) :
    ∃ t, Scan.peek s = .ok (some c) t ∧ t.Stands start text (.char c :: more) := h.takeIf_left rfl

/-! ### Runs of characters -/

/-- Reading on while `p` holds takes the run of such characters. -/
theorem takeWhile {p : Char → Bool} {run : List Char} (hrun : ∀ d ∈ run, p d = true) (hstop : Stops p reads more)
    (h : s.Stands start text (run.map .char ++ reads)) :
    ∃ t, Scan.takeWhile p s = .ok () t ∧ t.Stands start (text ++ run) more := by
  induction run generalizing s text with
  | nil =>
    rw [List.append_nil]
    cases hstop with
    | char hd =>
      obtain ⟨u, hu, hsu, hp, hl⟩ := h.next_char
      obtain ⟨t, ht, hst⟩ := hsu.back hp hl
      refine ⟨t, ?_, hst⟩
      rw [Scan.takeWhile_of_next hu, hd]
      exact ht
    | silent hreads =>
      obtain ⟨t, ht, hst⟩ := h.next_silent hreads
      exact ⟨t, Scan.takeWhile_of_next_none ht, hst⟩
  | cons d run ih =>
    obtain ⟨u, hu, hsu, -, -⟩ := h.next_char
    obtain ⟨t, ht, hst⟩ := ih (fun e he => hrun e (List.mem_cons_of_mem d he)) hsu
    refine ⟨t, ?_, by simpa using hst⟩
    rw [Scan.takeWhile_of_next hu, hrun d List.mem_cons_self]
    exact ht

/-! ### Tokens -/

/-- The token of the text gathered, after which the scanner stands at the start of the next one. -/
theorem emit (h : s.Stands start text more) (kind : Kind) (value : Option String) :
    ∃ t, Scan.emit kind value s = .ok ⟨kind, value.getD (if kind.keepsText then String.ofList text else ""),
      String.ofList text, start⟩ t ∧ t.Stands (start.advanceAll text) [] more := by
  refine ⟨{ s with start := s.pos, gathered := [] }, ?_, ⟨h.pos_eq, h.pos_eq, rfl, h.ahead_eq⟩⟩
  rw [← h.start_eq, ← h.gathered_eq]
  rfl

theorem token (h : s.Stands start text more) (kind : Kind) (value : Option String) :
    ∃ t, Scan.token kind value s = .ok (.token ⟨kind,
      value.getD (if kind.keepsText then String.ofList text else ""), String.ofList text, start⟩) t ∧
      t.Stands (start.advanceAll text) [] more := by
  obtain ⟨t, ht, hst⟩ := h.emit kind value
  exact ⟨t, by simp only [Scan.token, Scan.bind_apply, ht, Scan.pure_apply], hst⟩

theorem endOfSource (h : s.Stands start [] more) (ts : List Token) :
    ∃ t, Scan.endOfSource ts s = .ok (.last (ts ++ [⟨.eof, "", "", start⟩])) t ∧ t.Stands start [] more := by
  obtain ⟨t, ht, hst⟩ := h.emit .eof none
  exact ⟨t, by simp only [Scan.endOfSource, Scan.bind_apply, ht, Scan.pure_apply]; rfl, hst⟩

theorem failure (h : s.Stands start text more) (message : String) :
    Scan.failure message s = .ok (.last [⟨.error, message, String.ofList text, start⟩]) s := by
  rw [← h.start_eq, ← h.gathered_eq]
  rfl

/-! ### Emissions -/

end Stands

section Emission
variable {s t : Scanner}

theorem emission_of_blank (h : Scan.lexeme s = .ok .blank t) : s.emission = t.emission := by
  rw [emission]
  split <;> simp_all

theorem emission_of_token {token : Token} (h : Scan.lexeme s = .ok (.token token) t) :
    s.emission = t.emission.cons token := by
  rw [emission]
  split <;> simp_all

theorem emission_of_last {ts : List Token} (h : Scan.lexeme s = .ok (.last ts) t) :
    s.emission = { tokens := ts } := by
  rw [emission]
  split <;> simp_all

end Emission

end Scanner

end ClojureLayout
