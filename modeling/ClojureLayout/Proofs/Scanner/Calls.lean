import ClojureLayout.Proofs.Scanner.Accounting

/-! The calls of a lexeme. A recorded program is a program on a scanner that also writes down each call of `next`
    and `back`, with the scanner that the call is made on. Reading a lexeme is written here as such a program; it
    comes to what the lexeme comes to, its calls are orderly (`back` is called only right behind a call of `next`
    that has read a character), and there are at most five more of them than reads used up
    (`records_lexeme`). -/

namespace ClojureLayout

/-- A call of an operation on single characters, with the scanner it is made on. -/
inductive Call where
  | next (s : Scanner)
  | back (s : Scanner)
deriving DecidableEq

/-- The operation called fails. -/
def Call.Fails (fault : ScanFault) : Call → Prop
  | next s => ∃ t, Scan.next s = .error fault t
  | back s => ∃ t, Scan.back s = .error fault t

/-- A scanner, and the calls made so far. -/
structure Recorder where
  scanner : Scanner
  calls : List Call

/-- A program on a scanner that records its calls. -/
abbrev Recorded (α : Type) := EStateM ScanFault Recorder α

namespace Recorded
variable {α β : Type}

/-- The result of a program on a scanner, with the calls made. -/
def attach (calls : List Call) : EStateM.Result ScanFault Scanner α → EStateM.Result ScanFault Recorder α
  | .ok a s => .ok a ⟨s, calls⟩
  | .error fault s => .error fault ⟨s, calls⟩

/-- A program that reads no character and puts none back. -/
def lift (x : Scan α) : Recorded α := fun r => attach r.calls (x r.scanner)

def next : Recorded (Option Char) := fun r => attach (r.calls ++ [.next r.scanner]) (Scan.next r.scanner)

def back : Recorded Unit := fun r => attach (r.calls ++ [.back r.scanner]) (Scan.back r.scanner)

theorem eq_of_attach_ok {calls : List Call} {result : EStateM.Result ScanFault Scanner α} {a : α} {t : Recorder}
    (h : attach calls result = .ok a t) : result = .ok a t.scanner ∧ t.calls = calls := by
  cases result with
  | ok b s =>
    cases h
    exact ⟨rfl, rfl⟩
  | error => cases h

theorem eq_of_attach_error {calls : List Call} {result : EStateM.Result ScanFault Scanner α} {fault : ScanFault}
    {t : Recorder} (h : attach calls result = .error fault t) :
    result = .error fault t.scanner ∧ t.calls = calls := by
  cases result with
  | ok => cases h
  | error b s =>
    cases h
    exact ⟨rfl, rfl⟩

theorem remaining_lt_of_next {r t : Recorder} {c : Char} (h : next r = .ok (some c) t) :
    t.scanner.remaining < r.scanner.remaining :=
  Scan.remaining_lt_of_next (eq_of_attach_ok h).1

/-! ### The recorded scan -/

def takeIf (p : Char → Bool) : Recorded (Option Char) := do
  let c ← next
  if c.any (!p ·) then back
  return c

def peek : Recorded (Option Char) := takeIf fun _ => false

def takeWhile (p : Char → Bool) (r : Recorder) : EStateM.Result ScanFault Recorder Unit :=
  match _ : next r with
  | .ok (some c) t => if p c then takeWhile p t else back t
  | .ok none t => .ok () t
  | .error e t => .error e t
termination_by r.scanner.remaining
decreasing_by exact remaining_lt_of_next ‹_›

def takeString (escaped : Bool) (r : Recorder) : EStateM.Result ScanFault Recorder Bool :=
  match _ : next r with
  | .ok (some c) t =>
    if c = '\x22' then
      if escaped then takeString false t else .ok true t
    else if c = '\\' then takeString (!escaped) t
    else takeString false t
  | .ok none t => .ok false t
  | .error e t => .error e t
termination_by r.scanner.remaining
decreasing_by all_goals exact remaining_lt_of_next ‹_›

def endOfSource (ts : List Token) : Recorded Lexeme := lift (Scan.endOfSource ts)

def failure (message : String) : Recorded Lexeme := lift (Scan.failure message)

def token (kind : Kind) (value : Option String := none) : Recorded Lexeme := lift (Scan.token kind value)

def run (p : Char → Bool) (kind : Kind) : Recorded Lexeme := do
  takeWhile p
  token kind

def whitespace : Recorded Lexeme := do
  takeWhile isWhitespace
  lift Scan.skip
  return .blank

def string : Recorded Lexeme := do
  if ← takeString false then
    let s ← lift get
    token .string (some (String.ofList (s.gathered.reverse.tail.dropLast)))
  else failure "reached EOF before string closing quote"

def charLiteral : Recorded Lexeme := do
  match ← next with
  | none => failure "invalid character literal"
  | some _ => run isSymbolChar .charLiteral

def dispatch : Recorded Lexeme := do
  match ← takeIf (· == '_') with
  | none => endOfSource [← lift (Scan.emit .octothorpe)]
  | some '_' => token .dispatch
  | some c =>
    if isDispatchChar c then token .dispatch (some (String.ofList ['#', c])) else token .octothorpe

def signed : Recorded Lexeme := do
  match ← peek with
  | none => endOfSource [← lift (Scan.emit .symbol)]
  | some c => run isSymbolChar (if isDigit c then .number else .symbol)

def lexemeFrom (c : Char) : Recorded Lexeme :=
  if c = ';' then run (· != '\n') .comment
  else if c = '\x22' then string
  else if c = '\\' then charLiteral
  else if c = ':' then run isSymbolChar .keyword
  else if c = '%' then run isSymbolChar .lambdaArg
  else if c = '#' then dispatch
  else if c = '+' ∨ c = '-' then signed
  else
    match Kind.ofMark? c with
    | some kind => token kind
    | none =>
      if isWhitespace c then whitespace
      else if isDigit c then run isSymbolChar .number
      else if isSymbolChar c then run isSymbolChar .symbol
      else failure ("unrecognized token starting with " ++ String.ofList [c])

def lexeme : Recorded Lexeme := do
  match ← next with
  | none => endOfSource []
  | some c => lexemeFrom c

end Recorded

/-! ### Orderly calls -/

/-- Calls in the order of a scan, and the fault that broke the scan off at the last of them, if one did. A
    character is put back only by the call right behind the one that read it, on the scanner that it left. -/
inductive Orderly : List Call → Option ScanFault → Prop
  | nil : Orderly [] none
  | read {s t got calls fault} : Scan.next s = .ok got t → Orderly calls fault → Orderly (.next s :: calls) fault
  | putBack {s t c calls fault} : Scan.next s = .ok (some c) t → Orderly calls fault →
      Orderly (.next s :: .back t :: calls) fault
  | failed {s t fault} : Scan.next s = .error fault t → Orderly [.next s] (some fault)

namespace Orderly
variable {as bs before after calls : List Call} {fault : Option ScanFault} {s t : Scanner}

theorem append (ha : Orderly as none) (hb : Orderly bs fault) : Orderly (as ++ bs) fault := by
  generalize hnone : none = none' at ha
  induction ha with
  | nil => exact hb
  | read hs _ ih => exact .read hs (ih hnone)
  | putBack hs _ ih => exact .putBack hs (ih hnone)
  | failed => cases hnone

theorem next_of_back (h : Orderly calls fault) (hcalls : calls = before ++ .back t :: after) :
    ∃ earlier s c, before = earlier ++ [.next s] ∧ Scan.next s = .ok (some c) t := by
  induction h generalizing before with
  | nil => simp at hcalls
  | read hs _ ih =>
    cases before with
    | nil => cases hcalls
    | cons call before =>
      rw [List.cons_append, List.cons.injEq] at hcalls
      obtain ⟨rfl, hcalls⟩ := hcalls
      obtain ⟨earlier, s, c, rfl, hnext⟩ := ih hcalls
      exact ⟨_ :: earlier, s, c, rfl, hnext⟩
  | @putBack u _ c _ _ hs _ ih =>
    match before with
    | [] => cases hcalls
    | [call] =>
      cases hcalls
      exact ⟨[], u, c, rfl, hs⟩
    | call :: call' :: before =>
      rw [List.cons_append, List.cons_append, List.cons.injEq, List.cons.injEq] at hcalls
      obtain ⟨rfl, rfl, hcalls⟩ := hcalls
      obtain ⟨earlier, s, c, rfl, hnext⟩ := ih hcalls
      exact ⟨_ :: _ :: earlier, s, c, rfl, hnext⟩
  | failed =>
    cases before with
    | nil => cases hcalls
    | cons call before => simp at hcalls

theorem not_fails_of_next {got : Option Char} {e : ScanFault} (h : Scan.next s = .ok got t) :
    ¬Call.Fails e (.next s) := by
  rintro ⟨u, hu⟩
  cases h.symm.trans hu

theorem not_fails_back {c : Char} {e : ScanFault} (h : Scan.next s = .ok (some c) t) : ¬Call.Fails e (.back t) := by
  rintro ⟨u, hu⟩
  obtain ⟨v, hv, -⟩ := Scan.back_of_next_some h
  cases hv.symm.trans hu

/-- The fault is that of the one call that failed. -/
theorem fault_iff (h : Orderly calls fault) {e : ScanFault} : fault = some e ↔ ∃ call ∈ calls, call.Fails e := by
  induction h with
  | nil => simp
  | read hs _ ih =>
    simp only [ih, List.mem_cons, or_and_right, exists_or, exists_eq_left, not_fails_of_next hs, false_or]
  | putBack hs _ ih =>
    simp only [ih, List.mem_cons, or_and_right, exists_or, exists_eq_left, not_fails_of_next hs, not_fails_back hs,
      false_or]
  | @failed s t fault hs =>
    simp only [Option.some.injEq, List.mem_singleton, exists_eq_left]
    constructor
    · rintro rfl
      exact ⟨t, hs⟩
    · rintro ⟨u, hu⟩
      cases hs.symm.trans hu
      rfl

theorem fault_eq (h : Orderly calls fault) {e : ScanFault} (he : fault = some e) : ∃ cause, e = .read cause := by
  induction h with
  | nil => cases he
  | read _ _ ih => exact ih he
  | putBack _ _ ih => exact ih he
  | failed hs =>
    obtain rfl := Option.some.inj he
    obtain ⟨-, -, cause, -, hcause, -⟩ := Scan.next_error hs
    exact ⟨cause, hcause⟩

end Orderly

namespace Recorded
variable {α β : Type} {x : Recorded α} {y : Scan α} {f : α → Recorded β} {g : α → Scan β} {r t : Recorder} {c : Char}
  {m n : Nat}

/-- The scanner that a program leaves. -/
def left : EStateM.Result ScanFault Scanner α → Scanner
  | .ok _ s => s
  | .error _ s => s

def faultOf : EStateM.Result ScanFault Scanner α → Option ScanFault
  | .ok _ _ => none
  | .error fault _ => some fault

/-- From `r` on, `result` is that of the plain program with orderly calls, of which at most `n` come on top of
    the reads used up. -/
def RecordsTo (n : Nat) (r : Recorder) (result : EStateM.Result ScanFault Recorder α)
    (plain : EStateM.Result ScanFault Scanner α) : Prop :=
  ∃ calls, result = attach (r.calls ++ calls) plain ∧ Orderly calls (faultOf plain) ∧
    calls.length + (left plain).remaining ≤ r.scanner.remaining + n

/-- `x` is `y` with its calls recorded. -/
def Records (n : Nat) (x : Recorded α) (y : Scan α) : Prop := ∀ r, RecordsTo n r (x r) (y r.scanner)

theorem RecordsTo.mono {result : EStateM.Result ScanFault Recorder α} {plain : EStateM.Result ScanFault Scanner α}
    (h : RecordsTo m r result plain) (hmn : m ≤ n) : RecordsTo n r result plain := by
  obtain ⟨calls, hresult, horderly, hlength⟩ := h
  exact ⟨calls, hresult, horderly, by omega⟩

theorem Records.mono (h : Records m x y) (hmn : m ≤ n) : Records n x y := fun r => (h r).mono hmn

/-- Calls made before those of `result`. -/
theorem RecordsTo.after {result : EStateM.Result ScanFault Recorder α} {plain : EStateM.Result ScanFault Scanner α}
    {calls : List Call} (h : RecordsTo n t result plain) (ht : t.calls = r.calls ++ calls) (hcalls : Orderly calls none)
    (hlength : calls.length + t.scanner.remaining ≤ r.scanner.remaining + m) : RecordsTo (m + n) r result plain := by
  obtain ⟨later, hresult, horderly, hlater⟩ := h
  refine ⟨calls ++ later, ?_, hcalls.append horderly, ?_⟩
  · rw [hresult, ht, List.append_assoc]
  · rw [List.length_append]
    omega

theorem records_lift (hok : ∀ s, ∃ a t, y s = .ok a t) (hy : Scan.Settling y) : Records 0 (lift y) y := by
  intro r
  obtain ⟨a, s, hs⟩ := hok r.scanner
  have hle := hy _ _ _ hs
  refine ⟨[], by rw [List.append_nil]; rfl, ?_, ?_⟩
  · rw [hs]
    exact .nil
  · rw [hs, List.length_nil, Nat.zero_add]
    exact hle

theorem bind_apply (x : Recorded α) (f : α → Recorded β) (r : Recorder) :
    (x >>= f) r = match x r with
      | .ok a t => f a t
      | .error e t => .error e t := by
  show EStateM.bind x f r = _
  unfold EStateM.bind
  cases x r <;> rfl

theorem Records.bind (hx : Records m x y) (hf : ∀ a, Records n (f a) (g a)) : Records (m + n) (x >>= f) (y >>= g) := by
  intro r
  obtain ⟨calls, hresult, horderly, hlength⟩ := hx r
  rw [bind_apply, Scan.bind_apply, hresult]
  cases hy : y r.scanner with
  | ok a s =>
    rw [hy] at horderly hlength
    exact (hf a ⟨s, r.calls ++ calls⟩).after rfl horderly hlength
  | error fault s =>
    rw [hy] at horderly hlength
    exact ⟨calls, rfl, horderly, by simp only [left] at *; omega⟩

theorem Records.pure (a : α) : Records 0 (pure a : Recorded α) (pure a) := fun r =>
  ⟨[], by rw [List.append_nil]; rfl, .nil, Nat.le_of_eq (Nat.zero_add _)⟩

/-! ### Single characters and runs -/

section
variable {result : EStateM.Result ScanFault Recorder α} {plain : EStateM.Result ScanFault Scanner α} {fault : ScanFault}

theorem recordsTo_of_next_some (h : next r = .ok (some c) t) (ht : RecordsTo n t result plain) :
    RecordsTo n r result plain := by
  obtain ⟨hs, hcalls⟩ := eq_of_attach_ok h
  have hlt := remaining_lt_of_next h
  have hmore := ht.after (m := 0) hcalls (.read hs .nil) (by rw [List.length_singleton]; omega)
  rwa [Nat.zero_add] at hmore

theorem recordsTo_of_next_none (h : next r = .ok none t) (a : α) : RecordsTo 1 r (.ok a t) (.ok a t.scanner) := by
  obtain ⟨hs, hcalls⟩ := eq_of_attach_ok h
  have hle := Scan.remaining_le_of_next_none hs
  refine ⟨[.next r.scanner], by rw [← hcalls]; rfl, .read hs .nil, ?_⟩
  simp only [left, List.length_singleton]
  omega

theorem recordsTo_of_next_error (h : next r = .error fault t) :
    RecordsTo 1 r (.error fault t : EStateM.Result _ _ α) (.error fault t.scanner) := by
  obtain ⟨hs, hcalls⟩ := eq_of_attach_error h
  have hle := (Scan.next_error hs).1.reads_suffix.length_le
  refine ⟨[.next r.scanner], by rw [← hcalls]; rfl, .failed hs, ?_⟩
  have hp := (Scan.next_error hs).2.1
  simp only [left, List.length_singleton, Scanner.remaining, hp, Option.toList_none, List.length_nil]
  omega

/-- The character just read is put back. -/
theorem recordsTo_back (h : next r = .ok (some c) t) : RecordsTo 2 r (back t) (Scan.back t.scanner) := by
  obtain ⟨hs, hcalls⟩ := eq_of_attach_ok h
  obtain ⟨u, hu, -⟩ := Scan.back_of_next_some hs
  have hlt := remaining_lt_of_next h
  have hle := Scan.remaining_le_of_back hu
  refine ⟨[.next r.scanner, .back t.scanner], ?_, ?_, ?_⟩
  · rw [List.append_cons, ← hcalls]
    rfl
  · rw [hu]
    exact .putBack hs .nil
  · rw [hu]
    simp only [left, List.length_cons, List.length_nil]
    omega

end

theorem records_next : Records 1 next Scan.next := by
  intro r
  match h : next r with
  | .ok (some c) t =>
    rw [(eq_of_attach_ok h).1]
    exact recordsTo_of_next_some h ((Records.pure (some c)).mono (Nat.zero_le 1) t)
  | .ok none t =>
    rw [(eq_of_attach_ok h).1]
    exact recordsTo_of_next_none h none
  | .error fault t =>
    rw [(eq_of_attach_error h).1]
    exact recordsTo_of_next_error h

theorem pure_apply (a : α) (r : Recorder) : (pure a : Recorded α) r = .ok a r := rfl

theorem records_takeIf (p : Char → Bool) : Records 2 (takeIf p) (Scan.takeIf p) := by
  intro r
  match h : next r with
  | .ok (some c) t =>
    obtain ⟨hs, -⟩ := eq_of_attach_ok h
    cases hc : p c with
    | true =>
      simp only [takeIf, Scan.takeIf, bind_apply, Scan.bind_apply, h, hs, Option.any_some, hc, Bool.not_true,
        Bool.false_eq_true, ↓reduceIte]
      exact recordsTo_of_next_some h ((Records.pure (some c)).mono (Nat.zero_le 2) t)
    | false =>
      obtain ⟨u, hu, -⟩ := Scan.back_of_next_some hs
      obtain ⟨calls, hcalls, horderly, hlength⟩ := recordsTo_back h
      rw [hu] at hcalls horderly hlength
      simp only [takeIf, Scan.takeIf, bind_apply, Scan.bind_apply, h, hs, Option.any_some, hc, Bool.not_false,
        ↓reduceIte, hu, hcalls, attach]
      exact ⟨calls, rfl, horderly, hlength⟩
  | .ok none t =>
    obtain ⟨hs, -⟩ := eq_of_attach_ok h
    simp only [takeIf, Scan.takeIf, bind_apply, Scan.bind_apply, h, hs, Option.any_none, Bool.false_eq_true,
      ↓reduceIte, pure_apply, Scan.pure_apply]
    exact (recordsTo_of_next_none h none).mono (by decide)
  | .error fault t =>
    obtain ⟨hs, -⟩ := eq_of_attach_error h
    simp only [takeIf, Scan.takeIf, bind_apply, Scan.bind_apply, h, hs]
    exact (recordsTo_of_next_error h).mono (by decide)

theorem records_takeWhile (p : Char → Bool) : Records 2 (takeWhile p) (Scan.takeWhile p) := by
  intro r
  fun_induction takeWhile p r with
  | case1 r c t h hp ih =>
    rw [Scan.takeWhile_of_next (eq_of_attach_ok h).1, if_pos hp]
    exact recordsTo_of_next_some h ih
  | case2 r c t h hp =>
    rw [Scan.takeWhile_of_next (eq_of_attach_ok h).1, if_neg hp]
    exact recordsTo_back h
  | case3 r t h =>
    rw [Scan.takeWhile_of_next_none (eq_of_attach_ok h).1]
    exact (recordsTo_of_next_none h ()).mono (by decide)
  | case4 r fault t h =>
    rw [Scan.takeWhile_of_next_error (eq_of_attach_error h).1]
    exact (recordsTo_of_next_error h).mono (by decide)

theorem records_takeString (escaped : Bool) : Records 1 (takeString escaped) (Scan.takeString escaped) := by
  intro r
  fun_induction takeString escaped r with
  | case1 r t h ih =>
    rw [Scan.takeString_of_next (eq_of_attach_ok h).1]
    exact recordsTo_of_next_some h ih
  | case2 escaped r t hescaped h =>
    rw [Scan.takeString_of_next (eq_of_attach_ok h).1, if_pos rfl, if_neg hescaped]
    exact recordsTo_of_next_some h ((Records.pure true).mono (Nat.zero_le 1) t)
  | case3 escaped r t h hq ih =>
    rw [Scan.takeString_of_next (eq_of_attach_ok h).1, if_neg hq, if_pos rfl]
    exact recordsTo_of_next_some h ih
  | case4 escaped r c t h hq hb ih =>
    rw [Scan.takeString_of_next (eq_of_attach_ok h).1, if_neg hq, if_neg hb]
    exact recordsTo_of_next_some h ih
  | case5 escaped r t h =>
    rw [Scan.takeString_of_next_none (eq_of_attach_ok h).1]
    exact recordsTo_of_next_none h false
  | case6 escaped r fault t h =>
    rw [Scan.takeString_of_next_error (eq_of_attach_error h).1]
    exact recordsTo_of_next_error h

/-! ### Lexemes -/

theorem records_token (kind : Kind) (value : Option String) :
    Records 0 (token kind value) (Scan.token kind value) :=
  records_lift (fun _ => ⟨_, _, rfl⟩) (Scan.settling_token _ _)

theorem records_failure (message : String) : Records 0 (failure message) (Scan.failure message) :=
  records_lift (fun _ => ⟨_, _, rfl⟩) (Scan.settling_failure _)

theorem records_endOfSource (ts : List Token) : Records 0 (endOfSource ts) (Scan.endOfSource ts) :=
  records_lift (fun _ => ⟨_, _, rfl⟩) (Scan.settling_endOfSource _)

theorem records_emit (kind : Kind) : Records 0 (lift (Scan.emit kind)) (Scan.emit kind) :=
  records_lift (fun _ => ⟨_, _, rfl⟩) (Scan.settling_emit _ _)

theorem records_run (p : Char → Bool) (kind : Kind) : Records 2 (run p kind) (Scan.run p kind) :=
  (records_takeWhile p).bind fun _ => records_token kind none

theorem records_whitespace : Records 2 whitespace Scan.whitespace :=
  (records_takeWhile isWhitespace).bind fun _ =>
    (records_lift (fun _ => ⟨_, _, rfl⟩) Scan.settling_skip).bind fun _ => .pure _

theorem records_string : Records 1 string Scan.string := by
  refine (records_takeString false).bind (n := 0) fun closed => ?_
  cases closed with
  | false => exact records_failure _
  | true => exact (records_lift (fun _ => ⟨_, _, rfl⟩) Scan.settling_get).bind fun _ => records_token _ _

theorem records_charLiteral : Records 3 charLiteral Scan.charLiteral :=
  records_next.bind (n := 2) fun c => by
    cases c with
    | none => exact (records_failure _).mono (by decide)
    | some c => exact records_run _ _

theorem records_ite {P : Prop} [Decidable P] {x' : Recorded α} {y' : Scan α} (hx : P → Records n x y)
    (hx' : ¬P → Records n x' y') : Records n (if P then x else x') (if P then y else y') := by
  by_cases h : P
  · rw [if_pos h, if_pos h]
    exact hx h
  · rw [if_neg h, if_neg h]
    exact hx' h

theorem records_dispatch : Records 2 dispatch Scan.dispatch := by
  refine (records_takeIf _).bind (n := 0) fun c => ?_
  cases c with
  | none => exact (records_emit _).bind fun _ => records_endOfSource _
  | some c =>
    by_cases hc : c = '_'
    · subst hc
      exact records_token _ _
    · simp only
      exact records_ite (fun _ => records_token _ _) fun _ => records_token _ _

theorem records_signed : Records 4 signed Scan.signed :=
  (records_takeIf _).bind (n := 2) fun c => by
    cases c with
    | none => exact ((records_emit _).bind fun _ => records_endOfSource _).mono (by decide)
    | some c => exact records_run _ _

theorem records_lexemeFrom (c : Char) : Records 4 (lexemeFrom c) (Scan.lexemeFrom c) := by
  have hrun : ∀ p kind, Records 4 (run p kind) (Scan.run p kind) := fun p kind => (records_run p kind).mono (by decide)
  refine records_ite (fun _ => hrun _ _) fun _ => ?_
  refine records_ite (fun _ => records_string.mono (by decide)) fun _ => ?_
  refine records_ite (fun _ => records_charLiteral.mono (by decide)) fun _ => ?_
  refine records_ite (fun _ => hrun _ _) fun _ => ?_
  refine records_ite (fun _ => hrun _ _) fun _ => ?_
  refine records_ite (fun _ => records_dispatch.mono (by decide)) fun _ => ?_
  refine records_ite (fun _ => records_signed) fun _ => ?_
  cases Kind.ofMark? c with
  | some kind => exact (records_token kind none).mono (Nat.zero_le 4)
  | none =>
    refine records_ite (fun _ => records_whitespace.mono (by decide)) fun _ => ?_
    refine records_ite (fun _ => hrun _ _) fun _ => ?_
    exact records_ite (fun _ => hrun _ _) fun _ => (records_failure _).mono (Nat.zero_le 4)

theorem records_lexeme : Records 5 lexeme Scan.lexeme :=
  records_next.bind (n := 4) fun c => by
    cases c with
    | none => exact (records_endOfSource []).mono (by decide)
    | some c => exact records_lexemeFrom c

end Recorded

end ClojureLayout
