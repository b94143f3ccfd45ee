import ClojureLayout.Proofs.Scanner.Calls

/-! A scan halts and keeps to its own rules (`scan_orderly`). The record of a scan is that of its lexemes, one after
    the other: it comes to what the scan gives, it is no longer than the reads allow, `back` is called only where
    it cannot fail, and the scan breaks off only at a read that failed, and not for reasons of the source. -/

namespace ClojureLayout

theorem Scanner.fault_interrupted_iff {s : Scanner} {cause : ReadFault} {e : ScanFault} :
    (s.interrupted (.read cause)).fault = some e ↔ e = .read cause ∧ cause.isOfSource = false := by
  cases hcause : cause.isOfSource <;> simp [interrupted, hcause, eq_comm]

/-- What a scan gives, and its calls. -/
structure Record where
  emission : Emission
  calls : List Call

def Record.cons (t : Token) (record : Record) : Record := { record with emission := record.emission.cons t }

namespace Recorder
variable {r t : Recorder}

theorem remaining_lt_of_lexeme {l : Lexeme} (h : Recorded.lexeme r = .ok l t) (hl : ∀ ts, l ≠ .last ts) :
    t.scanner.remaining < r.scanner.remaining := by
  obtain ⟨calls, hresult, -⟩ := Recorded.records_lexeme r
  rw [h] at hresult
  exact Scan.remaining_lt_of_lexeme (Recorded.eq_of_attach_ok hresult.symm).1 hl

/-- The record of all that a scan does from here on. -/
def record (r : Recorder) : Record :=
  match _ : Recorded.lexeme r with
  | .ok .blank t => record t
  | .ok (.token token) t => (record t).cons token
  | .ok (.last tokens) t => ⟨{ tokens }, t.calls⟩
  | .error fault t => ⟨t.scanner.interrupted fault, t.calls⟩
termination_by r.scanner.remaining
decreasing_by all_goals exact remaining_lt_of_lexeme ‹_› (fun _ h => by cases h)

theorem calls_of_lexeme {l : Lexeme} (h : Recorded.lexeme r = .ok l t) :
    Scan.lexeme r.scanner = .ok l t.scanner ∧ ∃ calls, t.calls = r.calls ++ calls ∧ Orderly calls none ∧
      calls.length + t.scanner.remaining ≤ r.scanner.remaining + 5 := by
  obtain ⟨calls, hresult, horderly, hlength⟩ := Recorded.records_lexeme r
  rw [h] at hresult
  obtain ⟨hs, hcalls⟩ := Recorded.eq_of_attach_ok hresult.symm
  rw [hs] at horderly hlength
  exact ⟨hs, calls, hcalls, horderly, hlength⟩

theorem calls_of_lexeme_error {fault : ScanFault} (h : Recorded.lexeme r = .error fault t) :
    Scan.lexeme r.scanner = .error fault t.scanner ∧ ∃ calls, t.calls = r.calls ++ calls ∧
      Orderly calls (some fault) ∧ calls.length ≤ r.scanner.remaining + 5 := by
  obtain ⟨calls, hresult, horderly, hlength⟩ := Recorded.records_lexeme r
  rw [h] at hresult
  obtain ⟨hs, hcalls⟩ := Recorded.eq_of_attach_error hresult.symm
  rw [hs] at horderly hlength
  exact ⟨hs, calls, hcalls, horderly, Nat.le_trans (Nat.le_add_right _ _) hlength⟩

/-- The record of a scan from `r` on, of which `calls` are not made yet. -/
structure Keeps (r : Recorder) (calls : List Call) (record : Record) : Prop where
  calls_eq : record.calls = r.calls ++ calls
  emission_eq : record.emission = r.scanner.emission
  orderly : ∃ fault, Orderly calls fault ∧ ∀ e, record.emission.fault = some e ↔
    fault = some e ∧ ∃ cause, e = .read cause ∧ cause.isOfSource = false
  length_le : calls.length ≤ 6 * r.scanner.remaining + 5

/-- A lexeme after which the scan goes on adds its calls to the front. -/
theorem Keeps.after {l : Lexeme} {later : List Call} {record : Record} {e : Emission} (h : t.Keeps later record)
    (hl : Recorded.lexeme r = .ok l t) (hgo : ∀ ts, l ≠ .last ts) (he : r.scanner.emission = e)
    (hfault : e.fault = record.emission.fault) : ∃ calls, r.Keeps calls { record with emission := e } := by
  obtain ⟨-, calls, hcalls, horderly, hlength⟩ := calls_of_lexeme hl
  have hlt := remaining_lt_of_lexeme hl hgo
  obtain ⟨fault, hlater, hbroken⟩ := h.orderly
  refine ⟨calls ++ later, ?_, he.symm, ⟨fault, horderly.append hlater, ?_⟩, ?_⟩
  · rw [h.calls_eq, hcalls, List.append_assoc]
  · rw [hfault]
    exact hbroken
  · have := h.length_le
    rw [List.length_append]
    omega

theorem keeps_record (r : Recorder) : ∃ calls, r.Keeps calls r.record := by
  fun_induction record r with
  | case1 r t h ih =>
    obtain ⟨later, hlater⟩ := ih
    have he := Scanner.emission_of_blank (calls_of_lexeme h).1
    exact hlater.after h (fun _ h => by cases h) (he.trans hlater.emission_eq.symm) rfl
  | case2 r token t h ih =>
    obtain ⟨later, hlater⟩ := ih
    have he := Scanner.emission_of_token (calls_of_lexeme h).1
    rw [← hlater.emission_eq] at he
    exact hlater.after h (fun _ h => by cases h) he rfl
  | case3 r tokens t h =>
    obtain ⟨hs, calls, hcalls, horderly, hlength⟩ := calls_of_lexeme h
    refine ⟨calls, hcalls, (Scanner.emission_of_last hs).symm, ⟨none, horderly, by simp⟩, ?_⟩
    show calls.length ≤ _
    omega
  | case4 r fault t h =>
    obtain ⟨hs, calls, hcalls, horderly, hlength⟩ := calls_of_lexeme_error h
    refine ⟨calls, hcalls, (Scanner.emission_of_error hs).symm, ⟨some fault, horderly, fun e => ?_⟩, by omega⟩
    obtain ⟨cause, rfl⟩ := horderly.fault_eq rfl
    rw [Scanner.fault_interrupted_iff]
    constructor
    · rintro ⟨rfl, hcause⟩
      exact ⟨rfl, cause, rfl, hcause⟩
    · rintro ⟨he, cause', rfl, hcause⟩
      obtain rfl := ScanFault.read.inj (Option.some.inj he)
      exact ⟨rfl, hcause⟩

end Recorder

/-! ### What a scan gives -/

theorem Emission.Ends.cases {e : Emission} (h : e.Ends) :
    (e.fault = none → ∃ before final, e.tokens = before ++ [final] ∧ final.kind.isTerminal = true ∧
      ∀ t ∈ before, t.kind.isTerminal = false) ∧
    (e.fault ≠ none → ∀ t ∈ e.tokens, t.kind.isTerminal = false) := by
  induction h with
  | final ht => exact ⟨fun _ => ⟨[], _, rfl, ht, by simp⟩, fun h => absurd rfl h⟩
  | broken => exact ⟨(nomatch ·), by simp⟩
  | cons ht _ ih =>
    refine ⟨fun hnone => ?_, fun hsome => List.forall_mem_cons.mpr ⟨ht, ih.2 hsome⟩⟩
    obtain ⟨before, final, htokens, hfinal, hbefore⟩ := ih.1 hnone
    exact ⟨_ :: before, final, congrArg _ htokens, hfinal, List.forall_mem_cons.mpr ⟨ht, hbefore⟩⟩

/-- The tokens of a lexeme. -/
def Lexeme.tokens : Lexeme → List Token
  | blank => []
  | token t => [t]
  | last ts => ts

/-- A kind that reading a text can give. -/
def Kind.IsRead (kind : Kind) : Prop := kind ≠ .bool ∧ kind ≠ .nil

instance (kind : Kind) : Decidable kind.IsRead := inferInstanceAs (Decidable (_ ∧ _))

namespace Scan

/-- The program gives no token of a kind that is never read. -/
def Plain (x : Scan Lexeme) : Prop := ∀ s l t, x s = .ok l t → ∀ token ∈ l.tokens, token.kind.IsRead

section Plain
variable {α : Type} {x : Scan α} {f : α → Scan Lexeme} {kind : Kind} {c : Char}

theorem Plain.bind (hf : ∀ a, Plain (f a)) : Plain (x >>= f) := by
  intro s l u h
  rw [bind_apply] at h
  split at h
  · exact hf _ _ _ _ h
  · cases h

theorem plain_token (hkind : kind.IsRead) (value : Option String) : Plain (token kind value) := by
  intro s l t h
  cases h
  simpa [Lexeme.tokens] using hkind

theorem plain_failure (message : String) : Plain (failure message) := by
  intro s l t h
  cases h
  simp [Lexeme.tokens, Kind.IsRead]

theorem plain_endOfSource : Plain (endOfSource []) := by
  intro s l t h
  cases h
  simp [Lexeme.tokens, Kind.IsRead]

theorem plain_lastToken (hkind : kind.IsRead) : Plain (do endOfSource [← emit kind]) := by
  intro s l t h
  cases h
  simpa [Lexeme.tokens, Kind.IsRead] using hkind

theorem plain_run (hkind : kind.IsRead) (p : Char → Bool) : Plain (run p kind) := .bind fun _ => plain_token hkind none

theorem plain_whitespace : Plain whitespace := by
  refine .bind fun _ => .bind fun _ => ?_
  intro s l t h
  cases h
  simp [Lexeme.tokens]

theorem plain_ite {P : Prop} [Decidable P] {x y : Scan Lexeme} (hx : Plain x) (hy : Plain y) :
    Plain (if P then x else y) := by
  split
  · exact hx
  · exact hy

theorem plain_string : Plain string :=
  .bind fun _ => plain_ite (.bind fun _ => plain_token (by decide) _) (plain_failure _)

theorem plain_charLiteral : Plain charLiteral := .bind fun c => by
  cases c with
  | none => exact plain_failure _
  | some c => exact plain_run (by decide) _

theorem plain_dispatch : Plain dispatch := .bind fun c => by
  split
  · exact plain_lastToken (by decide)
  · exact plain_token (by decide) _
  · exact plain_ite (plain_token (by decide) _) (plain_token (by decide) _)

theorem plain_signed : Plain signed := .bind fun c => by
  cases c with
  | none => exact plain_lastToken (by decide)
  | some c => exact plain_run (by split <;> decide) _

theorem isRead_of_ofMark? (h : Kind.ofMark? c = some kind) : kind.IsRead := by
  unfold Kind.ofMark? at h
  split at h <;> cases h <;> decide

theorem plain_lexemeFrom (c : Char) : Plain (lexemeFrom c) := by
  refine plain_ite (plain_run (by decide) _) ?_
  refine plain_ite plain_string ?_
  refine plain_ite plain_charLiteral ?_
  refine plain_ite (plain_run (by decide) _) ?_
  refine plain_ite (plain_run (by decide) _) ?_
  refine plain_ite plain_dispatch ?_
  refine plain_ite plain_signed ?_
  cases hkind : Kind.ofMark? c with
  | some kind => exact plain_token (isRead_of_ofMark? hkind) none
  | none =>
    refine plain_ite plain_whitespace ?_
    refine plain_ite (plain_run (by decide) _) ?_
    exact plain_ite (plain_run (by decide) _) (plain_failure _)

theorem plain_lexeme : Plain lexeme := .bind fun c => by
  cases c with
  | none => exact plain_endOfSource
  | some c => exact plain_lexemeFrom c

end Plain

end Scan

theorem Scanner.kind_of_mem_interrupted {s : Scanner} {fault : ScanFault} {t : Token}
    (h : t ∈ (s.interrupted fault).tokens) : t.kind = .error := by
  cases fault with
  | read cause =>
    cases hcause : cause.isOfSource with
    | true =>
      simp only [interrupted, hcause, if_true, List.mem_singleton] at h
      rw [h]
      rfl
    | false => simp [interrupted, hcause] at h
  | nothingRead => simp [interrupted] at h
  | nothingGathered => simp [interrupted] at h

theorem Scanner.isRead_emission (s : Scanner) : ∀ t ∈ s.emission.tokens, t.kind.IsRead := by
  fun_induction emission s with
  | case1 s t h ih => exact ih
  | case2 s token t h ih =>
    exact List.forall_mem_cons.mpr ⟨Scan.plain_lexeme _ _ _ h token List.mem_cons_self, ih⟩
  | case3 s tokens t h => exact Scan.plain_lexeme _ _ _ h
  | case4 s fault t h =>
    intro token htoken
    rw [kind_of_mem_interrupted htoken]
    decide

/-- The record of scanning a source. -/
def recordScan (name : String) (reads : List Read) : Record :=
  Recorder.record ⟨Scanner.ofReads name reads, []⟩

/-- A scan of any reads ends, within a number of calls that the number of reads bounds. -/
theorem scan_orderly (name : String) (reads : List Read) :
    (recordScan name reads).emission = scan name reads ∧
    (recordScan name reads).calls.length ≤ 6 * reads.length + 5 ∧
    (∀ before t after, (recordScan name reads).calls = before ++ .back t :: after →
      ∃ earlier s c, before = earlier ++ [.next s] ∧ Scan.next s = .ok (some c) t ∧ t.pushback = none ∧
        t.gathered = c :: s.gathered ∧ ∃ u, Scan.back t = .ok () u) ∧
    (∀ fault, (scan name reads).fault = some fault ↔ ∃ cause, fault = .read cause ∧ cause.isOfSource = false ∧
      ∃ call ∈ (recordScan name reads).calls, call.Fails fault) ∧
    ((scan name reads).fault = none → ∃ before final, (scan name reads).tokens = before ++ [final] ∧
      final.kind.isTerminal = true ∧ ∀ t ∈ before, t.kind.isTerminal = false) ∧
    ((scan name reads).fault ≠ none → ∀ t ∈ (scan name reads).tokens, t.kind.isTerminal = false) ∧
    ∀ t ∈ (scan name reads).tokens, t.kind ≠ .bool ∧ t.kind ≠ .nil := by
  obtain ⟨calls, hkeeps⟩ := Recorder.keeps_record ⟨Scanner.ofReads name reads, []⟩
  obtain ⟨fault, horderly, hfault⟩ := hkeeps.orderly
  have hcalls : (recordScan name reads).calls = calls := hkeeps.calls_eq
  have hemission : (recordScan name reads).emission = scan name reads := hkeeps.emission_eq
  have hends := (Scanner.ends_emission (s := Scanner.ofReads name reads) rfl).cases
  refine ⟨hemission, ?_, ?_, ?_, hends.1, hends.2, Scanner.isRead_emission _⟩
  · have hlength := hkeeps.length_le
    simpa [hcalls, Scanner.remaining, Scanner.ofReads] using hlength
  · intro before t after hsplit
    obtain ⟨earlier, s, c, hbefore, hnext⟩ := horderly.next_of_back (hcalls.symm.trans hsplit)
    obtain ⟨-, hpushback, hgathered, -⟩ := Scan.next_some hnext
    obtain ⟨u, hback, -⟩ := Scan.back_of_next_some hnext
    exact ⟨earlier, s, c, hbefore, hnext, hpushback, hgathered, u, hback⟩
  · intro e
    rw [hcalls, ← hemission, show (recordScan name reads).emission.fault = some e ↔ _ from hfault e, horderly.fault_iff]
    constructor
    · rintro ⟨hfails, cause, he, hcause⟩
      exact ⟨cause, he, hcause, hfails⟩
    · rintro ⟨cause, he, hcause, hfails⟩
      exact ⟨hfails, cause, he, hcause⟩

/-- The blank behind the symbol is put back, and the scan breaks off at the read behind it. -/
theorem scan_orderly_at_breakdown :
    ∃ (before after : List Call) (s t : Scanner) (c : Char),
      (recordScan "f" [.char 'a', .char ' ', .fault (.breakdown "gone")]).calls =
        before ++ [.next s] ++ .back t :: after ∧
      Scan.next s = .ok (some c) t ∧ t.pushback = none ∧ t.gathered = c :: s.gathered ∧
      ∀ token ∈ (scan "f" [.char 'a', .char ' ', .fault (.breakdown "gone")]).tokens,
        token.kind.isTerminal = false := by
  let reads : List Read := [.char 'a', .char ' ', .fault (.breakdown "gone")]
  let read : Scanner := ⟨[.fault (.breakdown "gone")], none, ⟨"f", 2, 1, 3⟩, ⟨"f", 0, 1, 1⟩,
    some ⟨' ', ⟨"f", 1, 1, 2⟩⟩, [' ', 'a']⟩
  have hcalls : (recordScan "f" reads).calls =
      (recordScan "f" reads).calls.take 2 ++ .back read :: (recordScan "f" reads).calls.drop 3 := by
    decide +kernel
  have hfault : (scan "f" reads).fault ≠ none := by decide +kernel
  obtain ⟨-, -, hback, -, -, hbroken, -⟩ := scan_orderly "f" reads
  obtain ⟨earlier, s, c, hbefore, hnext, hpushback, hgathered, -⟩ := hback _ _ _ hcalls
  exact ⟨earlier, _, s, read, c, hbefore ▸ hcalls, hnext, hpushback, hgathered, hbroken hfault⟩

end ClojureLayout
