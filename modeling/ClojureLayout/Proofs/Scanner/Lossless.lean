import ClojureLayout.Proofs.Scanner.Accounting

/-! A scan loses nothing: what it has read is the raws of its tokens in order, with nothing but white space
    before each of them, and no character is left put back (`scan_lossless`). This holds wherever reads
    give nothing and wherever a read fails for reasons of the source, whatever the scanner was reading. -/

namespace ClojureLayout
open Scan

/-- `text` is the raws of the tokens in order, with white space alone before each of them. -/
inductive Woven : List Token → (text : List Char) → Prop
  | nil : Woven [] []
  | cons {gap t ts text} : (∀ c ∈ gap, isWhitespace c = true) → Woven ts text →
      Woven (t :: ts) (gap ++ t.raw.toList ++ text)

theorem Woven.raw {t : Token} {ts : List Token} {text : List Char} (h : Woven ts text) :
    Woven (t :: ts) (t.raw.toList ++ text) := by
  have hnil : ∀ c ∈ ([] : List Char), isWhitespace c = true := by simp
  exact .cons hnil h

theorem Woven.raws (ts : List Token) : Woven ts (ts.flatMap (·.raw.toList)) := by
  induction ts with
  | nil => exact .nil
  | cons t ts ih => exact ih.raw

theorem Woven.single (t : Token) : Woven [t] t.raw.toList := by simpa using Woven.raws [t]

/-- White space before a text goes to the gap before its first token. -/
theorem Woven.blank {gap text : List Char} {ts : List Token} (hgap : ∀ c ∈ gap, isWhitespace c = true)
    (hts : ts ≠ []) (h : Woven ts text) : Woven ts (gap ++ text) := by
  cases h with
  | nil => exact absurd rfl hts
  | @cons before t ts text hbefore hlater =>
    have hall : ∀ c ∈ gap ++ before, isWhitespace c = true := by
      simpa only [List.mem_append, or_imp, forall_and] using ⟨hgap, hbefore⟩
    simpa only [List.append_assoc] using Woven.cons hall hlater

namespace Scanner

/-- The scanner when its scan is over. -/
def ending (s : Scanner) : Scanner :=
  match _ : Scan.lexeme s with
  | .ok .blank t => ending t
  | .ok (.token _) t => ending t
  | .ok (.last _) t => t
  | .error _ t => t
termination_by s.remaining
decreasing_by all_goals exact Scan.remaining_lt_of_lexeme ‹_› (fun _ h => by cases h)

/-! ### Accounting for a scan -/

/-- Every read that fails does so for reasons of the source. -/
def Sourced (reads : List Read) : Prop := ∀ cause, .fault cause ∈ reads → cause.isOfSource = true

theorem Sourced.suffix {as bs : List Read} (h : Sourced bs) (hsuffix : as <:+ bs) : Sourced as :=
  fun cause hcause => h cause (hsuffix.subset hcause)

/-- A scan from `s` that gives `e` and ends at `u` has read what is in the tokens and between them. -/
structure Accounts (s : Scanner) (e : Emission) (u : Scanner) : Prop where
  reads_suffix : u.reads <:+ s.reads
  pushback_eq : u.pushback = none
  fault_eq : e.fault = none
  tokens_ne : e.tokens ≠ []
  woven : ∃ text, Woven e.tokens text ∧ s.content = text ++ Read.chars u.reads
  eof : ∀ final ∈ e.tokens.getLast?, final.kind = .eof → u.reads = [] ∨ .nothing ∈ s.reads

section Accounts
variable {s t u : Scanner} {e : Emission}

theorem Accounts.blank {gap : List Char} (hsuffix : t.reads <:+ s.reads) (hgap : ∀ c ∈ gap, isWhitespace c = true)
    (hcontent : s.content = gap ++ t.content) (h : Accounts t e u) : Accounts s e u := by
  obtain ⟨text, hwoven, htext⟩ := h.woven
  refine ⟨h.reads_suffix.trans hsuffix, h.pushback_eq, h.fault_eq, h.tokens_ne, ⟨gap ++ text, ?_, ?_⟩, ?_⟩
  · exact hwoven.blank hgap h.tokens_ne
  · rw [hcontent, htext, List.append_assoc]
  · exact fun final hfinal heof => (h.eof final hfinal heof).imp_right fun hm => hsuffix.subset hm

theorem Accounts.cons {token : Token} (hsuffix : t.reads <:+ s.reads)
    (hcontent : s.content = token.raw.toList ++ t.content) (h : Accounts t e u) : Accounts s (e.cons token) u := by
  obtain ⟨text, hwoven, htext⟩ := h.woven
  refine ⟨h.reads_suffix.trans hsuffix, h.pushback_eq, h.fault_eq, List.cons_ne_nil _ _,
    ⟨token.raw.toList ++ text, hwoven.raw, ?_⟩, ?_⟩
  · rw [hcontent, htext, List.append_assoc]
  · intro final hfinal heof
    simp only [Emission.cons, List.getLast?_cons_of_ne_nil h.tokens_ne] at hfinal
    exact (h.eof final hfinal heof).imp_right fun hm => hsuffix.subset hm

/-- A scan that stops at a read that fails tells of the failure in its last token. -/
theorem Accounts.of_stopped {fault : ScanFault} (hfail : Sourced s.reads) (hu : u.Follows s)
    (hstop : u.StoppedBy fault) : Accounts s (u.interrupted fault) u := by
  obtain ⟨hpushback, cause, later, rfl, hreads⟩ := hstop
  have hsource : cause.isOfSource = true := hfail.suffix hu.reads_suffix cause (by simp [hreads])
  have htokens : u.interrupted (.read cause) = { tokens := [u.readError cause] } := by simp [interrupted, hsource]
  rw [htokens]
  refine ⟨hu.reads_suffix, hpushback, rfl, by simp, ⟨_, .raws _, ?_⟩, by simp [readError]⟩
  rw [← hu.content_eq, content_of_pushback hpushback]
  simp [readError, text]

theorem accounts (hs : s.gathered = []) (hfail : Sourced s.reads) : Accounts s s.emission s.ending := by
  have hdelivers := delivers_lexeme hs
  fun_induction ending s with
  | case1 s t h ih =>
    rw [h] at hdelivers
    obtain ⟨hsuffix, hgathered, gap, hgap, hcontent⟩ := hdelivers
    rw [emission_of_blank h]
    exact (ih hgathered (hfail.suffix hsuffix) (delivers_lexeme hgathered)).blank hsuffix hgap hcontent
  | case2 s token t h ih =>
    rw [h] at hdelivers
    obtain ⟨hsuffix, hgathered, -, hcontent⟩ := hdelivers
    rw [emission_of_token h]
    exact (ih hgathered (hfail.suffix hsuffix) (delivers_lexeme hgathered)).cons hsuffix hcontent
  | case3 s tokens t h =>
    rw [h] at hdelivers
    obtain ⟨hsuffix, hpushback, before, final, rfl, -, -, heof, hcontent⟩ := hdelivers
    rw [emission_of_last h]
    exact ⟨hsuffix, hpushback, rfl, by simp, ⟨_, .raws _, hcontent⟩, by simpa using heof⟩
  | case4 s fault t h =>
    rw [h] at hdelivers
    rw [emission_of_error h]
    exact .of_stopped hfail hdelivers.1 hdelivers.2

end Accounts

end Scanner

/-- What a scan has read of a source, up to a read that fails for reasons of the source or up to where it ends,
    is the raws of its tokens with white space alone before each of them; nothing is left put back. A text
    whose scan ends with the end of the source has been read as a whole. -/
theorem scan_lossless (name : String) (reads : List Read)
    (hfail : ∀ cause, Read.fault cause ∈ reads → cause.isOfSource = true) :
    ∃ taken : List Read,
      reads = taken ++ (Scanner.ofReads name reads).ending.reads ∧
      (Scanner.ofReads name reads).ending.pushback = none ∧
      (scan name reads).fault = none ∧
      Woven (scan name reads).tokens (Read.chars taken) ∧
      ∀ source, reads = Read.ofText source →
        (∃ final, (tokenize source name).getLast? = some final ∧ final.kind = .eof) →
        Read.chars taken = source.toList := by
  have h := Scanner.accounts (s := Scanner.ofReads name reads) rfl hfail
  obtain ⟨taken, htaken⟩ := h.reads_suffix
  obtain ⟨text, hwoven, htext⟩ := h.woven
  have hchars : Read.chars taken = text := by
    have hall : Read.chars taken ++ Read.chars (Scanner.ofReads name reads).ending.reads =
        text ++ Read.chars (Scanner.ofReads name reads).ending.reads := by
      rw [← htext, ← Read.chars_append, htaken]
      rfl
    exact List.append_cancel_right hall
  refine ⟨taken, htaken.symm, h.pushback_eq, h.fault_eq, hchars ▸ hwoven, ?_⟩
  rintro source rfl ⟨final, hfinal, heof⟩
  have hend : (Scanner.ofReads name (Read.ofText source)).ending.reads = [] := by
    rcases h.eof final hfinal heof with hend | hnothing
    · exact hend
    · simp [Scanner.ofReads, Read.ofText, Read.ofChars] at hnothing
  rw [hend, List.append_nil] at htaken
  rw [htaken]
  exact Read.chars_ofChars source.toList

/-- A read that gives nothing cuts a symbol, and one that fails a string; the other source is read to its end. -/
theorem scan_lossless_at_failure_and_at_end :
    (∀ cause, Read.fault cause ∈ [.char 'a', .nothing, .char ' ', .char '\x22', .char 'b', .fault (.device "gone")] →
      cause.isOfSource = true) ∧
    (∃ taken later,
      [.char 'a', .nothing, .char ' ', .char '\x22', .char 'b', .fault (.device "gone")] = taken ++ later ∧
      Woven (scan "f" [.char 'a', .nothing, .char ' ', .char '\x22', .char 'b', .fault (.device "gone")]).tokens
        (Read.chars taken)) ∧
    (∀ cause, Read.fault cause ∈ Read.ofText "#é ; \\" → cause.isOfSource = true) ∧
    (∃ final, (tokenize "#é ; \\" "f").getLast? = some final ∧ final.kind = .eof) ∧
    ∃ taken, Woven (scan "f" (Read.ofText "#é ; \\")).tokens (Read.chars taken) ∧
      Read.chars taken = "#é ; \\".toList := by
  have hfails : ∀ cause, Read.fault cause ∈ [.char 'a', .nothing, .char ' ', .char '\x22', .char 'b',
      .fault (.device "gone")] → cause.isOfSource = true := by
    simp only [List.mem_cons, reduceCtorEq, Read.fault.injEq, List.not_mem_nil, or_false, false_or]
    rintro cause rfl
    rfl
  have hnone : ∀ cause, Read.fault cause ∈ Read.ofText "#é ; \\" → cause.isOfSource = true := by
    simp [Read.ofText, Read.ofChars]
  have heof : ∃ final, (tokenize "#é ; \\" "f").getLast? = some final ∧ final.kind = .eof :=
    ⟨⟨.eof, "", "", ⟨"f", 7, 1, 7⟩⟩, by decide +kernel, rfl⟩
  obtain ⟨taken, htaken, -, -, hwoven, -⟩ := scan_lossless "f" _ hfails
  obtain ⟨all, -, -, -, hall, hsource⟩ := scan_lossless "f" _ hnone
  exact ⟨hfails, ⟨taken, _, htaken, hwoven⟩, hnone, heof, all, hall, hsource _ rfl heof⟩

end ClojureLayout
