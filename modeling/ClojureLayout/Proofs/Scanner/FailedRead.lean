import ClojureLayout.Proofs.Scanner.Relayout

/-! A read that fails keeps what is finished (`scan_failed_read`). A scan that reads a text and then fails has given
    the tokens that end before the end of the text, and one that ends there if nothing could make it longer. The
    rest of the text, an unfinished lexeme or white space, goes to the error token; a read that failed for
    reasons of its own leaves the tokens alone. -/

namespace ClojureLayout
open Grammar

/-! ### Scanners before a read that fails -/

theorem Scan.bind_of_error {α β : Type} {s t : Scanner} {x : Scan α} {f : α → Scan β} {fault : ScanFault}
    (h : x s = .error fault t) : (x >>= f) s = .error fault t := by
  rw [bind_apply, h]

/-- What a scan gives that has given the tokens `ts` and fails with `raw`, which starts at `p`, gathered. -/
def Emission.cutOff (cause : ReadFault) (ts : List Token) (raw : List Char) (p : Position) : Emission :=
  if cause.isOfSource then
    { tokens := ts ++ [⟨.error, "error while scanning: " ++ cause.message, String.ofList raw, p⟩] }
  else { tokens := ts, fault := some (.read cause) }

theorem Emission.cons_cutOff (cause : ReadFault) (t : Token) (ts : List Token) (raw : List Char) (p : Position) :
    (cutOff cause ts raw p).cons t = cutOff cause (t :: ts) raw p := by
  unfold cutOff
  split <;> rfl

namespace Scanner.Stands
variable {s : Scanner} {start p : Position} {text run body raw value : List Char} {more later : List Read}
  {cause : ReadFault} {c : Char}

theorem next_fault (h : s.Stands start text (.fault cause :: later)) : Scan.next s = .error (.read cause) s := by
  have hahead := h.ahead_eq
  cases hp : s.pushback with
  | some c => simp [Scanner.ahead, hp] at hahead
  | none =>
    have hreads : s.reads = .fault cause :: later := by simpa [Scanner.ahead, hp] using hahead
    simp [Scan.next, hp, hreads]

theorem takeIf_fault (p : Char → Bool) (h : s.Stands start text (.fault cause :: later)) :
    Scan.takeIf p s = .error (.read cause) s :=
  Scan.bind_of_error h.next_fault

theorem takeWhile_fault {q : Char → Bool} (hrun : ∀ d ∈ run, q d = true)
    (h : s.Stands start text (run.map .char ++ .fault cause :: later)) :
    ∃ t, Scan.takeWhile q s = .error (.read cause) t ∧ t.Stands start (text ++ run) (.fault cause :: later) := by
  induction run generalizing s text with
  | nil => exact ⟨s, Scan.takeWhile_of_next_error h.next_fault, by rwa [List.append_nil]⟩
  | cons d run ih =>
    obtain ⟨u, hu, hsu, -, -⟩ := h.next_char
    obtain ⟨t, ht, hst⟩ := ih (fun e he => hrun e (List.mem_cons_of_mem d he)) hsu
    refine ⟨t, ?_, by simpa using hst⟩
    rw [Scan.takeWhile_of_next hu, hrun d List.mem_cons_self]
    exact ht

theorem run_fault {q : Char → Bool} (hrun : ∀ d ∈ run, q d = true) (kind : Kind)
    (h : s.Stands start text (run.map .char ++ .fault cause :: later)) :
    ∃ t, Scan.run q kind s = .error (.read cause) t ∧ t.Stands start (text ++ run) (.fault cause :: later) := by
  obtain ⟨t, ht, hst⟩ := h.takeWhile_fault hrun
  exact ⟨t, Scan.bind_of_error ht, hst⟩

theorem string_fault (hopen : Open body) (h : s.Stands start text (body.map .char ++ .fault cause :: later)) :
    ∃ t, Scan.string s = .error (.read cause) t ∧ t.Stands start (text ++ body) (.fault cause :: later) := by
  obtain ⟨t, ht, hst⟩ := h.takeString_open [] hopen
  exact ⟨t, Scan.bind_of_error (ht.trans (Scan.takeString_of_next_error hst.next_fault)), hst⟩

/-- A sign is followed by the run behind it, which a read ahead may already fail to find. -/
theorem signed_fault (hrun : ∀ d ∈ run, isSymbolChar d = true)
    (h : s.Stands start text (run.map .char ++ .fault cause :: later)) :
    ∃ t, Scan.signed s = .error (.read cause) t ∧ t.Stands start (text ++ run) (.fault cause :: later) := by
  cases run with
  | nil => exact ⟨s, Scan.bind_of_error (h.takeIf_fault _), by rwa [List.append_nil]⟩
  | cons d run =>
    rw [List.map_cons, List.cons_append] at h
    obtain ⟨u, hu, hsu⟩ := h.peek_char
    obtain ⟨t, ht, hst⟩ := run_fault hrun (if isDigit d then .number else .symbol) hsu
    exact ⟨t, (Scan.bind_of_ok hu).trans ht, hst⟩

/-! ### Lexemes at the end of what can be read -/

theorem emission_cutOff {t : Scanner} (h : Scan.lexeme s = .error (.read cause) t)
    (ht : t.Stands p raw (.fault cause :: later)) : s.emission = .cutOff cause [] raw p := by
  have htoken : t.readError cause = ⟨.error, "error while scanning: " ++ cause.message, String.ofList raw, p⟩ := by
    rw [← ht.gathered_eq, ← ht.start_eq]
    rfl
  rw [emission_of_error h, interrupted, htoken]
  rfl

theorem emission_cutOff_of_first (h : s.Stands p [] ((c :: run).map .char ++ .fault cause :: later))
    (hfirst : ∀ u : Scanner, u.Stands p [c] (run.map .char ++ .fault cause :: later) →
      ∃ t, Scan.lexemeFrom c u = .error (.read cause) t ∧ t.Stands p (c :: run) (.fault cause :: later)) :
    s.emission = .cutOff cause [] (c :: run) p := by
  rw [List.map_cons, List.cons_append] at h
  obtain ⟨u, hu, hsu, -, -⟩ := h.next_char
  obtain ⟨t, ht, hst⟩ := hfirst u hsu
  exact emission_cutOff ((Scan.lexeme_of_next hu).trans ht) hst

theorem emission_fault (h : s.Stands p [] (.fault cause :: later)) : s.emission = .cutOff cause [] [] p :=
  emission_cutOff (Scan.bind_of_error h.next_fault) h

theorem emission_blank_fault (hblank : ∀ d ∈ c :: run, isWhitespace d = true)
    (h : s.Stands p [] ((c :: run).map .char ++ .fault cause :: later)) :
    s.emission = .cutOff cause [] (c :: run) p := by
  refine h.emission_cutOff_of_first fun u hu => ?_
  rw [Scan.lexemeFrom_of_isWhitespace (hblank c List.mem_cons_self)]
  obtain ⟨t, ht, hst⟩ := hu.takeWhile_fault fun d hd => hblank d (List.mem_cons_of_mem c hd)
  exact ⟨t, Scan.bind_of_error ht, hst⟩

end Scanner.Stands

/-- A lexeme that nothing behind it can make longer, whatever it is. -/
def Token.StandsAlone (t : Token) : Prop :=
  t.kind ∈ marks.map (·.2) ∨ t.kind = .string ∨ t.kind = .dispatch ∧ t.raw = "#_"

instance (t : Token) : Decidable t.StandsAlone := inferInstanceAs (Decidable (_ ∨ _))

namespace Scanner.Stands
variable {s : Scanner} {p : Position} {run value : List Char} {later : List Read} {cause : ReadFault} {c : Char}
  {kind : Kind}

theorem emission_symbolRun_fault (hraw : ∀ d ∈ c :: run, isSymbolChar d = true) (hw : isWhitespace c = false)
    (hcolon : c ≠ ':') (h : s.Stands p [] ((c :: run).map .char ++ .fault cause :: later)) :
    s.emission = .cutOff cause [] (c :: run) p := by
  have hrun : ∀ d ∈ run, isSymbolChar d = true := fun d hd => hraw d (List.mem_cons_of_mem c hd)
  refine h.emission_cutOff_of_first fun u hu => ?_
  by_cases hsign : c = '+' ∨ c = '-'
  · have hfrom : Scan.lexemeFrom c = Scan.signed := by rcases hsign with rfl | rfl <;> rfl
    rw [hfrom]
    exact hu.signed_fault hrun
  · have hne : c ≠ ':' ∧ c ≠ '+' ∧ c ≠ '-' := ⟨hcolon, fun e => hsign (Or.inl e), fun e => hsign (Or.inr e)⟩
    rw [Scan.lexemeFrom_of_isSymbolChar (hraw c List.mem_cons_self) hw hne]
    exact hu.run_fault hrun _

/-- A lexeme at the end of the text is given if it stands alone; otherwise the read that fails comes first. -/
theorem emission_lexeme_fault (hlex : IsLexeme (c :: run) [] kind value) (hw : isWhitespace c = false)
    (h : s.Stands p [] ((c :: run).map .char ++ .fault cause :: later)) {t : Token}
    (ht : t = ⟨kind, String.ofList value, String.ofList (c :: run), p⟩) :
    t.StandsAlone ∧ (∃ u : Scanner, s.emission = u.emission.cons t ∧
        u.Stands (p.advanceAll (c :: run)) [] (.fault cause :: later)) ∨
      ¬t.StandsAlone ∧ s.emission = .cutOff cause [] (c :: run) p := by
  have hkind : t.kind = kind := by rw [ht]
  have hstuck : kind ∉ marks.map (·.2) → kind ≠ .string → kind ≠ .dispatch → ¬t.StandsAlone := by
    rintro hmark hstring hdispatch (hm | hs | hd)
    · exact hmark (hkind ▸ hm)
    · exact hstring (hkind ▸ hs)
    · exact hdispatch (hkind ▸ hd.1)
  have hclosed (hrun : ¬kind.IsRun) (hsingle : c :: run ∉ singles) : ∃ u : Scanner,
      s.emission = u.emission.cons t ∧ u.Stands (p.advanceAll (c :: run)) [] (.fault cause :: later) := by
    rw [← List.append_nil (c :: run)] at h
    obtain ⟨u, hu, hsu⟩ := h.lexeme_closed hlex hrun fun _ => hsingle
    exact ⟨u, by rw [ht, emission_of_token hu], hsu⟩
  cases hlex with
  | comment hrun =>
    exact Or.inr ⟨hstuck (by decide) (by decide) (by decide),
      h.emission_cutOff_of_first fun u hu => hu.run_fault hrun.1 _⟩
  | keyword hrun =>
    exact Or.inr ⟨hstuck (by decide) (by decide) (by decide),
      h.emission_cutOff_of_first fun u hu => hu.run_fault hrun.1 _⟩
  | lambdaArg hrun =>
    exact Or.inr ⟨hstuck (by decide) (by decide) (by decide),
      h.emission_cutOff_of_first fun u hu => hu.run_fault hrun.1 _⟩
  | @charLiteral d run _ hrun =>
    refine Or.inr ⟨hstuck (by decide) (by decide) (by decide), h.emission_cutOff_of_first fun u hu => ?_⟩
    rw [List.map_cons, List.cons_append] at hu
    obtain ⟨v, hv, hsv, -, -⟩ := hu.next_char
    obtain ⟨w, hw, hsw⟩ := hsv.run_fault hrun.1 .charLiteral
    exact ⟨w, (Scan.bind_of_ok hv).trans hw, hsw⟩
  | octothorpe =>
    refine Or.inr ⟨hstuck (by decide) (by decide) (by decide), h.emission_cutOff_of_first fun u hu => ?_⟩
    exact ⟨u, Scan.bind_of_error (hu.takeIf_fault _), hu⟩
  | number hraw hnum =>
    have hcolon : c ≠ ':' := by
      rintro rfl
      exact absurd ((startsNumber_cons_iff (by decide)).mp hnum) (by decide)
    exact Or.inr ⟨hstuck (by decide) (by decide) (by decide), h.emission_symbolRun_fault hraw.1 hw hcolon⟩
  | symbol hraw hcolon =>
    exact Or.inr ⟨hstuck (by decide) (by decide) (by decide), h.emission_symbolRun_fault hraw.1 hw hcolon⟩
  | string => exact Or.inl ⟨.inr (.inl hkind), hclosed (by decide) (by simp [singles])⟩
  | discard => exact Or.inl ⟨.inr (.inr ⟨hkind, by rw [ht]⟩), hclosed (by decide) (by decide)⟩
  | mark hmem =>
    exact Or.inl ⟨.inl (List.mem_map.mpr ⟨_, hmem, hkind.symm⟩),
      hclosed (not_isRun_of_mem_marks hmem) (notMem_singles_of_mem_marks hmem)⟩

end Scanner.Stands

/-! ### What a text finishes, and what it leaves -/

/-- The offset at which a token ends. -/
def Token.stop (t : Token) : Int := t.pos.offset + t.raw.utf8ByteSize

/-- No text behind `stop` can change the token: it ends before `stop`, or it stands alone. -/
def Token.Finished (stop : Int) (t : Token) : Prop := t.kind.isTerminal = false ∧ (t.stop < stop ∨ t.StandsAlone)

instance (stop : Int) (t : Token) : Decidable (t.Finished stop) := inferInstanceAs (Decidable (_ ∧ _))

/-- The error that a character begins which begins no lexeme. -/
def Token.Unrecognized (t : Token) : Prop := t.kind = .error ∧ "unrecognized token".toList <+: t.value.toList

instance (t : Token) : Decidable t.Unrecognized := inferInstanceAs (Decidable (_ ∧ _))

/-- What the tokens of a text at `p` leave unfinished at its end, and where that starts: the lexeme that is not
    finished, or the white space behind the last one. -/
inductive Unfinished (p : Position) (text : List Char) (ts : List Token) : (raw : List Char) → Position → Prop
  | lexeme {t} : t ∈ ts → t.kind ≠ .eof → ¬t.Finished (p.advanceAll text).offset →
      t.raw.toList <:+ text → Unfinished p text ts t.raw.toList t.pos
  | blank {before gap} : (∀ t ∈ ts, t.kind ≠ .eof → t.Finished (p.advanceAll text).offset) → text = before ++ gap →
      (∀ c ∈ gap, isWhitespace c = true) →
      (before = [] ∨ ∃ t ∈ ts, t.kind ≠ .eof ∧ t.stop = (p.advanceAll before).offset) →
      Unfinished p text ts gap (p.advanceAll before)

namespace Position

theorem advanceAll_offset (p : Position) (cs : List Char) :
    (p.advanceAll cs).offset = p.offset + (String.ofList cs).utf8ByteSize := by
  induction cs generalizing p with
  | nil => simp [advanceAll]
  | cons c cs ih =>
    have hsize : (String.ofList (c :: cs)).utf8ByteSize = c.utf8Size + (String.ofList cs).utf8ByteSize := by
      rw [← List.singleton_append, String.ofList_append, String.utf8ByteSize_append]
      congr 1
      exact String.utf8ByteSize_singleton
    have hcs := ih (p.advance c)
    have hc := advance_offset p c
    show ((p.advance c).advanceAll cs).offset = _
    omega

end Position

namespace Unfinished
variable {p q : Position} {text rest run raw : List Char} {ts : List Token} {c : Char}

/-- A text of white space alone is left as a whole. -/
theorem of_blank (hts : ∀ t ∈ ts, t.kind = .eof) (htext : ∀ c ∈ text, isWhitespace c = true) :
    Unfinished p text ts text p := by
  have hall : ∀ t ∈ ts, t.kind ≠ .eof → t.Finished (p.advanceAll text).offset := fun t ht hne => absurd (hts t ht) hne
  exact .blank hall (List.nil_append text).symm htext (Or.inl rfl)

/-- A text that ends with a finished token is left with nothing. -/
theorem of_token {t : Token} (ht : t ∈ ts) (hne : t.kind ≠ .eof)
    (hall : ∀ t ∈ ts, t.kind ≠ .eof → t.Finished (p.advanceAll text).offset)
    (hstop : t.stop = (p.advanceAll text).offset) : Unfinished p text ts [] (p.advanceAll text) :=
  .blank hall (List.append_nil text).symm (by simp) (Or.inr ⟨t, ht, hne, hstop⟩)

theorem after_token {t : Token} (h : Unfinished (p.advanceAll (c :: run)) rest ts raw q)
    (ht : t.stop = (p.advanceAll (c :: run)).offset) (hkind : t.kind ≠ .eof)
    (hfinished : t.Finished (p.advanceAll (c :: run ++ rest)).offset) :
    Unfinished p (c :: run ++ rest) (t :: ts) raw q := by
  cases h with
  | lexeme hmem hkind hnot hsuffix =>
    rw [← Position.advanceAll_append] at hnot
    exact .lexeme (List.mem_cons_of_mem t hmem) hkind hnot (hsuffix.trans (List.suffix_append _ _))
  | @blank before gap hall hrest hgap hbefore =>
    rw [← Position.advanceAll_append] at hall ⊢
    refine .blank (List.forall_mem_cons.mpr ⟨fun _ => hfinished, hall⟩) ?_ hgap (Or.inr ?_)
    · rw [hrest, List.append_assoc]
    · rcases hbefore with rfl | ⟨u, hu, hne, hstop⟩
      · exact ⟨t, List.mem_cons_self, hkind, by rw [List.append_nil, ht]⟩
      · exact ⟨u, List.mem_cons_of_mem t hu, hne, by rw [Position.advanceAll_append, hstop]⟩

theorem after_blank (h : Unfinished (p.advanceAll (c :: run)) rest ts raw q)
    (hrest : ∃ d ∈ rest.head?, isWhitespace d = false) : Unfinished p (c :: run ++ rest) ts raw q := by
  cases h with
  | lexeme hmem hkind hnot hsuffix =>
    rw [← Position.advanceAll_append] at hnot
    exact .lexeme hmem hkind hnot (hsuffix.trans (List.suffix_append _ _))
  | @blank before gap hall htext hgap hbefore =>
    rw [← Position.advanceAll_append] at hall ⊢
    refine .blank hall (by rw [htext, List.append_assoc]) hgap (Or.inr ?_)
    rcases hbefore with rfl | ⟨u, hu, hne, hstop⟩
    · -- The rest does not begin with white space, so that it cannot be all white space.
      obtain ⟨d, hd, hw⟩ := hrest
      rw [htext, List.nil_append] at hd
      simp [hgap d (List.mem_of_mem_head? hd)] at hw
    · exact ⟨u, hu, hne, by rw [Position.advanceAll_append, hstop]⟩

end Unfinished

namespace Grammar
variable {p : Position} {text run rest value : List Char} {ts : List Token} {cause : ReadFault} {later : List Read}
  {c : Char} {kind : Kind}

theorem Tokens.of_nil (h : Tokens p [] ts) : ts = [⟨.eof, "", "", p⟩] := by
  cases h
  rfl

theorem IsLexeme.not_unrecognized (h : IsLexeme run rest kind value) (raw : String) (p : Position) :
    ¬(Token.mk kind (String.ofList value) raw p).Unrecognized := by
  rintro ⟨hkind, -⟩
  have hterminal := h.isTerminal_eq_false
  rw [show kind = .error from hkind] at hterminal
  cases hterminal

/-- A text that ends its own scan ends it before the read that fails. -/
theorem Tokens.emission_unrecognized (h : Tokens p text ts) (hts : ∃ t ∈ ts, t.Unrecognized) (s : Scanner)
    (hs : s.Stands p [] (text.map .char ++ .fault cause :: later)) : s.emission = { tokens := ts } := by
  induction h generalizing s with
  | endOfText => simp [Token.Unrecognized] at hts
  | @blank p c run rest ts hrun hlater ih =>
    have hrest : rest ≠ [] := by
      rintro rfl
      rw [hlater.of_nil] at hts
      simp [Token.Unrecognized] at hts
    obtain ⟨t, ht, hst⟩ := hs.emission_blank hrun fun h => absurd h hrest
    rw [ht, ih hts t hst]
  | @lexeme p c run rest kind value ts hw hlex hlater ih =>
    simp only [List.mem_cons, exists_eq_or_imp, hlex.not_unrecognized, false_or] at hts
    have hrest : rest ≠ [] := by
      rintro rfl
      rw [hlater.of_nil] at hts
      simp [Token.Unrecognized] at hts
    obtain ⟨t, ht, hst⟩ := hs.emission_lexeme hlex hw fun h => absurd h hrest
    rw [ht, ih hts t hst]
    rfl
  | failure hw hfail =>
    simp only [List.mem_singleton, exists_eq_left, Token.Unrecognized, true_and] at hts
    cases hfail with
    | openString => exact absurd hts (by decide)
    | loneBackslash => exact absurd hts (by decide)
    | unrecognized hsym hspecial hmark =>
      obtain ⟨u, hu, hsu, -, -⟩ := Scanner.Stands.next_char hs
      refine Scanner.emission_of_last (t := u) ((Scan.lexeme_of_next hu).trans ?_)
      rw [Scan.lexemeFrom_of_unrecognized hsym hw hspecial hmark]
      exact hsu.failure _

theorem IsLexeme.finished_iff (h : IsLexeme run rest kind value) {t : Token} (ht : t.kind = kind) (stop : Int) :
    t.Finished stop ↔ t.stop < stop ∨ t.StandsAlone := by
  simp only [Token.Finished, ht, h.isTerminal_eq_false, true_and]

theorem stop_eq (kind : Kind) (value : String) (raw : List Char) (p : Position) :
    Token.stop ⟨kind, value, String.ofList raw, p⟩ = (p.advanceAll raw).offset :=
  (Position.advanceAll_offset p raw).symm

/-- A scan of the text and a read that fails gives the finished ones of its tokens, and is cut off with what they
    leave. -/
def BreaksOff (cause : ReadFault) (later : List Read) (p : Position) (text : List Char) (ts : List Token) : Prop :=
  ∃ raw q, Unfinished p text ts raw q ∧
    ∀ s : Scanner, s.Stands p [] (text.map .char ++ .fault cause :: later) →
      s.emission = .cutOff cause (ts.filter (·.Finished (p.advanceAll text).offset)) raw q

/-- With a lexeme that ends where the text does, all depends on whether it stands alone. -/
theorem breaksOff_last (hlex : IsLexeme (c :: run) [] kind value) (hw : isWhitespace c = false) :
    BreaksOff cause later p (c :: run)
      [⟨kind, String.ofList value, String.ofList (c :: run), p⟩, ⟨.eof, "", "", p.advanceAll (c :: run)⟩] := by
  generalize htoken : Token.mk kind (String.ofList value) (String.ofList (c :: run)) p = t
  have hkind : t.kind = kind := by rw [← htoken]
  have hne : t.kind ≠ .eof := hkind ▸ hlex.kind_ne_eof
  have hstop : t.stop = (p.advanceAll (c :: run)).offset := by rw [← htoken, stop_eq]
  have hfinished := hlex.finished_iff hkind
  by_cases halone : t.StandsAlone
  · have hyes : t.Finished (p.advanceAll (c :: run)).offset := (hfinished _).mpr (Or.inr halone)
    refine ⟨[], p.advanceAll (c :: run), .of_token List.mem_cons_self hne (by simpa using fun _ => hyes) hstop,
      fun s hs => ?_⟩
    rcases hs.emission_lexeme_fault hlex hw htoken.symm with ⟨-, u, hu, hsu⟩ | ⟨hnot, -⟩
    · rw [hu, hsu.emission_fault, Emission.cons_cutOff, List.filter_cons_of_pos (by simpa using hyes)]
      rfl
    · exact absurd halone hnot
  · have hnot : ¬t.Finished (p.advanceAll (c :: run)).offset := by
      rw [hfinished, hstop]
      exact fun h => h.elim (Int.lt_irrefl _) halone
    have hraw : t.raw.toList = c :: run := by rw [← htoken, String.toList_ofList]
    have hpos : t.pos = p := by rw [← htoken]
    refine ⟨t.raw.toList, t.pos, .lexeme List.mem_cons_self hne hnot (hraw ▸ List.suffix_rfl), fun s hs => ?_⟩
    rcases hs.emission_lexeme_fault hlex hw htoken.symm with ⟨hyes, -⟩ | ⟨-, hs⟩
    · exact absurd hyes halone
    · rw [hs, hraw, hpos, List.filter_cons_of_neg (by simpa using hnot)]
      rfl

/-- A lexeme with more of the text behind it is finished. -/
theorem BreaksOff.cons {d : Char} (h : BreaksOff cause later (p.advanceAll (c :: run)) (d :: rest) ts)
    (hlex : IsLexeme (c :: run) (d :: rest) kind value) (hw : isWhitespace c = false) :
    BreaksOff cause later p (c :: run ++ d :: rest)
      (⟨kind, String.ofList value, String.ofList (c :: run), p⟩ :: ts) := by
  generalize htoken : Token.mk kind (String.ofList value) (String.ofList (c :: run)) p = t
  have hkind : t.kind = kind := by rw [← htoken]
  have hstop : t.stop = (p.advanceAll (c :: run)).offset := by rw [← htoken, stop_eq]
  have hyes : t.Finished (p.advanceAll (c :: run ++ d :: rest)).offset := by
    rw [hlex.finished_iff hkind, hstop, Position.advanceAll_append]
    exact Or.inl (Position.offset_lt_advanceAll _ d rest)
  obtain ⟨raw, q, hrest, hemission⟩ := h
  refine ⟨raw, q, hrest.after_token hstop (hkind ▸ hlex.kind_ne_eof) hyes, fun s hs => ?_⟩
  obtain ⟨u, hu, hsu⟩ := hs.emission_lexeme hlex hw (nomatch ·)
  rw [hu, hemission u hsu, htoken, Emission.cons_cutOff, ← Position.advanceAll_append,
    List.filter_cons_of_pos (by simpa using hyes)]

/-- A failure that is found at the end of the text only is not found: the read that fails comes first. -/
theorem breaksOff_failure {message : String} {raw : List Char} (hfail : Failure (c :: rest) raw message)
    (hts : ¬(Token.mk .error message (String.ofList raw) p).Unrecognized) :
    BreaksOff cause later p (c :: rest) [⟨.error, message, String.ofList raw, p⟩] := by
  have hraw : raw = c :: rest := by
    cases hfail with
    | openString => rfl
    | loneBackslash => rfl
    | unrecognized => simp [Token.Unrecognized] at hts
  subst hraw
  generalize htoken : Token.mk .error message (String.ofList (c :: rest)) p = t
  have hkind : t.kind = .error := by rw [← htoken]
  have hleft : t.raw.toList = c :: rest := by rw [← htoken, String.toList_ofList]
  have hpos : t.pos = p := by rw [← htoken]
  have hnot : ¬t.Finished (p.advanceAll (c :: rest)).offset := by simp [Token.Finished, hkind, Kind.isTerminal]
  refine ⟨t.raw.toList, t.pos, .lexeme (List.mem_singleton_self t) (by simp [hkind]) hnot
    (hleft ▸ List.suffix_rfl), fun s hs => ?_⟩
  rw [hleft, hpos, List.filter_cons_of_neg (by simpa using hnot), List.filter_nil]
  cases hfail with
  | openString hopen => exact hs.emission_cutOff_of_first fun u hu => hu.string_fault hopen
  | loneBackslash =>
    exact hs.emission_cutOff_of_first fun u hu => ⟨u, Scan.bind_of_error (Scanner.Stands.next_fault hu), hu⟩
  | unrecognized => simp [Token.Unrecognized] at hts

theorem Tokens.breaksOff (h : Tokens p text ts) (hts : ¬∃ t ∈ ts, t.Unrecognized) :
    BreaksOff cause later p text ts := by
  induction h with
  | @endOfText p => exact ⟨[], p, .of_blank (by simp) (by simp), fun s hs => hs.emission_fault⟩
  | @blank p c run rest ts hrun hlater ih =>
    cases rest with
    | nil =>
      obtain rfl := hlater.of_nil
      rw [List.append_nil]
      exact ⟨c :: run, p, .of_blank (by simp) hrun.1, fun s hs => hs.emission_blank_fault hrun.1⟩
    | cons d rest =>
      obtain ⟨raw, q, hrest, hemission⟩ := ih hts
      refine ⟨raw, q, hrest.after_blank ⟨d, rfl, hrun.2 d rfl⟩, fun s hs => ?_⟩
      obtain ⟨t, ht, hst⟩ := hs.emission_blank hrun (nomatch ·)
      rw [ht, hemission t hst, ← Position.advanceAll_append]
  | @lexeme p c run rest kind value ts hw hlex hlater ih =>
    simp only [List.mem_cons, exists_eq_or_imp, hlex.not_unrecognized, false_or] at hts
    cases rest with
    | nil =>
      obtain rfl := hlater.of_nil
      rw [List.append_nil]
      exact breaksOff_last hlex hw
    | cons d rest => exact (ih hts).cons hlex hw
  | failure hw hfail => exact breaksOff_failure hfail (by simpa using hts)

theorem Tokens.unrecognized_iff (h : Tokens p text ts) :
    (∃ t ∈ ts.getLast?, t.Unrecognized) ↔ ∃ t ∈ ts, t.Unrecognized := by
  induction h with
  | endOfText => simp
  | blank _ _ ih => exact ih
  | lexeme hw hlex hlater ih =>
    rw [List.getLast?_cons_of_ne_nil hlater.ne_nil, ih]
    simp only [List.mem_cons, exists_eq_or_imp, hlex.not_unrecognized, false_or]
  | failure => simp

end Grammar

/-- What a scan gives that reads a text and then meets a read that fails. A text whose own scan ends at a character
    that begins no lexeme is scanned as if nothing followed. Otherwise the finished tokens are given, and the scan
    is cut off with what the text leaves unfinished. -/
theorem scan_failed_read (source name : String) (cause : ReadFault) (later : List Read) :
    ((∃ final ∈ (tokenize source name).getLast?, final.Unrecognized) →
      scan name (Read.ofText source ++ .fault cause :: later) = { tokens := tokenize source name }) ∧
    (¬(∃ final ∈ (tokenize source name).getLast?, final.Unrecognized) →
      ∃ raw q, Unfinished { name } source.toList (tokenize source name) raw q ∧
        scan name (Read.ofText source ++ .fault cause :: later) =
          .cutOff cause ((tokenize source name).filter (·.Finished source.utf8ByteSize)) raw q) := by
  have htokens := tokens_tokenize source name
  have hstands := Scanner.ofReads_stands name (Read.ofText source ++ .fault cause :: later)
  rw [htokens.unrecognized_iff]
  refine ⟨fun hsome => htokens.emission_unrecognized hsome _ hstands, fun hnone => ?_⟩
  obtain ⟨raw, q, hleft, hemission⟩ := htokens.breaksOff hnone
  have hstop : (({ name } : Position).advanceAll source.toList).offset = source.utf8ByteSize := by
    rw [Position.advanceAll_offset, String.ofList_toList]
    exact Int.zero_add _
  rw [hstop] at hemission
  exact ⟨raw, q, hleft, hemission _ hstands⟩

/-- A symbol that a read might have gone on with is left, and one before the character that stops it is given. -/
theorem scan_failed_read_in_symbol :
    (∃ final ∈ (tokenize "a|" "f").getLast?, final.Unrecognized) ∧
    scan "f" (Read.ofText "a|" ++ [.fault (.device "gone")]) = { tokens := tokenize "a|" "f" } ∧
    ¬(∃ final ∈ (tokenize "(a" "f").getLast?, final.Unrecognized) ∧
    ∃ raw q, Unfinished ⟨"f", 0, 1, 1⟩ "(a".toList (tokenize "(a" "f") raw q ∧
      scan "f" (Read.ofText "(a" ++ [.fault (.breakdown "gone")]) =
        .cutOff (.breakdown "gone") [⟨.leftParen, "", "(", ⟨"f", 0, 1, 1⟩⟩] raw q := by
  have hstop : tokenize "a|" "f" = [⟨.symbol, "a", "a", ⟨"f", 0, 1, 1⟩⟩,
      ⟨.error, "unrecognized token starting with |", "|", ⟨"f", 1, 1, 2⟩⟩] := by
    decide +kernel
  have hopen : tokenize "(a" "f" = [⟨.leftParen, "", "(", ⟨"f", 0, 1, 1⟩⟩, ⟨.symbol, "a", "a", ⟨"f", 1, 1, 2⟩⟩,
      ⟨.eof, "", "", ⟨"f", 2, 1, 3⟩⟩] := by
    decide +kernel
  have hyes : ∃ final ∈ (tokenize "a|" "f").getLast?, final.Unrecognized := by
    rw [hstop]
    exact ⟨_, rfl, by decide⟩
  have hno : ¬∃ final ∈ (tokenize "(a" "f").getLast?, final.Unrecognized := by
    rw [hopen]
    rintro ⟨final, hfinal, herror⟩
    obtain rfl := Option.some.inj hfinal
    cases herror.1
  obtain ⟨raw, q, hleft, hscan⟩ := (scan_failed_read "(a" "f" (.breakdown "gone") []).2 hno
  refine ⟨hyes, (scan_failed_read "a|" "f" (.device "gone") []).1 hyes, hno, raw, q, hleft, hscan.trans ?_⟩
  have hfilter : (tokenize "(a" "f").filter (·.Finished ("(a".utf8ByteSize : Int)) =
      [⟨.leftParen, "", "(", ⟨"f", 0, 1, 1⟩⟩] := by
    rw [hopen]
    decide +kernel
  rw [hfilter]

end ClojureLayout
