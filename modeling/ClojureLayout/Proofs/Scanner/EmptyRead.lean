import ClojureLayout.Proofs.Scanner.Lossless
import ClojureLayout.Proofs.Scanner.Rebase

/-! A read that gives nothing (`scan_at_empty_read`). In a run of characters it ends the run, and the scan goes on
    behind it as if a new text began there. Anywhere else the scan takes it for the end of its source, or fails at
    it or before it, and reads nothing of what comes behind. Which of the two it is depends on the part of the text
    that the read stands behind (`InRun`, `AtStop`). -/

namespace ClojureLayout
namespace Grammar

/-! ### How a text ends -/

/-- A scan at the end of this part of a text reads on for another character of it: white space, or a lexeme that goes
    on as long as its characters do. -/
inductive InRun : (raw : List Char) → Prop
  | blank {c run} : (∀ d ∈ c :: run, isWhitespace d = true) → InRun (c :: run)
  | lexeme {c run kind value} : isWhitespace c = false → IsLexeme (c :: run) [] kind value → kind.IsRun →
      c :: run ∉ singles → InRun (c :: run)

/-- A scan at the end of this part of a text has nothing to read on for, or it has failed. A sign or an octothorpe is
    looked behind, but a read that gives nothing there is the end. -/
inductive AtStop : (raw : List Char) → Prop
  | empty : AtStop []
  | mark {c kind} : (c, kind) ∈ marks → AtStop [c]
  | string {body} : Open body → Closes body → AtStop ('\x22' :: (body ++ ['\x22']))
  | octothorpe : AtStop ['#']
  | discard : AtStop ['#', '_']
  | sign {c} : c = '+' ∨ c = '-' → AtStop [c]
  | failure {c cs raw message} : isWhitespace c = false → Failure (c :: cs) raw message → AtStop (c :: cs)

/-- The text is cut into white space and lexemes up to a part, its last, of which `last` holds. -/
inductive EndsWith (last : List Char → Prop) : (text : List Char) → Prop
  | here {raw} : last raw → EndsWith last raw
  | blank {c run rest} : Longest isWhitespace (c :: run) rest → rest ≠ [] → EndsWith last rest →
      EndsWith last (c :: run ++ rest)
  | lexeme {c run rest kind value} : isWhitespace c = false → IsLexeme (c :: run) rest kind value → rest ≠ [] →
      EndsWith last rest → EndsWith last (c :: run ++ rest)

section
variable {p : Position} {c : Char} {run text raw value : List Char} {ts us : List Token} {kind : Kind}
  {last : List Char → Prop}

theorem IsLexeme.inRun_or_atStop (h : IsLexeme (c :: run) [] kind value) (hw : isWhitespace c = false) :
    InRun (c :: run) ∨ AtStop (c :: run) := by
  by_cases hsingle : c :: run ∈ singles
  · rcases h.single_cases hsingle with ⟨hraw, -, -⟩ | ⟨d, hsign, hraw, -, -⟩
    · rw [hraw]
      exact .inr .octothorpe
    · rw [hraw]
      exact .inr (.sign hsign)
  · by_cases hkind : kind.IsRun
    · exact .inl (.lexeme hw h hkind hsingle)
    · cases h with
      | string hopen hclose => exact .inr (.string hopen hclose)
      | discard => exact .inr .discard
      | mark hmem => exact .inr (.mark hmem)
      | octothorpe => exact absurd (by decide) hsingle
      | _ => exact absurd (by decide) hkind

/-- Every text ends in a run or at a stop. -/
theorem Tokens.endsWith (h : Tokens p text ts) : EndsWith InRun text ∨ EndsWith AtStop text := by
  induction h with
  | endOfText => exact .inr (.here .empty)
  | @blank p c run rest ts hrun _ ih =>
    cases rest with
    | nil =>
      rw [List.append_nil]
      exact .inl (.here (.blank hrun.1))
    | cons d rest =>
      have hne : d :: rest ≠ [] := List.cons_ne_nil d rest
      exact ih.imp (.blank hrun hne) (.blank hrun hne)
  | @lexeme p c run rest kind value ts hw hlex _ ih =>
    cases rest with
    | nil =>
      rw [List.append_nil]
      exact (hlex.inRun_or_atStop hw).imp .here .here
    | cons d rest =>
      have hne : d :: rest ≠ [] := List.cons_ne_nil d rest
      exact ih.imp (.lexeme hw hlex hne) (.lexeme hw hlex hne)
  | failure hw hfail => exact .inr (.here (.failure hw hfail))

end

end Grammar
open Grammar

/-! ### Scans on their way -/

namespace Scanner

/-- A scan from `s` gives the tokens and then stands at `t`. -/
inductive Leads : (s : Scanner) → List Token → (t : Scanner) → Prop
  | refl {s} : Leads s [] s
  | blank {s t u ts} : Scan.lexeme s = .ok .blank t → Leads t ts u → Leads s ts u
  | token {s t u token ts} : Scan.lexeme s = .ok (.token token) t → Leads t ts u → Leads s (token :: ts) u

variable {s t u : Scanner} {ts us : List Token} {token : Token} {later : List Read}

theorem ending_of_blank (h : Scan.lexeme s = .ok .blank t) : s.ending = t.ending := by
  rw [ending]
  split <;> simp_all

theorem ending_of_token (h : Scan.lexeme s = .ok (.token token) t) : s.ending = t.ending := by
  rw [ending]
  split <;> simp_all

theorem ending_of_last (h : Scan.lexeme s = .ok (.last ts) t) : s.ending = t := by
  rw [ending]
  split <;> simp_all

theorem Leads.trans (h : Leads s ts t) (h' : Leads t us u) : Leads s (ts ++ us) u := by
  induction h with
  | refl => exact h'
  | blank hs _ ih => exact .blank hs (ih h')
  | token hs _ ih => exact .token hs (ih h')

theorem Leads.emission_eq (h : Leads s ts t) :
    s.emission = { t.emission with tokens := ts ++ t.emission.tokens } := by
  induction h with
  | refl => rfl
  | blank hs _ ih => rw [emission_of_blank hs, ih]
  | token hs _ ih =>
    rw [emission_of_token hs, ih]
    rfl

theorem Leads.ending_eq (h : Leads s ts t) : s.ending = t.ending := by
  induction h with
  | refl => rfl
  | blank hs _ ih => rw [ending_of_blank hs, ih]
  | token hs _ ih => rw [ending_of_token hs, ih]

/-- A scan from `s` gives the tokens and is over, with the reads `later` still to come. -/
structure Halts (s : Scanner) (ts : List Token) (later : List Read) : Prop where
  emission_eq : s.emission = { tokens := ts }
  later_suffix : later <:+ s.ending.reads

theorem Halts.after (h : Halts t us later) (hs : Leads s ts t) : Halts s (ts ++ us) later := by
  obtain ⟨hemission, hlater⟩ := h
  refine ⟨?_, by rwa [hs.ending_eq]⟩
  rw [hs.emission_eq, hemission]

/-- What is ahead of a scanner at the end of its scan is still to be read: no character is put back. -/
theorem Halts.of_last {p start : Position} {text : List Char} {reads more : List Read} (hs : s.Stands p [] reads)
    (h : Scan.lexeme s = .ok (.last ts) t) (ht : t.Stands start text more) (hlater : later <:+ more) :
    Halts s ts later := by
  refine ⟨emission_of_last h, ?_⟩
  have hdelivers := Scan.delivers_lexeme (List.reverse_eq_nil_iff.mp hs.gathered_eq)
  rw [h] at hdelivers
  have hahead := ht.ahead_eq
  rw [Scanner.ahead, hdelivers.2.1] at hahead
  rw [ending_of_last h, show t.reads = more from hahead]
  exact hlater

end Scanner

namespace Grammar
open Scanner (Leads Halts)
variable {p : Position} {text raw : List Char} {last : List Char → Prop} {later : List Read}

/-! ### Up to the last part of a text -/

theorem EndsWith.reaches (h : EndsWith last text) (p : Position) :
    ∃ ts q raw, last raw ∧ q.advanceAll raw = p.advanceAll text ∧
      (∀ us, Tokens q raw us → Tokens p text (ts ++ us)) ∧
      ∀ (s : Scanner) (tail : List Read), s.Stands p [] (text.map .char ++ tail) →
        ∃ t, Leads s ts t ∧ t.Stands q [] (raw.map .char ++ tail) := by
  -- A character stands behind every piece before the last, so that none of them depends on the reads of `tail`.
  induction h generalizing p with
  | @here raw hlast => exact ⟨[], p, raw, hlast, rfl, fun _ hus => hus, fun s tail hs => ⟨s, .refl, hs⟩⟩
  | @blank c run rest hrun hne _ ih =>
    obtain ⟨ts, q, raw, hlast, hplace, htokens, hleads⟩ := ih (p.advanceAll (c :: run))
    refine ⟨ts, q, raw, hlast, ?_, fun us hus => .blank hrun (htokens us hus), ?_⟩
    · rw [hplace, Position.advanceAll_append]
    · intro s tail hs
      obtain ⟨u, hu, hsu⟩ := hs.lexeme_blank hrun (.of_end (absurd · hne))
      obtain ⟨t, ht, hst⟩ := hleads u tail hsu
      exact ⟨t, .blank hu ht, hst⟩
  | @lexeme c run rest kind value hw hlex hne _ ih =>
    obtain ⟨ts, q, raw, hlast, hplace, htokens, hleads⟩ := ih (p.advanceAll (c :: run))
    refine ⟨_ :: ts, q, raw, hlast, ?_, fun us hus => .lexeme hw hlex (htokens us hus), ?_⟩
    · rw [hplace, Position.advanceAll_append]
    · intro s tail hs
      obtain ⟨u, hu, hsu⟩ := hs.lexeme_token hlex hw (absurd · hne) (.of_end (absurd · hne))
      obtain ⟨t, ht, hst⟩ := hleads u tail hsu
      exact ⟨t, .token hu ht, hst⟩

/-! ### At the read that gives nothing -/

theorem InRun.passes (h : InRun raw) (p : Position) :
    ∃ ts, Tokens p raw (ts ++ [⟨.eof, "", "", p.advanceAll raw⟩]) ∧
      ∀ (s : Scanner) (later : List Read), s.Stands p [] (raw.map .char ++ .nothing :: later) →
        ∃ t, Leads s ts t ∧ t.Stands (p.advanceAll raw) [] later := by
  cases h with
  | @blank c run hblank =>
    have hrun : Longest isWhitespace (c :: run) [] := ⟨hblank, by simp⟩
    refine ⟨[], ?_, ?_⟩
    · have htokens := Tokens.blank (p := p) hrun .endOfText
      rwa [List.append_nil] at htokens
    · intro s later hs
      rw [← List.append_nil (c :: run)] at hs
      obtain ⟨t, ht, hst⟩ := hs.lexeme_blank hrun (.silent .nothing)
      exact ⟨t, .blank ht .refl, hst⟩
  | @lexeme c run kind value hw hlex hkind hsingle =>
    refine ⟨[⟨kind, String.ofList value, String.ofList (c :: run), p⟩], ?_, ?_⟩
    · have htokens := Tokens.lexeme (p := p) hw hlex .endOfText
      rwa [List.append_nil] at htokens
    · intro s later hs
      rw [← List.append_nil (c :: run)] at hs
      obtain ⟨t, ht, hst⟩ := hs.lexeme_run hlex hw hkind (fun _ => hsingle) (.silent .nothing)
      exact ⟨t, .token ht .refl, hst⟩

theorem closed_halts {c : Char} {run value : List Char} {kind : Kind} (hlex : IsLexeme (c :: run) [] kind value)
    (hw : isWhitespace c = false) (hkind : ¬ kind.IsRun) (hsingle : c :: run ∉ singles) (p : Position) :
    ∃ ts, Tokens p (c :: run) ts ∧
      ∀ (s : Scanner) (later : List Read), s.Stands p [] ((c :: run).map .char ++ .nothing :: later) →
        Halts s ts later := by
  have htokens := Tokens.lexeme (p := p) hw hlex .endOfText
  rw [List.append_nil] at htokens
  refine ⟨_, htokens, ?_⟩
  intro s later hs
  rw [← List.append_nil (c :: run)] at hs
  obtain ⟨t, ht, hst⟩ := hs.lexeme_closed hlex hkind fun _ => hsingle
  obtain ⟨u, hu, hsu⟩ := hst.lexeme_end .nothing
  exact (Halts.of_last hst hu hsu List.suffix_rfl).after (.token ht .refl)

theorem single_halts {c : Char} {value : List Char} {kind : Kind} (hlex : IsLexeme [c] [] kind value)
    (hw : isWhitespace c = false) (hsingle : [c] ∈ singles) (p : Position) :
    ∃ ts, Tokens p [c] ts ∧
      ∀ (s : Scanner) (later : List Read), s.Stands p [] ([c].map .char ++ .nothing :: later) → Halts s ts later := by
  refine ⟨_, .lexeme hw hlex .endOfText, ?_⟩
  intro s later hs
  obtain ⟨t, ht, hst⟩ := hs.lexeme_single hlex hsingle .nothing
  exact .of_last hs ht hst List.suffix_rfl

theorem AtStop.halts (h : AtStop raw) (p : Position) :
    ∃ ts, Tokens p raw ts ∧
      ∀ (s : Scanner) (later : List Read), s.Stands p [] (raw.map .char ++ .nothing :: later) → Halts s ts later := by
  cases h with
  | empty =>
    refine ⟨_, .endOfText, ?_⟩
    intro s later hs
    obtain ⟨t, ht, hst⟩ := Scanner.Stands.lexeme_end .nothing hs
    exact .of_last hs ht hst List.suffix_rfl
  | mark hmem =>
    have hmarks : ∀ m ∈ marks, isWhitespace m.1 = false := by decide
    exact closed_halts (.mark hmem) (hmarks _ hmem) (not_isRun_of_mem_marks hmem) (notMem_singles_of_mem_marks hmem) p
  | string hopen hclose => exact closed_halts (.string hopen hclose) (by decide) (by decide) (by simp [singles]) p
  | discard => exact closed_halts .discard (by decide) (by decide) (by decide) p
  | octothorpe => exact single_halts (.octothorpe (by simp)) (by decide) (by decide) p
  | sign hsign =>
    rcases hsign with rfl | rfl
    · exact single_halts (.symbol (.single (by decide)) (by decide) (by decide)) (by decide) (by decide) p
    · exact single_halts (.symbol (.single (by decide)) (by decide) (by decide)) (by decide) (by decide) p
  | failure hw hfail =>
    refine ⟨_, .failure hw hfail, ?_⟩
    intro s later hs
    obtain ⟨t, _, _, ht, hst, hlater⟩ := hs.lexeme_failure hfail hw .nothing
    exact .of_last hs ht hst hlater

/-! ### Whole texts -/

theorem EndsWith.passes (h : EndsWith InRun text) (p : Position) :
    ∃ ts, Tokens p text (ts ++ [⟨.eof, "", "", p.advanceAll text⟩]) ∧
      ∀ (s : Scanner) (later : List Read), s.Stands p [] (text.map .char ++ .nothing :: later) →
        ∃ t, Leads s ts t ∧ t.Stands (p.advanceAll text) [] later := by
  obtain ⟨before, q, raw, hraw, hplace, htokens, hleads⟩ := h.reaches p
  obtain ⟨ts, hts, hpasses⟩ := hraw.passes q
  rw [hplace] at hts hpasses
  refine ⟨before ++ ts, ?_, ?_⟩
  · rw [List.append_assoc]
    exact htokens _ hts
  · intro s later hs
    obtain ⟨u, hu, hsu⟩ := hleads s _ hs
    obtain ⟨t, ht, hst⟩ := hpasses u later hsu
    exact ⟨t, hu.trans ht, hst⟩

theorem EndsWith.halts (h : EndsWith AtStop text) (p : Position) :
    ∃ ts, Tokens p text ts ∧
      ∀ (s : Scanner) (later : List Read), s.Stands p [] (text.map .char ++ .nothing :: later) →
        Halts s ts later := by
  obtain ⟨before, q, raw, hraw, -, htokens, hleads⟩ := h.reaches p
  obtain ⟨ts, hts, hhalts⟩ := hraw.halts q
  refine ⟨before ++ ts, htokens _ hts, ?_⟩
  intro s later hs
  obtain ⟨t, ht, hst⟩ := hleads s _ hs
  exact (hhalts t later hst).after ht

/-- A parenthesis behind the read is given in the one case and not in the other. -/
theorem EndsWith.not_both (hrun : EndsWith InRun text) (hstop : EndsWith AtStop text) : False := by
  obtain ⟨ts, hts, hpasses⟩ := hrun.passes { name := "" }
  obtain ⟨us, hus, hhalts⟩ := hstop.halts { name := "" }
  have hstands := Scanner.ofReads_stands "" (text.map .char ++ .nothing :: ['('].map .char)
  obtain ⟨t, ht, hst⟩ := hpasses _ _ hstands
  have hparen := Tokens.lexeme (p := ({ name := "" } : Position).advanceAll text) (by decide)
    (.mark (c := '(') (by decide : ('(', Kind.leftParen) ∈ marks)) .endOfText
  have hgiven := (hhalts _ _ hstands).emission_eq
  rw [ht.emission_eq, emission_of_tokens hparen t hst, hus.unique hts] at hgiven
  simp at hgiven

end Grammar

/-- What a scan gives that reads a text, then nothing, and then has a second text to read. If the first ends in a run,
    this is all that the first gives but its end, and all that the second gives, with positions that go on from the
    end of the first. If it ends at a stop, it is what the first gives, and nothing of what comes behind is read. A
    text ends in a run or at a stop, and not in both ways. -/
theorem scan_at_empty_read (first second name : String) :
    (EndsWith InRun first.toList → ∃ ts final, tokenize first name = ts ++ [final] ∧ final.kind = .eof ∧
      scan name (Read.ofText first ++ .nothing :: Read.ofText second) =
        { tokens := ts ++ (tokenize second name).map (Token.rebase (Position.after name first.toList)) }) ∧
    (EndsWith AtStop first.toList → ∀ later,
      scan name (Read.ofText first ++ .nothing :: later) = { tokens := tokenize first name } ∧
        later <:+ (Scanner.ofReads name (Read.ofText first ++ .nothing :: later)).ending.reads) ∧
    (EndsWith InRun first.toList ↔ ¬ EndsWith AtStop first.toList) := by
  have hstands (later : List Read) := Scanner.ofReads_stands name (Read.ofText first ++ .nothing :: later)
  refine ⟨?_, ?_, fun hrun hstop => hrun.not_both hstop, (tokens_tokenize first name).endsWith.resolve_right⟩
  · intro hrun
    obtain ⟨ts, hts, hpasses⟩ := hrun.passes { name }
    obtain ⟨t, ht, hst⟩ := hpasses _ _ (hstands (Read.ofText second))
    rw [Position.advanceAll_start] at hst
    refine ⟨ts, _, tokenize_of_tokens hts, rfl, ?_⟩
    rw [scan, ht.emission_eq, emission_of_tokens (tokens_rebase (.after name first.toList) second) t hst]
    rfl
  · intro hstop later
    obtain ⟨ts, hts, hhalts⟩ := hstop.halts { name }
    rw [tokenize_of_tokens hts]
    obtain ⟨hemission, hlater⟩ := hhalts _ _ (hstands later)
    exact ⟨hemission, hlater⟩

/-- A symbol ends at the read and the list goes on; behind a sign there is nothing to go on with. -/
theorem scan_at_empty_read_in_symbol_and_behind_sign :
    EndsWith InRun "(a".toList ∧
    scan "f" (Read.ofText "(a" ++ .nothing :: Read.ofText "b)") = { tokens := [⟨.leftParen, "", "(", ⟨"f", 0, 1, 1⟩⟩,
      ⟨.symbol, "a", "a", ⟨"f", 1, 1, 2⟩⟩, ⟨.symbol, "b", "b", ⟨"f", 2, 1, 3⟩⟩,
      ⟨.rightParen, "", ")", ⟨"f", 3, 1, 4⟩⟩, ⟨.eof, "", "", ⟨"f", 4, 1, 5⟩⟩] } ∧
    EndsWith AtStop "(-".toList ∧
    scan "f" (Read.ofText "(-" ++ .nothing :: Read.ofText "1)") = { tokens := [⟨.leftParen, "", "(", ⟨"f", 0, 1, 1⟩⟩,
      ⟨.symbol, "-", "-", ⟨"f", 1, 1, 2⟩⟩, ⟨.eof, "", "", ⟨"f", 2, 1, 3⟩⟩] } := by
  have hparen : IsLexeme ['('] ['a'] .leftParen [] := .mark (by decide)
  have hsymbol : IsLexeme ['a'] [] .symbol ['a'] := .symbol (.single (by decide)) (by decide) (by decide)
  have hrun : EndsWith InRun "(a".toList :=
    .lexeme (by decide) hparen (by simp) (.here (.lexeme (by decide) hsymbol (by decide) (by decide)))
  have hstop : EndsWith AtStop "(-".toList :=
    .lexeme (by decide) (.mark (by decide) : IsLexeme ['('] ['-'] .leftParen []) (by simp) (.here (.sign (.inr rfl)))
  obtain ⟨ts, final, htokens, -, hscan⟩ := (scan_at_empty_read "(a" "b)" "f").1 hrun
  have hfirst : tokenize "(a" "f" = [⟨.leftParen, "", "(", ⟨"f", 0, 1, 1⟩⟩, ⟨.symbol, "a", "a", ⟨"f", 1, 1, 2⟩⟩] ++
      [⟨.eof, "", "", ⟨"f", 2, 1, 3⟩⟩] := by decide +kernel
  obtain ⟨rfl, -⟩ := List.append_inj' (htokens.symm.trans hfirst) rfl
  refine ⟨hrun, hscan.trans ?_, hstop, ((scan_at_empty_read "(-" "" "f").2.1 hstop _).1.trans ?_⟩ <;> decide +kernel

end ClojureLayout
