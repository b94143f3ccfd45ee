import ClojureLayout.Proofs.Scanner.Rebase
import ClojureLayout.Proofs.Text.Lines

/-! Line ends do not change how a scan ends. A text whose carriage returns all stand before line feeds, and the text
    without them, end with the same error at the same line and column, or both with the end of the text
    (`report_unifyNewlines`). The tokens may differ: behind a backslash a carriage return is a character of its
    own, and the line feed that takes its place takes up the symbol behind it. There both scans meet again. -/

namespace ClojureLayout
open Text Grammar

/-! ### Positions in both texts -/

/-- Two positions before `text` are on the same line, and at the same column unless the line ends there. -/
def Position.Level (p q : Position) (text : List Char) : Prop :=
  p.line = q.line ∧ (p.column = q.column ∨ text.head? = some '\n')

namespace Position.Level
variable {p q : Position} {run rest text : List Char} {c : Char}

theorem column_eq (h : p.Level q (c :: rest)) (hc : isWhitespace c = false) : p.column = q.column := by
  refine h.2.resolve_right fun hhead => ?_
  obtain rfl := Option.some.inj hhead
  exact absurd hc (by decide)

theorem advance (h : p.Level q (c :: rest)) : (p.advance c).Level (q.advance c) rest := by
  obtain ⟨hline, hcolumn⟩ := h
  by_cases hfeed : c = '\n'
  · simp [Level, Position.advance, hfeed, hline]
  · have hsame : p.column = q.column := hcolumn.resolve_right fun hhead => hfeed (Option.some.inj hhead)
    simp [Level, Position.advance, hfeed, hline, hsame]

theorem advanceAll (h : p.Level q (run ++ rest)) (hpaired : PairedReturns (run ++ rest)) :
    (p.advanceAll run).Level (q.advanceAll (withoutReturns run)) rest := by
  induction run generalizing p q with
  | nil => exact h
  | cons c run ih =>
    by_cases hc : c = '\r'
    · subst hc
      rw [withoutReturns_return]
      refine ih ⟨?_, .inr (hpaired.1 rfl)⟩ hpaired.2
      simpa [Position.advance] using h.1
    · rw [withoutReturns_cons hc]
      exact ih h.advance hpaired.2

end Position.Level

/-! ### Lexemes in both texts -/

namespace Grammar
variable {p q : Position} {text run raw rest body value gap : List Char} {ts us : List Token} {kind : Kind} {c : Char}

theorem ne_return_of_isWhitespace (hw : isWhitespace c = false) : c ≠ '\r' := by
  rintro rfl
  exact absurd hw (by decide)

/-- The backslashes that end a text are followed by no line feed, so no carriage return stands among them. -/
theorem closes_withoutReturns (h : PairedReturns body) : Closes (withoutReturns body) ↔ Closes body := by
  induction hn : body.length generalizing body with
  | zero =>
    obtain rfl := List.length_eq_zero_iff.mp hn
    exact Iff.rfl
  | succ n ih =>
    rcases List.eq_nil_or_concat body with rfl | ⟨init, d, rfl⟩
    · cases hn
    rw [List.concat_eq_append] at hn h ⊢
    have hinit : init.length = n := by simpa using hn
    by_cases hd : d = '\\'
    · subst hd
      rw [withoutReturns_append, withoutReturns_cons (by decide), closes_concat_backslash]
      exact (closes_concat_backslash _).trans (not_congr (ih (h.left (by simp)) hinit))
    · have hreturn : d ≠ '\r' := by
        rintro rfl
        cases h.right.1 rfl
      rw [withoutReturns_append, withoutReturns_cons hreturn]
      exact iff_of_true (closes_concat hd _) (closes_concat hd _)

theorem open_withoutReturns (h : PairedReturns body) (hopen : Open body) : Open (withoutReturns body) := by
  intro before after hsplit
  obtain ⟨first, rest, rfl, hfirst, hrest⟩ := List.filter_eq_append_iff.mp hsplit
  obtain ⟨returns, later, rfl, hreturns, -, -⟩ := List.filter_eq_cons_iff.mp hrest
  have hnone : withoutReturns returns = [] := List.filter_eq_nil_iff.mpr hreturns
  have hbefore : withoutReturns (first ++ returns) = before := by
    rw [withoutReturns_append, hnone, List.append_nil]
    exact hfirst
  rw [← List.append_assoc] at h hopen
  rw [← hbefore, closes_withoutReturns (h.left (by simp))]
  exact hopen _ _ rfl

theorem Longest.withoutReturns_rest {q : Char → Bool} (h : Longest q run rest) (hpaired : PairedReturns rest)
    (hfeed : q '\n' = false) : Longest q run (withoutReturns rest) :=
  ⟨h.1, hpaired.first h.2 hfeed⟩

theorem Longest.withoutReturns_run (h : Longest isSymbolChar run rest) : withoutReturns run = run := by
  refine withoutReturns_of_not_mem fun hmem => ?_
  exact absurd (h.1 _ hmem) (by decide)

/-- A lexeme of a text is one of the text without its carriage returns, unless one of them is the character behind a
    backslash. -/
theorem IsLexeme.withoutReturns (h : IsLexeme raw rest kind value) (hpaired : PairedReturns (raw ++ rest))
    (hliteral : ∀ run, raw ≠ '\\' :: '\r' :: run) :
    ∃ value', IsLexeme (withoutReturns raw) (withoutReturns rest) kind value' := by
  have hrest : PairedReturns rest := hpaired.right
  have hfeed : isSymbolChar '\n' = false := by decide
  cases h with
  | @comment run _ hrun =>
    rw [withoutReturns_cons (by decide)]
    exact ⟨_, .comment ⟨fun c hc => hrun.1 c (List.mem_filter.mp hc).1, hrest.first hrun.2 rfl⟩⟩
  | string hopen hcloses =>
    have hbody : PairedReturns value := by
      rw [List.cons_append, List.append_assoc] at hpaired
      exact hpaired.2.left (by simp)
    rw [withoutReturns_cons (by decide), withoutReturns_append]
    exact ⟨_, .string (open_withoutReturns hbody hopen) ((closes_withoutReturns hbody).mpr hcloses)⟩
  | @charLiteral c run _ hrun =>
    have hc : c ≠ '\r' := by
      rintro rfl
      exact hliteral run rfl
    rw [withoutReturns_cons (by decide), withoutReturns_cons hc, hrun.withoutReturns_run]
    exact ⟨_, .charLiteral (hrun.withoutReturns_rest hrest hfeed)⟩
  | keyword hrun =>
    rw [withoutReturns_cons (by decide), hrun.withoutReturns_run]
    exact ⟨_, .keyword (hrun.withoutReturns_rest hrest hfeed)⟩
  | lambdaArg hrun =>
    rw [withoutReturns_cons (by decide), hrun.withoutReturns_run]
    exact ⟨_, .lambdaArg (hrun.withoutReturns_rest hrest hfeed)⟩
  | discard => exact ⟨_, .discard⟩
  | @dispatch c rest hc =>
    have hreturn : c ≠ '\r' := by
      rintro rfl
      exact absurd hc (by decide)
    rw [withoutReturns_cons hreturn rest]
    exact ⟨_, .dispatch hc⟩
  | octothorpe hhead => exact ⟨_, .octothorpe (hrest.first hhead (by decide))⟩
  | @mark c _ _ hmem =>
    have hreturn : c ≠ '\r' := by
      rintro rfl
      exact absurd (List.mem_map_of_mem hmem) (by decide : '\r' ∉ marks.map (·.1))
    rw [withoutReturns_cons hreturn]
    exact ⟨_, .mark hmem⟩
  | number hrun hstarts =>
    rw [hrun.withoutReturns_run]
    exact ⟨_, .number (hrun.withoutReturns_rest hrest hfeed) hstarts⟩
  | symbol hrun hcolon hstarts =>
    rw [hrun.withoutReturns_run]
    exact ⟨_, .symbol (hrun.withoutReturns_rest hrest hfeed) hcolon hstarts⟩

theorem Failure.withoutReturns {message : String} (h : Failure (c :: rest) raw message)
    (hpaired : PairedReturns (c :: rest)) : ∃ raw', Failure (c :: withoutReturns rest) raw' message := by
  cases h with
  | openString hopen => exact ⟨_, .openString (open_withoutReturns hpaired.2 hopen)⟩
  | loneBackslash => exact ⟨_, .loneBackslash⟩
  | unrecognized hsym hspecial hmark => exact ⟨_, .unrecognized hsym hspecial hmark⟩

end Grammar

/-! ### Scans of both texts -/

/-- What a token says of an error: the message, the line and the column. -/
def Token.report (t : Token) : String × Int × Int := (t.value, t.pos.line, t.pos.column)

namespace Grammar

theorem Tokens.of_lexeme (h : Tokens p (c :: run ++ rest) ts) (hw : isWhitespace c = false)
    (hlex : IsLexeme (c :: run) rest kind value) :
    ∃ us, Tokens (p.advanceAll (c :: run)) rest us ∧ Token.finalError? ts = Token.finalError? us := by
  obtain ⟨us, hus⟩ := Tokens.exists rest (p.advanceAll (c :: run))
  refine ⟨us, hus, ?_⟩
  rw [h.unique (.lexeme hw hlex hus), Token.finalError?, Token.finalError?, List.getLast?_cons_of_ne_nil hus.ne_nil]

theorem Tokens.of_blank (h : Tokens p (gap ++ rest) ts) (hgap : ∀ c ∈ gap, isWhitespace c = true) :
    Tokens (p.advanceAll gap) rest ts := by
  obtain ⟨us, hus⟩ := Tokens.exists rest (p.advanceAll gap)
  rwa [h.unique (hus.blank_append hgap)]

theorem Tokens.of_symbolChars (h : Tokens p (run ++ rest) ts) (hrun : Longest isSymbolChar run rest) :
    ∃ us, Tokens (p.advanceAll run) rest us ∧ Token.finalError? ts = Token.finalError? us := by
  cases run with
  | nil => exact ⟨ts, h, rfl⟩
  | cons c run =>
    obtain ⟨kind, value, hlex⟩ := lexeme_of_longest hrun
    exact h.of_lexeme (isWhitespace_eq_false_of_isSymbolChar (hrun.1 c List.mem_cons_self)) hlex

/-- A backslash makes a literal of the line feed behind it and of the symbol behind that. With a carriage return
    between them they are a literal, white space and a token; both end at the same place. -/
theorem Tokens.of_backslash (h : Tokens p ('\\' :: '\r' :: '\n' :: run ++ rest) ts)
    (hrun : Longest isSymbolChar run rest) :
    ∃ us, Tokens (p.advanceAll ('\\' :: '\r' :: '\n' :: run)) rest us ∧
      Token.finalError? ts = Token.finalError? us := by
  have hliteral : IsLexeme ['\\', '\r'] ('\n' :: run ++ rest) .charLiteral ['\\', '\r'] :=
    .charLiteral ⟨by simp, by simpa using (by decide : isSymbolChar '\n' = false)⟩
  have hsplit : Tokens p (['\\', '\r'] ++ ('\n' :: run ++ rest)) ts := h
  obtain ⟨vs, hvs, hts⟩ := hsplit.of_lexeme (by decide) hliteral
  have hfeed : Tokens (p.advanceAll ['\\', '\r']) (['\n'] ++ (run ++ rest)) vs := hvs
  have hblank := hfeed.of_blank (List.all_eq_true.mp (by decide))
  obtain ⟨us, hus, hsame⟩ := hblank.of_symbolChars hrun
  exact ⟨us, hus, hts.trans hsame⟩

/-- Two scans stand side by side: one before a text, the other before the text without its carriage returns. -/
structure Abreast (p q : Position) (text : List Char) (ts us : List Token) : Prop where
  left : Tokens p text ts
  right : Tokens q (withoutReturns text) us
  paired : PairedReturns text
  level : p.Level q text

/-- How two scans go on: they end with the same report, or stand side by side again before a shorter text. -/
inductive GoesOn (text : List Char) (ts us : List Token) : Prop
  | ends : (Token.finalError? ts).map Token.report = (Token.finalError? us).map Token.report → GoesOn text ts us
  | meets {p q rest ts' us'} : rest.length < text.length → Abreast p q rest ts' us' →
      Token.finalError? ts = Token.finalError? ts' → Token.finalError? us = Token.finalError? us' → GoesOn text ts us

namespace Abreast
variable {before : List Char} {ts' us' : List Token}

theorem past (h : Abreast p q (before ++ rest) ts us) (hts : Tokens (p.advanceAll before) rest ts')
    (hus : Tokens (q.advanceAll (withoutReturns before)) (withoutReturns rest) us') :
    Abreast (p.advanceAll before) (q.advanceAll (withoutReturns before)) rest ts' us' :=
  ⟨hts, hus, h.paired.right, h.level.advanceAll h.paired⟩

theorem length_lt_append (c : Char) (run rest : List Char) : rest.length < (c :: run ++ rest).length := by
  rw [List.length_append, List.length_cons]
  omega

theorem goesOn_backslash (h : Abreast p q ('\\' :: '\r' :: rest) ts us) : GoesOn ('\\' :: '\r' :: rest) ts us := by
  obtain ⟨more, rfl⟩ := List.head?_eq_some_iff.mp (h.paired.2.1 rfl)
  obtain ⟨run, rest, rfl, hrun⟩ := Longest.exists isSymbolChar more
  have hall : Abreast p q ('\\' :: '\r' :: '\n' :: run ++ rest) ts us := h
  obtain ⟨ts', hts', hts⟩ := hall.left.of_backslash hrun
  have hreturns : withoutReturns ('\\' :: '\r' :: '\n' :: run) = '\\' :: '\n' :: run := by
    rw [withoutReturns_cons (by decide), withoutReturns_return, withoutReturns_cons (by decide),
      hrun.withoutReturns_run]
  have hliteral : IsLexeme ('\\' :: '\n' :: run) (withoutReturns rest) .charLiteral ('\\' :: '\n' :: run) :=
    .charLiteral (hrun.withoutReturns_rest hall.paired.right (by decide))
  have hright := hall.right
  rw [withoutReturns_append, hreturns] at hright
  obtain ⟨us', hus', hus⟩ := hright.of_lexeme (by decide) hliteral
  rw [← hreturns] at hus'
  exact .meets (length_lt_append '\\' ('\r' :: '\n' :: run) rest) (hall.past hts' hus') hts hus

theorem goesOn (h : Abreast p q text ts us) : GoesOn text ts us := by
  by_cases hliteral : ∃ rest, text = '\\' :: '\r' :: rest
  · obtain ⟨rest, rfl⟩ := hliteral
    exact h.goesOn_backslash
  have hleft := h.left
  have hright := h.right
  cases hleft with
  | endOfText =>
    cases hright
    exact .ends rfl
  | @blank _ c run rest ts hrun hts =>
    have hblank : ∀ d ∈ withoutReturns (c :: run), isWhitespace d = true := fun d hd =>
      hrun.1 d (List.mem_filter.mp hd).1
    rw [withoutReturns_append] at hright
    exact .meets (length_lt_append c run rest) (h.past hts (hright.of_blank hblank)) rfl rfl
  | @lexeme _ c run rest kind value ts hw hlex hts =>
    have hreturn : c ≠ '\r' := ne_return_of_isWhitespace hw
    have hnot : ∀ run', c :: run ≠ '\\' :: '\r' :: run' := fun run' e => hliteral ⟨run' ++ rest, by rw [e]; rfl⟩
    obtain ⟨value', hlex'⟩ := hlex.withoutReturns h.paired hnot
    rw [withoutReturns_cons hreturn] at hlex'
    rw [withoutReturns_append, withoutReturns_cons hreturn] at hright
    obtain ⟨us', hus', hus⟩ := hright.of_lexeme hw hlex'
    rw [← withoutReturns_cons hreturn] at hus'
    obtain ⟨ts', hts', hts⟩ := h.left.of_lexeme hw hlex
    exact .meets (length_lt_append c run rest) (h.past hts' hus') hts hus
  | @failure _ c rest raw message hw hfail =>
    have hreturn : c ≠ '\r' := ne_return_of_isWhitespace hw
    obtain ⟨raw', hfail'⟩ := hfail.withoutReturns h.paired
    rw [withoutReturns_cons hreturn] at hright
    rw [hright.unique (.failure hw hfail')]
    refine .ends ?_
    show some (message, p.line, p.column) = some (message, q.line, q.column)
    rw [h.level.1, h.level.column_eq hw]

theorem report_eq (h : Abreast p q text ts us) :
    (Token.finalError? ts).map Token.report = (Token.finalError? us).map Token.report := by
  induction hn : text.length using Nat.strongRecOn generalizing text p q ts us with
  | _ n ih =>
    cases h.goesOn with
    | ends hsame => exact hsame
    | meets hshorter hlater hts hus =>
      rw [hts, hus]
      exact ih _ (hn ▸ hshorter) hlater rfl

end Abreast

end Grammar

/-- A scan ends with the same report whether carriage returns stand before the line feeds of its text or not. -/
theorem report_unifyNewlines {text : String} (hpaired : PairedReturns text.toList) (name name' : String) :
    (Token.finalError? (tokenize text name)).map Token.report =
      (Token.finalError? (tokenize (String.ofList (unifyNewlines text.toList)) name')).map Token.report := by
  have hright := tokens_tokenize (String.ofList (unifyNewlines text.toList)) name'
  rw [String.toList_ofList, unifyNewlines_eq hpaired] at hright
  rw [unifyNewlines_eq hpaired]
  exact Abreast.report_eq ⟨tokens_tokenize text name, hright, hpaired, rfl, .inl rfl⟩

end ClojureLayout
