import ClojureLayout.Proofs.Scanner.Relayout

/-! A text is cut from its start on, and a lexeme looks ahead by one character. `Cut` says what the tokens of a
    text are up to some place in it: they stay the same whatever stands behind the place, as long as it begins
    with the same character. Text that is added at the end changes the last token at most, and nothing once a
    character was not recognized (`tokenize_append`). -/

namespace ClojureLayout
namespace Grammar

/-- `before`, with `rest` behind it, is cut into some tokens and white space. -/
inductive Cut : Position → (before : List Char) → List Token → (rest : List Char) → Prop
  | nil {p rest} : Cut p [] [] rest
  | blank {p gap before ts rest} : (∀ c ∈ gap, isWhitespace c = true) → Cut (p.advanceAll gap) before ts rest →
      Cut p (gap ++ before) ts rest
  | lexeme {p c run before kind value ts rest} : isWhitespace c = false →
      IsLexeme (c :: run) (before ++ rest) kind value → Cut (p.advanceAll (c :: run)) before ts rest →
      Cut p (c :: run ++ before) (⟨kind, String.ofList value, String.ofList (c :: run), p⟩ :: ts) rest

variable {p : Position} {text raw rest rest' before value : List Char} {ts us earlier later : List Token} {t final : Token}
  {kind : Kind}

/-! ### One lexeme -/

/-- A lexeme depends on the text behind it by its first character only. -/
theorem IsLexeme.of_head (h : IsLexeme raw rest kind value) (hhead : rest'.head? = rest.head?) :
    IsLexeme raw rest' kind value := by
  have stop : ∀ {q run}, Longest q run rest → Longest q run rest' := fun hrun => ⟨hrun.1, hhead ▸ hrun.2⟩
  cases h with
  | comment hrun => exact .comment (stop hrun)
  | string hopen hcloses => exact .string hopen hcloses
  | charLiteral hrun => exact .charLiteral (stop hrun)
  | keyword hrun => exact .keyword (stop hrun)
  | lambdaArg hrun => exact .lambdaArg (stop hrun)
  | discard => exact .discard
  | dispatch hc =>
    obtain ⟨more, rfl⟩ := List.head?_eq_some_iff.mp hhead
    exact .dispatch hc
  | octothorpe hrest => exact .octothorpe (hhead ▸ hrest)
  | mark hmem => exact .mark hmem
  | number hrun hstarts => exact .number (stop hrun) hstarts
  | symbol hrun hcolon hstarts => exact .symbol (stop hrun) hcolon hstarts

theorem IsLexeme.before_line (h : IsLexeme raw [] kind value) (more : List Char) :
    IsLexeme raw ('\n' :: more) kind value := by
  refine h.before_newline ?_ more
  rintro ⟨rfl, rfl⟩
  obtain ⟨d, later, hd, -⟩ := h.mark_neighbour
  cases hd

/-! ### A text up to a place in it -/

theorem Cut.tokens (h : Cut p before ts rest) (hrest : Tokens (p.advanceAll before) rest us) :
    Tokens p (before ++ rest) (ts ++ us) := by
  induction h with
  | nil => exact hrest
  | blank hgap _ ih =>
    rw [Position.advanceAll_append] at hrest
    rw [List.append_assoc]
    exact (ih hrest).blank_append hgap
  | lexeme hw hlex _ ih =>
    rw [Position.advanceAll_append] at hrest
    rw [List.append_assoc]
    exact .lexeme hw hlex (ih hrest)

theorem Cut.of_head (h : Cut p before ts rest) (hhead : rest'.head? = rest.head?) : Cut p before ts rest' := by
  induction h with
  | nil => exact .nil
  | blank hgap _ ih => exact .blank hgap (ih hhead)
  | @lexeme p c run before kind value ts rest hw hlex _ ih =>
    have hahead : (before ++ rest').head? = (before ++ rest).head? := by cases before <;> simp [hhead]
    exact .lexeme hw (hlex.of_head hahead) (ih hhead)

theorem Cut.before_line (h : Cut p before ts []) (more : List Char) : Cut p before ts ('\n' :: more) := by
  generalize hrest : ([] : List Char) = rest at h
  induction h with
  | nil => exact .nil
  | blank hgap _ ih => exact .blank hgap (ih hrest)
  | @lexeme p c run before kind value ts rest hw hlex _ ih =>
    subst hrest
    -- The line feed is the neighbour of the last lexeme only.
    refine .lexeme hw ?_ (ih rfl)
    cases before with
    | nil => exact hlex.before_line more
    | cons d before => exact hlex.of_head rfl

theorem Cut.isTerminal_eq_false (h : Cut p before ts rest) : ∀ t ∈ ts, t.kind.isTerminal = false := by
  induction h with
  | nil => simp
  | blank _ _ ih => exact ih
  | lexeme _ hlex _ ih => exact List.forall_mem_cons.mpr ⟨hlex.isTerminal_eq_false, ih⟩

/-- Every token is the first of what begins at its place, and the tokens before it are cut before that. -/
theorem Tokens.cut (h : Tokens p text (earlier ++ t :: later)) :
    ∃ before rest, text = before ++ rest ∧ Cut p before earlier rest ∧ t.pos = p.advanceAll before ∧
      (∀ c ∈ rest.head?, isWhitespace c = false) ∧ Tokens t.pos rest (t :: later) := by
  generalize hts : earlier ++ t :: later = ts at h
  induction h generalizing earlier with
  | endOfText =>
    obtain ⟨rfl, rfl⟩ := split_single hts.symm
    obtain rfl : later = [] := (List.cons.inj hts).2
    exact ⟨[], [], rfl, .nil, rfl, by simp, .endOfText⟩
  | @blank p c run rest ts hrun _ ih =>
    obtain ⟨before, rest, rfl, hcut, hpos, hhead, htokens⟩ := ih hts
    refine ⟨c :: run ++ before, rest, by rw [List.append_assoc], .blank hrun.1 hcut, ?_, hhead, htokens⟩
    rw [Position.advanceAll_append, hpos]
  | @lexeme p c run rest kind value ts hw hlex hlater ih =>
    cases earlier with
    | nil =>
      obtain ⟨rfl, rfl⟩ := List.cons.inj hts
      exact ⟨[], _, rfl, .nil, rfl, by simp [hw], .lexeme hw hlex hlater⟩
    | cons e earlier =>
      rw [List.cons_append, List.cons.injEq] at hts
      obtain ⟨rfl, hts⟩ := hts
      obtain ⟨before, rest, rfl, hcut, hpos, hhead, htokens⟩ := ih hts
      refine ⟨c :: run ++ before, rest, by rw [List.append_assoc], .lexeme hw hlex hcut, ?_, hhead, htokens⟩
      rw [Position.advanceAll_append, hpos]
  | failure hw hfail =>
    obtain ⟨rfl, rfl⟩ := split_single hts.symm
    obtain rfl : later = [] := (List.cons.inj hts).2
    exact ⟨[], _, rfl, .nil, rfl, by simp [hw], .failure hw hfail⟩

/-- The last token is the end of the text, or the failure that the rest of the text begins with. -/
theorem Tokens.cut_terminal (h : Tokens p text (ts ++ [final])) (hfinal : final.kind.isTerminal = true) :
    ∃ before rest, text = before ++ rest ∧ Cut p before ts rest ∧
      (rest = [] ∧ final.kind = .eof ∨
        ∃ c later raw message, rest = c :: later ∧ isWhitespace c = false ∧ Failure (c :: later) raw message ∧
          final = ⟨.error, message, String.ofList raw, p.advanceAll before⟩) := by
  obtain ⟨before, rest, rfl, hcut, hpos, hhead, hrest⟩ := h.cut
  refine ⟨before, rest, rfl, hcut, ?_⟩
  rw [hpos] at hrest
  cases hrest with
  | endOfText => exact .inl ⟨rfl, rfl⟩
  | @blank _ c run _ _ hrun =>
    have := hrun.1 c List.mem_cons_self
    simp [hhead c rfl] at this
  | lexeme _ hlex => cases hfinal.symm.trans hlex.isTerminal_eq_false
  | failure hw hfail => exact .inr ⟨_, _, _, _, rfl, hw, hfail, rfl⟩

theorem Tokens.cut_eof (h : Tokens p text (ts ++ [final])) (heof : final.kind = .eof) : Cut p text ts [] := by
  obtain ⟨before, rest, rfl, hcut, ⟨rfl, -⟩ | ⟨_, _, _, _, -, -, -, rfl⟩⟩ := h.cut_terminal (by rw [heof]; rfl)
  · rwa [List.append_nil]
  · cases heof

theorem Tokens.cut_failure (h : Tokens p text (ts ++ [final])) (herror : final.kind = .error) :
    ∃ before c rest raw message, text = before ++ c :: rest ∧ Cut p before ts (c :: rest) ∧
      isWhitespace c = false ∧ Failure (c :: rest) raw message ∧
      final = ⟨.error, message, String.ofList raw, p.advanceAll before⟩ := by
  obtain ⟨before, rest, rfl, hcut, ⟨-, heof⟩ | ⟨c, later, raw, message, rfl, hw, hfail, hfinal⟩⟩ :=
    h.cut_terminal (by rw [herror]; rfl)
  · cases heof.symm.trans herror
  · exact ⟨before, c, later, raw, message, rfl, hcut, hw, hfail, hfinal⟩

/-! ### Text added at the end -/

theorem Tokens.append (h : Tokens p text (earlier ++ t :: later)) (ht : t.kind ≠ .eof) (more : List Char) :
    ∃ us, Tokens p (text ++ more) (earlier ++ us) := by
  obtain ⟨before, rest, rfl, hcut, -, -, hrest⟩ := h.cut
  -- `t` begins in the text, and its first character is all that the tokens before it look at.
  have hne : rest ≠ [] := by
    rintro rfl
    generalize t.pos = q at hrest
    cases hrest
    exact ht rfl
  obtain ⟨c, rest, rfl⟩ := List.exists_cons_of_ne_nil hne
  obtain ⟨us, hus⟩ := Tokens.exists (c :: rest ++ more) (p.advanceAll before)
  have hahead : (c :: rest ++ more).head? = (c :: rest).head? := rfl
  refine ⟨us, ?_⟩
  rw [List.append_assoc]
  exact (hcut.of_head hahead).tokens hus

theorem Tokens.append_unrecognized (h : Tokens p text (ts ++ [final])) (herror : final.kind = .error)
    (hvalue : "unrecognized token".toList <+: final.value.toList) (more : List Char) :
    Tokens p (text ++ more) (ts ++ [final]) := by
  obtain ⟨before, c, rest, raw, message, rfl, hcut, hw, hfail, rfl⟩ := h.cut_failure herror
  cases hfail with
  | openString =>
    have : ¬"unrecognized token".toList <+: "reached EOF before string closing quote".toList := by decide
    exact absurd hvalue this
  | loneBackslash =>
    have : ¬"unrecognized token".toList <+: "invalid character literal".toList := by decide
    exact absurd hvalue this
  | unrecognized hsym hspecial hmark =>
    have hahead : (c :: (rest ++ more)).head? = (c :: rest).head? := rfl
    rw [List.append_assoc, List.cons_append]
    exact (hcut.of_head hahead).tokens (.failure hw (.unrecognized hsym hspecial hmark))

end Grammar
open Grammar

/-- What is added to a text keeps its tokens, up to a point. A text that ends with a character that is not
    recognized has the same tokens with anything behind it; one that ends with another error has the tokens
    before the error, and one that ends with the end of its source has all but its last token. -/
theorem tokenize_append (text more name : String) {ts : List Token} {final : Token}
    (htext : tokenize text name = ts ++ [final]) :
    (final.kind = .error → "unrecognized token".toList <+: final.value.toList →
      tokenize (text ++ more) name = tokenize text name) ∧
    (final.kind = .error → ts <+: tokenize (text ++ more) name) ∧
    (final.kind = .eof → ts.dropLast <+: tokenize (text ++ more) name) := by
  have htokens := tokens_tokenize text name
  rw [htext] at htokens
  have extended : ∀ {us}, Tokens { name } (text.toList ++ more.toList) us → tokenize (text ++ more) name = us := by
    intro us hus
    refine tokenize_of_tokens ?_
    rwa [String.toList_append]
  have keeps : ∀ {earlier t later}, ts ++ [final] = earlier ++ t :: later → t.kind ≠ .eof →
      earlier <+: tokenize (text ++ more) name := by
    intro earlier t later hsplit ht
    rw [hsplit] at htokens
    obtain ⟨us, hus⟩ := htokens.append ht more.toList
    rw [extended hus]
    exact List.prefix_append _ _
  refine ⟨fun herror hvalue => ?_, fun herror => ?_, fun heof => ?_⟩
  · rw [htext]
    exact extended (htokens.append_unrecognized herror hvalue more.toList)
  · exact keeps rfl (by simp [herror])
  · cases hlast : ts.getLast? with
    | none =>
      obtain rfl := List.getLast?_eq_none_iff.mp hlast
      exact List.nil_prefix
    | some t =>
      obtain ⟨before, rfl⟩ := List.getLast?_eq_some_iff.mp hlast
      have ht : t.kind.isTerminal = false := (htokens.cut_eof heof).isTerminal_eq_false t (by simp)
      rw [List.dropLast_concat]
      refine keeps (List.append_assoc before [t] [final]) fun ht' => ?_
      rw [ht'] at ht
      cases ht

/-- A symbol that ends the text goes on behind it; one before an error stays. -/
theorem tokenize_append_at_errors_and_at_end :
    tokenize "a|" "f" =
      [⟨.symbol, "a", "a", ⟨"f", 0, 1, 1⟩⟩] ++
        [⟨.error, "unrecognized token starting with |", "|", ⟨"f", 1, 1, 2⟩⟩] ∧
    tokenize ("a|" ++ "b") "f" = tokenize "a|" "f" ∧
    tokenize "a\x22b" "f" =
      [⟨.symbol, "a", "a", ⟨"f", 0, 1, 1⟩⟩] ++
        [⟨.error, "reached EOF before string closing quote", "\x22b", ⟨"f", 1, 1, 2⟩⟩] ∧
    [⟨.symbol, "a", "a", ⟨"f", 0, 1, 1⟩⟩] <+: tokenize ("a\x22b" ++ "\x22") "f" ∧
    tokenize "(a" "f" =
      [⟨.leftParen, "", "(", ⟨"f", 0, 1, 1⟩⟩, ⟨.symbol, "a", "a", ⟨"f", 1, 1, 2⟩⟩] ++
        [⟨.eof, "", "", ⟨"f", 2, 1, 3⟩⟩] ∧
    [⟨.leftParen, "", "(", ⟨"f", 0, 1, 1⟩⟩] <+: tokenize ("(a" ++ "b") "f" := by
  have hunknown : tokenize "a|" "f" =
      [⟨.symbol, "a", "a", ⟨"f", 0, 1, 1⟩⟩] ++
        [⟨.error, "unrecognized token starting with |", "|", ⟨"f", 1, 1, 2⟩⟩] := by
    decide +kernel
  have hopen : tokenize "a\x22b" "f" =
      [⟨.symbol, "a", "a", ⟨"f", 0, 1, 1⟩⟩] ++
        [⟨.error, "reached EOF before string closing quote", "\x22b", ⟨"f", 1, 1, 2⟩⟩] := by
    decide +kernel
  have heof : tokenize "(a" "f" =
      [⟨.leftParen, "", "(", ⟨"f", 0, 1, 1⟩⟩, ⟨.symbol, "a", "a", ⟨"f", 1, 1, 2⟩⟩] ++
        [⟨.eof, "", "", ⟨"f", 2, 1, 3⟩⟩] := by
    decide +kernel
  refine ⟨hunknown, ?_, hopen, ?_, heof, ?_⟩
  · exact (tokenize_append "a|" "b" "f" hunknown).1 rfl (by decide)
  · exact (tokenize_append "a\x22b" "\x22" "f" hopen).2.1 rfl
  · exact (tokenize_append "(a" "b" "f" heof).2.2 rfl

end ClojureLayout
