import ClojureLayout.Proofs.Scanner.Places

/-! White space may be written anew: the raws of a text's tokens, each followed by a line feed and any white
    space, are tokens of the same kinds and values with the same raws (`tokenize_relaid`). Only the mark
    `#` depends on its right neighbour, and nothing is written behind it. -/

namespace ClojureLayout
open Grammar

/-- A token without its position. -/
def Token.unplaced (t : Token) : Kind × String × String := (t.kind, t.value, t.raw)

/-- The mark that makes a dispatch of the delimiter behind it. -/
def Token.IsMark (t : Token) : Prop := t.kind = .dispatch ∧ t.raw = "#"

instance (t : Token) : Decidable t.IsMark := inferInstanceAs (Decidable (_ ∧ _))

/-- `text` is the raws of the tokens with new white space: none behind a mark, and behind every other token a
    line feed and any more of it. -/
inductive Relaid : List Token → (text : List Char) → Prop
  | nil : Relaid [] []
  | mark {t ts text} : t.IsMark → Relaid ts text → Relaid (t :: ts) (t.raw.toList ++ text)
  | spaced {t ts more text} : ¬t.IsMark → (∀ c ∈ more, isWhitespace c = true) → Relaid ts text →
      Relaid (t :: ts) (t.raw.toList ++ '\n' :: more ++ text)

theorem Relaid.head {t : Token} {ts : List Token} {c : Char} {run text : List Char} (h : Relaid (t :: ts) text)
    (hraw : t.raw.toList = c :: run) : ∃ more, text = c :: more := by
  cases h with
  | mark => exact ⟨_, by rw [hraw, List.cons_append]⟩
  | spaced => exact ⟨_, by rw [hraw, List.append_assoc, List.cons_append]⟩

namespace Grammar
variable {p q : Position} {text raw rest value : List Char} {ts : List Token} {final : Token} {kind : Kind} {c : Char}

/-- White space before a text changes nothing but where its tokens stand. -/
theorem Tokens.blank_append {gap : List Char} (hgap : ∀ c ∈ gap, isWhitespace c = true)
    (h : Tokens (p.advanceAll gap) text ts) : Tokens p (gap ++ text) ts := by
  cases gap with
  | nil => exact h
  | cons d gap =>
    -- White space at the head of the text joins the run; anything else stops it.
    generalize hq : p.advanceAll (d :: gap) = q at h
    cases h with
    | endOfText =>
      subst hq
      exact .blank ⟨hgap, by simp⟩ .endOfText
    | @blank _ c run rest ts hrun hlater =>
      have hall : ∀ e ∈ d :: (gap ++ c :: run), isWhitespace e = true := by
        intro e he
        rw [← List.cons_append, List.mem_append] at he
        exact he.elim (hgap e) (hrun.1 e)
      have hblank : Tokens p (d :: (gap ++ c :: run) ++ rest) ts := by
        refine .blank ⟨hall, hrun.2⟩ ?_
        rwa [← List.cons_append, Position.advanceAll_append, hq]
      simpa using hblank
    | lexeme hw hlex hlater =>
      subst hq
      exact .blank ⟨hgap, by simp [hw]⟩ (.lexeme hw hlex hlater)
    | failure hw hfail =>
      subst hq
      exact .blank ⟨hgap, by simp [hw]⟩ (.failure hw hfail)

/-- A lexeme that does not depend on its right neighbour is one before a line feed too. -/
theorem IsLexeme.before_newline (h : IsLexeme raw rest kind value) (hmark : ¬(kind = .dispatch ∧ raw = ['#']))
    (more : List Char) : IsLexeme raw ('\n' :: more) kind value := by
  have stop : ∀ {run}, (Longest isSymbolChar run rest) → Longest isSymbolChar run ('\n' :: more) := fun hrun =>
    ⟨hrun.1, by simpa using (by decide : isSymbolChar '\n' = false)⟩
  cases h with
  | comment hrun => exact .comment ⟨hrun.1, by simp⟩
  | string hopen hcloses => exact .string hopen hcloses
  | charLiteral hrun => exact .charLiteral (stop hrun)
  | keyword hrun => exact .keyword (stop hrun)
  | lambdaArg hrun => exact .lambdaArg (stop hrun)
  | discard => exact .discard
  | dispatch => exact absurd ⟨rfl, rfl⟩ hmark
  | octothorpe => exact .octothorpe (by simpa using (by decide : '\n' ∉ dispatched))
  | mark hmem => exact .mark hmem
  | number hrun hstarts => exact .number (stop hrun) hstarts
  | symbol hrun hcolon hstarts => exact .symbol (stop hrun) hcolon hstarts

/-- The mark of a dispatch is one before any text that begins as the text behind it did. -/
theorem IsLexeme.mark_neighbour (h : IsLexeme ['#'] rest .dispatch value) :
    ∃ d later, rest = d :: later ∧ d ∈ dispatched ∧ ∀ more, IsLexeme ['#'] (d :: more) .dispatch value := by
  cases h with
  | dispatch hd => exact ⟨_, _, rfl, hd, fun _ => .dispatch hd⟩
  | mark hmem => exact absurd hmem (by decide)

/-- A text that begins with no white space begins with the raw of its first token. -/
theorem Tokens.head_raw (h : Tokens p (c :: rest) ts) (hw : isWhitespace c = false) :
    ∃ t later run, ts = t :: later ∧ t.raw.toList = c :: run ∧ t.kind ≠ .eof := by
  cases h with
  | blank hrun =>
    have := hrun.1 c List.mem_cons_self
    simp [hw] at this
  | lexeme hw hlex hlater =>
    exact ⟨_, _, _, rfl, String.toList_ofList, hlex.kind_ne_eof⟩
  | @failure _ _ _ raw message hw hfail =>
    have hraw : ∃ run, raw = c :: run := by cases hfail <;> exact ⟨_, rfl⟩
    obtain ⟨run, rfl⟩ := hraw
    exact ⟨_, _, run, rfl, String.toList_ofList, by simp⟩

/-- New white space keeps the tokens, but for where they stand. -/
theorem Tokens.relaid (h : Tokens p text (ts ++ [final])) (heof : final.kind = .eof) {new : List Char}
    (hnew : Relaid ts new) (q : Position) :
    ∃ us, Tokens q new us ∧ us.map Token.unplaced = (ts ++ [final]).map Token.unplaced := by
  generalize hall : ts ++ [final] = all at h
  induction h generalizing ts new q with
  | endOfText =>
    obtain ⟨rfl, -⟩ := split_single hall.symm
    cases hnew
    exact ⟨_, .endOfText, rfl⟩
  | blank _ _ ih => exact ih hnew q hall
  | @lexeme p c run rest kind value later hw hlex hlater ih =>
    cases hnew with
    | nil =>
      obtain ⟨rfl, -⟩ := List.cons.inj hall
      exact absurd heof hlex.kind_ne_eof
    | @mark t ts text hmark htext =>
      rw [List.cons_append, List.cons.injEq] at hall
      obtain ⟨rfl, hall⟩ := hall
      obtain ⟨us, hus, hsame⟩ := ih htext (q.advanceAll (c :: run)) hall
      obtain ⟨rfl, hraw⟩ := hmark
      obtain ⟨rfl, rfl⟩ : c = '#' ∧ run = [] := by
        simpa using congrArg String.toList hraw
      obtain ⟨d, rest, rfl, hd, hbefore⟩ := hlex.mark_neighbour
      -- The text behind the mark begins as it did: with the raw of the next token, which is not the end.
      have hdw : isWhitespace d = false := by
        have hall : dispatched.all (!isWhitespace ·) = true := by decide
        simpa using List.all_eq_true.mp hall d hd
      obtain ⟨u, later, run, rfl, hu, hne⟩ := hlater.head_raw hdw
      cases ts with
      | nil =>
        obtain ⟨rfl, -⟩ := List.cons.inj hall
        exact absurd heof hne
      | cons v ts =>
        obtain ⟨rfl, -⟩ := List.cons.inj hall
        obtain ⟨more, rfl⟩ := htext.head hu
        refine ⟨⟨.dispatch, String.ofList value, String.ofList ['#'], q⟩ :: us, ?_, by
          rw [List.map_cons, hsame]; rfl⟩
        rw [String.toList_ofList]
        exact .lexeme hw (hbefore more) hus
    | @spaced t ts more text hmark hmore htext =>
      rw [List.cons_append, List.cons.injEq] at hall
      obtain ⟨rfl, hall⟩ := hall
      obtain ⟨us, hus, hsame⟩ := ih htext ((q.advanceAll (c :: run)).advanceAll ('\n' :: more)) hall
      have hblank : ∀ d ∈ '\n' :: more, isWhitespace d = true :=
        List.forall_mem_cons.mpr ⟨by decide, hmore⟩
      have hmark' : ¬(kind = .dispatch ∧ c :: run = ['#']) := by
        rintro ⟨rfl, hraw⟩
        exact hmark ⟨rfl, by rw [hraw]⟩
      refine ⟨⟨kind, String.ofList value, String.ofList (c :: run), q⟩ :: us, ?_, by
        rw [List.map_cons, hsame]; rfl⟩
      rw [String.toList_ofList, List.append_assoc]
      exact .lexeme hw (hlex.before_newline hmark' _) (hus.blank_append hblank)
  | failure hw hfail =>
    obtain ⟨-, rfl⟩ := split_single hall.symm
    cases heof

end Grammar

/-- The tokens that a text is cut into are those that scanning it gives. -/
theorem tokenize_of_tokens {source name : String} {ts : List Token} (h : Tokens { name } source.toList ts) :
    tokenize source name = ts :=
  congrArg Emission.tokens (emission_of_tokens h _ (Scanner.ofReads_stands name (Read.ofText source)))

/-- A text that ends with the end of its source may be laid out anew: raws of its tokens with other white space
    give the same kinds, values and raws in the same order, and end with the end of the source again. -/
theorem tokenize_relaid (source name : String) {ts : List Token} {final : Token}
    (hsource : tokenize source name = ts ++ [final]) (heof : final.kind = .eof) {lead text : List Char}
    (hlead : ∀ c ∈ lead, isWhitespace c = true) (htext : Relaid ts text) (name' : String) :
    (tokenize (String.ofList (lead ++ text)) name').map Token.unplaced = (tokenize source name).map Token.unplaced ∧
      ∃ last, (tokenize (String.ofList (lead ++ text)) name').getLast? = some last ∧ last.kind = .eof := by
  have htokens := tokens_tokenize source name
  rw [hsource] at htokens
  obtain ⟨us, hus, hsame⟩ := htokens.relaid heof htext (({ name := name' } : Position).advanceAll lead)
  have hnew : tokenize (String.ofList (lead ++ text)) name' = us := by
    refine tokenize_of_tokens ?_
    rw [String.toList_ofList]
    exact hus.blank_append hlead
  rw [hnew, hsource]
  refine ⟨hsame, ?_⟩
  have hlast : (us.map Token.unplaced).getLast? = some final.unplaced := by rw [hsame]; simp
  rw [List.getLast?_map, Option.map_eq_some_iff] at hlast
  obtain ⟨last, hlast, hunplaced⟩ := hlast
  exact ⟨last, hlast, (congrArg Prod.fst hunplaced).trans heof⟩

/-- The parenthesis stays right behind its mark, and all else moves. -/
theorem tokenize_relaid_behind_mark :
    tokenize "#(a" "f" =
      [⟨.dispatch, "#(", "#", ⟨"f", 0, 1, 1⟩⟩, ⟨.leftParen, "", "(", ⟨"f", 1, 1, 2⟩⟩,
        ⟨.symbol, "a", "a", ⟨"f", 2, 1, 3⟩⟩] ++ [⟨.eof, "", "", ⟨"f", 3, 1, 4⟩⟩] ∧
    (∀ c ∈ [' '], isWhitespace c = true) ∧
    Relaid [⟨.dispatch, "#(", "#", ⟨"f", 0, 1, 1⟩⟩, ⟨.leftParen, "", "(", ⟨"f", 1, 1, 2⟩⟩,
      ⟨.symbol, "a", "a", ⟨"f", 2, 1, 3⟩⟩] "#(\n,a\n".toList ∧
    (tokenize (String.ofList ([' '] ++ "#(\n,a\n".toList)) "g").map Token.unplaced =
      [(.dispatch, "#(", "#"), (.leftParen, "", "("), (.symbol, "a", "a"), (.eof, "", "")] := by
  have hsource : tokenize "#(a" "f" =
      [⟨.dispatch, "#(", "#", ⟨"f", 0, 1, 1⟩⟩, ⟨.leftParen, "", "(", ⟨"f", 1, 1, 2⟩⟩,
        ⟨.symbol, "a", "a", ⟨"f", 2, 1, 3⟩⟩] ++ [⟨.eof, "", "", ⟨"f", 3, 1, 4⟩⟩] := by
    decide +kernel
  have hlead : ∀ c ∈ [' '], isWhitespace c = true := List.all_eq_true.mp (by decide)
  have hsplit : "#(\n,a\n".toList =
      "#".toList ++ ("(".toList ++ '\n' :: [','] ++ ("a".toList ++ '\n' :: [] ++ [])) := by
    decide
  have htext : Relaid [⟨.dispatch, "#(", "#", ⟨"f", 0, 1, 1⟩⟩, ⟨.leftParen, "", "(", ⟨"f", 1, 1, 2⟩⟩,
      ⟨.symbol, "a", "a", ⟨"f", 2, 1, 3⟩⟩] "#(\n,a\n".toList := by
    rw [hsplit]
    have hcomma : ∀ c ∈ [','], isWhitespace c = true := List.all_eq_true.mp (by decide)
    exact .mark (by decide) (.spaced (by decide) hcomma (.spaced (by decide) (by simp) .nil))
  have hsame := (tokenize_relaid "#(a" "f" hsource rfl hlead htext "g").1
  rw [hsource] at hsame
  exact ⟨hsource, hlead, htext, hsame⟩

end ClojureLayout
