import ClojureLayout.Proofs.Scanner.Cut

/-! A scan begins anew at each token: from there on, the tokens of a text are those of its rest, counted from the
    place where the rest stands (`tokenize_suffix`). A line feed that is added to a text ends what the text ends
    with, so that the tokens of a text, a line feed and another text are those of the two (`tokenize_lines`). -/

namespace ClojureLayout
open Grammar

/-! ### Counting from another place -/

namespace Position
variable {p : Position}

/-- A position in a text that stands at `base`, as a position in the whole. -/
def rebase (base p : Position) : Position where
  name := p.name
  offset := base.offset + p.offset
  line := base.line + p.line - 1
  column := if p.line = 1 then base.column + p.column - 1 else p.column

theorem rebase_start (base : Position) : base.rebase { name := base.name } = base := by
  simp [rebase]

theorem rebase_of_column {base : Position} (hbase : base.column = 1) (p : Position) :
    base.rebase p = { p with offset := p.offset + base.offset, line := p.line + (base.line - 1) } := by
  have hoffset : base.offset + p.offset = p.offset + base.offset := Int.add_comm _ _
  have hline : base.line + p.line - 1 = p.line + (base.line - 1) := by omega
  have hcolumn : base.column + p.column - 1 = p.column := by omega
  simp only [rebase, hoffset, hline, hcolumn, ite_self]

theorem rebase_advance (base : Position) (hp : 1 ≤ p.line) (c : Char) :
    base.rebase (p.advance c) = (base.rebase p).advance c := by
  by_cases hc : c = '\n'
  · have hline : p.line + 1 ≠ 1 := by omega
    have hnext : base.line + (p.line + 1) - 1 = base.line + p.line - 1 + 1 := by omega
    simp [advance, rebase, hc, hline, hnext, Int.add_assoc]
  · have hcolumn : base.column + (p.column + 1) - 1 = base.column + p.column - 1 + 1 := by omega
    by_cases hline : p.line = 1 <;> simp [advance, rebase, hc, hline, hcolumn, Int.add_assoc]

theorem line_le_advance (p : Position) (c : Char) : p.line ≤ (p.advance c).line := by
  unfold advance
  split
  · exact Int.le.intro 1 rfl
  · exact Int.le_refl _

theorem line_le_advanceAll (p : Position) (cs : List Char) : p.line ≤ (p.advanceAll cs).line := by
  induction cs generalizing p with
  | nil => exact Int.le_refl _
  | cons c cs ih => exact Int.le_trans (line_le_advance p c) (ih (p.advance c))

theorem rebase_advanceAll (base : Position) (hp : 1 ≤ p.line) (cs : List Char) :
    base.rebase (p.advanceAll cs) = (base.rebase p).advanceAll cs := by
  induction cs generalizing p with
  | nil => rfl
  | cons c cs ih =>
    have hnext : 1 ≤ (p.advance c).line := Int.le_trans hp (line_le_advance p c)
    show base.rebase ((p.advance c).advanceAll cs) = ((base.rebase p).advance c).advanceAll cs
    rw [ih hnext, rebase_advance base hp]

end Position

/-- A token of a text that stands at `base`, as a token of the whole. -/
def Token.rebase (base : Position) (t : Token) : Token := { t with pos := base.rebase t.pos }

/-- A token, some bytes and lines further on. -/
def Token.moved (bytes lines : Int) (t : Token) : Token :=
  { t with pos := { t.pos with offset := t.pos.offset + bytes, line := t.pos.line + lines } }

namespace Grammar
variable {p : Position} {text : List Char} {ts us earlier later : List Token} {t : Token}

theorem Tokens.rebase (h : Tokens p text ts) (hp : 1 ≤ p.line) (base : Position) :
    Tokens (base.rebase p) text (ts.map (Token.rebase base)) := by
  induction h with
  | endOfText => exact .endOfText
  | @blank p c run rest ts hrun _ ih =>
    have hlater := ih (Int.le_trans hp (Position.line_le_advanceAll p _))
    rw [Position.rebase_advanceAll base hp] at hlater
    exact .blank hrun hlater
  | @lexeme p c run rest kind value ts hw hlex _ ih =>
    have hlater := ih (Int.le_trans hp (Position.line_le_advanceAll p _))
    rw [Position.rebase_advanceAll base hp] at hlater
    exact .lexeme hw hlex hlater
  | failure hw hfail => exact .failure hw hfail

theorem Tokens.unique (h : Tokens p text ts) (h' : Tokens p text us) : ts = us := by
  -- Both are what the scanner gives when it stands at `p` before the text.
  have hstands : ({ reads := text.map .char, pos := p, start := p } : Scanner).Stands p [] (text.map .char) :=
    ⟨rfl, rfl, rfl, rfl⟩
  have hsame := (emission_of_tokens h _ hstands).symm.trans (emission_of_tokens h' _ hstands)
  exact congrArg Emission.tokens hsame

/-- A text that stands at `base` has the tokens that it has alone, counted from `base`. -/
theorem tokens_rebase (base : Position) (text : String) :
    Tokens base text.toList ((tokenize text base.name).map (Token.rebase base)) := by
  have htokens := (tokens_tokenize text base.name).rebase (Int.le_refl 1) base
  rwa [Position.rebase_start] at htokens

end Grammar

/-- From each of its tokens on, a text is scanned as if it began there: the tokens are those of its rest, with
    positions counted from the token. -/
theorem tokenize_suffix (source name : String) {earlier later : List Token} {t : Token}
    (hsource : tokenize source name = earlier ++ t :: later) :
    ∃ before suffix : String, source = before ++ suffix ∧ t.pos.offset = (before.utf8ByteSize : Int) ∧
      t :: later = (tokenize suffix name).map (Token.rebase t.pos) := by
  have htokens := tokens_tokenize source name
  rw [hsource] at htokens
  obtain ⟨before, rest, hsplit, -, hpos, -, hrest⟩ := htokens.cut
  rw [Position.advanceAll_start] at hpos
  refine ⟨String.ofList before, String.ofList rest, ?_, by rw [hpos]; rfl, ?_⟩
  · rw [← String.ofList_append, ← hsplit, String.ofList_toList]
  · have hname : t.pos.name = name := by rw [hpos]; rfl
    have halone := tokens_rebase t.pos (String.ofList rest)
    rw [hname, String.toList_ofList] at halone
    exact hrest.unique halone

/-- The parenthesis was read ahead for the mark before it. -/
theorem tokenize_suffix_behind_mark :
    tokenize "a\n#(\n b" "f" =
      [⟨.symbol, "a", "a", ⟨"f", 0, 1, 1⟩⟩, ⟨.dispatch, "#(", "#", ⟨"f", 2, 2, 1⟩⟩] ++
        ⟨.leftParen, "", "(", ⟨"f", 3, 2, 2⟩⟩ ::
          [⟨.symbol, "b", "b", ⟨"f", 6, 3, 2⟩⟩, ⟨.eof, "", "", ⟨"f", 7, 3, 3⟩⟩] ∧
    ∃ before suffix : String, "a\n#(\n b" = before ++ suffix ∧ (3 : Int) = before.utf8ByteSize ∧
      [⟨.leftParen, "", "(", ⟨"f", 3, 2, 2⟩⟩, ⟨.symbol, "b", "b", ⟨"f", 6, 3, 2⟩⟩, ⟨.eof, "", "", ⟨"f", 7, 3, 3⟩⟩] =
        (tokenize suffix "f").map (Token.rebase ⟨"f", 3, 2, 2⟩) := by
  have hsource : tokenize "a\n#(\n b" "f" =
      [⟨.symbol, "a", "a", ⟨"f", 0, 1, 1⟩⟩, ⟨.dispatch, "#(", "#", ⟨"f", 2, 2, 1⟩⟩] ++
        ⟨.leftParen, "", "(", ⟨"f", 3, 2, 2⟩⟩ ::
          [⟨.symbol, "b", "b", ⟨"f", 6, 3, 2⟩⟩, ⟨.eof, "", "", ⟨"f", 7, 3, 3⟩⟩] := by
    decide +kernel
  exact ⟨hsource, tokenize_suffix "a\n#(\n b" "f" hsource⟩

/-- Behind a text that ends with the end of its source, and a line feed, a second text is scanned as if it stood
    alone; only its place is another. -/
theorem tokenize_lines (first second name : String) {ts : List Token} {final : Token}
    (hfirst : tokenize first name = ts ++ [final]) (heof : final.kind = .eof) :
    tokenize (first ++ "\n" ++ second) name =
      ts ++ (tokenize second name).map (Token.moved (first.utf8ByteSize + 1) (first.toList.count '\n' + 1)) := by
  have htokens := tokens_tokenize first name
  rw [hfirst] at htokens
  have hcut := (htokens.cut_eof heof).before_line second.toList
  -- The second text stands at the start of a line.
  generalize hbase : ({ name } : Position).advanceAll (first.toList ++ ['\n']) = base
  have hplace : base = ⟨name, first.utf8ByteSize + 1, first.toList.count '\n' + 1 + 1, 1⟩ := by
    have hsize : '\n'.utf8Size = 1 := rfl
    rw [← hbase, Position.advanceAll_append, Position.advanceAll_start]
    simp [Position.after, Position.advanceAll, Position.advance, hsize, Int.add_comm]
  have hname : base.name = name := by rw [hplace]
  have hcolumn : base.column = 1 := by rw [hplace]
  have hmoved : Token.rebase base = Token.moved (first.utf8ByteSize + 1) (first.toList.count '\n' + 1) := by
    funext t
    rw [Token.rebase, Position.rebase_of_column hcolumn, hplace, Int.add_sub_cancel]
    rfl
  have hsecond := tokens_rebase base second
  rw [hname, hmoved, ← hbase, Position.advanceAll_append] at hsecond
  have hgap : ∀ c ∈ ['\n'], isWhitespace c = true := List.all_eq_true.mp (by decide)
  refine tokenize_of_tokens ?_
  rw [String.toList_append, String.toList_append, List.append_assoc]
  exact hcut.tokens (hsecond.blank_append hgap)

/-- The line feed keeps the tag and the parenthesis apart. -/
theorem tokenize_lines_behind_tag :
    tokenize "é #" "f" =
      [⟨.symbol, "é", "é", ⟨"f", 0, 1, 1⟩⟩, ⟨.octothorpe, "", "#", ⟨"f", 3, 1, 3⟩⟩] ++
        [⟨.eof, "", "", ⟨"f", 4, 1, 4⟩⟩] ∧
    tokenize ("é #" ++ "\n" ++ "(") "f" =
      [⟨.symbol, "é", "é", ⟨"f", 0, 1, 1⟩⟩, ⟨.octothorpe, "", "#", ⟨"f", 3, 1, 3⟩⟩] ++
        [⟨.leftParen, "", "(", ⟨"f", 5, 2, 1⟩⟩, ⟨.eof, "", "", ⟨"f", 6, 2, 2⟩⟩] := by
  have hfirst : tokenize "é #" "f" =
      [⟨.symbol, "é", "é", ⟨"f", 0, 1, 1⟩⟩, ⟨.octothorpe, "", "#", ⟨"f", 3, 1, 3⟩⟩] ++
        [⟨.eof, "", "", ⟨"f", 4, 1, 4⟩⟩] := by
    decide +kernel
  refine ⟨hfirst, (tokenize_lines "é #" "(" "f" hfirst rfl).trans ?_⟩
  decide +kernel

end ClojureLayout
