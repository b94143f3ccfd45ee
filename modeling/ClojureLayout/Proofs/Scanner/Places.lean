import ClojureLayout.Proofs.Scanner.Lossless
import ClojureLayout.Proofs.Scanner.MaximalMunch

/-! Positions are exact: the position of a token counts the bytes, the lines and the characters of its line in
    the part of the source before it, the raw of the token stands at its offset in the bytes of the source,
    and offsets increase from token to token (`tokenize_pos_exact`). -/

namespace ClojureLayout
open Grammar

/-! ### Counting a text -/

namespace Position
variable {p : Position}

theorem advanceAll_append (p : Position) (as bs : List Char) :
    p.advanceAll (as ++ bs) = (p.advanceAll as).advanceAll bs :=
  List.foldl_append

theorem advance_offset (p : Position) (c : Char) : (p.advance c).offset = p.offset + c.utf8Size := by
  unfold advance
  split <;> rfl

theorem advance_name (p : Position) (c : Char) : (p.advance c).name = p.name := by
  unfold advance
  split <;> rfl

theorem advanceAll_name (p : Position) (cs : List Char) : (p.advanceAll cs).name = p.name := by
  induction cs generalizing p with
  | nil => rfl
  | cons c cs ih => exact (ih (p.advance c)).trans (advance_name p c)

theorem offset_le_advanceAll (p : Position) (cs : List Char) : p.offset ≤ (p.advanceAll cs).offset := by
  induction cs generalizing p with
  | nil => exact Int.le_refl _
  | cons c cs ih =>
    have := ih (p.advance c)
    have := advance_offset p c
    simp only [advanceAll, List.foldl_cons] at *
    omega

theorem offset_lt_advanceAll (p : Position) (c : Char) (cs : List Char) :
    p.offset < (p.advanceAll (c :: cs)).offset := by
  have := offset_le_advanceAll (p.advance c) cs
  have := advance_offset p c
  have := c.utf8Size_pos
  simp only [advanceAll, List.foldl_cons] at *
  omega

/-- The position after `before` in a text called `name`. -/
def after (name : String) (before : List Char) : Position where
  name
  offset := (String.ofList before).utf8ByteSize
  line := 1 + before.count '\n'
  column := 1 + (before.reverse.takeWhile (· != '\n')).length

theorem after_concat (name : String) (before : List Char) (c : Char) :
    after name (before ++ [c]) = (after name before).advance c := by
  have hsize : (String.ofList (before ++ [c])).utf8ByteSize = (String.ofList before).utf8ByteSize + c.utf8Size := by
    rw [String.ofList_append, String.utf8ByteSize_append]
    congr 1
    exact String.utf8ByteSize_singleton
  unfold after advance
  rw [hsize, List.count_append, List.reverse_append, List.reverse_singleton, List.singleton_append, List.takeWhile_cons]
  by_cases hc : c = '\n'
  · subst hc
    simp [Int.add_assoc]
  · simp [hc, Int.add_assoc]

theorem advanceAll_start (name : String) (before : List Char) :
    ({ name } : Position).advanceAll before = after name before := by
  have hreverse : ∀ cs : List Char, ({ name } : Position).advanceAll cs.reverse = after name cs.reverse := by
    intro cs
    induction cs with
    | nil => rfl
    | cons c cs ih =>
      rw [List.reverse_cons, advanceAll_append, ih, after_concat]
      rfl
  simpa using hreverse before.reverse

end Position

/-! ### The places of tokens -/

namespace Grammar
variable {p : Position} {text raw rest value : List Char} {ts earlier later : List Token} {t : Token} {kind : Kind}

theorem IsLexeme.isTerminal_eq_false (h : IsLexeme raw rest kind value) : kind.isTerminal = false := by
  cases h with
  | mark hmem => exact (by decide : ∀ m ∈ marks, m.2.isTerminal = false) _ hmem
  | _ => rfl

theorem IsLexeme.kind_ne_eof (h : IsLexeme raw rest kind value) : kind ≠ .eof := by
  rintro rfl
  cases h.isTerminal_eq_false

theorem Failure.raw_prefix {message : String} (h : Failure text raw message) : raw <+: text := by
  cases h with
  | openString => exact List.prefix_rfl
  | loneBackslash => exact List.prefix_rfl
  | unrecognized => exact ⟨_, rfl⟩

theorem split_single {t u : Token} (h : [u] = earlier ++ t :: later) : earlier = [] ∧ t = u := by
  cases earlier with
  | nil => exact ⟨rfl, (List.cons.inj h).1.symm⟩
  | cons e earlier => simp at h

/-- Each token stands after the tokens before it, at the position that their text leads to. -/
theorem Tokens.place (h : Tokens p text ts) (hts : ts = earlier ++ t :: later) :
    ∃ before after, text = before ++ t.raw.toList ++ after ∧ Woven (earlier ++ [t]) (before ++ t.raw.toList) ∧
      (t.kind = .eof → after = []) ∧ t.pos = p.advanceAll before := by
  induction h generalizing earlier with
  | endOfText =>
    obtain ⟨rfl, rfl⟩ := split_single hts
    exact ⟨[], [], rfl, .single _, fun _ => rfl, rfl⟩
  | @blank p c run rest ts hrun _ ih =>
    obtain ⟨before, after, rfl, hwoven, heof, hpos⟩ := ih hts
    refine ⟨c :: run ++ before, after, by simp only [List.append_assoc], ?_, heof, ?_⟩
    · rw [List.append_assoc]
      exact hwoven.blank hrun.1 (by simp)
    · rw [Position.advanceAll_append, hpos]
  | @lexeme p c run rest kind value ts hw hlex _ ih =>
    cases earlier with
    | nil =>
      obtain ⟨rfl, rfl⟩ := List.cons.inj hts
      exact ⟨[], rest, by simp, .single _, fun heof => absurd heof hlex.kind_ne_eof, rfl⟩
    | cons e earlier =>
      rw [List.cons_append, List.cons.injEq] at hts
      obtain ⟨rfl, hts⟩ := hts
      obtain ⟨before, after, rfl, hwoven, heof, hpos⟩ := ih hts
      refine ⟨c :: run ++ before, after, by simp only [List.append_assoc], ?_, heof, ?_⟩
      · have hhead := hwoven.raw (t := ⟨kind, String.ofList value, String.ofList (c :: run), p⟩)
        rwa [String.toList_ofList, ← List.append_assoc] at hhead
      · rw [Position.advanceAll_append, hpos]
  | @failure p c rest raw message hw hfail =>
    obtain ⟨rfl, rfl⟩ := split_single hts
    obtain ⟨after, hafter⟩ := hfail.raw_prefix
    exact ⟨[], after, by simp [hafter], .single _, (nomatch ·), rfl⟩

/-- No token stands before the start of the text. -/
theorem Tokens.offset_le (h : Tokens p text ts) : ∀ t ∈ ts, p.offset ≤ t.pos.offset := by
  intro t ht
  obtain ⟨earlier, later, hts⟩ := List.append_of_mem ht
  obtain ⟨before, -, -, -, -, hpos⟩ := h.place hts
  rw [hpos]
  exact Position.offset_le_advanceAll p before

theorem Tokens.pairwise_offset_lt (h : Tokens p text ts) : ts.Pairwise fun t u => t.pos.offset < u.pos.offset := by
  induction h with
  | endOfText => exact List.pairwise_singleton _ _
  | blank _ _ ih => exact ih
  | @lexeme p c run rest kind value ts hw hlex hlater ih =>
    refine List.pairwise_cons.mpr ⟨fun u hu => ?_, ih⟩
    exact Int.lt_of_lt_of_le (Position.offset_lt_advanceAll p c run) (hlater.offset_le u hu)
  | failure => exact List.pairwise_singleton _ _

end Grammar

/-- The tokens of a text are those that the grammar cuts it into. -/
theorem tokens_tokenize (source name : String) : Tokens { name } source.toList (tokenize source name) := by
  obtain ⟨ts, hts⟩ := Tokens.exists source.toList { name }
  have hemission := emission_of_tokens hts _ (Scanner.ofReads_stands name (Read.ofText source))
  rwa [show tokenize source name = ts from congrArg Emission.tokens hemission]

/-- The bytes of a part of a text stand in the bytes of the text, behind those of the text before the part. -/
theorem utf8_prefix_drop {source raw : String} {before after : List Char}
    (h : source.toList = before ++ raw.toList ++ after) :
    raw.toUTF8.data.toList <+: source.toUTF8.data.toList.drop (String.ofList before).utf8ByteSize := by
  have hsource : source = String.ofList before ++ (raw ++ String.ofList after) := by
    rw [← String.toList_inj, h]
    simp
  have hbytes : source.toUTF8.data.toList = (String.ofList before).toUTF8.data.toList ++
      (raw.toUTF8.data.toList ++ (String.ofList after).toUTF8.data.toList) := by
    simp [hsource]
  have hsize : (String.ofList before).toUTF8.data.toList.length = (String.ofList before).utf8ByteSize :=
    Array.length_toList
  rw [hbytes, List.drop_left' hsize]
  exact List.prefix_append _ _

/-- Every token stands where its position says: after the tokens before it and white space, behind as many
    bytes, line feeds and characters of its line as its position counts, with the bytes of its raw at its
    offset. The end of the source stands behind the whole source, and offsets increase. -/
theorem tokenize_pos_exact (source name : String) :
    (∀ earlier t later, tokenize source name = earlier ++ t :: later →
      ∃ before after, source.toList = before ++ t.raw.toList ++ after ∧
        Woven (earlier ++ [t]) (before ++ t.raw.toList) ∧ (t.kind = .eof → after = []) ∧
        t.pos.name = name ∧
        t.pos.offset = ((String.ofList before).utf8ByteSize : Int) ∧
        t.pos.line = 1 + (before.count '\n' : Int) ∧
        t.pos.column = 1 + ((before.reverse.takeWhile (· != '\n')).length : Int) ∧
        t.raw.toUTF8.data.toList <+: source.toUTF8.data.toList.drop t.pos.offset.toNat) ∧
    (tokenize source name).Pairwise fun t u => t.pos.offset < u.pos.offset := by
  refine ⟨fun earlier t later hts => ?_, (tokens_tokenize source name).pairwise_offset_lt⟩
  obtain ⟨before, after, hsource, hwoven, heof, hpos⟩ := (tokens_tokenize source name).place hts
  rw [Position.advanceAll_start] at hpos
  refine ⟨before, after, hsource, hwoven, heof, ?_⟩
  rw [hpos]
  exact ⟨rfl, rfl, rfl, rfl, utf8_prefix_drop hsource⟩

/-- The parenthesis stands at the start of the second line, behind three bytes. -/
theorem tokenize_pos_exact_on_second_line :
    tokenize "é\n(" "f" =
      [⟨.symbol, "é", "é", ⟨"f", 0, 1, 1⟩⟩] ++
        ⟨.leftParen, "", "(", ⟨"f", 3, 2, 1⟩⟩ :: [⟨.eof, "", "", ⟨"f", 4, 2, 2⟩⟩] ∧
    ∃ before after, "é\n(".toList = before ++ "(".toList ++ after ∧
      (3 : Int) = ((String.ofList before).utf8ByteSize : Int) ∧ (2 : Int) = 1 + (before.count '\n' : Int) ∧
      "(".toUTF8.data.toList <+: "é\n(".toUTF8.data.toList.drop 3 := by
  have hts : tokenize "é\n(" "f" =
      [⟨.symbol, "é", "é", ⟨"f", 0, 1, 1⟩⟩] ++
        ⟨.leftParen, "", "(", ⟨"f", 3, 2, 1⟩⟩ :: [⟨.eof, "", "", ⟨"f", 4, 2, 2⟩⟩] := by
    decide +kernel
  obtain ⟨before, after, hsource, -, -, -, hoffset, hline, -, hbytes⟩ := (tokenize_pos_exact "é\n(" "f").1 _ _ _ hts
  exact ⟨hts, before, after, hsource, hoffset, hline, hbytes⟩

end ClojureLayout
