import ClojureLayout.Proofs.Scanner.Cut
import ClojureLayout.Proofs.Text.Lines

/-! What is shown of a source for the error that ends its tokens (`tokenize_snippet`). The caret always stands at the
    column of the error's first character. The row above it is the line that the error is in where no line
    break but the line feed stands before the line, and none in the line but at its end; otherwise it is an
    earlier piece of the source, or a piece of the line. -/

namespace ClojureLayout
open Text

namespace LocatedError

/-- What stands before the source line in its row. -/
def gutter (e : LocatedError) : String := Decimal.ofInt e.pos.line ++ " | "

/-- What stands before the caret in its row, but for the spaces that take it to its column. -/
def margin (e : LocatedError) : String := spaces ((Decimal.ofInt e.pos.line).length + 1) ++ "| "

/-- The rows above the source line. -/
def heading (e : LocatedError) : String :=
  let indent := spaces ((Decimal.ofInt e.pos.line).length + 1)
  e.tag ++ " error: " ++ e.message ++ "\n" ++ indent ++ "--> " ++ e.pos.text ++ "\n" ++ indent ++ "|\n"

/-- The error is shown with `row` behind the gutter, and with a caret below the character of `row` at the index
    `caret`. -/
def Shows (e : LocatedError) (source : String) (row : List Char) (caret : Nat) : Prop :=
  e.snippet source = e.heading ++ (e.gutter ++ String.ofList row ++ "\n") ++ (e.margin ++ spaces caret ++ "^")

variable {e : LocatedError} {source : String} {head line tail row : List Char} {caret : Nat}

/-- Gutter and margin are equally wide, so a caret stands below the character with its index. -/
theorem length_gutter (e : LocatedError) : e.gutter.length = e.margin.length := by
  have hgutter : " | ".length = 3 := rfl
  have hmargin : "| ".length = 2 := rfl
  simp only [gutter, margin, spaces, String.length_append, String.length_ofList, List.length_replicate, hgutter,
    hmargin]

theorem shows_iff (hcaret : e.pos.column = 1 + (caret : Int)) :
    e.Shows source row caret ↔ sourceLine source e.pos.line = String.ofList row := by
  have hcolumn : (e.pos.column - 1).toNat = caret := by omega
  have hsnippet : e.snippet source =
      e.heading ++ (e.gutter ++ sourceLine source e.pos.line ++ "\n") ++ (e.margin ++ spaces caret ++ "^") := by
    -- Making an equation of `snippet` takes seconds; its body is enough here.
    delta snippet heading gutter margin
    simp only [hcolumn, String.append_assoc]
  rw [Shows, hsnippet]
  simp only [← String.toList_inj, String.toList_append, List.append_cancel_left_eq, List.append_cancel_right_eq]

/-! ### The line with a number -/

theorem sourceLine_add_one (source : String) (n : Nat) :
    sourceLine source (1 + n) = String.ofList (bare ((splitLines source.toList)[n]?.getD [])) := by
  have hpos : ¬(1 + n : Int) < 1 := by omega
  have hindex : (1 + n - 1 : Int).toNat = n := by omega
  rw [sourceLine, if_neg hpos, hindex]
  cases (splitLines source.toList)[n]? <;> rfl

/-- Where only line feeds break the text before a line, the line with its number is shown, up to its first break. -/
theorem sourceLine_of_onlyLineFeeds (hsource : source.toList = head ++ line ++ tail)
    (hhead : EndsLine head) (hline : '\n' ∉ line) (htail : ∀ c ∈ tail.head?, c = '\n')
    (honly : OnlyLineFeeds head) :
    sourceLine source (1 + head.count '\n') = String.ofList (shownOfLine line) := by
  have hcount : (splitLinesAfter [] head).length = head.count '\n' :=
    (length_splitLinesAfter (fun _ => rfl) hhead).1 honly
  have hlines : splitLines source.toList = splitLinesAfter [] head ++ splitLines (line ++ tail) := by
    rw [hsource, List.append_assoc]
    exact splitLines_append hhead _
  rw [sourceLine_add_one, hlines, ← hcount, List.getElem?_append_right (Nat.le_refl _), Nat.sub_self,
    ← List.head?_eq_getElem?]
  exact congrArg String.ofList (bare_head_splitLinesAfter hline htail [] (by simp))

/-- Where there are other breaks in the text before a line, an earlier piece of that text has its number. -/
theorem sourceLine_of_not_onlyLineFeeds (hsource : source.toList = head ++ tail) (hhead : EndsLine head)
    (hmore : ¬OnlyLineFeeds head) :
    ∃ piece, (splitLines head)[head.count '\n']? = some piece ∧
      sourceLine source (1 + head.count '\n') = String.ofList (bare piece) := by
  have hcount : head.count '\n' < (splitLines head).length := (length_splitLinesAfter (fun _ => rfl) hhead).2 hmore
  refine ⟨_, List.getElem?_eq_getElem hcount, ?_⟩
  rw [sourceLine_add_one, hsource, splitLines_append hhead, List.getElem?_append_left hcount,
    List.getElem?_eq_getElem hcount, Option.getD_some]

end LocatedError
open Grammar LocatedError

/-! ### The line of a token -/

/-- Token `t` of `source` stands behind `head`, which is whole lines, and behind `lead`, the part of its own line
    before it; its text begins `rest`. -/
structure Token.InLine (t : Token) (source name : String) (head lead rest : List Char) : Prop where
  source_eq : source.toList = head ++ lead ++ rest
  head_ends : EndsLine head
  lead_feedless : '\n' ∉ lead
  pos_eq : t.pos = Position.after name (head ++ lead)
  raw_prefix : t.raw.toList <+: rest

variable {source name : String} {earlier : List Token} {t : Token} {head lead rest : List Char}

theorem exists_lines (cs : List Char) :
    ∃ head lead, cs = head ++ lead ∧ EndsLine head ∧ '\n' ∉ lead := by
  obtain ⟨run, rest, hcs, hrun, hrest⟩ := Longest.exists (· != '\n') cs.reverse
  refine ⟨rest.reverse, run.reverse, ?_, ?_, ?_⟩
  · rw [← List.reverse_append, ← hcs, List.reverse_reverse]
  · simpa [EndsLine] using hrest
  · intro hmem
    simpa using hrun _ (List.mem_reverse.mp hmem)

namespace Position

theorem line_after (name : String) (head : List Char) (hlead : '\n' ∉ lead) :
    (after name (head ++ lead)).line = 1 + (head.count '\n' : Int) := by
  simp [after, List.count_eq_zero_of_not_mem hlead]

theorem column_after (name : String) (hhead : EndsLine head) (hlead : '\n' ∉ lead) :
    (after name (head ++ lead)).column = 1 + (lead.length : Int) := by
  have hrun : ∀ c ∈ lead.reverse, (c != '\n') = true := by
    intro c hc
    have : c ≠ '\n' := fun e => hlead (e ▸ List.mem_reverse.mp hc)
    simpa using this
  have hstop : head.reverse.takeWhile (· != '\n') = [] := by
    cases h : head.reverse with
    | nil => rfl
    | cons c cs =>
      obtain rfl : c = '\n' := hhead c (by rw [← List.head?_reverse, h]; rfl)
      rfl
  simp [after, List.takeWhile_append_of_pos hrun, hstop]

end Position

theorem isWhitespace_of_isLineBreak {c : Char} (h : isLineBreak c = true) : isWhitespace c = true := by
  simp only [isLineBreak, Bool.or_eq_true, beq_iff_eq] at h
  rcases h with ((((((((rfl | rfl) | rfl) | rfl) | rfl) | rfl) | rfl) | rfl) | rfl) | rfl <;> decide

/-- Where an error stands, and what it begins with. -/
theorem exists_inLine (hts : tokenize source name = earlier ++ [t]) (hkind : t.kind = .error) :
    ∃ head lead rest, t.InLine source name head lead rest ∧
      ∃ first, t.raw.toList.head? = some first ∧ isLineBreak first = false := by
  have htokens := tokens_tokenize source name
  rw [hts] at htokens
  obtain ⟨before, first, rest, raw, message, hsource, -, hw, hfail, rfl⟩ := htokens.cut_failure hkind
  obtain ⟨head, lead, rfl, hhead, hlead⟩ := exists_lines before
  have hraw : raw.head? = some first := by cases hfail <;> rfl
  have hbreak : isLineBreak first = false := by
    rw [Bool.eq_false_iff]
    exact fun h => Bool.false_ne_true (hw.symm.trans (isWhitespace_of_isLineBreak h))
  refine ⟨head, lead, first :: rest, ⟨hsource, hhead, hlead, ?_, ?_⟩, first, ?_, hbreak⟩
  · exact Position.advanceAll_start name _
  · simpa using hfail.raw_prefix
  · simpa using hraw

/-- The line of a token, and the text behind it. -/
theorem Token.InLine.line (h : t.InLine source name head lead rest) :
    source.toList = head ++ (lead ++ rest.takeWhile (· != '\n')) ++ rest.dropWhile (· != '\n') ∧
      '\n' ∉ lead ++ rest.takeWhile (· != '\n') ∧ ∀ c ∈ (rest.dropWhile (· != '\n')).head?, c = '\n' := by
  refine ⟨?_, fun hmem => ?_, fun c hc => ?_⟩
  · simp [h.source_eq, List.append_assoc, List.takeWhile_append_dropWhile]
  · rcases List.mem_append.mp hmem with hmem | hmem
    · exact h.lead_feedless hmem
    · simpa using List.all_eq_true.mp List.all_takeWhile _ hmem
  · have hstop := List.head?_dropWhile_not (· != '\n') rest
    rw [Option.mem_def.mp hc] at hstop
    simpa using hstop

theorem Token.InLine.shows_iff (h : t.InLine source name head lead rest) (row : List Char) :
    (LocatedError.ofScan t.value t.pos).Shows source row lead.length ↔
      sourceLine source (1 + head.count '\n') = String.ofList row := by
  have hline := Position.line_after name head h.lead_feedless
  have hcolumn := Position.column_after name h.head_ends h.lead_feedless
  rw [← h.pos_eq] at hline hcolumn
  rw [← hline]
  exact LocatedError.shows_iff hcolumn

/-- The error that ends the tokens of a source is shown with a caret under its first character. Where only line
    feeds break the source before its line, the row above is the line up to its first break, so it is the line
    without the carriage returns at its end if and only if no break stands in it before its last character. Where
    there are other breaks before the line, the row is an earlier piece of the source. -/
theorem tokenize_snippet (hts : tokenize source name = earlier ++ [t]) (hkind : t.kind = .error) :
    ∃ head lead rest first e, t.InLine source name head lead rest ∧ t.raw.toList.head? = some first ∧
      t.toError = .ok e ∧ e.gutter.length = e.margin.length ∧
      let line := lead ++ rest.takeWhile (· != '\n')
      let row := dropTrailing '\r' line
      row[lead.length]? = some first ∧
        (OnlyLineFeeds head → e.Shows source (shownOfLine line) lead.length ∧
          (e.Shows source row lead.length ↔ ∀ c ∈ row.dropLast, isLineBreak c = false)) ∧
        (¬OnlyLineFeeds head → ∃ piece, (splitLines head)[head.count '\n']? = some piece ∧
          e.Shows source (bare piece) lead.length) := by
  obtain ⟨head, lead, rest, hin, first, hfirst, hbreak⟩ := exists_inLine hts hkind
  obtain ⟨more, rfl⟩ : ∃ more, rest = first :: more := by
    obtain ⟨raw, hraw⟩ := List.head?_eq_some_iff.mp hfirst
    obtain ⟨after, rfl⟩ := hin.raw_prefix
    exact ⟨raw ++ after, by rw [hraw]; rfl⟩
  have hfeed : first ≠ '\n' := ne_of_apply_ne isLineBreak (by rw [hbreak]; decide)
  have hreturn : first ≠ '\r' := ne_of_apply_ne isLineBreak (by rw [hbreak]; decide)
  obtain ⟨hsource, hline, htail⟩ := hin.line
  refine ⟨head, lead, first :: more, first, .ofScan t.value t.pos, hin, hfirst, if_pos hkind, length_gutter _,
    ?_, ?_, ?_⟩
  · rw [List.takeWhile_cons_of_pos (by simpa using hfeed), dropTrailing_append_cons hreturn]
    simp
  · intro honly
    have hsourceLine := sourceLine_of_onlyLineFeeds hsource hin.head_ends hline htail honly
    refine ⟨(hin.shows_iff _).mpr hsourceLine, ?_⟩
    rw [hin.shows_iff, hsourceLine, ← shownOfLine_eq_dropTrailing_iff]
    exact ⟨fun h => String.ofList_injective h, fun h => by rw [h]⟩
  · intro hmore
    have hsource := hin.source_eq.trans (List.append_assoc head lead _)
    obtain ⟨piece, hpiece, hsourceLine⟩ := sourceLine_of_not_onlyLineFeeds hsource hin.head_ends hmore
    exact ⟨piece, hpiece, (hin.shows_iff _).mpr hsourceLine⟩

/-- The line of the error is the second one, and no break but the line feed stands before it. -/
theorem tokenize_snippet_on_second_line :
    tokenize "a\n(b |)" "f" =
      [⟨.symbol, "a", "a", ⟨"f", 0, 1, 1⟩⟩, ⟨.leftParen, "", "(", ⟨"f", 2, 2, 1⟩⟩,
        ⟨.symbol, "b", "b", ⟨"f", 3, 2, 2⟩⟩] ++
        [⟨.error, "unrecognized token starting with |", "|", ⟨"f", 5, 2, 4⟩⟩] ∧
    ∃ (head lead rest : List Char) (e : LocatedError),
      Token.InLine ⟨.error, "unrecognized token starting with |", "|", ⟨"f", 5, 2, 4⟩⟩ "a\n(b |)" "f"
        head lead rest ∧
      (dropTrailing '\r' (lead ++ rest.takeWhile (· != '\n')))[lead.length]? = some '|' ∧
      (OnlyLineFeeds head → e.Shows "a\n(b |)" (shownOfLine (lead ++ rest.takeWhile (· != '\n'))) lead.length) := by
  have hts : tokenize "a\n(b |)" "f" =
      [⟨.symbol, "a", "a", ⟨"f", 0, 1, 1⟩⟩, ⟨.leftParen, "", "(", ⟨"f", 2, 2, 1⟩⟩,
        ⟨.symbol, "b", "b", ⟨"f", 3, 2, 2⟩⟩] ++
        [⟨.error, "unrecognized token starting with |", "|", ⟨"f", 5, 2, 4⟩⟩] := by
    decide +kernel
  obtain ⟨head, lead, rest, first, e, hin, hfirst, -, -, hrow, honly, -⟩ := tokenize_snippet hts rfl
  obtain rfl : '|' = first := Option.some.inj hfirst
  exact ⟨hts, head, lead, rest, e, hin, hrow, fun h => (honly h).1⟩

/-- A form feed between two lines counts as a line of its own for the listing, and the line shown is one too high. -/
theorem snippet_not_of_line :
    ∃ (earlier : List Token) (t : Token) (e : LocatedError),
      tokenize "(ns a)\n\x0c\n(b |)" "f" = earlier ++ [t] ∧ t.kind = .error ∧ t.toError = .ok e ∧
      t.InLine "(ns a)\n\x0c\n(b |)" "f" "(ns a)\n\x0c\n".toList ['(', 'b', ' '] ['|', ')'] ∧
      e.Shows "(ns a)\n\x0c\n(b |)" [] 3 ∧ ¬e.Shows "(ns a)\n\x0c\n(b |)" "(b |)".toList 3 := by
  refine ⟨(tokenize "(ns a)\n\x0c\n(b |)" "f").dropLast,
    ⟨.error, "unrecognized token starting with |", "|", ⟨"f", 12, 3, 4⟩⟩,
    ⟨"lex", "unrecognized token starting with |", ⟨"f", 12, 3, 4⟩⟩, ?_, rfl, rfl, ⟨?_, ?_, ?_, ?_, ?_⟩, ?_, ?_⟩
  · decide +kernel
  · rfl
  · decide +kernel
  · simp
  · decide +kernel
  · exact ⟨[')'], rfl⟩
  · unfold Shows
    decide +kernel
  · unfold Shows
    decide +kernel

end ClojureLayout
