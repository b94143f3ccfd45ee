import ClojureLayout.Text.Lines

/-! Lines by line feeds and lines of a listing. A listing breaks a text at more characters than the line feed. Up to
    a place where a line begins both count the same lines if the text before has no other breaks
    (`OnlyLineFeeds`); otherwise the listing has more. What the listing shows of a line ends with the first
    break in the line. Where carriage returns stand before line feeds only (`PairedReturns`), to unify the line ends
    of a text is to leave the carriage returns out. -/

namespace ClojureLayout.Text

/-- Every line break of the text is a line feed, or a carriage return right before one. -/
def OnlyLineFeeds : List Char → Prop
  | [] => True
  | c :: rest => (isLineBreak c = true → c = '\n' ∨ c = '\r' ∧ rest.head? = some '\n') ∧ OnlyLineFeeds rest

/-- What a listing shows of a line that has no line feed: it stops at the first break, and shows the break unless
    it is a carriage return. -/
def shownOfLine : List Char → List Char
  | [] => []
  | c :: line => if isLineBreak c then (if c = '\r' then [] else [c]) else c :: shownOfLine line

/-- The text is empty or ends with a line feed. -/
def EndsLine (cs : List Char) : Prop := ∀ c ∈ cs.getLast?, c = '\n'

instance : DecidablePred EndsLine := fun cs =>
  decidable_of_iff (cs.getLast?.all (· == '\n') = true) (by simp [EndsLine, Option.all_eq_true])

/-- A line of a listing without the characters that end it. -/
def bare (line : List Char) : List Char := dropTrailing '\r' (dropTrailing '\n' line)

variable {line head tail rest cs : List Char} {c : Char}

/-! ### Breaking a text -/

theorem EndsLine.of_cons (h : EndsLine (c :: cs)) : EndsLine cs := by
  intro d hd
  exact h d (by simp [List.getLast?_cons, Option.mem_def.mp hd])

theorem splitLinesAfter_crlf (line rest : List Char) :
    splitLinesAfter line ('\r' :: '\n' :: rest) = ('\n' :: '\r' :: line).reverse :: splitLinesAfter [] rest := rfl

theorem splitLinesAfter_cons (h : ¬(c = '\r' ∧ rest.head? = some '\n')) :
    splitLinesAfter line (c :: rest) =
      if isLineBreak c then (c :: line).reverse :: splitLinesAfter [] rest else splitLinesAfter (c :: line) rest := by
  rw [splitLinesAfter.eq_def]
  split
  · next hcrlf => exact absurd hcrlf (by simp)
  · next hcrlf =>
    obtain ⟨rfl, rfl⟩ := List.cons.inj hcrlf
    exact absurd ⟨rfl, rfl⟩ h
  · next hcons =>
    obtain ⟨rfl, rfl⟩ := List.cons.inj hcons
    rfl

/-- No line break is made of two characters, one before the end of `head` and one behind it. -/
theorem not_crlf_append (h : ∀ rest', c = '\r' → rest = '\n' :: rest' → False)
    (hhead : (c :: rest).getLast? = some '\n') : ¬(c = '\r' ∧ (rest ++ tail).head? = some '\n') := by
  rintro ⟨rfl, hnext⟩
  cases rest with
  | nil => simp at hhead
  | cons d rest =>
    obtain rfl : d = '\n' := by simpa using hnext
    exact h rest rfl rfl

/-- A text is broken behind a line feed whatever comes next. -/
theorem splitLinesAfter_append (hhead : head.getLast? = some '\n') (tail : List Char) :
    splitLinesAfter line (head ++ tail) = splitLinesAfter line head ++ splitLines tail := by
  fun_induction splitLinesAfter line head with
  | case1 => cases hhead
  | case2 => cases hhead
  | case3 line rest ih =>
    cases rest with
    | nil => rfl
    | cons d rest =>
      rw [List.cons_append, List.cons_append, splitLinesAfter_crlf, ih (by simpa using hhead), List.cons_append]
  | case4 line c rest h hbreak ih =>
    rw [List.cons_append, splitLinesAfter_cons (not_crlf_append h hhead), if_pos hbreak]
    cases rest with
    | nil => rfl
    | cons d rest => rw [ih (by simpa using hhead), List.cons_append]
  | case5 line c rest h hbreak ih =>
    rw [List.cons_append, splitLinesAfter_cons (not_crlf_append h hhead), if_neg hbreak]
    cases rest with
    | nil =>
      obtain rfl : c = '\n' := by simpa using hhead
      exact absurd rfl hbreak
    | cons d rest => rw [ih (by simpa using hhead)]

theorem splitLines_append (hhead : EndsLine head) (tail : List Char) :
    splitLines (head ++ tail) = splitLines head ++ splitLines tail := by
  cases h : head.getLast? with
  | none =>
    obtain rfl := List.getLast?_eq_none_iff.mp h
    rfl
  | some c =>
    obtain rfl := hhead c h
    exact splitLinesAfter_append h tail

theorem onlyLineFeeds_crlf (rest : List Char) : OnlyLineFeeds ('\r' :: '\n' :: rest) ↔ OnlyLineFeeds rest := by
  simp [OnlyLineFeeds]

/-- A listing has a line for each line feed of a text that ends with one, and more if there are other breaks. -/
theorem length_splitLinesAfter (hline : head = [] → line = []) (hhead : EndsLine head) :
    (OnlyLineFeeds head → (splitLinesAfter line head).length = head.count '\n') ∧
      (¬OnlyLineFeeds head → head.count '\n' < (splitLinesAfter line head).length) := by
  fun_induction splitLinesAfter line head with
  | case1 => simp [OnlyLineFeeds]
  | case2 line h => simp [hline rfl] at h
  | case3 line rest ih =>
    obtain ⟨honly, hmore⟩ := ih (fun _ => rfl) hhead.of_cons.of_cons
    simp only [onlyLineFeeds_crlf, List.length_cons, List.count_cons]
    exact ⟨fun h => by simp [honly h], fun h => by have := hmore h; simp; omega⟩
  | case4 line c rest h hbreak ih =>
    obtain ⟨honly, hmore⟩ := ih (fun _ => rfl) hhead.of_cons
    by_cases hc : c = '\n'
    · subst hc
      have hiff : OnlyLineFeeds ('\n' :: rest) ↔ OnlyLineFeeds rest := by simp [OnlyLineFeeds]
      simp only [hiff, List.length_cons, List.count_cons_self]
      exact ⟨fun h => congrArg (· + 1) (honly h), fun h => Nat.succ_lt_succ (hmore h)⟩
    · have hnot : ¬OnlyLineFeeds (c :: rest) := by
        rintro ⟨hfeed, -⟩
        rcases hfeed hbreak with hfeed | ⟨rfl, hnext⟩
        · exact hc hfeed
        · obtain ⟨rest', rfl⟩ := List.head?_eq_some_iff.mp hnext
          exact h rest' rfl rfl
      refine ⟨fun h => absurd h hnot, fun _ => ?_⟩
      rw [List.count_cons_of_ne hc, List.length_cons]
      by_cases h : OnlyLineFeeds rest
      · have := honly h
        omega
      · have := hmore h
        omega
  | case5 line c rest h hbreak ih =>
    cases rest with
    | nil =>
      obtain rfl : c = '\n' := hhead c rfl
      exact absurd rfl hbreak
    | cons d rest =>
      obtain ⟨honly, hmore⟩ := ih (nomatch ·) hhead.of_cons
      have hc : c ≠ '\n' := by
        rintro rfl
        exact hbreak rfl
      have hiff : OnlyLineFeeds (c :: d :: rest) ↔ OnlyLineFeeds (d :: rest) := by
        rw [OnlyLineFeeds]
        exact ⟨fun h => h.2, fun h => ⟨fun hc => absurd hc hbreak, h⟩⟩
      rw [hiff, List.count_cons_of_ne hc]
      exact ⟨honly, hmore⟩

/-! ### The ends of lines -/

theorem dropTrailing_cons (c d : Char) (cs : List Char) :
    dropTrailing c (d :: cs) = if d = c ∧ dropTrailing c cs = [] then [] else d :: dropTrailing c cs := by
  have hcons : dropTrailing c (d :: cs) = ((cs.reverse ++ [d]).dropWhile (· == c)).reverse := by
    rw [dropTrailing, List.reverse_cons]
  rw [hcons, List.dropWhile_append]
  cases h : cs.reverse.dropWhile (· == c) with
  | nil => by_cases hd : d = c <;> simp [dropTrailing, h, hd]
  | cons e es => simp [dropTrailing, h]

theorem dropTrailing_append (h : c ∉ line) (cs : List Char) :
    dropTrailing c (line ++ cs) = line ++ dropTrailing c cs := by
  induction line with
  | nil => rfl
  | cons d line ih =>
    have hd : d ≠ c := fun e => h (e ▸ List.mem_cons_self)
    have hline : c ∉ line := fun hmem => h (List.mem_cons_of_mem _ hmem)
    rw [List.cons_append, dropTrailing_cons, if_neg (fun e => hd e.1), ih hline, List.cons_append]

theorem dropTrailing_append_cons {d : Char} (hd : d ≠ c) (line cs : List Char) :
    dropTrailing c (line ++ d :: cs) = line ++ d :: dropTrailing c cs := by
  induction line with
  | nil => rw [List.nil_append, dropTrailing_cons, if_neg (fun e => hd e.1), List.nil_append]
  | cons e line ih => rw [List.cons_append, dropTrailing_cons, ih, if_neg (by simp), List.cons_append]

/-- What comes before the first break of a line stays. -/
theorem bare_append (h : ∀ c ∈ line, isLineBreak c = false) (cs : List Char) :
    bare (line ++ cs) = line ++ bare cs := by
  have hfeed : '\n' ∉ line := fun hmem => absurd (h _ hmem) (by decide)
  have hreturn : '\r' ∉ line := fun hmem => absurd (h _ hmem) (by decide)
  rw [bare, dropTrailing_append hfeed, dropTrailing_append hreturn, bare]

/-! ### What is shown of a line -/

/-- A line is shown whole, up to the carriage returns at its end, if it has no break before its last character. -/
theorem shownOfLine_eq_dropTrailing_iff (line : List Char) :
    shownOfLine line = dropTrailing '\r' line ↔ ∀ c ∈ (dropTrailing '\r' line).dropLast, isLineBreak c = false := by
  induction line with
  | nil => simp [shownOfLine, dropTrailing]
  | cons c line ih =>
    rw [shownOfLine, dropTrailing_cons]
    by_cases hnil : dropTrailing '\r' line = []
    · by_cases hc : c = '\r'
      · subst hc
        simp [hnil, isLineBreak]
      · by_cases hbreak : isLineBreak c = true
        · simp [hnil, hc, hbreak]
        · rw [hnil] at ih
          simpa [hnil, hc, hbreak] using ih
    · have hlast : (c :: dropTrailing '\r' line).dropLast = c :: (dropTrailing '\r' line).dropLast :=
        List.dropLast_cons_of_ne_nil hnil
      have hkept : ¬(c = '\r' ∧ dropTrailing '\r' line = []) := fun h => hnil h.2
      simp only [if_neg hkept, hlast]
      by_cases hbreak : isLineBreak c = true
      · by_cases hc : c = '\r'
        · subst hc
          simp [isLineBreak]
        · simp [hbreak, hc, Ne.symm hnil]
      · simpa [hbreak] using ih

/-- The first line of a listing, without its end, is what is shown of the first line by line feeds. -/
theorem bare_head_splitLinesAfter (hline : '\n' ∉ line) (htail : ∀ c ∈ tail.head?, c = '\n') (start : List Char)
    (hstart : ∀ c ∈ start, isLineBreak c = false) :
    bare ((splitLinesAfter start.reverse (line ++ tail)).head?.getD []) = start ++ shownOfLine line := by
  induction line generalizing start with
  | nil =>
    cases tail with
    | nil =>
      cases start with
      | nil => rfl
      | cons c start =>
        have hpieces : splitLinesAfter (c :: start).reverse [] = [c :: start] := by
          rw [splitLinesAfter.eq_def]
          simp
        rw [List.append_nil, hpieces]
        simpa [shownOfLine, show bare [] = [] from rfl] using bare_append hstart []
    | cons c tail =>
      obtain rfl : c = '\n' := htail c rfl
      rw [List.nil_append, splitLinesAfter_cons (by simp)]
      simpa [isLineBreak, shownOfLine, show bare ['\n'] = [] from rfl] using bare_append hstart ['\n']
  | cons c line ih =>
    have hc : c ≠ '\n' := fun e => hline (e ▸ List.mem_cons_self)
    have hlater : '\n' ∉ line := fun hmem => hline (List.mem_cons_of_mem _ hmem)
    rw [List.cons_append, shownOfLine]
    by_cases hcrlf : c = '\r' ∧ (line ++ tail).head? = some '\n'
    · obtain ⟨rfl, hnext⟩ := hcrlf
      obtain ⟨rest, hrest⟩ := List.head?_eq_some_iff.mp hnext
      rw [hrest, splitLinesAfter_crlf]
      simpa [isLineBreak, show bare ['\r', '\n'] = [] from rfl] using bare_append hstart ['\r', '\n']
    rw [splitLinesAfter_cons hcrlf]
    by_cases hbreak : isLineBreak c = true
    · have hbare : bare [c] = if c = '\r' then [] else [c] := by
        by_cases hreturn : c = '\r' <;> simp [bare, dropTrailing, hc, hreturn]
      simpa [hbreak, hbare] using bare_append hstart [c]
    · rw [if_neg hbreak, if_neg hbreak, ← List.reverse_concat, ih hlater]
      · simp
      · intro d hd
        rcases List.mem_append.mp hd with hd | hd
        · exact hstart d hd
        · obtain rfl := List.mem_singleton.mp hd
          simpa using hbreak

/-! ### Carriage returns before line feeds -/

/-- Every carriage return of the text stands right before a line feed. -/
def PairedReturns : List Char → Prop
  | [] => True
  | c :: rest => (c = '\r' → rest.head? = some '\n') ∧ PairedReturns rest

def withoutReturns (cs : List Char) : List Char := cs.filter (· != '\r')

instance decidablePairedReturns : (cs : List Char) → Decidable (PairedReturns cs)
  | [] => isTrue trivial
  | c :: rest =>
    have := decidablePairedReturns rest
    inferInstanceAs (Decidable ((c = '\r' → rest.head? = some '\n') ∧ PairedReturns rest))

variable {as bs : List Char}

theorem withoutReturns_append (as bs : List Char) :
    withoutReturns (as ++ bs) = withoutReturns as ++ withoutReturns bs :=
  List.filter_append as bs

theorem withoutReturns_return (cs : List Char) : withoutReturns ('\r' :: cs) = withoutReturns cs := rfl

theorem withoutReturns_cons (hc : c ≠ '\r') (cs : List Char) : withoutReturns (c :: cs) = c :: withoutReturns cs := by
  simp [withoutReturns, hc]

theorem withoutReturns_of_not_mem (h : '\r' ∉ cs) : withoutReturns cs = cs := by
  rw [withoutReturns, List.filter_eq_self]
  intro c hc
  have : c ≠ '\r' := fun e => h (e ▸ hc)
  simpa using this

namespace PairedReturns

theorem right (h : PairedReturns (as ++ bs)) : PairedReturns bs := by
  induction as with
  | nil => exact h
  | cons c as ih => exact ih h.2

/-- No pair is cut before a text that begins with no line feed. -/
theorem left (h : PairedReturns (as ++ bs)) (hbs : bs.head? ≠ some '\n') : PairedReturns as := by
  induction as with
  | nil => trivial
  | cons c as ih =>
    refine ⟨fun hc => ?_, ih h.2⟩
    have hnext : (as ++ bs).head? = some '\n' := h.1 hc
    cases as with
    | nil => exact absurd hnext hbs
    | cons d as => exact hnext

/-- What holds of the first character of a text, and of a line feed, holds of the first character without the
    carriage returns. -/
theorem first {q : Char → Prop} (h : PairedReturns cs) (hcs : ∀ c ∈ cs.head?, q c) (hfeed : q '\n') :
    ∀ c ∈ (withoutReturns cs).head?, q c := by
  cases cs with
  | nil => simp [withoutReturns]
  | cons d cs =>
    by_cases hd : d = '\r'
    · subst hd
      obtain ⟨rest, rfl⟩ := List.head?_eq_some_iff.mp (h.1 rfl)
      rw [withoutReturns_return, withoutReturns_cons (by decide)]
      simpa using hfeed
    · rw [withoutReturns_cons hd]
      simpa using hcs

end PairedReturns

theorem unifyNewlines_eq (h : PairedReturns cs) : unifyNewlines cs = withoutReturns cs := by
  fun_induction unifyNewlines cs with
  | case1 => rfl
  | case2 rest ih => rw [withoutReturns_return, withoutReturns_cons (by decide), ih h.2.2]
  | case3 c rest hcrlf ih =>
    have hc : c ≠ '\r' := by
      rintro rfl
      obtain ⟨rest', rfl⟩ := List.head?_eq_some_iff.mp (h.1 rfl)
      exact hcrlf rest' rfl rfl
    rw [if_neg hc, withoutReturns_cons hc, ih h.2]

/-! ### Lines one below the other -/

/-- Lines without line feeds, each with one behind it, are what line feeds break their text into, and nothing stands
    behind the last of them. -/
theorem splitOn_join_lines {lines : List String} (hlines : ∀ l ∈ lines, '\n' ∉ l.toList) :
    (String.join (lines.map (· ++ "\n"))).toList.splitOn '\n' = lines.map String.toList ++ [[]] := by
  induction lines with
  | nil => rfl
  | cons l ls ih =>
    rw [List.forall_mem_cons] at hlines
    have hjoin : (String.join ((l :: ls).map (· ++ "\n"))).toList =
        l.toList ++ '\n' :: (String.join (ls.map (· ++ "\n"))).toList := by
      rw [List.map_cons, String.join_cons, String.toList_append, String.toList_append, List.append_assoc]
      rfl
    rw [hjoin, List.splitOn_append_cons_self_of_not_mem hlines.1, ih hlines.2, List.map_cons, List.cons_append]

/-- Lines that give the same text, each with a line feed behind it, are the same. -/
theorem join_lines_inj {lines lines' : List String} (hlines : ∀ l ∈ lines, '\n' ∉ l.toList)
    (hlines' : ∀ l ∈ lines', '\n' ∉ l.toList)
    (h : String.join (lines.map (· ++ "\n")) = String.join (lines'.map (· ++ "\n"))) : lines = lines' := by
  have hsplit := congrArg (fun s : String => s.toList.splitOn '\n') h
  simp only [splitOn_join_lines hlines, splitOn_join_lines hlines'] at hsplit
  exact (List.map_inj_right fun _ _ => String.toList_injective).mp (List.append_cancel_right hsplit)

end ClojureLayout.Text
