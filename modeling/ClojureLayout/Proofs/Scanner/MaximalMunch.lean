import ClojureLayout.Proofs.Scanner.Grammar
import ClojureLayout.Proofs.Scanner.Standing

/-! The scanner cuts a text as the lexical grammar does. Each lexeme of the grammar, met by a scanner that
    stands at its start, is given as one token with its value, its text and its position, and leaves
    the scanner at the start of what follows (`Stands.emission_lexeme`); by induction over the cut a
    text gives the tokens of the grammar, and no others (`tokenize_eq_iff_tokens`). -/

namespace ClojureLayout
open Grammar

/-! ### What a character begins -/

theorem mem_marks_of_ofMark? {c : Char} {kind : Kind} (h : Kind.ofMark? c = some kind) : (c, kind) ∈ marks := by
  unfold Kind.ofMark? at h
  split at h <;> cases h <;> decide

theorem keepsText_of_mem_marks {c : Char} {kind : Kind} (h : (c, kind) ∈ marks) : kind.keepsText = false :=
  (by decide : ∀ m ∈ marks, m.2.keepsText = false) _ h

/-- The kinds of the lexemes that go on as long as their characters do. -/
def Kind.IsRun (kind : Kind) : Prop := kind ∈ [.comment, .charLiteral, .keyword, .lambdaArg, .number, .symbol]

instance (kind : Kind) : Decidable kind.IsRun := inferInstanceAs (Decidable (_ ∈ _))

theorem not_isRun_of_mem_marks {c : Char} {kind : Kind} (h : (c, kind) ∈ marks) : ¬ kind.IsRun :=
  (by decide : ∀ m ∈ marks, ¬ m.2.IsRun) _ h

namespace Scan

theorem lexeme_of_next {s t : Scanner} {c : Char} (h : next s = .ok (some c) t) : lexeme s = lexemeFrom c t := by
  simp only [lexeme, bind_apply, h]

theorem lexemeFrom_of_mem_marks {c : Char} {kind : Kind} (h : (c, kind) ∈ marks) : lexemeFrom c = token kind := by
  simp only [marks, List.mem_cons, Prod.mk.injEq, List.not_mem_nil, or_false] at h
  rcases h with ⟨rfl, rfl⟩ | ⟨rfl, rfl⟩ | ⟨rfl, rfl⟩ | ⟨rfl, rfl⟩ | ⟨rfl, rfl⟩ | ⟨rfl, rfl⟩ | ⟨rfl, rfl⟩ |
    ⟨rfl, rfl⟩ | ⟨rfl, rfl⟩ | ⟨rfl, rfl⟩ | ⟨rfl, rfl⟩ <;> rfl

/-- The characters that begin a lexeme of their own sort, or may do so. -/
def leaders : List Char := [';', '\x22', '\\', ':', '%', '#', '+', '-']

theorem lexemeFrom_of_not_mem {c : Char} (hlead : c ∉ leaders) (hmark : c ∉ marks.map (·.1)) :
    lexemeFrom c =
      if isWhitespace c then whitespace
      else if isDigit c then run isSymbolChar .number
      else if isSymbolChar c then run isSymbolChar .symbol
      else failure ("unrecognized token starting with " ++ String.ofList [c]) := by
  have hnone : Kind.ofMark? c = none := by
    cases hk : Kind.ofMark? c with
    | none => rfl
    | some kind => exact absurd (List.mem_map.mpr ⟨_, mem_marks_of_ofMark? hk, rfl⟩) hmark
  simp only [leaders, List.mem_cons, List.not_mem_nil, or_false, not_or] at hlead
  simp only [lexemeFrom, hlead, hnone, ↓reduceIte, or_self]

theorem isWhitespace_eq_false_of_mem {c : Char} (h : c ∈ leaders ++ marks.map (·.1)) : isWhitespace c = false := by
  have hall : (leaders ++ marks.map (·.1)).all (!isWhitespace ·) = true := by decide
  simpa using List.all_eq_true.mp hall c h

theorem lexemeFrom_of_isWhitespace {c : Char} (h : isWhitespace c = true) : lexemeFrom c = whitespace := by
  have hmem : c ∉ leaders ++ marks.map (·.1) := fun hm => by simp [isWhitespace_eq_false_of_mem hm] at h
  rw [List.mem_append, not_or] at hmem
  rw [lexemeFrom_of_not_mem hmem.1 hmem.2, if_pos h]

theorem not_mem_leaders_of_isSymbolChar {c : Char} (h : isSymbolChar c = true) (hne : c ≠ ':' ∧ c ≠ '+' ∧ c ≠ '-') :
    c ∉ leaders := by
  intro hm
  simp only [leaders, List.mem_cons, List.not_mem_nil, or_false] at hm
  rcases hm with rfl | rfl | rfl | rfl | rfl | rfl | rfl | rfl <;> revert h hne <;> decide

theorem isSymbolChar_eq_false_of_mem_marks {c : Char} (h : c ∈ marks.map (·.1)) : isSymbolChar c = false := by
  have hall : (marks.map (·.1)).all (!isSymbolChar ·) = true := by decide
  simpa using List.all_eq_true.mp hall c h

theorem lexemeFrom_of_isSymbolChar {c : Char} (h : isSymbolChar c = true) (hw : isWhitespace c = false)
    (hne : c ≠ ':' ∧ c ≠ '+' ∧ c ≠ '-') :
    lexemeFrom c = run isSymbolChar (if isDigit c then .number else .symbol) := by
  have hmark : c ∉ marks.map (·.1) := fun hm => by simp [isSymbolChar_eq_false_of_mem_marks hm] at h
  rw [lexemeFrom_of_not_mem (not_mem_leaders_of_isSymbolChar h hne) hmark, hw, h]
  cases isDigit c <;> rfl

theorem lexemeFrom_of_unrecognized {c : Char} (h : isSymbolChar c = false) (hw : isWhitespace c = false)
    (hspecial : c ∉ [';', '\x22', '\\', '%', '#']) (hmark : c ∉ marks.map (·.1)) :
    lexemeFrom c = failure ("unrecognized token starting with " ++ String.ofList [c]) := by
  have hlead : c ∉ leaders := by
    intro hm
    simp only [leaders, List.mem_cons, List.not_mem_nil, or_false] at hm hspecial
    rcases hm with rfl | rfl | rfl | rfl | rfl | rfl | rfl | rfl <;> revert h hspecial <;> decide
  have hdigit : isDigit c = false := by
    cases hd : isDigit c with
    | false => rfl
    | true => exact absurd (isSymbolChar_of_isDigit hd) (by simp [h])
  rw [lexemeFrom_of_not_mem hlead hmark, hw, hdigit, h]
  rfl

end Scan

namespace Scanner

theorem Behind.stops {q : Char → Bool} {run rest : List Char} {tail left : List Read} (h : Behind rest tail left)
    (hrun : Longest q run rest) : Stops q (rest.map .char ++ tail) (rest.map .char ++ left) := by
  cases h with
  | char => exact .char (hrun.2 _ rfl)
  | silent hreads => exact .silent hreads

namespace Stands
variable {s : Scanner} {start p : Position} {text run raw rest value : List Char} {tail left : List Read} {c : Char}

/-! ### Runs -/

/-- A longest run makes a token with the text gathered before it. -/
theorem run_token {q : Char → Bool} {kind : Kind} (hkind : kind.keepsText = true) (hrun : Longest q run rest)
    (hbehind : Behind rest tail left) (h : s.Stands start text ((run ++ rest).map .char ++ tail)) :
    ∃ t, Scan.run q kind s = .ok (.token ⟨kind, String.ofList (text ++ run), String.ofList (text ++ run), start⟩) t ∧
      t.Stands (start.advanceAll (text ++ run)) [] (rest.map .char ++ left) := by
  rw [List.map_append, List.append_assoc] at h
  obtain ⟨u, hu, hsu⟩ := takeWhile hrun.1 (hbehind.stops hrun) h
  obtain ⟨t, ht, hst⟩ := hsu.token kind none
  rw [hkind, Option.getD_none, if_pos rfl] at ht
  exact ⟨t, (Scan.bind_of_ok hu).trans ht, hst⟩

/-- As long as no quotation mark closes the string, the loop reads on. -/
theorem takeString_open (before : List Char) {body : List Char} {more : List Read} (hopen : Open (before ++ body))
    (h : s.Stands start text (body.map .char ++ more)) :
    ∃ t, Scan.takeString (decide ¬Closes before) s = Scan.takeString (decide ¬Closes (before ++ body)) t ∧
      t.Stands start (text ++ body) more := by
  -- The flag of the loop says that the character ahead is escaped: a quotation mark there would not close
  -- the string.
  induction body generalizing s text before with
  | nil => exact ⟨s, by rw [List.append_nil], by simpa using h⟩
  | cons c body ih =>
    obtain ⟨u, hu, hsu, -, -⟩ := h.next_char
    have hopen' : Open (before ++ [c] ++ body) := by simpa using hopen
    obtain ⟨t, ht, hst⟩ := ih (before ++ [c]) hopen' hsu
    refine ⟨t, ?_, by simpa using hst⟩
    rw [Scan.takeString_of_next hu]
    rw [List.append_assoc, List.singleton_append] at ht
    by_cases hq : c = '\x22'
    · subst hq
      have hnot : ¬Closes before := hopen before body rfl
      have hyes : Closes (before ++ ['\x22']) := closes_concat (by decide) before
      simpa [hnot, hyes] using ht
    · by_cases hb : c = '\\'
      · subst hb
        simpa [closes_concat_backslash] using ht
      · have hyes : Closes (before ++ [c]) := closes_concat hb before
        simpa [hq, hb, hyes] using ht

/-! ### Lexemes -/

/-- What the first character begins is what the scanner reads. -/
theorem lexeme_of_first {l : Lexeme} {q : Position} {more more' : List Read} (h : s.Stands p [] (.char c :: more))
    (hfirst : ∀ u : Scanner, u.Stands p [c] more →
      ∃ t, Scan.lexemeFrom c u = .ok l t ∧ t.Stands q text more') :
    ∃ t, Scan.lexeme s = .ok l t ∧ t.Stands q text more' := by
  obtain ⟨u, hu, hsu, -, -⟩ := h.next_char
  obtain ⟨t, ht, hst⟩ := hfirst u hsu
  exact ⟨t, (Scan.lexeme_of_next hu).trans ht, hst⟩

theorem string_token {body : List Char} (hopen : Open body) (hclose : Closes body)
    (h : s.Stands p ['\x22'] ((body ++ ['\x22'] ++ rest).map .char ++ tail)) :
    ∃ t, Scan.string s = .ok (.token ⟨.string, String.ofList body, String.ofList ('\x22' :: (body ++ ['\x22'])), p⟩) t ∧
      t.Stands (p.advanceAll ('\x22' :: (body ++ ['\x22']))) [] (rest.map .char ++ tail) := by
  rw [List.append_assoc, List.map_append, List.append_assoc] at h
  obtain ⟨u, hu, hsu⟩ := h.takeString_open [] hopen
  obtain ⟨v, hv, hsv, -, -⟩ := hsu.next_char
  have hloop : Scan.takeString false s = .ok true v := by
    refine hu.trans ?_
    rw [Scan.takeString_of_next hv]
    simp [hclose]
  obtain ⟨t, ht, hst⟩ := hsv.token .string (some (String.ofList body))
  refine ⟨t, (Scan.bind_of_ok hloop).trans ?_, hst⟩
  rw [if_pos rfl]
  refine (Scan.bind_of_ok rfl).trans ?_
  rw [hsv.gathered_eq]
  simpa using ht

theorem string_failure {body : List Char} (hopen : Open body) (hreads : Silent tail left)
    (h : s.Stands p ['\x22'] (body.map .char ++ tail)) :
    ∃ t, Scan.string s = .ok (.last [⟨.error, "reached EOF before string closing quote",
      String.ofList ('\x22' :: body), p⟩]) t ∧ t.Stands p ('\x22' :: body) left := by
  obtain ⟨u, hu, hsu⟩ := h.takeString_open [] hopen
  obtain ⟨t, ht, hst⟩ := hsu.next_silent hreads
  have hloop : Scan.takeString false s = .ok false t := hu.trans (Scan.takeString_of_next_none ht)
  exact ⟨t, (Scan.bind_of_ok hloop).trans (hst.failure _), hst⟩

theorem lexeme_end (hreads : Silent tail left) (h : s.Stands p [] tail) :
    ∃ t, Scan.lexeme s = .ok (.last [⟨.eof, "", "", p⟩]) t ∧ t.Stands p [] left := by
  obtain ⟨u, hu, hsu⟩ := h.next_silent hreads
  obtain ⟨t, ht, hst⟩ := hsu.endOfSource []
  exact ⟨t, (Scan.bind_of_ok hu).trans ht, hst⟩

/-- A run of symbol characters behind a sign is a number if a digit follows the sign. -/
theorem signed_token {d : Char} {more : List Char} (hmore : run ++ rest = d :: more)
    (hrun : Longest isSymbolChar run rest) (hbehind : Behind rest tail left)
    (h : s.Stands p [c] ((run ++ rest).map .char ++ tail)) :
    ∃ t, Scan.signed s = .ok (.token ⟨if isDigit d then .number else .symbol, String.ofList (c :: run),
      String.ofList (c :: run), p⟩) t ∧ t.Stands (p.advanceAll (c :: run)) [] (rest.map .char ++ left) := by
  have hpeek : s.Stands p [c] (.char d :: (more.map .char ++ tail)) := by rw [hmore] at h; exact h
  obtain ⟨u, hu, hsu⟩ := hpeek.peek_char
  have hsu' : u.Stands p [c] ((run ++ rest).map .char ++ tail) := by rw [hmore]; exact hsu
  have hkind : (if isDigit d then Kind.number else Kind.symbol).keepsText = true := by cases isDigit d <;> rfl
  obtain ⟨t, ht, hst⟩ := run_token hkind hrun hbehind hsu'
  exact ⟨t, (Scan.bind_of_ok hu).trans ht, hst⟩

/-- A token of one character that is given together with the end of the source. -/
theorem token_endOfSource (kind : Kind) (h : s.Stands p [c] left) :
    ∃ t, (do Scan.endOfSource [← Scan.emit kind] : Scan Lexeme) s = .ok (.last [⟨kind,
        if kind.keepsText then String.ofList [c] else "", String.ofList [c], p⟩, ⟨.eof, "", "", p.advance c⟩]) t ∧
      t.Stands (p.advance c) [] left := by
  obtain ⟨u, hu, hsu⟩ := h.emit kind none
  obtain ⟨t, ht, hst⟩ := hsu.endOfSource [⟨kind, if kind.keepsText then String.ofList [c] else "", String.ofList [c], p⟩]
  exact ⟨t, (Scan.bind_of_ok hu).trans ht, hst⟩

/-- A lexeme of one character that no character follows is given together with the end of the source. -/
theorem lexeme_single {kind : Kind} (hlex : IsLexeme raw [] kind value) (hsingle : raw ∈ singles)
    (hreads : Silent tail left) (h : s.Stands p [] (raw.map .char ++ tail)) :
    ∃ t, Scan.lexeme s = .ok (.last [⟨kind, String.ofList value, String.ofList raw, p⟩,
        ⟨.eof, "", "", p.advanceAll raw⟩]) t ∧ t.Stands (p.advanceAll raw) [] left := by
  rcases hlex.single_cases hsingle with ⟨rfl, rfl, rfl⟩ | ⟨c, hsign, rfl, rfl, rfl⟩
  · refine lexeme_of_first h fun u hu => ?_
    obtain ⟨v, hv, hsv⟩ := hu.takeIf_silent _ hreads
    obtain ⟨t, ht, hst⟩ := hsv.token_endOfSource .octothorpe
    exact ⟨t, (Scan.bind_of_ok hv).trans ht, hst⟩
  · have hfrom : Scan.lexemeFrom c = Scan.signed := by rcases hsign with rfl | rfl <;> rfl
    refine lexeme_of_first h fun u hu => ?_
    obtain ⟨v, hv, hsv⟩ := hu.takeIf_silent _ hreads
    obtain ⟨t, ht, hst⟩ := hsv.token_endOfSource .symbol
    exact ⟨t, by rw [hfrom]; exact (Scan.bind_of_ok hv).trans ht, hst⟩

theorem startsNumber_cons_iff (hsign : ¬(c = '+' ∨ c = '-')) : StartsNumber (c :: run) ↔ isDigit c = true := by
  cases run <;> simp [StartsNumber, hsign]

/-- Behind a sign it is the next character, of the run or past it, that decides. -/
theorem startsNumber_sign_iff {d : Char} {more : List Char} (hsign : c = '+' ∨ c = '-')
    (hmore : run ++ rest = d :: more) (hrun : Longest isSymbolChar run rest) :
    StartsNumber (c :: run) ↔ isDigit d = true := by
  have hc : isDigit c = false := by rcases hsign with rfl | rfl <;> decide
  cases run with
  | nil =>
    rw [List.nil_append] at hmore
    have hd : isSymbolChar d = false := hrun.2 d (by rw [hmore]; rfl)
    have hdigit : ¬isDigit d = true := fun hd' => by simp [isSymbolChar_of_isDigit hd'] at hd
    simp [StartsNumber, hc, hdigit]
  | cons e run =>
    obtain ⟨rfl, -⟩ := List.cons.inj hmore
    simp [StartsNumber, hc, hsign]

/-- A run of symbol characters that starts with no colon is a number or a symbol. -/
theorem lexeme_symbolRun (hraw : Longest isSymbolChar (c :: run) rest) (hw : isWhitespace c = false)
    (hcolon : c ≠ ':') (hsingle : rest = [] → c :: run ∉ singles) (hbehind : Behind rest tail left)
    (h : s.Stands p [] ((c :: run ++ rest).map .char ++ tail)) :
    ∃ t, Scan.lexeme s = .ok (.token ⟨if StartsNumber (c :: run) then .number else .symbol,
        String.ofList (c :: run), String.ofList (c :: run), p⟩) t ∧
      t.Stands (p.advanceAll (c :: run)) [] (rest.map .char ++ left) := by
  have hrun : Longest isSymbolChar run rest := ⟨fun d hd => hraw.1 d (List.mem_cons_of_mem c hd), hraw.2⟩
  by_cases hsign : c = '+' ∨ c = '-'
  · have hfrom : Scan.lexemeFrom c = Scan.signed := by rcases hsign with rfl | rfl <;> rfl
    cases hmore : run ++ rest with
    | nil =>
      obtain ⟨rfl, rfl⟩ := List.append_eq_nil_iff.mp hmore
      rcases hsign with rfl | rfl <;> exact absurd (by decide) (hsingle rfl)
    | cons d more =>
      simp only [startsNumber_sign_iff hsign hmore hrun]
      exact h.lexeme_of_first fun u hu => by rw [hfrom]; exact hu.signed_token hmore hrun hbehind
  · have hne : c ≠ ':' ∧ c ≠ '+' ∧ c ≠ '-' := ⟨hcolon, fun e => hsign (Or.inl e), fun e => hsign (Or.inr e)⟩
    have hkind : (if isDigit c then Kind.number else Kind.symbol).keepsText = true := by cases isDigit c <;> rfl
    simp only [startsNumber_cons_iff hsign]
    refine h.lexeme_of_first fun u hu => ?_
    rw [Scan.lexemeFrom_of_isSymbolChar (hraw.1 c List.mem_cons_self) hw hne]
    exact hu.run_token hkind hrun hbehind

theorem discard_token (h : s.Stands p ['#'] (('_' :: rest).map .char ++ tail)) :
    ∃ t, Scan.dispatch s = .ok (.token ⟨.dispatch, "#_", "#_", p⟩) t ∧
      t.Stands (p.advanceAll ['#', '_']) [] (rest.map .char ++ tail) := by
  obtain ⟨u, hu, hsu⟩ := h.takeIf_taken (p := (· == '_')) rfl
  obtain ⟨t, ht, hst⟩ := hsu.token .dispatch none
  exact ⟨t, (Scan.bind_of_ok hu).trans ht, hst⟩

/-- The delimiter that makes a dispatch mark of the octothorpe stays unread. -/
theorem dispatch_token (hc : c ∈ dispatched) (h : s.Stands p ['#'] ((c :: rest).map .char ++ tail)) :
    ∃ t, Scan.dispatch s = .ok (.token ⟨.dispatch, String.ofList ['#', c], "#", p⟩) t ∧
      t.Stands (p.advanceAll ['#']) [] ((c :: rest).map .char ++ tail) := by
  simp only [dispatched, List.mem_cons, List.not_mem_nil, or_false] at hc
  have hleft : (c == '_') = false := by rcases hc with rfl | rfl | rfl | rfl <;> rfl
  obtain ⟨u, hu, hsu⟩ := h.takeIf_left (p := (· == '_')) hleft
  obtain ⟨t, ht, hst⟩ := hsu.token .dispatch (some (String.ofList ['#', c]))
  refine ⟨t, (Scan.bind_of_ok hu).trans ?_, hst⟩
  rcases hc with rfl | rfl | rfl | rfl <;> exact ht

theorem octothorpe_token (hc : c ≠ '_' ∧ c ∉ dispatched) (h : s.Stands p ['#'] ((c :: rest).map .char ++ tail)) :
    ∃ t, Scan.dispatch s = .ok (.token ⟨.octothorpe, "", "#", p⟩) t ∧
      t.Stands (p.advanceAll ['#']) [] ((c :: rest).map .char ++ tail) := by
  obtain ⟨u, hu, hsu⟩ := h.takeIf_left (p := (· == '_')) (beq_eq_false_iff_ne.mpr hc.1)
  obtain ⟨t, ht, hst⟩ := hsu.token .octothorpe none
  refine ⟨t, (Scan.bind_of_ok hu).trans ?_, hst⟩
  have hdisp : isDispatchChar c = false := by
    show (dispatched ++ ['_']).contains c = false
    simp [hc.1, hc.2]
  refine (congrFun (g := (Scan.token .octothorpe none : Scan Lexeme)) ?_ u).trans ht
  split
  · rename_i heq
    cases heq
  · rename_i heq
    exact absurd (Option.some.inj heq) hc.1
  · rename_i heq
    obtain rfl := Option.some.inj heq
    rw [hdisp]
    rfl

/-! ### Texts -/

theorem lexeme_blank (hraw : Longest isWhitespace (c :: run) rest) (hbehind : Behind rest tail left)
    (h : s.Stands p [] ((c :: run ++ rest).map .char ++ tail)) :
    ∃ t, Scan.lexeme s = .ok .blank t ∧ t.Stands (p.advanceAll (c :: run)) [] (rest.map .char ++ left) := by
  have hrun : Longest isWhitespace run rest := ⟨fun d hd => hraw.1 d (List.mem_cons_of_mem c hd), hraw.2⟩
  refine h.lexeme_of_first fun u hu => ?_
  have hsu : u.Stands p [c] (run.map .char ++ (rest.map .char ++ tail)) := by simpa using hu
  obtain ⟨v, hv, hsv⟩ := hsu.takeWhile hrun.1 (hbehind.stops hrun)
  refine ⟨{ v with start := v.pos, gathered := [] }, ?_, ⟨hsv.pos_eq, hsv.pos_eq, rfl, hsv.ahead_eq⟩⟩
  rw [Scan.lexemeFrom_of_isWhitespace (hraw.1 c List.mem_cons_self)]
  exact (Scan.bind_of_ok hv).trans rfl

/-- A lexeme that goes on as long as its characters do ends before the rest of the text, or at a read that gives
    nothing and is used up. -/
theorem lexeme_run {kind : Kind} (hlex : IsLexeme (c :: run) rest kind value) (hw : isWhitespace c = false)
    (hkind : kind.IsRun) (hsingle : rest = [] → c :: run ∉ singles) (hbehind : Behind rest tail left)
    (h : s.Stands p [] ((c :: run ++ rest).map .char ++ tail)) :
    ∃ t, Scan.lexeme s = .ok (.token ⟨kind, String.ofList value, String.ofList (c :: run), p⟩) t ∧
      t.Stands (p.advanceAll (c :: run)) [] (rest.map .char ++ left) := by
  cases hlex with
  | comment hrun => exact h.lexeme_of_first fun u hu => hu.run_token rfl hrun hbehind
  | charLiteral hrun =>
    refine h.lexeme_of_first fun u hu => ?_
    obtain ⟨v, hv, hsv, -, -⟩ := hu.next_char
    have hkeeps : Kind.charLiteral.keepsText = true := rfl
    obtain ⟨t, ht, hst⟩ := hsv.run_token hkeeps hrun hbehind
    exact ⟨t, (Scan.bind_of_ok hv).trans ht, hst⟩
  | keyword hrun => exact h.lexeme_of_first fun u hu => hu.run_token rfl hrun hbehind
  | lambdaArg hrun => exact h.lexeme_of_first fun u hu => hu.run_token rfl hrun hbehind
  | number hraw hnum =>
    have hcolon : c ≠ ':' := by
      rintro rfl
      exact absurd ((startsNumber_cons_iff (by decide)).mp hnum) (by decide)
    simpa only [hnum, if_true] using h.lexeme_symbolRun hraw hw hcolon hsingle hbehind
  | symbol hraw hcolon hnum => simpa only [hnum, if_false] using h.lexeme_symbolRun hraw hw hcolon hsingle hbehind
  | mark hmem => exact absurd hkind (not_isRun_of_mem_marks hmem)
  | _ => exact absurd hkind (by decide)

/-- A lexeme that does not go on is given without a read behind it, but for a look at the next character. -/
theorem lexeme_closed {kind : Kind} (hlex : IsLexeme (c :: run) rest kind value) (hkind : ¬ kind.IsRun)
    (hsingle : rest = [] → c :: run ∉ singles) (h : s.Stands p [] ((c :: run ++ rest).map .char ++ tail)) :
    ∃ t, Scan.lexeme s = .ok (.token ⟨kind, String.ofList value, String.ofList (c :: run), p⟩) t ∧
      t.Stands (p.advanceAll (c :: run)) [] (rest.map .char ++ tail) := by
  cases hlex with
  | string hopen hclose => exact h.lexeme_of_first fun u hu => hu.string_token hopen hclose
  | discard => exact h.lexeme_of_first fun u hu => hu.discard_token
  | dispatch hc => exact h.lexeme_of_first fun u hu => hu.dispatch_token hc
  | octothorpe hrest =>
    cases rest with
    | nil => exact absurd (by decide) (hsingle rfl)
    | cons d rest => exact h.lexeme_of_first fun u hu => hu.octothorpe_token (hrest d rfl)
  | mark hmem =>
    refine h.lexeme_of_first fun u hu => ?_
    rw [Scan.lexemeFrom_of_mem_marks hmem]
    obtain ⟨t, ht, hst⟩ := hu.token kind none
    rw [keepsText_of_mem_marks hmem] at ht
    exact ⟨t, ht, hst⟩
  | _ => exact absurd (by decide) hkind

/-- A lexeme of the grammar is what the scanner reads next, as long as a character stands behind it or the reads
    end there. -/
theorem lexeme_token {kind : Kind} (hlex : IsLexeme (c :: run) rest kind value) (hw : isWhitespace c = false)
    (hsingle : rest = [] → c :: run ∉ singles) (hbehind : Behind rest tail tail)
    (h : s.Stands p [] ((c :: run ++ rest).map .char ++ tail)) :
    ∃ t, Scan.lexeme s = .ok (.token ⟨kind, String.ofList value, String.ofList (c :: run), p⟩) t ∧
      t.Stands (p.advanceAll (c :: run)) [] (rest.map .char ++ tail) := by
  by_cases hkind : kind.IsRun
  · exact h.lexeme_run hlex hw hkind hsingle hbehind
  · exact h.lexeme_closed hlex hkind hsingle

/-- Where no lexeme begins, the scan fails, with what comes behind the text still ahead. -/
theorem lexeme_failure {cs : List Char} {message : String} (hfail : Failure (c :: cs) raw message)
    (hw : isWhitespace c = false) (hreads : Silent tail left) (h : s.Stands p [] ((c :: cs).map .char ++ tail)) :
    ∃ t text more, Scan.lexeme s = .ok (.last [⟨.error, message, String.ofList raw, p⟩]) t ∧
      t.Stands p text more ∧ left <:+ more := by
  have hfirst := h
  rw [List.map_cons, List.cons_append] at hfirst
  obtain ⟨u, hu, hsu, -, -⟩ := hfirst.next_char
  have hlexeme : Scan.lexeme s = Scan.lexemeFrom c u := Scan.lexeme_of_next hu
  cases hfail with
  | openString hopen =>
    obtain ⟨t, ht, hst⟩ := hsu.string_failure hopen hreads
    exact ⟨t, _, left, hlexeme.trans ht, hst, List.suffix_rfl⟩
  | loneBackslash =>
    obtain ⟨t, ht, hst⟩ := hsu.next_silent hreads
    exact ⟨t, _, left, hlexeme.trans ((Scan.bind_of_ok ht).trans (hst.failure _)), hst, List.suffix_rfl⟩
  | unrecognized hsym hspecial hmark =>
    refine ⟨u, _, _, hlexeme.trans ?_, hsu, hreads.suffix.trans (List.suffix_append _ _)⟩
    rw [Scan.lexemeFrom_of_unrecognized hsym hw hspecial hmark]
    exact hsu.failure _

theorem emission_blank (hraw : Longest isWhitespace (c :: run) rest) (htail : rest = [] → tail = [])
    (h : s.Stands p [] ((c :: run ++ rest).map .char ++ tail)) :
    ∃ t : Scanner, s.emission = t.emission ∧ t.Stands (p.advanceAll (c :: run)) [] (rest.map .char ++ tail) := by
  obtain ⟨t, ht, hst⟩ := h.lexeme_blank hraw (.of_end htail)
  exact ⟨t, emission_of_blank ht, hst⟩

theorem emission_end (h : s.Stands p [] []) : s.emission = { tokens := [⟨.eof, "", "", p⟩] } := by
  obtain ⟨t, ht, -⟩ := h.lexeme_end .none
  exact emission_of_last ht

/-- A lexeme of the grammar is what the scanner gives next. Where the lexeme is the last of its text,
    nothing must follow the text: a run or a mark might go on. -/
theorem emission_lexeme {kind : Kind} (hlex : IsLexeme (c :: run) rest kind value) (hw : isWhitespace c = false)
    (htail : rest = [] → tail = []) (h : s.Stands p [] ((c :: run ++ rest).map .char ++ tail)) :
    ∃ t : Scanner, s.emission = t.emission.cons ⟨kind, String.ofList value, String.ofList (c :: run), p⟩ ∧
      t.Stands (p.advanceAll (c :: run)) [] (rest.map .char ++ tail) := by
  by_cases hsingle : rest = [] → c :: run ∉ singles
  · obtain ⟨t, ht, hst⟩ := h.lexeme_token hlex hw hsingle (.of_end htail)
    exact ⟨t, emission_of_token ht, hst⟩
  · obtain ⟨rfl, hmem⟩ := Classical.not_imp.mp hsingle
    obtain rfl := htail rfl
    rw [List.append_nil (c :: run)] at h
    obtain ⟨t, ht, hst⟩ := h.lexeme_single hlex (Classical.not_not.mp hmem) .none
    refine ⟨t, ?_, hst⟩
    rw [emission_of_last ht, hst.emission_end]
    rfl

theorem emission_failure {cs : List Char} {message : String} (hfail : Failure (c :: cs) raw message)
    (hw : isWhitespace c = false) (h : s.Stands p [] ((c :: cs).map .char)) :
    s.emission = { tokens := [⟨.error, message, String.ofList raw, p⟩] } := by
  rw [← List.append_nil (List.map _ _)] at h
  obtain ⟨t, _, _, ht, -, -⟩ := h.lexeme_failure hfail hw .none
  exact emission_of_last ht

end Stands

end Scanner

/-- A scanner at the start of a text gives the tokens that the grammar cuts the text into. -/
theorem emission_of_tokens {p : Position} {text : List Char} {ts : List Token} (h : Tokens p text ts) :
    ∀ s : Scanner, s.Stands p [] (text.map .char) → s.emission = { tokens := ts } := by
  induction h with
  | endOfText => exact fun s hs => hs.emission_end
  | blank hrun _ ih =>
    intro s hs
    rw [← List.append_nil (List.map _ _)] at hs
    obtain ⟨t, ht, hst⟩ := hs.emission_blank hrun fun _ => rfl
    rw [List.append_nil] at hst
    rw [ht, ih t hst]
  | lexeme hw hlex _ ih =>
    intro s hs
    rw [← List.append_nil (List.map _ _)] at hs
    obtain ⟨t, ht, hst⟩ := hs.emission_lexeme hlex hw fun _ => rfl
    rw [List.append_nil] at hst
    rw [ht, ih t hst]
    rfl
  | failure hw hfail => exact fun s hs => hs.emission_failure hfail hw

/-- Scanning a text gives the tokens that the grammar cuts it into, and the grammar cuts it into these
    alone: kinds, values, texts as written and positions. -/
theorem tokenize_eq_iff_tokens (source name : String) (ts : List Token) :
    tokenize source name = ts ↔ Tokens { name } source.toList ts := by
  have forward : ∀ us, Tokens { name } source.toList us → tokenize source name = us := fun us hus => by
    have := emission_of_tokens hus _ (Scanner.ofReads_stands name (Read.ofText source))
    exact congrArg Emission.tokens this
  refine ⟨fun h => ?_, forward ts⟩
  obtain ⟨us, hus⟩ := Tokens.exists source.toList { name }
  rw [← h, forward us hus]
  exact hus

end ClojureLayout
