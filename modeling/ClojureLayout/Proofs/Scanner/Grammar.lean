import ClojureLayout.Alphabet
import ClojureLayout.Token

/-! The lexical grammar of a source text. `IsLexeme` says which texts are lexemes of which kind, and with
    which value, before the text that follows them; `Failure` says which texts begin with none.
    `Tokens` cuts a whole text: white space is left out, every other lexeme is a token, and the text
    ends with its end or with a failure. Every text can be cut (`Tokens.exists`). -/

namespace ClojureLayout
namespace Grammar

/-! ### Longest runs -/

/-- `run` is the longest run of characters with `p` at the head of `run ++ rest`. -/
def Longest (p : Char → Bool) (run rest : List Char) : Prop :=
  (∀ c ∈ run, p c = true) ∧ ∀ c ∈ rest.head?, p c = false

theorem Longest.exists (p : Char → Bool) : ∀ cs : List Char, ∃ run rest, cs = run ++ rest ∧ Longest p run rest
  | [] => ⟨[], [], rfl, by simp, by simp⟩
  | c :: cs => by
    cases hc : p c with
    | false => exact ⟨[], c :: cs, rfl, by simp, by simp [hc]⟩
    | true =>
      obtain ⟨run, rest, rfl, hrun, hrest⟩ := Longest.exists p cs
      exact ⟨c :: run, rest, rfl, by simpa [hc] using hrun, hrest⟩

theorem Longest.single {p : Char → Bool} {c : Char} (h : p c = true) : Longest p [c] [] :=
  ⟨by simpa using h, by simp⟩

/-! ### Strings -/

/-- The number of backslashes that end a text without a break. -/
def backslashesAtEnd (cs : List Char) : Nat := (cs.reverse.takeWhile (· == '\\')).length

/-- A quotation mark after `cs` closes the string that `cs` began. -/
def Closes (cs : List Char) : Prop := backslashesAtEnd cs % 2 = 0

/-- No quotation mark in `body` closes the string that it is in. -/
def Open (body : List Char) : Prop := ∀ before after, body = before ++ '\x22' :: after → ¬Closes before

theorem closes_concat_backslash (cs : List Char) : Closes (cs ++ ['\\']) ↔ ¬Closes cs := by
  simp only [Closes, backslashesAtEnd, List.reverse_append, List.reverse_singleton, List.singleton_append,
    List.takeWhile_cons, beq_self_eq_true, ↓reduceIte, List.length_cons]
  omega

theorem closes_concat {c : Char} (hc : c ≠ '\\') (cs : List Char) : Closes (cs ++ [c]) := by
  simp [Closes, backslashesAtEnd, hc]

instance (cs : List Char) : Decidable (Closes cs) := inferInstanceAs (Decidable (_ = _))

theorem open_nil : Open [] := by simp [Open]

theorem open_concat {c : Char} {cs : List Char} (h : Open cs) (hc : c = '\x22' → ¬Closes cs) : Open (cs ++ [c]) := by
  intro before after he
  rcases List.append_eq_append_iff.mp he with ⟨as, rfl, has⟩ | ⟨as, rfl, has⟩
  · cases as with
    | nil =>
      simp only [List.nil_append, List.cons.injEq] at has
      simpa using hc has.1
    | cons a as => simp at has
  · cases as with
    | nil =>
      simp only [List.nil_append, List.cons.injEq] at has
      simpa using hc has.1.symm
    | cons a as =>
      simp only [List.cons_append, List.cons.injEq] at has
      obtain ⟨rfl, -⟩ := has
      exact h before as rfl

/-- A text in a string is open to its end, or is cut by the first quotation mark that closes it. -/
theorem open_or_closed (cs : List Char) : ∀ before, Open before →
    Open (before ++ cs) ∨ ∃ body rest, before ++ cs = body ++ '\x22' :: rest ∧ Open body ∧ Closes body := by
  induction cs with
  | nil => exact fun before h => Or.inl (by simpa using h)
  | cons c cs ih =>
    intro before h
    by_cases hc : c = '\x22' ∧ Closes before
    · exact Or.inr ⟨before, cs, by rw [hc.1], h, hc.2⟩
    · have := ih (before ++ [c]) (open_concat h fun e => fun hb => hc ⟨e, hb⟩)
      simpa using this

/-! ### Lexemes -/

/-- The delimiters and reader marks that are tokens by themselves. -/
def marks : List (Char × Kind) :=
  [('\x27', .apostrophe), ('@', .atSign), ('\x60', .backtick), ('^', .circumflex), ('\x7b', .leftBrace),
    ('[', .leftBracket), ('(', .leftParen), ('\x7d', .rightBrace), (']', .rightBracket), (')', .rightParen),
    ('~', .tilde)]

/-- The characters that an octothorpe before them makes a dispatch mark of, without being part of it. -/
def dispatched : List Char := ['\x7b', '(', '\x27', '\x22']

/-- A number starts with a digit, or with a sign and a digit. -/
def StartsNumber : List Char → Prop
  | [] => False
  | [c] => isDigit c = true
  | c :: d :: _ => isDigit c = true ∨ (c = '+' ∨ c = '-') ∧ isDigit d = true

/-- `raw`, before `rest`, is a lexeme of kind `kind` that stands for `value`. -/
inductive IsLexeme : (raw rest : List Char) → Kind → (value : List Char) → Prop
  /-- A comment goes on to the end of its line. -/
  | comment {run rest} : Longest (· != '\n') run rest → IsLexeme (';' :: run) rest .comment (';' :: run)
  /-- A string goes on to the first quotation mark that closes it. -/
  | string {body rest} : Open body → Closes body → IsLexeme ('\x22' :: (body ++ ['\x22'])) rest .string body
  /-- The character after the backslash belongs to the literal, whatever it is. -/
  | charLiteral {c run rest} : Longest isSymbolChar run rest →
      IsLexeme ('\\' :: c :: run) rest .charLiteral ('\\' :: c :: run)
  | keyword {run rest} : Longest isSymbolChar run rest → IsLexeme (':' :: run) rest .keyword (':' :: run)
  | lambdaArg {run rest} : Longest isSymbolChar run rest → IsLexeme ('%' :: run) rest .lambdaArg ('%' :: run)
  /-- The mark that discards what follows it. -/
  | discard {rest} : IsLexeme ['#', '_'] rest .dispatch ['#', '_']
  /-- The delimiter after the octothorpe belongs to the value, but it is a lexeme of its own. -/
  | dispatch {c rest} : c ∈ dispatched → IsLexeme ['#'] (c :: rest) .dispatch ['#', c]
  | octothorpe {rest} : (∀ c ∈ rest.head?, c ≠ '_' ∧ c ∉ dispatched) → IsLexeme ['#'] rest .octothorpe []
  | mark {c kind rest} : (c, kind) ∈ marks → IsLexeme [c] rest kind []
  | number {raw rest} : Longest isSymbolChar raw rest → StartsNumber raw → IsLexeme raw rest .number raw
  | symbol {c run rest} : Longest isSymbolChar (c :: run) rest → c ≠ ':' → ¬StartsNumber (c :: run) →
      IsLexeme (c :: run) rest .symbol (c :: run)

/-- The lexemes of one character that depend on there being a character behind them. -/
def singles : List (List Char) := [['#'], ['+'], ['-']]

/-- `text` begins with no lexeme: the error is found in `raw`. -/
inductive Failure : (text raw : List Char) → (message : String) → Prop
  | openString {body} : Open body →
      Failure ('\x22' :: body) ('\x22' :: body) "reached EOF before string closing quote"
  | loneBackslash : Failure ['\\'] ['\\'] "invalid character literal"
  | unrecognized {c rest} : isSymbolChar c = false → c ∉ [';', '\x22', '\\', '%', '#'] → c ∉ marks.map (·.1) →
      Failure (c :: rest) [c] ("unrecognized token starting with " ++ String.ofList [c])

/-- The tokens of a text that starts at a position. -/
inductive Tokens : Position → (text : List Char) → List Token → Prop
  | endOfText {p} : Tokens p [] [⟨.eof, "", "", p⟩]
  /-- A run of white space is left out as a whole. -/
  | blank {p c run rest ts} : Longest isWhitespace (c :: run) rest →
      Tokens (p.advanceAll (c :: run)) rest ts → Tokens p (c :: run ++ rest) ts
  | lexeme {p c run rest kind value ts} : isWhitespace c = false → IsLexeme (c :: run) rest kind value →
      Tokens (p.advanceAll (c :: run)) rest ts →
      Tokens p (c :: run ++ rest) (⟨kind, String.ofList value, String.ofList (c :: run), p⟩ :: ts)
  | failure {p c rest raw message} : isWhitespace c = false → Failure (c :: rest) raw message →
      Tokens p (c :: rest) [⟨.error, message, String.ofList raw, p⟩]

/-! ### Every text can be cut -/

theorem isSymbolChar_of_isDigit {c : Char} (h : isDigit c = true) : isSymbolChar c = true := by
  have hrange : 0x30 ≤ c.toNat ∧ c.toNat ≤ 0x39 := by
    simpa [isDigit, Text.isAsciiDigit, Char.le_def, UInt32.le_iff_toNat_le] using h
  have hdigit : Text.isDecimalDigit c = true :=
    (Text.Ranges.contains_iff Text.decimalDigitRanges_ascending _).mpr ⟨(0x30, 0x39), List.mem_cons_self, hrange⟩
  simp [isSymbolChar, hdigit]

theorem isWhitespace_eq_false_of_isSymbolChar {c : Char} (h : isSymbolChar c = true) : isWhitespace c = false := by
  have hblanks : ∀ range ∈ Text.blankRanges, ∀ n ∈ List.range' range.1 (range.2 + 1 - range.1),
      isSymbolChar (Char.ofNat n) = false := by
    decide +kernel
  rw [Bool.eq_false_iff]
  intro hw
  rcases Bool.or_eq_true_iff.mp hw with hblank | hcomma
  · obtain ⟨range, hrange, hlow, hhigh⟩ := (Text.Ranges.contains_iff Text.blankRanges_ascending _).mp hblank
    have hnot := hblanks range hrange c.toNat (List.mem_range'_1.mpr (by omega))
    rw [Char.ofNat_toNat, h] at hnot
    cases hnot
  · obtain rfl := beq_iff_eq.mp hcomma
    exact absurd h (by decide)

instance : DecidablePred StartsNumber := fun cs =>
  match cs with
  | [] => isFalse id
  | [c] => inferInstanceAs (Decidable (isDigit c = true))
  | c :: d :: _ => inferInstanceAs (Decidable (isDigit c = true ∨ (c = '+' ∨ c = '-') ∧ isDigit d = true))

theorem mem_singles {raw : List Char} : raw ∈ singles ↔ raw = ['#'] ∨ raw = ['+'] ∨ raw = ['-'] := by
  simp [singles]

theorem notMem_singles_of_mem_marks {c : Char} {kind : Kind} (h : (c, kind) ∈ marks) : [c] ∉ singles :=
  (by decide : ∀ m ∈ marks, [m.1] ∉ singles) _ h

theorem IsLexeme.single_cases {raw value : List Char} {kind : Kind} (h : IsLexeme raw [] kind value)
    (hsingle : raw ∈ singles) :
    raw = ['#'] ∧ kind = .octothorpe ∧ value = [] ∨
      ∃ c, (c = '+' ∨ c = '-') ∧ raw = [c] ∧ kind = .symbol ∧ value = [c] := by
  rw [mem_singles] at hsingle
  cases h with
  | octothorpe => exact .inl ⟨rfl, rfl, rfl⟩
  | number _ hnum => rcases hsingle with rfl | rfl | rfl <;> exact absurd hnum (by decide)
  | symbol hrun =>
    rcases hsingle with hraw | hraw | hraw
    · obtain ⟨rfl, rfl⟩ := List.cons.inj hraw
      exact absurd (hrun.1 '#' List.mem_cons_self) (by decide)
    · obtain ⟨rfl, rfl⟩ := List.cons.inj hraw
      exact .inr ⟨'+', .inl rfl, rfl, rfl, rfl⟩
    · obtain ⟨rfl, rfl⟩ := List.cons.inj hraw
      exact .inr ⟨'-', .inr rfl, rfl, rfl, rfl⟩
  | mark hmem => exact absurd (mem_singles.mpr hsingle) (notMem_singles_of_mem_marks hmem)
  | _ => simp at hsingle

/-- A run of symbol characters is a keyword, a number or a symbol. -/
theorem lexeme_of_longest {c : Char} {run rest : List Char} (h : Longest isSymbolChar (c :: run) rest) :
    ∃ kind value, IsLexeme (c :: run) rest kind value := by
  by_cases hcolon : c = ':'
  · subst hcolon
    exact ⟨_, _, .keyword ⟨fun d hd => h.1 d (List.mem_cons_of_mem _ hd), h.2⟩⟩
  · by_cases hnum : StartsNumber (c :: run)
    · exact ⟨_, _, .number h hnum⟩
    · exact ⟨_, _, .symbol h hcolon hnum⟩

theorem lexeme_of_isSymbolChar {c : Char} (hc : isSymbolChar c = true) (cs : List Char) :
    ∃ run rest kind value, cs = run ++ rest ∧ IsLexeme (c :: run) rest kind value := by
  obtain ⟨run, rest, rfl, hrun⟩ := Longest.exists isSymbolChar cs
  obtain ⟨kind, value, hlex⟩ := lexeme_of_longest (c := c) ⟨by simpa [hc] using hrun.1, hrun.2⟩
  exact ⟨run, rest, kind, value, rfl, hlex⟩

theorem lexeme_of_octothorpe (cs : List Char) :
    ∃ run rest kind value, cs = run ++ rest ∧ IsLexeme ('#' :: run) rest kind value := by
  cases cs with
  | nil => exact ⟨[], [], _, _, rfl, .octothorpe (by simp)⟩
  | cons d cs =>
    by_cases hd : d = '_'
    · subst hd
      exact ⟨['_'], cs, _, _, rfl, .discard⟩
    · by_cases hdel : d ∈ dispatched
      · exact ⟨[], d :: cs, _, _, rfl, .dispatch hdel⟩
      · exact ⟨[], d :: cs, _, _, rfl, .octothorpe (by simp [hd, hdel])⟩

theorem lexeme_or_failure_of_quote (cs : List Char) :
    (∃ run rest kind value, cs = run ++ rest ∧ IsLexeme ('\x22' :: run) rest kind value) ∨
      ∃ raw message, Failure ('\x22' :: cs) raw message := by
  rcases open_or_closed cs [] open_nil with hopen | ⟨body, rest, rfl, hopen, hclose⟩
  · exact Or.inr ⟨_, _, .openString hopen⟩
  · exact Or.inl ⟨body ++ ['\x22'], rest, _, _, by simp, .string hopen hclose⟩

theorem lexeme_or_failure_of_backslash (cs : List Char) :
    (∃ run rest kind value, cs = run ++ rest ∧ IsLexeme ('\\' :: run) rest kind value) ∨
      ∃ raw message, Failure ('\\' :: cs) raw message := by
  cases cs with
  | nil => exact Or.inr ⟨_, _, .loneBackslash⟩
  | cons d cs =>
    obtain ⟨run, rest, rfl, hrun⟩ := Longest.exists isSymbolChar cs
    exact Or.inl ⟨d :: run, rest, _, _, rfl, .charLiteral hrun⟩

/-- A text that is not empty begins with a lexeme, or with none. -/
theorem lexeme_or_failure (c : Char) (cs : List Char) :
    (∃ run rest kind value, cs = run ++ rest ∧ IsLexeme (c :: run) rest kind value) ∨
      ∃ raw message, Failure (c :: cs) raw message := by
  by_cases hsym : isSymbolChar c = true
  · exact Or.inl (lexeme_of_isSymbolChar hsym cs)
  by_cases hmark : c ∈ marks.map (·.1)
  · obtain ⟨⟨_, kind⟩, hmem, rfl⟩ := List.mem_map.mp hmark
    exact Or.inl ⟨[], cs, kind, [], rfl, .mark hmem⟩
  by_cases hspecial : c ∈ [';', '\x22', '\\', '%', '#']
  · simp only [List.mem_cons, List.not_mem_nil, or_false] at hspecial
    rcases hspecial with rfl | rfl | rfl | rfl | rfl
    · obtain ⟨run, rest, rfl, hrun⟩ := Longest.exists (· != '\n') cs
      exact Or.inl ⟨run, rest, _, _, rfl, .comment hrun⟩
    · exact lexeme_or_failure_of_quote cs
    · exact lexeme_or_failure_of_backslash cs
    · obtain ⟨run, rest, rfl, hrun⟩ := Longest.exists isSymbolChar cs
      exact Or.inl ⟨run, rest, _, _, rfl, .lambdaArg hrun⟩
    · exact Or.inl (lexeme_of_octothorpe cs)
  · exact Or.inr ⟨_, _, .unrecognized (by simpa using hsym) hspecial hmark⟩

theorem Tokens.exists (cs : List Char) : ∀ p : Position, ∃ ts, Tokens p cs ts := by
  induction hn : cs.length using Nat.strongRecOn generalizing cs with
  | _ n ih =>
    intro p
    match cs with
    | [] => exact ⟨_, .endOfText⟩
    | c :: cs =>
      have later : ∀ run rest : List Char, cs = run ++ rest → ∀ p, ∃ ts, Tokens p rest ts := by
        rintro run rest rfl
        refine ih rest.length ?_ rest rfl
        simp only [← hn, List.length_cons, List.length_append]
        omega
      cases hw : isWhitespace c with
      | true =>
        obtain ⟨run, rest, rfl, hrun⟩ := Longest.exists isWhitespace cs
        obtain ⟨ts, hts⟩ := later run rest rfl (p.advanceAll (c :: run))
        exact ⟨ts, .blank ⟨by simpa [hw] using hrun.1, hrun.2⟩ hts⟩
      | false =>
        rcases lexeme_or_failure c cs with ⟨run, rest, kind, value, rfl, hlex⟩ | ⟨raw, message, hfail⟩
        · obtain ⟨ts, hts⟩ := later run rest rfl (p.advanceAll (c :: run))
          exact ⟨_, .lexeme hw hlex hts⟩
        · exact ⟨_, .failure hw hfail⟩

theorem Tokens.ne_nil {p : Position} {text : List Char} {ts : List Token} (h : Tokens p text ts) : ts ≠ [] := by
  induction h with
  | blank _ _ ih => exact ih
  | _ => simp

end Grammar
end ClojureLayout
