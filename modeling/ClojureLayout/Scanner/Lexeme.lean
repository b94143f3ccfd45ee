import ClojureLayout.Alphabet
import ClojureLayout.Scanner.Remaining

/-!
# Lexemes

`Scan.lexeme` reads one lexeme. Its first character decides what it is, in a few cases together with
the next one:

* a run of white space, which gives no token;
* a delimiter or a reader mark of one character;
* a comment, to the end of its line;
* a string, to the first quotation mark that no backslash escapes;
* a character literal: a backslash, any character, and the symbol characters that follow;
* a keyword, a lambda argument, a number or a symbol: a run of symbol characters, a number if it
  starts with a digit or with a sign and a digit;
* a dispatch mark or a tag, which begin with an octothorpe. A tag is an octothorpe followed by an
  ordinary symbol. An opening delimiter after the octothorpe belongs to the mark's value, but it is
  read again as a token of its own.
-/

namespace ClojureLayout

/-- The kind of a delimiter or reader mark that is a token by itself. -/
def Kind.ofMark? : Char → Option Kind
  | '\x27' => some .apostrophe
  | '@' => some .atSign
  | '\x60' => some .backtick
  | '^' => some .circumflex
  | '\x7b' => some .leftBrace
  | '[' => some .leftBracket
  | '(' => some .leftParen
  | '\x7d' => some .rightBrace
  | ']' => some .rightBracket
  | ')' => some .rightParen
  | '~' => some .tilde
  | _ => none

/-- A character that makes a dispatch mark of the octothorpe before it. -/
def isDispatchChar (c : Char) : Bool := ['\x7b', '(', '\x27', '\x22', '_'].contains c

/-- What reading a lexeme comes to. -/
inductive Lexeme where
  /-- White space, which gives no token. -/
  | blank
  /-- A token, after which the scan goes on. -/
  | token (t : Token)
  /-- The tokens that end the scan. -/
  | last (ts : List Token)

namespace Scan

/-- Reads on while the characters satisfy `p`; the first that does not is left unread. -/
def takeWhile (p : Char → Bool) (s : Scanner) : EStateM.Result ScanFault Scanner Unit :=
  match _ : next s with
  | .ok (some c) t => if p c then takeWhile p t else back t
  | .ok none t => .ok () t
  | .error e t => .error e t
termination_by s.remaining
decreasing_by exact remaining_lt_of_next ‹_›

/-- Reads to the end of a string and tells whether it is closed. The quotation mark that closes it
    is the first that is not `escaped` by the character before it. -/
def takeString (escaped : Bool) (s : Scanner) : EStateM.Result ScanFault Scanner Bool :=
  match _ : next s with
  | .ok (some c) t =>
    if c = '\x22' then
      if escaped then takeString false t else .ok true t
    else if c = '\\' then takeString (!escaped) t
    else takeString false t
  | .ok none t => .ok false t
  | .error e t => .error e t
termination_by s.remaining
decreasing_by all_goals exact remaining_lt_of_next ‹_›

/-- The end of the source, after the tokens given. -/
def endOfSource (ts : List Token) : Scan Lexeme := do
  let eof ← emit .eof
  return .last (ts ++ [eof])

/-- A scan error in the text gathered, which ends the scan. -/
def failure (message : String) : Scan Lexeme := do
  let t ← errorToken message
  return .last [t]

/-- A token of the text gathered. -/
def token (kind : Kind) (value : Option String := none) : Scan Lexeme := do
  let t ← emit kind value
  return .token t

/-- A token that goes on as long as the characters satisfy `p`. -/
def run (p : Char → Bool) (kind : Kind) : Scan Lexeme := do
  takeWhile p
  token kind

/-- The rest of a run of white space. -/
def whitespace : Scan Lexeme := do
  takeWhile isWhitespace
  skip
  return .blank

/-- The rest of a string; its value is the text between its quotation marks. -/
def string : Scan Lexeme := do
  if ← takeString false then
    let s ← get
    token .string (some (String.ofList (s.gathered.reverse.tail.dropLast)))
  else failure "reached EOF before string closing quote"

/-- The rest of a character literal. The character after the backslash belongs to it, whatever it
    is. -/
def charLiteral : Scan Lexeme := do
  match ← next with
  | none => failure "invalid character literal"
  | some _ => run isSymbolChar .charLiteral

/-- What an octothorpe begins. -/
def dispatch : Scan Lexeme := do
  match ← takeIf (· == '_') with
  | none => endOfSource [← emit .octothorpe]
  | some '_' => token .dispatch
  | some c =>
    if isDispatchChar c then token .dispatch (some (String.ofList ['#', c])) else token .octothorpe

/-- What a sign begins. -/
def signed : Scan Lexeme := do
  match ← peek with
  | none => endOfSource [← emit .symbol]
  | some c => run isSymbolChar (if isDigit c then .number else .symbol)

/-- What the character `c`, just read, begins. -/
def lexemeFrom (c : Char) : Scan Lexeme :=
  if c = ';' then run (· != '\n') .comment
  else if c = '\x22' then string
  else if c = '\\' then charLiteral
  else if c = ':' then run isSymbolChar .keyword
  else if c = '%' then run isSymbolChar .lambdaArg
  else if c = '#' then dispatch
  else if c = '+' ∨ c = '-' then signed
  else
    match Kind.ofMark? c with
    | some kind => token kind
    | none =>
      if isWhitespace c then whitespace
      else if isDigit c then run isSymbolChar .number
      else if isSymbolChar c then run isSymbolChar .symbol
      else failure ("unrecognized token starting with " ++ String.ofList [c])

/-- Reads a lexeme. -/
def lexeme : Scan Lexeme := do
  match ← next with
  | none => endOfSource []
  | some c => lexemeFrom c

/-! ### Every lexeme uses up some of the source -/

theorem settling_takeWhile (p : Char → Bool) : Settling (takeWhile p) := by
  intro s a t h
  fun_induction takeWhile p s with
  | case1 s c u hu hp ih => exact Nat.le_trans (ih h) (Nat.le_of_lt (remaining_lt_of_next hu))
  | case2 s c u hu hp =>
    have := remaining_lt_of_next hu
    have := remaining_le_of_back h
    omega
  | case3 s u hu =>
    cases h
    exact remaining_le_of_next_none hu
  | case4 => cases h

theorem settling_takeString (escaped : Bool) : Settling (takeString escaped) := by
  intro s a t h
  fun_induction takeString escaped s with
  | case1 s u hu ih => exact Nat.le_trans (ih h) (Nat.le_of_lt (remaining_lt_of_next hu))
  | case2 _ s u _ hu =>
    cases h
    exact Nat.le_of_lt (remaining_lt_of_next hu)
  | case3 _ s u hu _ ih => exact Nat.le_trans (ih h) (Nat.le_of_lt (remaining_lt_of_next hu))
  | case4 _ s c u hu _ _ ih => exact Nat.le_trans (ih h) (Nat.le_of_lt (remaining_lt_of_next hu))
  | case5 _ s u hu =>
    cases h
    exact remaining_le_of_next_none hu
  | case6 => cases h

theorem settling_endOfSource (ts : List Token) : Settling (endOfSource ts) :=
  (settling_emit _ _).bind fun _ => .pure _

theorem settling_failure (message : String) : Settling (failure message) :=
  (settling_errorToken _).bind fun _ => .pure _

theorem settling_token (kind : Kind) (value : Option String) : Settling (token kind value) :=
  (settling_emit _ _).bind fun _ => .pure _

theorem settling_run (p : Char → Bool) (kind : Kind) : Settling (run p kind) :=
  (settling_takeWhile p).bind fun _ => settling_token _ _

theorem settling_whitespace : Settling whitespace :=
  (settling_takeWhile _).bind fun _ => settling_skip.bind fun _ => .pure _

theorem settling_string : Settling string :=
  (settling_takeString _).bind fun closed => by
    cases closed
    · exact settling_failure _
    · exact settling_get.bind fun _ => settling_token _ _

theorem settling_charLiteral : Settling charLiteral :=
  settling_next.bind fun c => by
    cases c
    · exact settling_failure _
    · exact settling_run _ _

theorem settling_dispatch : Settling dispatch :=
  (settling_takeIf _).bind fun c => by
    split
    · exact (settling_emit _ _).bind fun _ => settling_endOfSource _
    · exact settling_token _ _
    · split <;> exact settling_token _ _

theorem settling_signed : Settling signed :=
  (settling_takeIf _).bind fun c => by
    cases c
    · exact (settling_emit _ _).bind fun _ => settling_endOfSource _
    · exact settling_run _ _

theorem settling_lexemeFrom (c : Char) : Settling (lexemeFrom c) := by
  unfold lexemeFrom
  repeat' split
  all_goals first
    | exact settling_run _ _
    | exact settling_string
    | exact settling_charLiteral
    | exact settling_dispatch
    | exact settling_signed
    | exact settling_token _ _
    | exact settling_whitespace
    | exact settling_failure _

/-- A lexeme after which the scan goes on is not empty. -/
theorem remaining_lt_of_lexeme {s t : Scanner} {l : Lexeme} (h : lexeme s = .ok l t)
    (hl : ∀ ts, l ≠ .last ts) : t.remaining < s.remaining := by
  simp only [lexeme, bind_apply] at h
  split at h
  · rename_i c u hu
    cases c with
    | none =>
      simp only [endOfSource, bind_apply, pure_apply] at h
      split at h
      · cases h
        exact absurd rfl (hl _)
      · cases h
    | some c => exact Nat.lt_of_le_of_lt (settling_lexemeFrom c _ _ _ h) (remaining_lt_of_next hu)
  · cases h

end Scan

end ClojureLayout
