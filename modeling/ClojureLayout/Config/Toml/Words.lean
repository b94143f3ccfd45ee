import ClojureLayout.Config.Draft

/-!
# White space, comments, strings and keys of a configuration file

Each reader takes the text to come and gives what it read with the text that follows.
-/

namespace ClojureLayout.Config.Toml

/-- Why a configuration file cannot be read. -/
inductive Fault where
  /-- The file is not well formed, in whatever way. -/
  | malformed
  /-- A whole number has more digits than are worked out. -/
  | tooManyDigits (count : Nat)
deriving DecidableEq

/-- White space within a line. -/
def isSpace (c : Char) : Bool := c == ' ' || c == '\t'

def skipSpace (cs : List Char) : List Char := cs.dropWhile isSpace

/-- A control character, which may not stand in a comment or a string; a tab may. -/
def isControl (c : Char) : Bool := (decide (c.toNat < 0x20) && c != '\t') || c == '\x7f'

/-- The text after a comment, if one starts here. -/
def skipComment : List Char → Except Fault (List Char)
  | '#' :: rest =>
    if (rest.takeWhile (· != '\n')).any isControl then .error .malformed
    else .ok (rest.dropWhile (· != '\n'))
  | cs => .ok cs

/-- The text after white space, line breaks and comments, of which there are at most `fuel`. -/
def skipBlankWithin : (fuel : Nat) → List Char → Except Fault (List Char)
  | 0, cs => .ok cs
  | fuel + 1, cs =>
    match cs.dropWhile fun c => isSpace c || c == '\n' with
    | '#' :: rest => do skipBlankWithin fuel (← skipComment ('#' :: rest))
    | rest => .ok rest

/-- The text after white space, line breaks and comments. -/
def skipBlank (cs : List Char) : Except Fault (List Char) := skipBlankWithin (cs.length + 1) cs

/-! ### Strings -/

def hexValue? (c : Char) : Option Nat :=
  if '0' ≤ c ∧ c ≤ '9' then some (c.toNat - '0'.toNat)
  else if 'a' ≤ c ∧ c ≤ 'f' then some (c.toNat - 'a'.toNat + 10)
  else if 'A' ≤ c ∧ c ≤ 'F' then some (c.toNat - 'A'.toNat + 10)
  else none

/-- The character with a code point, if there is one. -/
def character? (n : Nat) : Option Char := if n.isValidChar then some (Char.ofNat n) else none

/-- The character that a letter after a backslash stands for. -/
def escaped? : Char → Option Char
  | 'b' => some '\x08'
  | 't' => some '\t'
  | 'n' => some '\n'
  | 'f' => some '\x0c'
  | 'r' => some '\r'
  | '\x22' => some '\x22'
  | '\\' => some '\\'
  | _ => none

/-- Where in a string a character stands. -/
inductive Inside where
  | plain
  /-- After a backslash. -/
  | escape
  /-- In a code point of which so many digits are missing. -/
  | codePoint (missing value : Nat)
  /-- After a backslash that joins lines, before the line break. -/
  | joinBefore
  /-- After a backslash that joins lines, past the line break. -/
  | joinAfter

/-- Where a character stands that ends the white space after joined lines. -/
def Inside.settle : Inside → Char → Inside
  | .joinAfter, c => if isSpace c || c == '\n' then .joinAfter else .plain
  | inside, _ => inside

/-- The rest of a string between double quotation marks, or between triple ones with `long`; `read`
    is what was read of it, last character first. -/
def basicText (long : Bool) :
    Inside → (read : List Char) → List Char → Except Fault (List Char × List Char)
  | _, _, [] => .error .malformed
  | inside, read, c :: rest =>
    match inside.settle c with
    | .plain =>
      if c = '\x22' then
        if !long then .ok (read.reverse, rest)
        else
          match rest with
          | '\x22' :: '\x22' :: rest => .ok (read.reverse, rest)
          | rest => basicText long .plain (c :: read) rest
      else if c = '\\' then basicText long .escape read rest
      else if isControl c && !(long && c == '\n') then .error .malformed
      else basicText long .plain (c :: read) rest
    | .escape =>
      if long && c == '\n' then basicText long .joinAfter read rest
      else if long && isSpace c then basicText long .joinBefore read rest
      else if c = 'u' then basicText long (.codePoint 4 0) read rest
      else if c = 'U' then basicText long (.codePoint 8 0) read rest
      else
        match escaped? c with
        | some d => basicText long .plain (d :: read) rest
        | none => .error .malformed
    | .codePoint missing value =>
      match hexValue? c with
      | none => .error .malformed
      | some digit =>
        let value := 16 * value + digit
        if 1 < missing then basicText long (.codePoint (missing - 1) value) read rest
        else
          match character? value with
          | some d => basicText long .plain (d :: read) rest
          | none => .error .malformed
    | .joinBefore =>
      if isSpace c then basicText long .joinBefore read rest
      else if c = '\n' then basicText long .joinAfter read rest
      else .error .malformed
    | .joinAfter => basicText long .joinAfter read rest

/-- The rest of a text between apostrophes. -/
def literalText : (read : List Char) → List Char → Except Fault (List Char × List Char)
  | _, [] => .error .malformed
  | read, c :: rest =>
    if c = '\x27' then .ok (read.reverse, rest)
    else if isControl c then .error .malformed
    else literalText (c :: read) rest

/-- The rest of a text between triple apostrophes. -/
def longLiteralText : (read : List Char) → List Char → Except Fault (List Char × List Char)
  | _, [] => .error .malformed
  | read, '\x27' :: '\x27' :: '\x27' :: rest => .ok (read.reverse, rest)
  | read, c :: rest =>
    if isControl c && c != '\n' then .error .malformed else longLiteralText (c :: read) rest

/-- A text after triple marks, without the line break that may follow these. -/
def afterFirstBreak : List Char → List Char
  | '\n' :: rest => rest
  | cs => cs

/-- Up to two marks directly after the closing ones belong to the text. -/
def withTrailing (mark : Char) : List Char × List Char → List Char × List Char
  | (text, a :: b :: rest) =>
    if a = mark then
      if b = mark then (text ++ [mark, mark], rest) else (text ++ [mark], b :: rest)
    else (text, a :: b :: rest)
  | (text, [a]) => if a = mark then (text ++ [mark], []) else (text, [a])
  | (text, []) => (text, [])

/-- A string in one of the four ways to write one. -/
def string? : List Char → Option (Except Fault (List Char × List Char))
  | '\x22' :: '\x22' :: '\x22' :: rest =>
    some ((basicText true .plain [] (afterFirstBreak rest)).map (withTrailing '\x22'))
  | '\x22' :: rest => some (basicText false .plain [] rest)
  | '\x27' :: '\x27' :: '\x27' :: rest =>
    some ((longLiteralText [] (afterFirstBreak rest)).map (withTrailing '\x27'))
  | '\x27' :: rest => some (literalText [] rest)
  | _ => none

/-! ### Keys -/

/-- A character of a name that is written without quotation marks. -/
def isBareChar (c : Char) : Bool := c.isAlphanum || c == '-' || c == '_'

/-- One name of a key. -/
def name : List Char → Except Fault (String × List Char)
  | '\x22' :: rest => (basicText false .plain [] rest).map fun r => (String.ofList r.1, r.2)
  | '\x27' :: rest => (literalText [] rest).map fun r => (String.ofList r.1, r.2)
  | cs =>
    let bare := cs.takeWhile isBareChar
    if bare.isEmpty then .error .malformed
    else .ok (String.ofList bare, cs.dropWhile isBareChar)

/-- A key of at most `fuel` names, and the white space after it. -/
def keyWithin : (fuel : Nat) → List Char → Except Fault (Key × List Char)
  | 0, _ => .error .malformed
  | fuel + 1, cs => do
    let (first, rest) ← name cs
    match skipSpace rest with
    | '.' :: rest =>
      let (others, rest) ← keyWithin fuel (skipSpace rest)
      return (first :: others, rest)
    | rest => return ([first], rest)

/-- A key, and the white space after it. -/
def key (cs : List Char) : Except Fault (Key × List Char) := keyWithin (cs.length + 1) cs

end ClojureLayout.Config.Toml
