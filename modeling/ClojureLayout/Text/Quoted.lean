import ClojureLayout.Text.Printable

/-!
# Quoted texts

A text is quoted between single quotes, or between double quotes if it holds a single quote and no
double one. Backslashes and the quote that stands around it are escaped by a backslash, and so are
the characters that are not printable: three of them by a letter, the others by their code point in
hexadecimal, with as many digits as its size asks for.
-/

namespace ClojureLayout.Text

/-- The `width` low hexadecimal digits of `n`. -/
def hexDigits : (width n : Nat) → List Char
  | 0, _ => []
  | width + 1, n => hexDigits width (n / 16) ++ [(n % 16).digitChar]

/-- A character as it stands in a text between `quote` marks. -/
def quoteChar (quote c : Char) : List Char :=
  if c = quote ∨ c = '\\' then ['\\', c]
  else if c = '\n' then ['\\', 'n']
  else if c = '\r' then ['\\', 'r']
  else if c = '\t' then ['\\', 't']
  else if isPrintable c then [c]
  else if c.toNat < 0x100 then '\\' :: 'x' :: hexDigits 2 c.toNat
  else if c.toNat < 0x10000 then '\\' :: 'u' :: hexDigits 4 c.toNat
  else '\\' :: 'U' :: hexDigits 8 c.toNat

/-- The mark that goes around a text. -/
def quoteMark (cs : List Char) : Char :=
  if '\x27' ∈ cs ∧ '\x22' ∉ cs then '\x22' else '\x27'

def quoteChars (cs : List Char) : List Char :=
  quoteMark cs :: cs.flatMap (quoteChar (quoteMark cs)) ++ [quoteMark cs]

def quoted (s : String) : String := String.ofList (quoteChars s.toList)

end ClojureLayout.Text
