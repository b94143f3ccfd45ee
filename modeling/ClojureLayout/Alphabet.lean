import ClojureLayout.Text.Blank
import ClojureLayout.Text.DecimalDigit
import ClojureLayout.Text.Letter

/-!
# The characters of a source text

What a character may be part of: symbols (and keywords and numbers, which are written with the same
characters), or white space, to which a comma belongs.
-/

namespace ClojureLayout

/-- The punctuation that a symbol may hold. -/
def symbolPunctuation : List Char :=
  ['*', '+', '!', '-', '_', '?', '/', '.', ':', '$', '=', '>', '<', '&']

/-- A character that may stand inside a symbol, a keyword or a number. -/
def isSymbolChar (c : Char) : Bool :=
  Text.isLetter c || Text.isDecimalDigit c || symbolPunctuation.contains c

/-- White space; a comma counts as white space. -/
def isWhitespace (c : Char) : Bool := Text.isBlank c || c == ','

/-- A digit that starts a number. -/
def isDigit (c : Char) : Bool := Text.isAsciiDigit c

end ClojureLayout
