/-!
# Lines of a text

Two readings of line ends. `splitLines` breaks a text after every character that ends a line for the
reader of a listing, form feeds and Unicode separators included, and keeps each break with its line.
`unifyNewlines` is what reading a text file does: each carriage return, with the line feed after it
if there is one, becomes a line feed.
-/

namespace ClojureLayout.Text

/-- A character after which a listing starts a new line. -/
def isLineBreak (c : Char) : Bool :=
  c == '\n' || c == '\r' || c == '\x0b' || c == '\x0c' || c == '\x1c' || c == '\x1d' ||
    c == '\x1e' || c == '\u0085' || c == '\u2028' || c == '\u2029'

/-- The lines of the text that `line` (last character first) begins and the argument continues. -/
def splitLinesAfter (line : List Char) : List Char → List (List Char)
  | [] => if line.isEmpty then [] else [line.reverse]
  | '\r' :: '\n' :: rest => ('\n' :: '\r' :: line).reverse :: splitLinesAfter [] rest
  | c :: rest =>
    if isLineBreak c then (c :: line).reverse :: splitLinesAfter [] rest
    else splitLinesAfter (c :: line) rest

/-- The lines of a text, each with the break that ends it. -/
def splitLines (cs : List Char) : List (List Char) := splitLinesAfter [] cs

/-- The text without the copies of `c` at its end. -/
def dropTrailing (c : Char) (cs : List Char) : List Char :=
  (cs.reverse.dropWhile (· == c)).reverse

/-- The text with every line end written as a line feed. -/
def unifyNewlines : List Char → List Char
  | [] => []
  | '\r' :: '\n' :: rest => '\n' :: unifyNewlines rest
  | c :: rest => (if c = '\r' then '\n' else c) :: unifyNewlines rest

end ClojureLayout.Text
