import ClojureLayout.Decimal.Integer

/-!
# Positions in a source text

A position counts from the start of a named text: the bytes of its UTF-8 form from 0, lines and
characters of a line from 1. Only a line feed starts a new line.
-/

namespace ClojureLayout

/-- A place in a source text. -/
structure Position where
  name : String
  offset : Int := 0
  line : Int := 1
  column : Int := 1
deriving DecidableEq

namespace Position

/-- The position just past a character. -/
def advance (p : Position) (c : Char) : Position :=
  if c = '\n' then ⟨p.name, p.offset + c.utf8Size, p.line + 1, 1⟩
  else ⟨p.name, p.offset + c.utf8Size, p.line, p.column + 1⟩

/-- The position just past a text. -/
def advanceAll (p : Position) (cs : List Char) : Position := cs.foldl advance p

/-- Name, line and column, as a reader finds the place. -/
def text (p : Position) : String :=
  p.name ++ ":" ++ Decimal.ofInt p.line ++ ":" ++ Decimal.ofInt p.column

end Position

end ClojureLayout
