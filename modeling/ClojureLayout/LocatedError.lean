import ClojureLayout.Position
import ClojureLayout.Text.Lines

/-!
# Errors at a place in a source text

An error names the layer that found it, says what is wrong and where. `LocatedError.snippet` shows
the line of the source that it points into, with a caret under the place.
-/

namespace ClojureLayout

/-- Something wrong at a place in a source text, found by the layer that `tag` names. -/
structure LocatedError where
  tag : String
  message : String
  pos : Position
deriving DecidableEq

namespace LocatedError

/-- The tag of the errors that scanning finds. -/
def scanTag : String := "lex"

def ofScan (message : String) (pos : Position) : LocatedError := ⟨scanTag, message, pos⟩

def isScanError (e : LocatedError) : Bool := e.tag == scanTag

def text (e : LocatedError) : String :=
  e.tag ++ " error at " ++ e.pos.text ++ ": " ++ e.message

def spaces (n : Nat) : String := String.ofList (List.replicate n ' ')

/-- The line of the source with number `line`, counted from 1, without the characters that end it;
    empty if there is no such line. -/
def sourceLine (source : String) (line : Int) : String :=
  if line < 1 then ""
  else
    match (Text.splitLines source.toList)[(line - 1).toNat]? with
    | some cs => String.ofList (Text.dropTrailing '\r' (Text.dropTrailing '\n' cs))
    | none => ""

/-- The error with the source line it points into and a caret under its place. -/
def snippet (e : LocatedError) (source : String) : String :=
  let number := Decimal.ofInt e.pos.line
  let margin := spaces (number.length + 1)
  e.tag ++ " error: " ++ e.message ++ "\n" ++
  margin ++ "--> " ++ e.pos.text ++ "\n" ++
  margin ++ "|\n" ++
  number ++ " | " ++ sourceLine source e.pos.line ++ "\n" ++
  margin ++ "| " ++ spaces (e.pos.column - 1).toNat ++ "^"

end LocatedError

/-- The error that a layer reports at a position. -/
def Position.error (p : Position) (tag message : String) : LocatedError := ⟨tag, message, p⟩

end ClojureLayout
