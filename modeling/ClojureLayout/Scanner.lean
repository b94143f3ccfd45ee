import ClojureLayout.Reading
import ClojureLayout.Token

/-!
# The scanner

A scanner reads a source one character at a time and gathers the text of the token it is in. It can
put the character it read last back, once; that character is then read again before any other.

The operations are programs on a scanner (`Scan`): they may fail, and then leave the scanner as it
was when they failed.
-/

namespace ClojureLayout

/-- The character read last and the position it was read at. -/
structure LastRead where
  char : Char
  pos : Position
deriving DecidableEq

/-- The state of a scan: the reads to come, the character put back, the position reached, the start
    of the token and its text so far (last character first), and the last read, until it is put
    back. -/
structure Scanner where
  reads : List Read
  pushback : Option Char := none
  pos : Position
  start : Position
  last : Option LastRead := none
  gathered : List Char := []
deriving DecidableEq

/-- Why a scan breaks off without a token. -/
inductive ScanFault where
  /-- A read failed. -/
  | read (cause : ReadFault)
  /-- A character was to be put back, and none was read since the last one put back. -/
  | nothingRead
  /-- A character was to be put back whose text was already emitted or skipped. -/
  | nothingGathered
deriving DecidableEq

/-- The wording of a fault. -/
def ScanFault.message : ScanFault → String
  | read cause => cause.message
  | nothingRead => "_back() call not preceded by a _next()"
  | nothingGathered => "pop from empty list"

/-- A program on a scanner. -/
abbrev Scan (α : Type) := EStateM ScanFault Scanner α

namespace Scanner

/-- A scanner at the start of a source. -/
def ofReads (name : String) (reads : List Read) : Scanner :=
  { reads, pos := { name }, start := { name } }

/-- The text gathered for the token. -/
def text (s : Scanner) : String := String.ofList s.gathered.reverse

/-- How many reads are to come, the character put back included. -/
def remaining (s : Scanner) : Nat := s.pushback.toList.length + s.reads.length

/-- The scanner after it has read `c`. -/
def consume (s : Scanner) (c : Char) : Scanner :=
  { s with last := some ⟨c, s.pos⟩, pos := s.pos.advance c, gathered := c :: s.gathered }

end Scanner

namespace Scan

/-- Reads a character; there is none at the end of the input. -/
def next : Scan (Option Char) := fun s =>
  match s.pushback with
  | some c => .ok (some c) ({ s with pushback := none }.consume c)
  | none =>
    match s.reads with
    | [] => .ok none s
    | .nothing :: rest => .ok none { s with reads := rest }
    | .char c :: rest => .ok (some c) ({ s with reads := rest }.consume c)
    | .fault cause :: _ => .error (.read cause) s

/-- Puts the character read last back. Position and character are restored before its text is taken
    from the token, so that they are restored even when the token does not hold it any more. -/
def back : Scan Unit := fun s =>
  match s.last with
  | none => .error .nothingRead s
  | some ⟨c, pos⟩ =>
    match s.gathered with
    | [] => .error .nothingGathered { s with pushback := some c, pos }
    | _ :: gathered => .ok () { s with pushback := some c, pos, gathered, last := none }

/-- The next character, left unread unless it satisfies `p`. -/
def takeIf (p : Char → Bool) : Scan (Option Char) := do
  let c ← next
  if c.any (!p ·) then back
  return c

/-- The next character, left unread. -/
def peek : Scan (Option Char) := takeIf fun _ => false

/-- Forgets the text gathered: the next token starts here. -/
def skip : Scan Unit := fun s => .ok () { s with start := s.pos, gathered := [] }

/-- The token of the text gathered, with the value given or else the one its kind takes from the
    text. The next token starts here. -/
def emit (kind : Kind) (value : Option String := none) : Scan Token := do
  let s ← get
  skip
  return ⟨kind, value.getD (if kind.keepsText then s.text else ""), s.text, s.start⟩

/-- The token that reports an error in the text gathered, which stays as it is. -/
def errorToken (message : String) : Scan Token := do
  let s ← get
  return ⟨.error, message, s.text, s.start⟩

end Scan

end ClojureLayout
