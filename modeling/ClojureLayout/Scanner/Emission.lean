import ClojureLayout.Scanner.Lexeme

/-!
# All the tokens of a source

`Scanner.emission` is what a whole scan gives: its tokens in order and, if it broke off without a
last token, the fault that broke it off. A read that fails for reasons of the source does not break
the scan off: it is reported by an error token that holds the text of the unfinished lexeme.
-/

namespace ClojureLayout

/-- What a scan gives: its tokens, and the fault that broke it off, if one did. -/
structure Emission where
  tokens : List Token
  fault : Option ScanFault := none
deriving DecidableEq

/-- One more token in front. -/
def Emission.cons (t : Token) (e : Emission) : Emission := { e with tokens := t :: e.tokens }

namespace Scanner

/-- The token that reports a failed read in the text gathered. -/
def readError (s : Scanner) (cause : ReadFault) : Token :=
  ⟨.error, "error while scanning: " ++ cause.message, s.text, s.start⟩

/-- What a scan gives that a fault interrupts. -/
def interrupted (s : Scanner) : ScanFault → Emission
  | .read cause =>
    if cause.isOfSource then { tokens := [s.readError cause] }
    else { tokens := [], fault := some (.read cause) }
  | fault => { tokens := [], fault := some fault }

/-- All that a scan gives from here on. -/
def emission (s : Scanner) : Emission :=
  match _ : Scan.lexeme s with
  | .ok .blank t => emission t
  | .ok (.token token) t => (emission t).cons token
  | .ok (.last tokens) _ => { tokens }
  | .error fault t => t.interrupted fault
termination_by s.remaining
decreasing_by all_goals exact Scan.remaining_lt_of_lexeme ‹_› (fun _ h => by cases h)

end Scanner

/-- All that scanning a source gives. -/
def scan (name : String) (reads : List Read) : Emission := (Scanner.ofReads name reads).emission

/-- The tokens of a text, the last of which tells how it ends. -/
def tokenize (source : String) (name : String) : List Token :=
  (scan name (Read.ofText source)).tokens

/-- The error that ends a list of tokens, if one does. -/
def Token.finalError? (ts : List Token) : Option Token := ts.getLast?.filter (·.kind == .error)

end ClojureLayout
