import ClojureLayout.Scanner.Emission

/-!
# Diagnostics for an editor

An editor sends the full text of a document when it opens or changes it. The answer lists what is
wrong with the text: the error that ends its scan, if one does, as a range of the document. Lines
and characters of a range are counted from 0, characters by code points. The texts themselves are kept
by a `Workspace`, which is a parameter of the server.
-/

namespace ClojureLayout.Server

/-- A place in a document. -/
structure Place where
  line : Int
  character : Int
deriving DecidableEq

/-- Something wrong in a range of a document, of severity 1 for an error. -/
structure Diagnostic where
  start : Place
  stop : Place
  message : String
  severity : Nat := 1
  source : String := "cljformat"
deriving DecidableEq

/-- What is sent back to the editor about a document. -/
structure Publication where
  uri : String
  diagnostics : List Diagnostic
deriving DecidableEq

/-- The last part of a document's address. -/
def fileName (uri : String) : String :=
  String.ofList (uri.toList.reverse.takeWhile (· != '/')).reverse

/-- The diagnostic of an error token: the first line of its text, or one character if that is empty.
    -/
def Diagnostic.ofToken (t : Token) : Diagnostic :=
  let width := max 1 (t.raw.toList.takeWhile (· != '\n')).length
  let place : Place := ⟨t.pos.line - 1, t.pos.column - 1⟩
  { start := place, stop := ⟨place.line, place.character + width⟩, message := t.value }

/-- The diagnostics of a text. -/
def diagnose (uri text : String) : List Diagnostic :=
  ((Token.finalError? (tokenize text (fileName uri))).map Diagnostic.ofToken).toList

/-- What an editor tells about a document, with its full text. -/
inductive Notice where
  | opened (uri text : String)
  | changed (uri text : String)
deriving DecidableEq

/-- The address of the document that a notice is about. -/
def Notice.uri : Notice → String
  | .opened uri _ | .changed uri _ => uri

/-- The text that the document has from a notice on. -/
def Notice.text : Notice → String
  | .opened _ text | .changed _ text => text

/-- How the texts of documents are kept, in a state `σ`. The server itself only asks for the text of
    a document. -/
structure Workspace (σ : Type) where
  /-- Takes in what a notice tells. -/
  store : σ → Notice → σ
  text : σ → String → String

namespace Workspace

/-- The workspace that keeps all notices, latest first. A document without one is empty. -/
def ofNotices : Workspace (List Notice) where
  store notices n := n :: notices
  text notices uri := ((notices.find? (·.uri = uri)).map Notice.text).getD ""

variable {σ : Type} (w : Workspace σ) (s : σ)

/-- The answer about a document as the workspace has it. -/
def publish (uri : String) : Publication := ⟨uri, diagnose uri (w.text s uri)⟩

/-- Takes a notice in and answers it. -/
def handle (n : Notice) : σ × List Publication :=
  let s := w.store s n
  (s, [w.publish s n.uri])

end Workspace

end ClojureLayout.Server
