import ClojureLayout.LocatedError
import ClojureLayout.Text.Quoted

/-!
# Tokens

A token is a lexeme of the source: its kind, the value it stands for, its text as written and the
position of its first character. The kinds `eof` and `error` end a scan; the value of an `error`
says what was wrong.
-/

namespace ClojureLayout

/-- The kinds of tokens. -/
inductive Kind where
  | eof
  | apostrophe
  | atSign
  | backtick
  | circumflex
  | leftBrace
  | leftBracket
  | leftParen
  | rightBrace
  | rightBracket
  | rightParen
  | tilde
  | octothorpe
  | bool
  | charLiteral
  | comment
  | dispatch
  | keyword
  | lambdaArg
  | nil
  | number
  | string
  | symbol
  | error
deriving DecidableEq

namespace Kind

/-- All kinds. -/
def all : List Kind :=
  [eof, apostrophe, atSign, backtick, circumflex, leftBrace, leftBracket, leftParen, rightBrace,
    rightBracket, rightParen, tilde, octothorpe, bool, charLiteral, comment, dispatch, keyword,
    lambdaArg, nil, number, string, symbol, error]

/-- The name under which a kind is shown. -/
def label : Kind → String
  | eof => "eof"
  | apostrophe => "apostrophe"
  | atSign => "at-sign"
  | backtick => "backtick"
  | circumflex => "circumflex"
  | leftBrace => "left-brace"
  | leftBracket => "left-bracket"
  | leftParen => "left-paren"
  | rightBrace => "right-brace"
  | rightBracket => "right-bracket"
  | rightParen => "right-paren"
  | tilde => "tilde"
  | octothorpe => "octothorpe"
  | bool => "bool"
  | charLiteral => "char-literal"
  | comment => "comment"
  | dispatch => "dispatch"
  | keyword => "keyword"
  | lambdaArg => "lambda-arg"
  | nil => "nil"
  | number => "number"
  | string => "string"
  | symbol => "symbol"
  | error => "error"

/-- The kinds whose value is shown. -/
def hasPayload : Kind → Bool
  | error | bool | charLiteral | comment | keyword | lambdaArg | number | dispatch | string
  | symbol => true
  | _ => false

/-- The kinds whose value is the text as written, unless the scanner gives another. -/
def keepsText : Kind → Bool
  | charLiteral | comment | dispatch | keyword | lambdaArg | number | symbol => true
  | _ => false

/-- The kinds that end a scan. -/
def isTerminal : Kind → Bool
  | eof | error => true
  | _ => false

end Kind

/-- A lexeme: what it is, what it stands for, how it is written and where it starts. -/
structure Token where
  kind : Kind
  value : String
  raw : String
  pos : Position
deriving DecidableEq

namespace Token

/-- A token in one line: its kind and place, and its value where the kind has one to show. -/
def text (t : Token) : String :=
  let head := "<" ++ t.kind.label ++ "@" ++ t.pos.text ++ ">"
  if t.kind.hasPayload then head ++ "(" ++ Text.quoted t.value ++ ")" else head

/-- A token that reports no error was taken for one that does. -/
structure NotAnError where
  token : Token

/-- The wording of the misuse. -/
def NotAnError.message (e : NotAnError) : String :=
  "as_error called on non-error token " ++ e.token.text

/-- The error that an `error` token reports. -/
def toError (t : Token) : Except NotAnError LocatedError :=
  if t.kind = .error then .ok (.ofScan t.value t.pos) else .error ⟨t⟩

/-- A list of tokens, one to a line. -/
def listing (ts : List Token) : String := String.join (ts.map fun t => t.text ++ "\n")

end Token

end ClojureLayout
