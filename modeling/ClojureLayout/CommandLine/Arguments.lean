import ClojureLayout.Text.DecimalDigit
import ClojureLayout.Text.Quoted

/-!
# The arguments of the command line

Options may be cut short as long as one option only fits, and may bring their value along
(`--config=FILE`, `-tVALUE`). The first argument that is no option is the input; `--` ends the
options. An argument that starts with a hyphen is still no option if it is a negative number or
holds a space.

Every argument is classified before any is acted on; then the arguments are acted on in order, so
that a request for help counts only if nothing before it is wrong.

A `--` that an option brings along (`--config=--`, `-t--`) is no value. The option counts as given
nevertheless: a file given so is none, and an override given so is empty. What follows `-h` in one
argument (`-hX`) is read as more options of one letter before help is given. Releases of argparse
differ in these two points; those before 3.11.9 are followed.
-/

namespace ClojureLayout.CommandLine

/-- The options. -/
inductive Flag where
  | help
  | config
  | transform
  | tokens
  | listTransforms
  | debug
deriving DecidableEq

namespace Flag

/-- The ways to write each option, in the order in which they are offered. -/
def spellings : List (String × Flag) :=
  [("-h", help), ("--help", help), ("--config", config), ("-t", transform),
    ("--transform", transform), ("--tokens", tokens), ("--list-transforms", listTransforms),
    ("--debug", debug)]

/-- The option has a value. -/
def hasValue : Flag → Bool
  | config | transform => true
  | help | tokens | listTransforms | debug => false

/-- The option in a message. -/
def title : Flag → String
  | help => "-h/--help"
  | config => "--config"
  | transform => "-t/--transform"
  | tokens => "--tokens"
  | listTransforms => "--list-transforms"
  | debug => "--debug"

end Flag

/-- What ends the options. -/
def separatorText : String := "--"

/-- How an override that is empty is shown. -/
def emptyOverride : String := "[]"

/-- Why a command line is refused. -/
inductive UsageError where
  | ambiguous (argument : String) (candidates : List String)
  | valueMissing (flag : Flag)
  | valueIgnored (flag : Flag) (value : String)
  | inputMissing
  | unrecognized (arguments : List String)
deriving DecidableEq

/-- The wording of a refusal. -/
def UsageError.message : UsageError → String
  | ambiguous argument candidates =>
    "ambiguous option: " ++ argument ++ " could match " ++ String.intercalate ", " candidates
  | valueMissing flag => "argument " ++ flag.title ++ ": expected one argument"
  | valueIgnored flag value =>
    "argument " ++ flag.title ++ ": ignored explicit argument " ++ Text.quoted value
  | inputMissing => "the following arguments are required: input"
  | unrecognized arguments => "unrecognized arguments: " ++ String.intercalate " " arguments

/-- What the command line asks for. -/
structure Request where
  input : String
  config : Option String := none
  overrides : List String := []
  printTokens : Bool := false
  listTransforms : Bool := false
  debug : Bool := false
deriving DecidableEq

/-- What reading a command line comes to, if it asks for no work. -/
inductive Stop where
  | help
  | refused (e : UsageError)
deriving DecidableEq

/-- An argument by its form. -/
inductive Argument where
  | plain (text : String)
  | separator
  /-- An option, perhaps with a value that it brings along. -/
  | option (flag : Flag) (value : Option String)
  /-- A short request for help with letters behind it, each of which is an option of its own. -/
  | helpAnd (letters : List Char)
  | unknown (text : String)
deriving DecidableEq

/-- An option that is written as `spelling` and brings a text along. -/
def Argument.ofAttached (spelling : List Char) (flag : Flag) (text : List Char) : Argument :=
  match flag, spelling with
  | .help, [_, _] => .helpAnd text
  | _, _ => .option flag (some (String.ofList text))

/-- The parts of a text before and after its first equals sign. -/
def splitValue? (cs : List Char) : Option (List Char × List Char) :=
  if '=' ∈ cs then some (cs.takeWhile (· != '='), (cs.dropWhile (· != '=')).drop 1) else none

/-- A minus sign before digits, among them perhaps a point, and perhaps a line feed at the end. -/
def isNegativeNumber : List Char → Bool
  | '-' :: rest =>
    let rest := if rest.getLast? = some '\n' then rest.dropLast else rest
    let whole := rest.takeWhile Text.isDecimalDigit
    match rest.dropWhile Text.isDecimalDigit with
    | [] => !whole.isEmpty
    | '.' :: fraction => !fraction.isEmpty && fraction.all Text.isDecimalDigit
    | _ => false
  | _ => false

/-- The options that an argument, written in none of the ways, may be short for. -/
def candidates (cs : List Char) : List (String × Argument) :=
  match cs with
  | '-' :: '-' :: _ =>
    let start := (splitValue? cs).elim cs (·.1)
    let value := (splitValue? cs).map fun v => String.ofList v.2
    (Flag.spellings.filter fun s => start.isPrefixOf s.1.toList).map fun s =>
      (s.1, .option s.2 value)
  | dash :: letter :: rest =>
    (Flag.spellings.filter fun s => s.1.toList = [dash, letter]).map fun s =>
      (s.1, .ofAttached s.1.toList s.2 rest)
  | _ => []

/-- The form of an argument before `--`. -/
def classify (text : String) : Except UsageError Argument :=
  let cs := text.toList
  if cs.head? ≠ some '-' then .ok (.plain text)
  else
    match Flag.spellings.lookup text with
    | some flag => .ok (.option flag none)
    | none =>
      if cs.length = 1 then .ok (.plain text)
      else
        match (splitValue? cs).bind fun v =>
            (Flag.spellings.lookup (String.ofList v.1)).map fun flag =>
              Argument.ofAttached v.1 flag v.2 with
        | some argument => .ok argument
        | none =>
          match candidates cs with
          | [(_, argument)] => .ok argument
          | [] =>
            if isNegativeNumber cs || cs.contains ' ' then .ok (.plain text)
            else .ok (.unknown text)
          | several => .error (.ambiguous text (several.map (·.1)))

/-- The forms of the arguments. -/
def classifyAll : List String → Except UsageError (List Argument)
  | [] => .ok []
  | text :: rest =>
    if text = separatorText then .ok (.separator :: rest.map .plain)
    else do
      let argument ← classify text
      return argument :: (← classifyAll rest)

/-- What becomes of a request for help with letters behind it, before the arguments `next`. An
    option that takes a value has what follows the letter as its value, or else the next argument;
    if all are well formed, help is given. -/
def helpThen (next : List Argument) : (letters : List Char) → Stop
  | [] => .refused (.valueIgnored .help "")
  | ['h'] => .help
  | ['t'] =>
    match next with
    | .plain _ :: _ => .help
    | _ => .refused (.valueMissing .transform)
  | 'h' :: letters => helpThen next letters
  | 't' :: _ => .help
  | letters => .refused (.valueIgnored .help (String.ofList letters))

/-- What the arguments read so far ask for, the input perhaps still missing, and those that fit
    nowhere. -/
structure Pending where
  input : Option String := none
  extras : List String := []
  request : Request := { input := "" }

namespace Pending

/-- Takes an argument in that is no option. -/
def takePlain (p : Pending) (text : String) : Pending :=
  if p.input.isNone then { p with input := some text } else { p with extras := p.extras ++ [text] }

/-- Takes an option without a value in. -/
def takeSwitch (p : Pending) : Flag → Pending
  | .tokens => { p with request := { p.request with printTokens := true } }
  | .listTransforms => { p with request := { p.request with listTransforms := true } }
  | .debug => { p with request := { p.request with debug := true } }
  | _ => p

/-- Takes an option with its value in. -/
def takeValue (p : Pending) (value : String) : Flag → Pending
  | .config =>
    let config := if value = separatorText then none else some value
    { p with request := { p.request with config } }
  | .transform =>
    let override := if value = separatorText then emptyOverride else value
    { p with request := { p.request with overrides := p.request.overrides ++ [override] } }
  | _ => p

/-- What is asked for in the end. -/
def finish (p : Pending) : Except Stop Request :=
  match p.input with
  | none => .error (.refused .inputMissing)
  | some input =>
    if p.extras.isEmpty then .ok { p.request with input }
    else .error (.refused (.unrecognized p.extras))

/-- Acts on the arguments in order. A separator next to the input goes with it. -/
def read (p : Pending) : List Argument → Except Stop Pending
  | [] => .ok p
  | .plain text :: .separator :: rest =>
    if p.input.isNone then (p.takePlain text).read rest
    else ({ p with extras := p.extras ++ [text, separatorText] } : Pending).read rest
  | .plain text :: rest => (p.takePlain text).read rest
  | .separator :: rest =>
    if p.input.isNone ∧ rest ≠ [] then p.read rest
    else ({ p with extras := p.extras ++ [separatorText] } : Pending).read rest
  | .unknown text :: rest => ({ p with extras := p.extras ++ [text] } : Pending).read rest
  | .option .help none :: _ => .error .help
  | .helpAnd letters :: rest => .error (helpThen rest letters)
  | .option flag (some value) :: rest =>
    if flag.hasValue then (p.takeValue value flag).read rest
    else .error (.refused (.valueIgnored flag value))
  | .option flag none :: rest =>
    if flag.hasValue then
      match rest with
      | .plain value :: rest => (p.takeValue value flag).read rest
      | _ => .error (.refused (.valueMissing flag))
    else (p.takeSwitch flag).read rest

end Pending

/-- What a command line asks for. -/
def parseArguments (arguments : List String) : Except Stop Request :=
  match classifyAll arguments with
  | .error e => .error (.refused e)
  | .ok arguments => do (← Pending.read {} arguments).finish

/-! ### Help -/

/-- The name of the program. -/
def programName : String := "cljformat"

/-- How the program is called. -/
def usage : String :=
  "usage: cljformat [-h] [--config FILE] [-t NAME=on|off] [--tokens]\n" ++
  "                 [--list-transforms] [--debug]\n" ++
  "                 input\n"

/-- How the program is called and what its arguments mean. -/
def helpText : String :=
  usage ++
  "\n" ++
  "Lex Clojure source and resolve formatting transforms\n" ++
  "\n" ++
  "positional arguments:\n" ++
  "  input                 Input .clj file\n" ++
  "\n" ++
  "options:\n" ++
  "  -h, --help            show this help message and exit\n" ++
  "  --config FILE         Config file (default: auto-discover cljformat.toml)\n" ++
  "  -t NAME=on|off, --transform NAME=on|off\n" ++
  "                        Enable or disable a transform (repeatable)\n" ++
  "  --tokens              Print the token stream to stdout\n" ++
  "  --list-transforms     Print the resolved transform settings and exit\n" ++
  "  --debug               Dump tokens to stderr\n"

/-- What is printed about a refusal. -/
def UsageError.report (e : UsageError) : String :=
  usage ++ programName ++ ": error: " ++ e.message ++ "\n"

end ClojureLayout.CommandLine
