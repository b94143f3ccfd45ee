import ClojureLayout.CommandLine.Arguments
import ClojureLayout.CommandLine.Files
import ClojureLayout.Config.Resolution
import ClojureLayout.Config.Toml.File
import ClojureLayout.Scanner.Emission

/-!
# A run of the program

The arguments and the configuration file are resolved to `Options`; then the settings are listed, or
the input is scanned. A run prints on two streams and ends with a code: 0, or 1 for an error in the
input, or 2 if it cannot be worked on. Some faults have no code: the run breaks down
(`Ending.crashed`).
-/

namespace ClojureLayout.CommandLine

/-- A fault that the program is not prepared for. -/
inductive Crash where
  /-- The configuration file is not UTF-8. -/
  | undecodable (fault : Text.Utf8.Fault)
  /-- The configuration holds a whole number with too many digits, `count` of them where that is
      known. -/
  | tooManyDigits (count : Option Nat)
  /-- A file has a name that cannot be looked up, or the configuration file cannot be read. -/
  | file (fault : FileFault)
deriving DecidableEq

/-- What broke down, in words. -/
def Crash.message : Crash → String
  | undecodable fault => fault.message
  | tooManyDigits count => Config.digitsMessage count
  | file fault => fault.message

/-- Why options cannot be resolved. -/
inductive OptionsFault where
  | settings (fault : Config.SettingsFault)
  | malformedConfig
  | crash (c : Crash)

/-- What a run is to do. -/
structure Options where
  input : Path
  settings : Settings
  printTokens : Bool
  listTransforms : Bool
  debug : Bool

/-- How a run ends. -/
inductive Ending where
  | returned (code : Nat)
  /-- The arguments asked for no run. -/
  | quit (code : Nat)
  | crashed (c : Crash)
deriving DecidableEq

/-- What a run prints and how it ends. -/
structure Report where
  output : String := ""
  errors : String := ""
  ending : Ending
deriving DecidableEq

/-- The name of the configuration file beside the input. -/
def configName : String := "cljformat.toml"

/-- Where the configuration is looked for. -/
def configPath (r : Request) : Path :=
  match r.config with
  | none | some "" => (Path.ofString r.input).parent.child configName
  | some file => Path.ofString file

/-- The configuration in a file's bytes. -/
def decodeConfig (bytes : List UInt8) : Except OptionsFault Config.Table :=
  match Text.Utf8.decode bytes with
  | .error fault => .error (.crash (.undecodable fault))
  | .ok cs =>
    match Config.Toml.parse cs with
    | .ok table => .ok table
    | .error .malformed => .error .malformedConfig
    | .error (.tooManyDigits count) => .error (.crash (.tooManyDigits (some count)))

/-- The configuration that reading its file gives. If there is no file at its path, which the fault of
    reading it tells (`FileFault.isAbsence`), it is empty. -/
def configOf : Except FileFault (List UInt8) → Except OptionsFault Config.Table
  | .ok bytes => decodeConfig bytes
  | .error fault => if fault.isAbsence then .ok [] else .error (.crash (.file fault))

/-- The options of a request under a configuration. -/
def optionsOf (r : Request) (config : Config.Table) : Except OptionsFault Options :=
  match Config.resolveSettings config r.overrides with
  | .error (.unwritable _) => .error (.crash (.tooManyDigits none))
  | .error fault => .error (.settings fault)
  | .ok settings =>
    .ok
      { input := Path.ofString r.input
        settings
        printTokens := r.printTokens
        listTransforms := r.listTransforms
        debug := r.debug }

/-- The options of a request. -/
def resolveOptions {m : Type → Type} [Monad m] (files : FileReader m) (r : Request) :
    m (Except OptionsFault Options) := do
  let config ← files.read (configPath r)
  return configOf config >>= optionsOf r

/-- The settings, one to a line. -/
def settingsListing (s : Settings) : String :=
  String.join (Transform.all.map fun t => t.name ++ (if s t then " on\n" else " off\n"))

/-- What scanning a source comes to. -/
structure Scanned where
  /-- The tokens, if they are to be shown while working. -/
  trace : String
  result : Except LocatedError (List Token)

/-- Scans the text of the input. -/
def scanSource (source : String) (o : Options) : Scanned :=
  let tokens := tokenize source o.input.text
  { trace := if o.debug then Token.listing tokens else ""
    result :=
      match Token.finalError? tokens with
      | some t => .error (.ofScan t.value t.pos)
      | none => .ok tokens }

/-- The report on a text. -/
def reportScan (source : String) (o : Options) : Report :=
  let scanned := scanSource source o
  match scanned.result with
  | .error e => { errors := scanned.trace ++ e.snippet source ++ "\n", ending := .returned 1 }
  | .ok tokens =>
    { output := if o.printTokens then Token.listing tokens else ""
      errors := scanned.trace
      ending := .returned 0 }

/-- The report on work that cannot be done. -/
def refusal (message : String) : Report :=
  { errors := "error: " ++ message ++ "\n", ending := .returned 2 }

/-- The report on reading the input. -/
def reportInput (o : Options) : Except FileFault (List UInt8) → Report
  | .error .nulInPath => { ending := .crashed (.file .nulInPath) }
  | .error fault => refusal fault.message
  | .ok bytes =>
    match Text.Utf8.decode bytes with
    | .error fault => refusal fault.message
    | .ok cs => reportScan (String.ofList (Text.unifyNewlines cs)) o

/-- The report on options that cannot be resolved. The words for a configuration that is not well
    formed stand for those of its parser, which name what is wrong and where. -/
def reportFault : OptionsFault → Report
  | .settings fault => refusal fault.message
  | .malformedConfig => refusal "invalid config file: not well formed"
  | .crash c => { ending := .crashed c }

/-- Does what a request asks for. -/
def serve {m : Type → Type} [Monad m] (files : FileReader m) (r : Request) : m Report := do
  match ← resolveOptions files r with
  | .error fault => return reportFault fault
  | .ok o =>
    if o.listTransforms then
      return { output := settingsListing o.settings, ending := .returned 0 }
    else return reportInput o (← files.read o.input)

/-- The report on a command line that asks for no work. -/
def reportStop : Stop → Report
  | .help => { output := helpText, ending := .quit 0 }
  | .refused e => { errors := e.report, ending := .quit 2 }

def run {m : Type → Type} [Monad m] (files : FileReader m) (arguments : List String) : m Report :=
  match parseArguments arguments with
  | .error stop => return reportStop stop
  | .ok r => serve files r

end ClojureLayout.CommandLine
