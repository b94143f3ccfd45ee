import ClojureLayout.Config.Value
import ClojureLayout.Tree.Transform

/-!
# Resolving the settings

All transforms are on unless the `transforms` table of the configuration says otherwise, and that
gives way to the overrides of the command line. Entries and overrides are taken in order, so of two
that denote one transform the later decides, and the first that is invalid is reported.
-/

namespace ClojureLayout.Config

/-- Why settings cannot be resolved. -/
inductive SettingsFault where
  /-- An override has no equals sign. -/
  | noValue (override : String)
  /-- An override names no transform. -/
  | unknownTransform (name : String)
  /-- The value of an override is neither on nor off. -/
  | notOnOff (value : String)
  /-- A key of the configuration names no transform. -/
  | unknownKey (key : String)
  /-- The value of a key of the configuration is neither true nor false. -/
  | notBoolean (key : String) (value : Value)
  /-- Nor is this one, which cannot even be shown. -/
  | unwritable (key : String)

/-- The wording about a whole number with too many digits, `count` of them where that is known. -/
def digitsMessage (count : Option Nat) : String :=
  "Exceeds the limit (" ++ Decimal.ofNat mostDigits ++ " digits) for integer string conversion" ++
    count.elim "" (fun n => ": value has " ++ Decimal.ofNat n ++ " digits") ++
    "; use sys.set_int_max_str_digits() to increase the limit"

def SettingsFault.message : SettingsFault → String
  | noValue override => "invalid transform format (expected NAME=VALUE): " ++ override
  | unknownTransform name => "unknown transform: " ++ name
  | notOnOff value => "invalid boolean value: " ++ value
  | unknownKey key => "config: unknown transform: " ++ key
  | notBoolean key value =>
    "config: transform " ++ key ++ " must be true or false, got " ++ value.text
  | unwritable _ => digitsMessage none

def onWords : List String := ["on", "true", "yes", "1"]

def offWords : List String := ["off", "false", "no", "0"]

/-- Whether a word means on or off; case and blanks around it do not matter. -/
def parseOnOff (value : String) : Except SettingsFault Bool :=
  let word := String.ofList (Text.toSmall (Text.trimBlanks value.toList))
  if onWords.contains word then .ok true
  else if offWords.contains word then .ok false
  else .error (.notOnOff value)

def parseName (name : String) : Except SettingsFault Transform :=
  match Transform.ofName? name with
  | some t => .ok t
  | none => .error (.unknownTransform name)

/-- A transform and whether an override of the form `NAME=VALUE` turns it on. -/
def parseOverride (override : String) : Except SettingsFault (Transform × Bool) :=
  let cs := override.toList
  if '=' ∈ cs then do
    let t ← parseName (String.ofList (cs.takeWhile (· != '=')))
    let on ← parseOnOff (String.ofList ((cs.dropWhile (· != '=')).drop 1))
    return (t, on)
  else .error (.noValue override)

/-- The settings with an entry of the configuration taken in. -/
def applyEntry (s : Settings) (entry : String × Value) : Except SettingsFault Settings :=
  match Transform.ofName? entry.1 with
  | none => .error (.unknownKey entry.1)
  | some t =>
    match entry.2 with
    | .bool on => .ok (s.set t on)
    | value =>
      .error (if value.isWritable then .notBoolean entry.1 value else .unwritable entry.1)

/-- The settings with an override taken in. -/
def applyOverride (s : Settings) (override : String) : Except SettingsFault Settings := do
  let (t, on) ← parseOverride override
  return s.set t on

/-- The entries of the `transforms` table, if the configuration has one. -/
def transformEntries (config : Table) : Table :=
  match config.get? "transforms" with
  | some (.table entries) => entries
  | _ => []

/-- The settings that a configuration and the overrides leave. -/
def resolveSettings (config : Table) (overrides : List String) : Except SettingsFault Settings := do
  let s ← (transformEntries config).foldlM applyEntry Settings.default
  overrides.foldlM applyOverride s

end ClojureLayout.Config
