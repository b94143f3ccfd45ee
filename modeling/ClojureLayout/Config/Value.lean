import ClojureLayout.Decimal.Floating
import ClojureLayout.Text.Quoted

/-!
# Values of a configuration

A configuration is a table of values. A table keeps its entries in the order in which their keys
first appeared; `Table.put` gives a key a new value in its old place.

`Value.text` writes a value for a message. Whole numbers are read and written in decimal up to a
number of digits (`mostDigits`) only; `Value.isWritable` tells the values without longer ones.
-/

namespace ClojureLayout.Config

structure Date where
  year : Nat
  month : Nat
  day : Nat
deriving DecidableEq

structure Time where
  hour : Nat
  minute : Nat
  second : Nat
  microsecond : Nat
deriving DecidableEq

/-- A value. The distance of a date and time from universal time, where given, is in minutes. -/
inductive Value where
  | null
  | bool (b : Bool)
  | integer (i : Int)
  | float (f : Float)
  | string (s : String)
  | date (d : Date)
  | time (t : Time)
  | dateTime (d : Date) (t : Time) (offset : Option Int)
  | list (values : List Value)
  | table (entries : List (String × Value))

/-- Values under keys, each key once. -/
abbrev Table := List (String × Value)

namespace Table

def get? (t : Table) (key : String) : Option Value := t.lookup key

/-- The table with a value under a key. -/
def put (key : String) (value : Value) : Table → Table
  | [] => [(key, value)]
  | (k, v) :: rest => if k = key then (k, value) :: rest else (k, v) :: put key value rest

/-- The table of some entries, of which a later one overrides an earlier one with its key. -/
def ofList (entries : List (String × Value)) : Table :=
  entries.foldl (fun t e => t.put e.1 e.2) []

end Table

/-- The most decimal digits that a whole number is read or written with. -/
def mostDigits : Nat := 4300

namespace Value

mutual

/-- No whole number in the value has too many digits to be written. -/
def isWritable : Value → Bool
  | .integer i => decide (i.natAbs < Nat.pow 10 mostDigits)
  | .list values => areWritable values
  | .table entries => entriesAreWritable entries
  | _ => true

def areWritable : List Value → Bool
  | [] => true
  | v :: rest => isWritable v && areWritable rest

def entriesAreWritable : List (String × Value) → Bool
  | [] => true
  | (_, v) :: rest => isWritable v && entriesAreWritable rest

end

/-- Texts between brackets, with commas. -/
def enclosed (left right : String) (items : List String) : String :=
  left ++ String.intercalate ", " items ++ right

/-- Numbers separated by commas. -/
def numbers (ns : List Nat) : String := String.intercalate ", " (ns.map Decimal.ofNat)

def dateParts (d : Date) : List Nat := [d.year, d.month, d.day]

/-- The parts of a time, without the seconds if these and the microseconds are zero, and without the
    microseconds if these are. -/
def timeParts (t : Time) : List Nat :=
  if t.microsecond ≠ 0 then [t.hour, t.minute, t.second, t.microsecond]
  else if t.second ≠ 0 then [t.hour, t.minute, t.second]
  else [t.hour, t.minute]

/-- A distance from universal time. West of it the whole days are rounded down. -/
def offsetText (minutes : Int) : String :=
  if minutes = 0 then "datetime.timezone.utc"
  else
    let days := minutes / 1440
    let seconds := (minutes % 1440) * 60
    let parts := (if days = 0 then [] else ["days=" ++ Decimal.ofInt days]) ++
      (if seconds = 0 then [] else ["seconds=" ++ Decimal.ofInt seconds])
    "datetime.timezone(" ++ enclosed "datetime.timedelta(" ")" parts ++ ")"

mutual

/-- A value as a message shows it. -/
def text : Value → String
  | .null => "None"
  | .bool true => "True"
  | .bool false => "False"
  | .integer i => Decimal.ofInt i
  | .float f => Decimal.ofFloat f
  | .string s => Text.quoted s
  | .date d => enclosed "datetime.date(" ")" [numbers (dateParts d)]
  | .time t => enclosed "datetime.time(" ")" [numbers (timeParts t)]
  | .dateTime d t offset =>
    enclosed "datetime.datetime(" ")"
      (numbers (dateParts d ++ timeParts t) ::
        (offset.map fun minutes => "tzinfo=" ++ offsetText minutes).toList)
  | .list values => enclosed "[" "]" (textAll values)
  | .table entries => enclosed "\x7b" "\x7d" (textEntries entries)

def textAll : List Value → List String
  | [] => []
  | v :: rest => text v :: textAll rest

def textEntries : List (String × Value) → List String
  | [] => []
  | (k, v) :: rest => (Text.quoted k ++ ": " ++ text v) :: textEntries rest

end

end Value

end ClojureLayout.Config
