import ClojureLayout.Config.Toml.Words

/-!
# Numbers, dates and times of a configuration file

An underscore may stand between two digits of a number. Dates and times are checked against the
calendar, seconds are given to the microsecond and further digits are dropped.
-/

namespace ClojureLayout.Config.Toml

/-! ### Numbers -/

def isDigit (c : Char) : Bool := c.isDigit

/-- The digits that follow a digit, each perhaps after an underscore. -/
def moreDigits (p : Char → Bool) : List Char → List Char × List Char
  | '_' :: c :: rest =>
    if p c then
      let (digits, rest) := moreDigits p rest
      (c :: digits, rest)
    else ([], '_' :: c :: rest)
  | c :: rest =>
    if p c then
      let (digits, rest) := moreDigits p rest
      (c :: digits, rest)
    else ([], c :: rest)
  | [] => ([], [])

def digits? (p : Char → Bool) : List Char → Option (List Char × List Char)
  | c :: rest =>
    if p c then
      let (digits, rest) := moreDigits p rest
      some (c :: digits, rest)
    else none
  | [] => none

/-- The value of digits to a base. -/
def valueToBase (base : Nat) (digits : List Char) : Nat :=
  digits.foldl (fun n c => base * n + (hexValue? c).getD 0) 0

/-- A whole number to a base other than ten. -/
def based? : List Char → Option (Nat × List Char)
  | '0' :: 'x' :: rest =>
    (digits? (fun c => (hexValue? c).isSome) rest).map fun r => (valueToBase 16 r.1, r.2)
  | '0' :: 'b' :: rest =>
    (digits? (fun c => c == '0' || c == '1') rest).map fun r => (valueToBase 2 r.1, r.2)
  | '0' :: 'o' :: rest =>
    (digits? (fun c => decide ('0' ≤ c ∧ c ≤ '7')) rest).map fun r => (valueToBase 8 r.1, r.2)
  | _ => none

/-- A sign; `true` is minus. -/
def sign? : List Char → Option Bool × List Char
  | '+' :: rest => (some false, rest)
  | '-' :: rest => (some true, rest)
  | cs => (none, cs)

/-- The digits before the decimal point: a zero, or digits that do not start with one. -/
def wholePart? : List Char → Option (List Char × List Char)
  | '0' :: rest => some (['0'], rest)
  | cs => digits? isDigit cs

/-- The digits after the decimal point, if there are any. -/
def fraction? : List Char → Option (List Char × List Char)
  | '.' :: rest => digits? isDigit rest
  | _ => none

/-- The exponent, if there is one. -/
def exponent? : List Char → Option (Int × List Char)
  | c :: rest =>
    if c = 'e' ∨ c = 'E' then
      let (sign, rest) := sign? rest
      (digits? isDigit rest).map fun r =>
        let n : Int := Decimal.valueOf r.1
        (if sign = some true then -n else n, r.2)
    else none
  | [] => none

/-- A number in decimal: whole, or with a fraction, an exponent or both. -/
def decimal? (cs : List Char) : Option (Except Fault (Value × List Char)) := do
  let (sign, rest) := sign? cs
  let negative := sign == some true
  let (whole, rest) ← wholePart? rest
  match fraction? rest, exponent? rest with
  | some (fraction, rest), _ =>
    let (exponent, rest) := (exponent? rest).getD (0, rest)
    let digits := Decimal.valueOf (whole ++ fraction)
    return .ok (.float (Decimal.toFloat negative digits (exponent - fraction.length)), rest)
  | none, some (exponent, rest) =>
    return .ok (.float (Decimal.toFloat negative (Decimal.valueOf whole) exponent), rest)
  | none, none =>
    if mostDigits < whole.length then return .error (.tooManyDigits whole.length)
    else
      let n : Int := Decimal.valueOf whole
      return .ok (.integer (if negative then -n else n), rest)

/-- Infinity, or what is not a number. -/
def special? (cs : List Char) : Option (Value × List Char) :=
  let (sign, rest) := sign? cs
  match rest with
  | 'i' :: 'n' :: 'f' :: rest =>
    some (.float (if sign = some true then -1.0 / 0.0 else 1.0 / 0.0), rest)
  | 'n' :: 'a' :: 'n' :: rest => some (.float (0.0 / 0.0), rest)
  | _ => none

/-! ### Dates and times -/

/-- So many digits. -/
def fixedDigits? : (count : Nat) → List Char → Option (List Char × List Char)
  | 0, cs => some ([], cs)
  | _ + 1, [] => none
  | count + 1, c :: rest =>
    if isDigit c then (fixedDigits? count rest).map fun r => (c :: r.1, r.2) else none

/-- A number of two digits from `low` to `high`. -/
def twoDigits? (low high : Nat) (cs : List Char) : Option (Nat × List Char) := do
  let (digits, rest) ← fixedDigits? 2 cs
  let n := Decimal.valueOf digits
  if low ≤ n ∧ n ≤ high then some (n, rest) else none

/-- The text after a character that has to be there. -/
def expect? (c : Char) : List Char → Option (List Char)
  | d :: rest => if c = d then some rest else none
  | [] => none

/-- The microseconds of a fraction of a second, if one follows. -/
def microseconds (cs : List Char) : Nat × List Char :=
  match cs with
  | '.' :: rest =>
    let digits := rest.takeWhile isDigit
    if digits.isEmpty then (0, cs)
    else
      (Decimal.valueOf ((digits ++ List.replicate 6 '0').take 6), rest.dropWhile isDigit)
  | _ => (0, cs)

def time? (cs : List Char) : Option (Time × List Char) := do
  let (hour, rest) ← twoDigits? 0 23 cs
  let (minute, rest) ← twoDigits? 0 59 (← expect? ':' rest)
  let (second, rest) ← twoDigits? 0 59 (← expect? ':' rest)
  let (microsecond, rest) := microseconds rest
  return (⟨hour, minute, second, microsecond⟩, rest)

/-- A day, as far as its form goes. -/
def date? (cs : List Char) : Option (Date × List Char) := do
  let (year, rest) ← fixedDigits? 4 cs
  let (month, rest) ← twoDigits? 1 12 (← expect? '-' rest)
  let (day, rest) ← twoDigits? 1 31 (← expect? '-' rest)
  return (⟨Decimal.valueOf year, month, day⟩, rest)

/-- How many days a month has. -/
def daysInMonth (year month : Nat) : Nat :=
  let leap := year % 4 = 0 ∧ (year % 100 ≠ 0 ∨ year % 400 = 0)
  if month = 2 then if leap then 29 else 28
  else if [4, 6, 9, 11].contains month then 30
  else 31

/-- The day is in the calendar. -/
def isInCalendar (d : Date) : Bool :=
  decide (1 ≤ d.year) && decide (d.day ≤ daysInMonth d.year d.month)

/-- The distance from universal time in minutes, if one follows. -/
def offset? (cs : List Char) : Option (Int × List Char) :=
  match cs with
  | c :: rest =>
    if c = 'Z' ∨ c = 'z' then some (0, rest)
    else if c = '+' ∨ c = '-' then do
      let (hours, rest) ← twoDigits? 0 23 rest
      let (minutes, rest) ← twoDigits? 0 59 (← expect? ':' rest)
      let n : Int := 60 * hours + minutes
      return (if c = '-' then -n else n, rest)
    else none
  | [] => none

/-- The time that follows a day, if one does. -/
def timeOfDay? : List Char → Option (Time × List Char)
  | c :: rest => if c = 'T' ∨ c = 't' ∨ c = ' ' then time? rest else none
  | [] => none

/-- A day, perhaps with a time, perhaps with its distance from universal time. -/
def dateTime? (cs : List Char) : Option (Except Fault (Value × List Char)) := do
  let (day, rest) ← date? cs
  let (value, rest) := match timeOfDay? rest with
    | none => (Value.date day, rest)
    | some (time, rest) =>
      match offset? rest with
      | none => (Value.dateTime day time none, rest)
      | some (offset, rest) => (Value.dateTime day time (some offset), rest)
  return if isInCalendar day then .ok (value, rest) else .error .malformed

/-- A number, a date or a time. -/
def scalar (cs : List Char) : Except Fault (Value × List Char) :=
  match dateTime? cs with
  | some reading => reading
  | none =>
    match time? cs with
    | some (time, rest) => .ok (.time time, rest)
    | none =>
      match based? cs with
      | some (n, rest) => .ok (.integer n, rest)
      | none =>
        match decimal? cs with
        | some reading => reading
        | none =>
          match special? cs with
          | some reading => .ok reading
          | none => .error .malformed

end ClojureLayout.Config.Toml
