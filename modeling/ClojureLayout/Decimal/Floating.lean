import ClojureLayout.Decimal.Shortest

/-!
# Doubles in decimal

A double is written with the digits of its shortest decimal. The point is placed among them if the
number lies from a ten-thousandth up to ten to the sixteenth; otherwise it follows the first digit
and an exponent of two digits or more says where it belongs. A number that would look whole gets
`.0`.
-/

namespace ClojureLayout.Decimal

/-- So many zeros. -/
def zeros (n : Nat) : List Char := List.replicate n '0'

/-- Digits with the decimal point behind the first `point` of them. -/
def positional (digits : List Char) (point : Int) : List Char :=
  if point ≤ 0 then ['0', '.'] ++ zeros (-point).toNat ++ digits
  else if digits.length ≤ point then digits ++ zeros (point.toNat - digits.length) ++ ['.', '0']
  else digits.take point.toNat ++ '.' :: digits.drop point.toNat

/-- An exponent with its sign and at least two digits. -/
def exponentDigits (e : Int) : List Char :=
  let digits := Nat.toDigits 10 e.natAbs
  (if e < 0 then '-' else '+') :: (zeros (2 - digits.length) ++ digits)

/-- Digits with the decimal point behind the first of them, and the exponent that this calls for. -/
def scientific (digits : List Char) (point : Int) : List Char :=
  let fraction := if digits.length ≤ 1 then [] else '.' :: digits.drop 1
  digits.take 1 ++ fraction ++ 'e' :: exponentDigits (point - 1)

/-- Digits with the decimal point where a reader expects it. -/
def placed (digits : List Char) (point : Int) : List Char :=
  if -4 < point ∧ point ≤ 16 then positional digits point else scientific digits point

/-- The bit that makes a double negative. -/
def signBit : Nat := 0x8000000000000000

/-- The bits of infinity; larger ones stand for no number. -/
def infinite : Nat := 0x7FF0000000000000

/-- A double in decimal. -/
def ofFloat (f : Float) : String :=
  let bits := f.toBits
  let negative := decide (signBit ≤ bits.toNat)
  let magnitude := bits.toNat % signBit
  let sign := if negative then ['-'] else []
  if infinite < magnitude then "nan"
  else if magnitude = infinite then String.ofList (sign ++ ['i', 'n', 'f'])
  else if magnitude = 0 then String.ofList (sign ++ ['0', '.', '0'])
  else
    let d := (Interval.ofBits magnitude.toUInt64).shortest
    String.ofList (sign ++ placed d.significant d.point)

/-- The value of a row of decimal digits. -/
def valueOf (digits : List Char) : Nat :=
  digits.foldl (fun n c => 10 * n + (c.toNat - '0'.toNat)) 0

/-- The double nearest to `digits * 10 ^ exponent`. Numbers far beyond the range of doubles are not
    worked out. -/
def toFloat (negative : Bool) (digits : Nat) (exponent : Int) : Float :=
  let size := exponent + (Nat.toDigits 10 digits).length
  let magnitude :=
    if digits = 0 ∨ size < -400 then 0.0
    else if 400 < size then 1.0 / 0.0
    else if exponent < 0 then Float.ofScientific digits true (-exponent).toNat
    else Float.ofScientific digits false exponent.toNat
  if negative then -magnitude else magnitude

end ClojureLayout.Decimal
