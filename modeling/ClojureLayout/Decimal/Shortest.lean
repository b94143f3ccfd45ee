import ClojureLayout.Decimal.Integer

/-!
# The shortest decimal of a double

A double stands for all the reals that are rounded to it: an interval around its value, reaching
half way to its neighbours. Of the decimals in that interval the shortest is chosen, of two shortest
the one nearer to the value, and of two equally near the one that ends in an even digit.

The interval is kept in quarters of the unit in the last place, so that its ends are whole numbers,
and decimals are compared with it by multiplying out. No arithmetic here is rounded.
-/

namespace ClojureLayout.Decimal

/-- The decimal `digits * 10 ^ exponent`. -/
structure Scaled where
  digits : Nat
  exponent : Int
deriving DecidableEq

/-- The reals rounded to a positive double: those from `low * 2 ^ unit` to `high * 2 ^ unit` around
    its value `value * 2 ^ unit`, the ends included if `closed`. -/
structure Interval where
  value : Nat
  low : Nat
  high : Nat
  unit : Int
  closed : Bool
deriving DecidableEq

namespace Interval

/-- The leading bit of a mantissa, which the bits of a double leave out. -/
def hidden : Nat := 0x10000000000000

/-- The interval of the positive finite double with the given bits. The neighbour below is half as
    far away as the one above where the exponent has just grown. -/
def ofBits (bits : UInt64) : Interval :=
  let fraction := bits.toNat % hidden
  let field := bits.toNat / hidden % 0x800
  let mantissa := if field = 0 then fraction else hidden + fraction
  let below := if fraction = 0 ∧ 1 < field then 1 else 2
  { value := 4 * mantissa
    low := 4 * mantissa - below
    high := 4 * mantissa + 2
    unit := (max field 1 : Nat) - 1077
    closed := mantissa % 2 == 0 }

/-- The real `x * 2 ^ unit`, on the scale on which `ofDecimal` is whole. -/
def ofBinary (i : Interval) (x : Nat) (exponent : Int) : Nat :=
  x * Nat.pow 2 i.unit.toNat * Nat.pow 10 (-exponent).toNat

/-- The real `digits * 10 ^ exponent`, on the scale on which `ofBinary` is whole. -/
def ofDecimal (i : Interval) (digits : Nat) (exponent : Int) : Nat :=
  digits * Nat.pow 10 exponent.toNat * Nat.pow 2 (-i.unit).toNat

/-- The decimal lies in the interval. -/
def holds (i : Interval) (d : Scaled) : Bool :=
  let x := i.ofDecimal d.digits d.exponent
  let low := i.ofBinary i.low d.exponent
  let high := i.ofBinary i.high d.exponent
  decide (low < x ∧ x < high) || (i.closed && (x == low || x == high))

/-- The least power of ten above the value. -/
def scale (i : Interval) : Int :=
  let powers := (List.range 650).map fun n : Nat => (n : Int) - 330
  (powers.find? fun k => decide (i.ofBinary i.value k < i.ofDecimal 1 k)).getD 320

/-- The best decimal of the interval with the given exponent, if it holds one: one of the two that
    enclose the value. -/
def best? (i : Interval) (exponent : Int) : Option Scaled :=
  let value := i.ofBinary i.value exponent
  let below := value / i.ofDecimal 1 exponent
  let lower : Scaled := ⟨below, exponent⟩
  let upper : Scaled := ⟨below + 1, exponent⟩
  if i.holds lower && i.holds upper then
    let down := value - i.ofDecimal below exponent
    let up := i.ofDecimal (below + 1) exponent - value
    if down < up ∨ (down = up ∧ below % 2 = 0) then some lower else some upper
  else if i.holds lower then some lower
  else if i.holds upper then some upper
  else none

/-- The shortest decimal of the interval. Seventeen digits always suffice. -/
def shortest (i : Interval) : Scaled :=
  let lengths := (List.range 17).map fun n : Nat => (n : Int) + 1
  (lengths.findSome? fun n => i.best? (i.scale - n)).getD
    ⟨i.ofBinary i.value (i.scale - 17) / i.ofDecimal 1 (i.scale - 17), i.scale - 17⟩

end Interval

/-- The digits of a decimal without the zeros at their end. -/
def Scaled.significant (d : Scaled) : List Char :=
  let digits := Nat.toDigits 10 d.digits
  let kept := (digits.reverse.dropWhile (· == '0')).reverse
  if kept.isEmpty then ['0'] else kept

/-- How many of the digits stand before the decimal point; negative if zeros follow it. -/
def Scaled.point (d : Scaled) : Int := d.exponent + (Nat.toDigits 10 d.digits).length

end ClojureLayout.Decimal
