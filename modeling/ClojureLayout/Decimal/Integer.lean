/-!
# Whole numbers in decimal
-/

namespace ClojureLayout.Decimal

/-- The decimal digits of a whole number, after a minus sign if it is negative. -/
def digits : Int → List Char
  | .ofNat n => Nat.toDigits 10 n
  | .negSucc n => '-' :: Nat.toDigits 10 (n + 1)

def ofInt (i : Int) : String := String.ofList (digits i)

def ofNat (n : Nat) : String := String.ofList (Nat.toDigits 10 n)

end ClojureLayout.Decimal
