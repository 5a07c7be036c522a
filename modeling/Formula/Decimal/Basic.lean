import Formula.Binary64

/-!
# Decimals

A decimal is a whole coefficient times a power of ten. Written digits denote one exactly, and it
stands for the binary64 number nearest to its value.
-/

namespace Formula

structure Decimal where
  coefficient : Nat
  exponent : Int
  deriving DecidableEq, Repr

namespace Decimal

def value (d : Decimal) : Rat := Binary64.scaled d.coefficient 10 d.exponent

/-- The binary64 number nearest to the decimal. -/
def toFloat (d : Decimal) : Float := Binary64.nearest d.value

/-- What the digits before and after a decimal point denote together. -/
def ofDigits (whole fraction : List Char) : Decimal :=
  { coefficient := Nat.ofDigitChars 10 (whole ++ fraction) 0
    exponent := -(fraction.length : Int) }

/-- The digits of the coefficient, without leading zeros. -/
def digits (d : Decimal) : List Char := Nat.toDigits 10 d.coefficient

end Decimal

end Formula
