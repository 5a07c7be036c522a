/-!
# Binary64 numbers as exact rationals

A finite binary64 number is a whole number times a power of two, so it has an exact rational
value. `Binary64.nearest` goes the other way: it rounds a rational to the closest number, and a
tie goes to the neighbour whose last bit is even. Reading and printing of decimal text, and the
remainder of a division, are defined on these exact values and use no rounded arithmetic.
-/

namespace Formula.Binary64

/-- The weight of the leading bit of a significand, which is not stored. -/
def leadingBit : Nat := Nat.pow 2 52

/-- The bit pattern of a sign. -/
def signBit : Nat := Nat.pow 2 63

/-- The bit pattern of positive infinity: the patterns of the finite magnitudes lie below it, and
they are ordered as the magnitudes are. -/
def infinityBits : Nat := 2047 * leadingBit

/-- The bits of a number without its sign. -/
def magnitudeBits (x : Float) : Nat := x.toBits.toNat % signBit

/-- The sign bit, which is also set on negative zero. -/
def isNegative (x : Float) : Bool := signBit ≤ x.toBits.toNat

/-- The pair `(m, q)` for which `m * 2 ^ q` is the magnitude that the bits stand for. The exponent
field 0 marks the subnormal numbers, which share the exponent of field 1 and have no leading one. -/
def components (bits : Nat) : Nat × Int :=
  let field : Nat := bits / leadingBit
  let fraction : Nat := bits % leadingBit
  if field = 0 then (fraction, -1074) else (leadingBit + fraction, (field : Int) - 1075)

/-- The rational `m * b ^ q`. -/
def scaled (m b : Nat) (q : Int) : Rat := mkRat (m * Nat.pow b q.toNat : Nat) (Nat.pow b (-q).toNat)

/-- The exact magnitude of a finite number. -/
def magnitude (x : Float) : Rat :=
  let (m, q) := components (magnitudeBits x)
  scaled m 2 q

/-- The whole number nearest to `num / den`; a tie goes to the even one. -/
def roundDiv (num den : Nat) : Nat :=
  let whole := num / den
  let rest := num % den
  if 2 * rest < den then whole
  else if den < 2 * rest then whole + 1
  else whole + whole % 2

/-- The exponent of the last place of the numbers around a positive `v`: the `q` for which `v` lies
between `2 ^ (q + 52)` and `2 ^ (q + 53)`, and never below the exponent of the subnormal numbers. -/
def lastPlace (v : Rat) : Int :=
  let num := v.num.natAbs
  let e : Int := (Nat.log2 num : Int) - Nat.log2 v.den
  let reached : Bool := v.den * Nat.pow 2 e.toNat ≤ num * Nat.pow 2 (-e).toNat
  max (if reached then e - 52 else e - 53) (-1074)

/-- The magnitude bits of the number nearest to `v`, which is not negative. Consecutive bit
patterns stand for consecutive numbers, so a significand that is rounded up to `2 ^ 53` carries
into the exponent field by itself, and what lies beyond the largest number becomes infinity. -/
def nearestBits (v : Rat) : Nat :=
  if v = 0 then 0
  else
    let q := lastPlace v
    let m := roundDiv (v.num.natAbs * Nat.pow 2 (-q).toNat) (v.den * Nat.pow 2 q.toNat)
    min ((q + 1074).toNat * leadingBit + m) infinityBits

/-- The non-negative number with the given magnitude bits. -/
def ofMagnitudeBits (bits : Nat) : Float := Float.ofBits (UInt64.ofNat bits)

/-- The number nearest to a rational that is not negative. -/
def nearest (v : Rat) : Float := ofMagnitudeBits (nearestBits v)

def infinity : Float := ofMagnitudeBits infinityBits

def nan : Float := Float.ofBits 0x7ff8000000000000

/-- Puts a sign on a number that is not negative. -/
def signed (negative : Bool) (x : Float) : Float := if negative then -x else x

/-- The remainder of the division whose quotient is truncated toward zero. It is exact and has the
sign of the dividend, also where it is zero; dividing by zero or dividing an infinity leaves NaN. -/
def remainder (x y : Float) : Float :=
  if x.isNaN || y.isNaN || x.isInf || magnitudeBits y = 0 then nan
  else if y.isInf then x
  else
    let (mx, qx) := components (magnitudeBits x)
    let (my, qy) := components (magnitudeBits y)
    let q := min qx qy
    let rest := (mx * Nat.pow 2 (qx - q).toNat) % (my * Nat.pow 2 (qy - q).toNat)
    signed (isNegative x) (nearest (scaled rest 2 q))

end Formula.Binary64
