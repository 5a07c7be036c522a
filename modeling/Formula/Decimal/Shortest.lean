import Formula.Decimal.Basic

/-!
# The shortest decimal of a binary64 number

Among the decimals that read back as a number, the shortest is the one on the coarsest grid of
powers of ten. If a multiple of `10 ^ k` reads back, so does one of the two next to the number, so
each grid costs two tries. Every answer has been read back or is the exact value, hence no answer
denotes another number.
-/

namespace Formula.Decimal

/-- Which of two decimals is written when the number lies exactly between them. -/
inductive Tie where
  | up
  | even
  deriving DecidableEq, Repr

/-- The greatest multiple of `10 ^ k` that is not above `v`. -/
def below (v : Rat) (k : Int) : Decimal :=
  { coefficient := (v.num.natAbs * Nat.pow 10 (-k).toNat) / (v.den * Nat.pow 10 k.toNat)
    exponent := k }

/-- Of two neighbours on a grid the nearer one to `v`. -/
def nearer (tie : Tie) (v : Rat) (low high : Decimal) : Decimal :=
  let fromLow := v - low.value
  let toHigh := high.value - v
  if fromLow < toHigh then low
  else if toHigh < fromLow then high
  else match tie with
    | .up => high
    | .even => if low.coefficient % 2 = 0 then low else high

/-- The multiple of `10 ^ k` that reads back as the magnitude `bits`, whose value is `v`. -/
def onGrid? (tie : Tie) (bits : Nat) (v : Rat) (k : Int) : Option Decimal :=
  let low := below v k
  let high : Decimal := { low with coefficient := low.coefficient + 1 }
  let fits (d : Decimal) : Bool := Binary64.nearestBits d.value = bits
  match fits low, fits high with
  | true, true => some (nearer tie v low high)
  | true, false => some low
  | false, true => some high
  | false, false => none

/-- The digits of the exact value, which a significand times a power of two has. -/
def exact (bits : Nat) : Decimal :=
  let (m, q) := Binary64.components bits
  if 0 ≤ q then { coefficient := m * Nat.pow 2 q.toNat, exponent := 0 }
  else { coefficient := m * Nat.pow 5 (-q).toNat, exponent := q }

/-- Tries ever finer grids. -/
def search (tie : Tie) (bits : Nat) (v : Rat) : Nat → Int → Decimal
  | 0, _ => exact bits
  | grids + 1, k => (onGrid? tie bits v k).getD (search tie bits v grids (k - 1))

/-- An exponent `k` with `v < 10 ^ k`, from the binary logarithm: 0.30103 is just above the decimal
logarithm of two. -/
def gridAbove (v : Rat) : Int :=
  ((Nat.log2 v.num.natAbs : Int) - Nat.log2 v.den + 1) * 30103 / 100000 + 1

/-- The shortest decimal that reads back as the magnitude of a finite number, and of those the
nearest one. Seventeen digits always suffice, and the first grid is at most three places above the
first digit. -/
def shortest (tie : Tie) (x : Float) : Decimal :=
  let bits := Binary64.magnitudeBits x
  if bits = 0 then { coefficient := 0, exponent := 0 }
  else
    let v := Binary64.magnitude x
    search tie bits v 20 (gridAbove v)

end Formula.Decimal
