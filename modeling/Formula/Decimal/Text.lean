import Formula.Decimal.Shortest

/-!
# Number text

`showNumber` writes a number in plain positional notation with the fewest digits that read back.
`readNumber?` reads the number texts that a host hands over: an optional sign and then digits with
an optional point and exponent, or one of the words for an infinity or for no number.
-/

namespace Formula

namespace Decimal

/-- Positional notation: no exponent, and no point where there is no fraction. -/
def plain (d : Decimal) : List Char :=
  if 0 ≤ d.exponent then
    if d.coefficient = 0 then ['0'] else d.digits ++ List.replicate d.exponent.toNat '0'
  else
    let places := (-d.exponent).toNat
    let padded := List.replicate (places + 1 - d.digits.length) '0' ++ d.digits
    padded.take (padded.length - places) ++ '.' :: padded.drop (padded.length - places)

/-- Multiplies by a power of ten. Exponents that take any value of that many digits out of the range
of binary64 numbers are cut, which changes no result and keeps the power of ten small. -/
def scale (d : Decimal) (digitCount : Nat) (e : Int) : Decimal :=
  let reach : Int := digitCount + 400
  { d with exponent := d.exponent + max (-reach) (min e reach) }

/-- A run of digits that is not empty, alone. -/
def wholeNumber? (cs : List Char) : Option Nat :=
  if !cs.isEmpty && cs.all Char.isDigit then some (Nat.ofDigitChars 10 cs 0) else none

/-- What follows the mark of an exponent. -/
def exponent? : List Char → Option Int
  | '+' :: cs => (wholeNumber? cs).map fun n => (n : Int)
  | '-' :: cs => (wholeNumber? cs).map fun n => -(n : Int)
  | cs => (wholeNumber? cs).map fun n => (n : Int)

/-- Digits with an optional point, at least one digit, and an optional exponent. -/
def read? (cs : List Char) : Option Decimal :=
  let whole := cs.takeWhile Char.isDigit
  let afterWhole := cs.dropWhile Char.isDigit
  let (fraction, rest) := match afterWhole with
    | '.' :: tail => (tail.takeWhile Char.isDigit, tail.dropWhile Char.isDigit)
    | tail => ([], tail)
  if whole.isEmpty && fraction.isEmpty then none
  else
    let d := ofDigits whole fraction
    match rest with
    | [] => some d
    | mark :: tail =>
      if mark = 'e' || mark = 'E' then
        (exponent? tail).map (d.scale (whole.length + fraction.length))
      else none

end Decimal

/-- Reads a number without a sign. The words are read in any letter case. -/
def readMagnitude? (cs : List Char) : Option Float :=
  let word := cs.map Char.toLower
  if word = "inf".toList || word = "infinity".toList then some Binary64.infinity
  else if word = "nan".toList then some Binary64.nan
  else (Decimal.read? cs).map Decimal.toFloat

/-- The number that a text denotes, correctly rounded. -/
def readNumber? (text : String) : Option Float :=
  match text.toList with
  | '-' :: cs => (readMagnitude? cs).map fun x => -x
  | '+' :: cs => readMagnitude? cs
  | cs => readMagnitude? cs

/-- The plain text of a number. A zero keeps its sign, and NaN has none. -/
def showNumber (x : Float) : String :=
  if x.isNaN then "NaN"
  else
    let magnitude := if x.isInf then "inf".toList else (Decimal.shortest .up x).plain
    String.ofList (if Binary64.isNegative x then '-' :: magnitude else magnitude)

end Formula
