import Formula.Decimal.Text
import Formula.Json.Fault

/-!
# JSON numbers

`Numeral.scan` cuts a numeral off a text and `Numeral.value?` gives its number. A numeral without a
fraction and an exponent is a whole number as long as it fits into 64 bits. Any other is computed
from as many leading digits as fit into 64 bits, scaled by a power of ten in binary64 arithmetic.
That rounds twice, so a numeral with a large exponent can be read as a neighbour of its nearest
number. `writeReal` writes the shortest digits.
-/

namespace Formula.Json

inductive Number where
  | whole (n : Int)
  | real (x : Float)
  deriving DecidableEq, Repr

def Number.toFloat : Number → Float
  | whole n => Binary64.signed (n < 0) (Binary64.nearest n.natAbs)
  | real x => x

/-! ## Writing -/

/-- One digit before the point, and the exponent with its sign. -/
def scientific (digits : List Char) (exponent : Int) : List Char :=
  let mark := if exponent < 0 then ['e', '-'] else ['e', '+']
  let mantissa := match digits with
    | d :: [] => [d]
    | d :: ds => d :: '.' :: ds
    | [] => []
  mantissa ++ mark ++ Nat.toDigits 10 exponent.natAbs

/-- The shortest digits of a finite magnitude: in positional notation with a fraction from `1e-5` up
to `1e16`, and in scientific notation outside. -/
def writeMagnitude (x : Float) : List Char :=
  let d := Decimal.shortest .even x
  let exponent := d.exponent + d.digits.length - 1
  if d.coefficient = 0 then ['0', '.', '0']
  else if -5 ≤ exponent && exponent < 16 then
    if 0 ≤ d.exponent then d.plain ++ ['.', '0'] else d.plain
  else scientific d.digits exponent

/-- The numeral of a finite number. -/
def writeReal (x : Float) : List Char :=
  if Binary64.isNegative x then '-' :: writeMagnitude x else writeMagnitude x

def Number.write : Number → List Char
  | whole n =>
    if n < 0 then '-' :: Nat.toDigits 10 n.natAbs else Nat.toDigits 10 n.natAbs
  | real x => writeReal x

/-! ## Numerals -/

/-- The parts of a numeral after its sign. The fraction is empty if there is no point. -/
structure Numeral where
  whole : List Char
  fraction : List Char
  exponent : Option Int
  deriving DecidableEq, Repr

/-- A run of digits, of which there is one at least; `missing` is the fault where the text ends. -/
def scanDigits (missing : Fault) (cs : List Char) : Except Fault (List Char × List Char) :=
  match cs with
  | [] => .error missing
  | c :: tail =>
    if c.isDigit then .ok (c :: tail.takeWhile Char.isDigit, tail.dropWhile Char.isDigit)
    else .error .invalidNumber

/-- The digits before the point. Only a lone zero may begin with zero. -/
def scanWhole (missing : Fault) (cs : List Char) : Except Fault (List Char × List Char) :=
  match scanDigits missing cs with
  | .error fault => .error fault
  | .ok (digits, rest) =>
    if digits.head? = some '0' && 1 < digits.length then .error .invalidNumber
    else .ok (digits, rest)

def scanFraction (missing : Fault) (cs : List Char) : Except Fault (List Char × List Char) :=
  match cs with
  | '.' :: tail => scanDigits missing tail
  | _ => .ok ([], cs)

def scanExponent (missing : Fault) (cs : List Char) : Except Fault (Option Int × List Char) :=
  match cs with
  | [] => .ok (none, [])
  | mark :: tail =>
    if mark = 'e' || mark = 'E' then
      let (negative, tail) := match tail with
        | '+' :: digits => (false, digits)
        | '-' :: digits => (true, digits)
        | digits => (false, digits)
      match scanDigits missing tail with
      | .error fault => .error fault
      | .ok (digits, rest) =>
        let e : Int := Nat.ofDigitChars 10 digits 0
        .ok (some (if negative then -e else e), rest)
    else .ok (none, cs)

namespace Numeral

/-- Cuts a numeral off the front of a text; `missing` is the fault where the text ends too early. -/
def scan (missing : Fault) (cs : List Char) : Except Fault (Numeral × List Char) := do
  let (whole, rest) ← scanWhole missing cs
  let (fraction, rest) ← scanFraction missing rest
  let (exponent, rest) ← scanExponent missing rest
  return ({ whole, fraction, exponent }, rest)

/-- Appends digits to a coefficient while it fits into 64 bits. The other digits are left over. -/
def absorb (n : Nat) : List Char → Nat × List Char
  | [] => (n, [])
  | c :: cs =>
    let next := 10 * n + (c.toNat - '0'.toNat)
    if next < Nat.pow 2 64 then absorb next cs else (n, c :: cs)

/-- Divides by a power of ten, in steps if the power is out of range. -/
def scaleDown (x : Float) (e : Nat) : Float :=
  if e ≤ 308 then x / Binary64.nearest (Nat.pow 10 e)
  else if x == 0 then x
  else scaleDown (x / Binary64.nearest (Nat.pow 10 308)) (e - 308)
termination_by e

/-- Multiplies by a power of ten; none if the result is out of range. -/
def scaleUp? (x : Float) (e : Nat) : Option Float :=
  if e ≤ 308 then
    let y := x * Binary64.nearest (Nat.pow 10 e)
    if y.isInf then none else some y
  else if x == 0 then some x
  else none

/-- The number of a numeral with a sign; none if it is out of range. -/
def value? (negative : Bool) (numeral : Numeral) : Option Number :=
  let (n, dropped) := absorb 0 numeral.whole
  if numeral.fraction.isEmpty && numeral.exponent.isNone && dropped.isEmpty then
    if negative then
      if n = 0 || Nat.pow 2 63 < n then some (.real (-(Binary64.nearest n))) else some (.whole (-n))
    else some (.whole n)
  else
    let (m, unused) := absorb n numeral.fraction
    let places : Int := (dropped.length : Int) - (numeral.fraction.length - unused.length : Nat)
    let e := places + numeral.exponent.getD 0
    let x := Binary64.nearest m
    let scaled := if e < 0 then some (scaleDown x e.natAbs) else scaleUp? x e.natAbs
    scaled.map fun y => .real (Binary64.signed negative y)

end Numeral

/-! ## A numeral takes a character at least -/

theorem scanDigits_length {missing : Fault} {cs digits rest : List Char}
    (h : scanDigits missing cs = .ok (digits, rest)) : rest.length < cs.length := by
  unfold scanDigits at h
  split at h
  · simp at h
  · rename_i c tail
    split at h
    · simp only [Except.ok.injEq, Prod.mk.injEq] at h
      obtain ⟨_, rfl⟩ := h
      have := (List.dropWhile_suffix (l := tail) Char.isDigit).length_le
      simp only [List.length_cons]
      omega
    · simp at h

theorem scanWhole_length {missing : Fault} {cs digits rest : List Char}
    (h : scanWhole missing cs = .ok (digits, rest)) : rest.length < cs.length := by
  unfold scanWhole at h
  split at h
  · simp at h
  · rename_i hd
    split at h
    · simp at h
    · simp only [Except.ok.injEq, Prod.mk.injEq] at h
      obtain ⟨_, rfl⟩ := h
      exact scanDigits_length hd

theorem scanFraction_length {missing : Fault} {cs digits rest : List Char}
    (h : scanFraction missing cs = .ok (digits, rest)) : rest.length ≤ cs.length := by
  unfold scanFraction at h
  split at h
  · have := scanDigits_length h
    simp only [List.length_cons]
    omega
  · simp only [Except.ok.injEq, Prod.mk.injEq] at h
    obtain ⟨_, rfl⟩ := h
    exact Nat.le_refl _

theorem scanExponent_length {missing : Fault} {cs rest : List Char} {e : Option Int}
    (h : scanExponent missing cs = .ok (e, rest)) : rest.length ≤ cs.length := by
  unfold scanExponent at h
  split at h
  · simp only [Except.ok.injEq, Prod.mk.injEq] at h
    obtain ⟨_, rfl⟩ := h
    exact Nat.le_refl _
  · rename_i mark tail
    split at h
    · have htail : (match tail with
          | '+' :: digits => (false, digits)
          | '-' :: digits => (true, digits)
          | digits => (false, digits)).2.length ≤ tail.length := by
        split <;> simp
      revert h htail
      generalize (match tail with
        | '+' :: digits => (false, digits)
        | '-' :: digits => (true, digits)
        | digits => (false, digits)) = signed
      intro h htail
      obtain ⟨negative, signedTail⟩ := signed
      simp only at h htail
      split at h
      · simp at h
      · rename_i hd
        simp only [Except.ok.injEq, Prod.mk.injEq] at h
        obtain ⟨_, rfl⟩ := h
        have := scanDigits_length hd
        simp only [List.length_cons]
        omega
    · simp only [Except.ok.injEq, Prod.mk.injEq] at h
      obtain ⟨_, rfl⟩ := h
      exact Nat.le_refl _

theorem Numeral.scan_length {missing : Fault} {cs rest : List Char} {numeral : Numeral}
    (h : scan missing cs = .ok (numeral, rest)) : rest.length < cs.length := by
  simp only [scan, bind, Except.bind] at h
  split at h
  · simp at h
  · rename_i first hwhole
    split at h
    · simp at h
    · rename_i second hfraction
      split at h
      · simp at h
      · rename_i third hexponent
        simp only [pure, Except.pure, Except.ok.injEq, Prod.mk.injEq] at h
        obtain ⟨_, rfl⟩ := h
        have h₁ := scanWhole_length hwhole
        have h₂ := scanFraction_length hfraction
        have h₃ := scanExponent_length hexponent
        omega

end Formula.Json
