import Formula.Binary64

/-!
# Operators

The six binary operators and what they compute. Arithmetic is that of binary64 numbers, so nothing
fails: a division by zero gives an infinity or NaN.
-/

namespace Formula

inductive Operator where
  | add
  | sub
  | mul
  | div
  | rem
  | pow
  deriving DecidableEq, Repr

namespace Operator

def all : List Operator := [add, sub, mul, div, rem, pow]

def symbol : Operator → Char
  | add => '+'
  | sub => '-'
  | mul => '*'
  | div => '/'
  | rem => '%'
  | pow => '^'

/-- The operator written with a character. -/
def ofSymbol? (c : Char) : Option Operator := all.find? fun o => o.symbol = c

def name : Operator → String
  | add => "op_add"
  | sub => "op_sub"
  | mul => "op_mul"
  | div => "op_div"
  | rem => "op_mod"
  | pow => "op_pow"

def apply : Operator → Float → Float → Float
  | add, x, y => x + y
  | sub, x, y => x - y
  | mul, x, y => x * y
  | div, x, y => x / y
  | rem, x, y => Binary64.remainder x y
  | pow, x, y => Float.pow x y

end Operator

end Formula
