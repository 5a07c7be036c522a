import Formula.Decimal.Text

/-!
# Values

What a variable is bound to, what a function takes and returns, and what a formula evaluates to.
Formulas compute with the scalars only: numbers, texts and truth values. Lists and the empty value
belong to the host, which may store them in variables and pass them through functions.
-/

namespace Formula

inductive Value where
  | number (x : Float)
  | text (s : String)
  | bool (b : Bool)
  | list (vs : List Value)
  | empty
  deriving Repr, Inhabited

namespace Value

mutual

/-- Equality of values; two numbers are equal when they have the same bits. -/
def decEq : (a b : Value) → Decidable (a = b)
  | number x, number y => decidable_of_iff (x = y) (by simp)
  | text s, text t => decidable_of_iff (s = t) (by simp)
  | bool a, bool b => decidable_of_iff (a = b) (by simp)
  | list us, list vs => @decidable_of_iff _ (us = vs) (by simp) (decEqList us vs)
  | empty, empty => isTrue rfl
  | number _, text _ | number _, bool _ | number _, list _ | number _, empty
  | text _, number _ | text _, bool _ | text _, list _ | text _, empty
  | bool _, number _ | bool _, text _ | bool _, list _ | bool _, empty
  | list _, number _ | list _, text _ | list _, bool _ | list _, empty
  | empty, number _ | empty, text _ | empty, bool _ | empty, list _ => isFalse nofun

def decEqList : (us vs : List Value) → Decidable (us = vs)
  | [], [] => isTrue rfl
  | u :: us, v :: vs =>
    @decidable_of_iff _ (u = v ∧ us = vs) (by simp)
      (@instDecidableAnd _ _ (decEq u v) (decEqList us vs))
  | [], _ :: _ | _ :: _, [] => isFalse nofun

end

instance : DecidableEq Value := decEq

inductive Kind where
  | number
  | text
  | bool
  | list
  | empty
  deriving DecidableEq, Repr

def Kind.name : Kind → String
  | .number => "number"
  | .text => "string"
  | .bool => "bool"
  | .list => "list"
  | .empty => "empty"

def kind : Value → Kind
  | number _ => .number
  | text _ => .text
  | bool _ => .bool
  | list _ => .list
  | empty => .empty

def isScalar : Value → Bool
  | number _ | text _ | bool _ => true
  | list _ | empty => false

def number? : Value → Option Float
  | number x => some x
  | _ => none

mutual

/-- The text of a value: a text stands for itself, the entries of a list are separated by commas
whatever their depth, and the empty value is written as nothing. -/
def display : Value → String
  | number x => showNumber x
  | text s => s
  | bool b => if b then "true" else "false"
  | list vs => ",".intercalate (displayAll vs)
  | empty => ""

def displayAll : List Value → List String
  | [] => []
  | v :: vs => display v :: displayAll vs

end

end Value

end Formula
