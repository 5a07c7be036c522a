import Formula.Operator
import Formula.Text.Visible
import Formula.Value

/-!
# Tokens

The parts of a formula. `Token.args` is never read from the text of a formula: it holds the
arguments of a call that have been evaluated so far.
-/

namespace Formula

inductive Token where
  | number (x : Float)
  | text (s : String)
  | bool (b : Bool)
  | name (s : String)
  | operator (o : Operator)
  | openParen
  | closeParen
  | comma
  | args (vs : List Value)
  deriving DecidableEq, Repr, Inhabited

namespace Token

inductive Kind where
  | number
  | text
  | bool
  | name
  | operator (o : Operator)
  | openParen
  | closeParen
  | comma
  | args
  deriving DecidableEq, Repr

namespace Kind

/-- Every kind, in the order in which they are listed to a user. -/
def all : List Kind :=
  [number, text, bool, name] ++ Operator.all.map operator ++ [openParen, closeParen, comma, args]

/-- The word that stands for a kind in stored formulas and in messages. -/
def word : Kind → String
  | number => "number"
  | text => "string"
  | bool => "bool"
  | name => "ident"
  | operator o => o.name
  | openParen => "paren_open"
  | closeParen => "paren_close"
  | comma => "comma"
  | args => "params"

def ofWord? (s : String) : Option Kind := all.find? fun k => k.word = s

end Kind

def kind : Token → Kind
  | number _ => .number
  | text _ => .text
  | bool _ => .bool
  | name _ => .name
  | operator o => .operator o
  | openParen => .openParen
  | closeParen => .closeParen
  | comma => .comma
  | args _ => .args

@[simp] theorem kind_number (x : Float) : (number x).kind = .number := rfl

@[simp] theorem kind_text (s : String) : (text s).kind = .text := rfl

@[simp] theorem kind_bool (b : Bool) : (bool b).kind = .bool := rfl

@[simp] theorem kind_name (s : String) : (name s).kind = .name := rfl

@[simp] theorem kind_operator (o : Operator) : (operator o).kind = .operator o := rfl

@[simp] theorem kind_openParen : openParen.kind = .openParen := rfl

@[simp] theorem kind_closeParen : closeParen.kind = .closeParen := rfl

@[simp] theorem kind_comma : comma.kind = .comma := rfl

@[simp] theorem kind_args (vs : List Value) : (args vs).kind = .args := rfl

/-- The literal token of a scalar. -/
def ofScalar? : Value → Option Token
  | .number x => some (number x)
  | .text s => some (text s)
  | .bool b => some (bool b)
  | .list _ | .empty => none

/-- The scalar that a literal token stands for. -/
def scalar? : Token → Option Value
  | number x => some (.number x)
  | text s => some (.text s)
  | bool b => some (.bool b)
  | _ => none

theorem scalar?_eq_some_iff {t : Token} {v : Value} :
    t.scalar? = some v ↔ ofScalar? v = some t := by
  cases t <;> cases v <;> simp [scalar?, ofScalar?, eq_comm]

theorem isScalar_of_ofScalar? {v : Value} {t : Token} (h : ofScalar? v = some t) :
    v.isScalar = true := by
  cases v <;> simp_all [ofScalar?, Value.isScalar]

/-- A token in a form in which every character can be seen. -/
def display : Token → String
  | number x => showNumber x
  | text s => Text.visible s
  | bool b => if b then "true" else "false"
  | name s => s
  | operator o => o.symbol.toString
  | openParen => "("
  | closeParen => ")"
  | comma => ","
  | args vs => "[" ++ ", ".intercalate (vs.map Value.display) ++ "]"

/-- A token with its kind, for messages about tokens that are out of place. -/
def describe (t : Token) : String := t.kind.word ++ "(" ++ t.display ++ ")"

end Token

end Formula
