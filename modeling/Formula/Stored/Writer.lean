import Formula.Expression
import Formula.Json.Basic

/-!
# Storing formulas

The JSON form of values, tokens and expressions. A token is written with its kind and a payload,
which for signs is the character itself. JSON has no infinities and no NaN, so these are written as
null.
-/

namespace Formula

mutual

def Value.toJson : Value → Json
  | .number x => if x.isFinite then .number (.real x) else .null
  | .text s => .text s
  | .bool b => .bool b
  | .list vs => .array (Value.toJsonAll vs)
  | .empty => .null

def Value.toJsonAll : List Value → List Json
  | [] => []
  | v :: vs => v.toJson :: Value.toJsonAll vs

end

/-- The value that is written for a token, beside its kind. -/
def Token.payload : Token → Value
  | .number x => .number x
  | .text s | .name s => .text s
  | .bool b => .bool b
  | .operator o => .text o.symbol.toString
  | .openParen => .text "("
  | .closeParen => .text ")"
  | .comma => .text ","
  | .args vs => .list vs

def Token.Kind.toJson (k : Token.Kind) : Json := .text k.word

def Token.toJson (t : Token) : Json :=
  .object [("type", t.kind.toJson), ("value", t.payload.toJson)]

def Expression.toJson (e : Expression) : Json :=
  .object [("tokens", .array (e.tokens.map Token.toJson)), ("vars", .array (e.names.map .text))]

/-- The text in which a formula is stored. -/
def Expression.store (e : Expression) : String := String.ofList e.toJson.compact

end Formula
