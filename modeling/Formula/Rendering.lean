import Formula.Json.Quoted
import Formula.Token

/-!
# Rendering

Tokens written back as the text of a formula: operators between blanks, the power sign excepted,
and texts in quotes.
-/

namespace Formula

/-- The text of an argument that has been evaluated. Only a text that stands by itself is quoted,
and not one inside a list. -/
def Value.render : Value → String
  | .text s => Json.quote s
  | v => v.display

def Token.render : Token → String
  | .text s => Json.quote s
  | .operator .pow => "^"
  | .operator o => " " ++ o.symbol.toString ++ " "
  | .comma => ", "
  | .args vs => "[" ++ ", ".intercalate (vs.map Value.render) ++ "]"
  | t => t.display

/-- The text of a formula with the given tokens. -/
def render (ts : List Token) : String := String.join (ts.map Token.render)

end Formula
