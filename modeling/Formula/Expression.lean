import Formula.Lexeme
import Formula.Reduction

/-!
# Expressions

A formula that has been read: its tokens, and the names that occur in it. It can be evaluated any
number of times, with other variables and functions each time.
-/

namespace Formula

/-- The name that a token carries. -/
def Token.name? : Token → Option String
  | .name s => some s
  | _ => none

structure Expression where
  tokens : List Token
  /-- Every name once, in the order of first occurrence. The names of called functions are among
  them. -/
  names : List String
  deriving DecidableEq, Repr

namespace Expression

def ofTokens (tokens : List Token) : Expression where
  tokens := tokens
  names := (tokens.filterMap Token.name?).eraseDups

def parse (text : String) : Except ParseError Expression := (lex text.toList).map ofTokens

def run {σ : Type} (e : Expression) (host : Host σ) (state : σ) : Run σ :=
  Formula.run host state e.tokens

end Expression

/-- Reads a text and evaluates it. A text that is no formula leaves the host's state alone. -/
def evaluate {σ : Type} (host : Host σ) (state : σ) (text : String) : Except Error Value × σ :=
  match Expression.parse text with
  | .error e => (.error (.parse e), state)
  | .ok expression =>
    let run := expression.run host state
    (run.outcome.mapError .eval, run.state)

end Formula
