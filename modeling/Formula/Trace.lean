import Formula.Expression
import Formula.Rendering

/-!
# Traces

What can be told about an evaluation while it goes on: the text read, each rewriting, and the
result.
-/

namespace Formula

/-- A rewriting, as the name of its rule and all tokens after it. -/
def Step.describe (s : Step) : String := s.rule.name ++ ": " ++ render s.program

/-- What was read from a text. -/
def Expression.describe (e : Expression) (text : String) : String :=
  "parsed " ++ toString e.tokens.length ++ " tokens and " ++ toString e.names.length
    ++ " variables from " ++ Text.visible text

/-- What a run over a number of tokens came to, if it came to a value. -/
def Run.describe? {σ : Type} (r : Run σ) (tokenCount : Nat) : Option String :=
  match r.outcome with
  | .ok v =>
    some ("reduced " ++ toString tokenCount ++ " tokens in " ++ toString r.steps.length
      ++ " steps to " ++ v.display)
  | .error _ => none

end Formula
