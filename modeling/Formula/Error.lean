import Formula.Json.Fault
import Formula.Text.Position
import Formula.Token

/-!
# Errors

Why a text is no formula, and why a formula has no value, with the message for each.
-/

namespace Formula

/-- What is wrong at some place of a text. -/
inductive ParseError.Cause where
  | unexpectedCharacter (c : Char)
  /-- A quoted text that cannot be decoded, and how far into it the decoder came. -/
  | invalidText (fault : Json.Fault) (position : Text.Position)
  deriving DecidableEq, Repr

/-- The offset is that of the character, or of the opening quote of the text, in bytes. -/
structure ParseError where
  offset : Nat
  cause : ParseError.Cause
  deriving DecidableEq, Repr

namespace ParseError

def Cause.message : Cause → String
  | unexpectedCharacter c => "unexpected '" ++ c.toString ++ "'"
  | invalidText fault position =>
    "invalid string literal: " ++ fault.message ++ " at line " ++ toString position.line
      ++ " column " ++ toString position.column

def message (e : ParseError) : String :=
  "Error at :" ++ toString e.offset ++ " (" ++ e.cause.message ++ ")"

/-- The same error in a text that has `count` more bytes in front. -/
def after (e : ParseError) (count : Nat) : ParseError := { e with offset := count + e.offset }

end ParseError

/-- What a rewriting rule needs a token to be. -/
inductive Role where
  | number
  | operator
  | arguments
  | name
  deriving DecidableEq, Repr

def Role.describe : Role → String
  | number => "a number"
  | operator => "an operator"
  | arguments => "params"
  | name => "an identifier"

/-- Why a rule cannot rewrite the tokens that it is given. -/
inductive Misfit where
  | wrongCount (expected found : Nat)
  | notLiteral (found : Token.Kind)
  | wrongToken (expected : Role) (found : Token)
  deriving DecidableEq, Repr

def Misfit.message : Misfit → String
  | wrongCount expected found =>
    "expected " ++ toString expected ++ " matched tokens, got " ++ toString found
  | notLiteral found => "expected a literal, got " ++ found.word
  | wrongToken expected found => "expected " ++ expected.describe ++ ", got " ++ found.describe

inductive EvalError where
  | unknownFunction (name : String)
  | functionFailed (name reason : String)
  /-- A function returned something else than a scalar. -/
  | badResult (name : String) (found : Value.Kind)
  /-- A variable is unbound, or bound to something else than a scalar. -/
  | badVariable (name : String) (found : Option Value.Kind)
  /-- Several tokens are left and no rule applies. -/
  | stuck
  /-- The one token that is left is no literal. -/
  | notScalar (kind : Token.Kind)
  | emptyFormula
  | internal (misfit : Misfit)
  deriving DecidableEq, Repr

namespace EvalError

def message : EvalError → String
  | unknownFunction name => "No function named " ++ name ++ " exists."
  | functionFailed name reason => "Function '" ++ name ++ "' failed: " ++ reason
  | badResult name found => "Bad return type " ++ found.name ++ " from function '" ++ name ++ "'"
  | badVariable name found =>
    "Unexpected " ++ (found.elim "undefined" Value.Kind.name) ++ " type for variable '" ++ name
      ++ "'"
  | stuck => "Invalid expression"
  | notScalar kind => "Invalid expression, unresolved " ++ kind.word ++ " token"
  | emptyFormula => "Empty expression"
  | internal misfit => "Internal error: " ++ misfit.message

/-- The message and, below it, the message of what caused the error. -/
def chain : EvalError → List String
  | functionFailed name reason => [message (functionFailed name reason), reason]
  | e => [message e]

end EvalError

/-- Why the evaluation of a text fails. -/
inductive Error where
  | parse (e : ParseError)
  | eval (e : EvalError)
  deriving DecidableEq, Repr

namespace Error

def chain : Error → List String
  | parse e => [e.message]
  | eval e => e.chain

/-- The whole chain on one line. -/
def summary (e : Error) : String := ": ".intercalate e.chain

end Error

end Formula
