import Formula.Error

/-!
# Rewriting rules

A formula is evaluated by rewriting its tokens. A rule names the kinds of the tokens that it
rewrites, and an action that tells what replaces them. `Rule.table` lists the rules in the order in
which they are tried: an earlier rule is used wherever it applies before a later one is used at
all, and this alone gives the operators their precedence.
-/

namespace Formula

/-- One place of a pattern. -/
inductive Slot where
  | kind (k : Token.Kind)
  | literal
  deriving DecidableEq, Repr

def Slot.accepts : Slot → Token.Kind → Bool
  | kind expected, k => k = expected
  | literal, k => k = .number || k = .text || k = .bool

/-- What replaces a window: tokens, the result of a call, or the value of a variable. -/
inductive Replacement where
  | tokens (ts : List Token)
  | result (name : String) (args : List Value)
  | binding (name : String)
  deriving DecidableEq, Repr

/-- How a rule rewrites the tokens that it matches. -/
inductive Action where
  | wrapArgument
  | multiply
  | unwrap
  | operate
  | pair
  | append
  | concatenate
  | wrapNothing
  | call
  | substitute
  deriving DecidableEq, Repr

namespace Action

def numberOf : Token → Except Misfit Float
  | .number x => .ok x
  | t => .error (.wrongToken .number t)

def operatorOf : Token → Except Misfit Operator
  | .operator o => .ok o
  | t => .error (.wrongToken .operator t)

def argumentsOf : Token → Except Misfit (List Value)
  | .args vs => .ok vs
  | t => .error (.wrongToken .arguments t)

def nameOf : Token → Except Misfit String
  | .name s => .ok s
  | t => .error (.wrongToken .name t)

def literalOf (t : Token) : Except Misfit Value :=
  match t.scalar? with
  | some v => .ok v
  | none => .error (.notLiteral t.kind)

/-! Each action rewrites a fixed number of tokens. -/

def takeOne {α : Type} (ts : List Token) (f : Token → Except Misfit α) : Except Misfit α :=
  match ts with
  | [a] => f a
  | _ => .error (.wrongCount 1 ts.length)

def takeThree {α : Type} (ts : List Token) (f : Token → Token → Token → Except Misfit α) :
    Except Misfit α :=
  match ts with
  | [a, b, c] => f a b c
  | _ => .error (.wrongCount 3 ts.length)

def takeFour {α : Type} (ts : List Token) (f : Token → Token → Token → Token → Except Misfit α) :
    Except Misfit α :=
  match ts with
  | [a, b, c, d] => f a b c d
  | _ => .error (.wrongCount 4 ts.length)

/-- What replaces the given tokens. They are checked here once more and from scratch, so an action
can be applied to any tokens. -/
def replacement (action : Action) (ts : List Token) : Except Misfit Replacement :=
  match action with
  | wrapArgument => takeFour ts fun callee opening argument closing => do
    let v ← literalOf argument
    return .tokens [callee, opening, .args [v], closing]
  | multiply => takeFour ts fun left _ right _ => do
    let x ← numberOf left
    let y ← numberOf right
    return .tokens [.number (Operator.mul.apply x y)]
  | unwrap => takeThree ts fun _ inner _ => return .tokens [inner]
  | operate => takeThree ts fun left sign right => do
    let o ← operatorOf sign
    let x ← numberOf left
    let y ← numberOf right
    return .tokens [.number (o.apply x y)]
  | pair => takeThree ts fun left _ right => do
    let v ← literalOf left
    let w ← literalOf right
    return .tokens [.args [v, w]]
  | append => takeThree ts fun left _ right => do
    let vs ← argumentsOf left
    let w ← literalOf right
    return .tokens [.args (vs ++ [w])]
  | concatenate => takeThree ts fun left _ right => do
    let vs ← argumentsOf left
    let ws ← argumentsOf right
    return .tokens [.args (vs ++ ws)]
  | wrapNothing => takeThree ts fun callee opening closing =>
    return .tokens [callee, opening, .args [], closing]
  | call => takeFour ts fun callee _ arguments _ => do
    let name ← nameOf callee
    let vs ← argumentsOf arguments
    return .result name vs
  | substitute => takeOne ts fun t => do
    let name ← nameOf t
    return .binding name

end Action

structure Rule where
  name : String
  pattern : List Slot
  /-- No window matches if a token of this kind comes right after it. -/
  notBefore : Option Token.Kind
  action : Action
  deriving DecidableEq, Repr

namespace Rule

/-- A rule for one operator between two numbers. -/
def arithmetic (name : String) (o : Operator) : Rule where
  name := name
  pattern := [.kind .number, .kind (.operator o), .kind .number]
  notBefore := none
  action := .operate

/-- The rule for an operator. -/
def ofOperator : Operator → Rule
  | .add => arithmetic "addition" .add
  | .sub => arithmetic "subtraction" .sub
  | .mul => arithmetic "multiplication" .mul
  | .div => arithmetic "division" .div
  | .rem => arithmetic "remainder" .rem
  | .pow => arithmetic "exponentiation" .pow

def singleArgument : Rule where
  name := "single argument"
  pattern := [.kind .name, .kind .openParen, .literal, .kind .closeParen]
  notBefore := none
  action := .wrapArgument

def implicitMultiplication : Rule where
  name := "implicit multiplication"
  pattern := [.kind .number, .kind .openParen, .kind .number, .kind .closeParen]
  notBefore := none
  action := .multiply

def redundantParentheses : Rule where
  name := "redundant parentheses"
  pattern := [.kind .openParen, .kind .number, .kind .closeParen]
  notBefore := none
  action := .unwrap

def argumentPair : Rule where
  name := "argument pair"
  pattern := [.literal, .kind .comma, .literal]
  notBefore := none
  action := .pair

def appendArgument : Rule where
  name := "append argument"
  pattern := [.kind .args, .kind .comma, .literal]
  notBefore := none
  action := .append

def concatenateArguments : Rule where
  name := "concatenate arguments"
  pattern := [.kind .args, .kind .comma, .kind .args]
  notBefore := none
  action := .concatenate

def noArguments : Rule where
  name := "no arguments"
  pattern := [.kind .name, .kind .openParen, .kind .closeParen]
  notBefore := none
  action := .wrapNothing

def call : Rule where
  name := "call"
  pattern := [.kind .name, .kind .openParen, .kind .args, .kind .closeParen]
  notBefore := none
  action := .call

def substitution : Rule where
  name := "variable"
  pattern := [.kind .name]
  notBefore := some .openParen
  action := .substitute

/-- The rules, first those that are tried first. -/
def table : List Rule :=
  [singleArgument, implicitMultiplication, redundantParentheses,
    ofOperator .pow, ofOperator .div, ofOperator .mul, ofOperator .rem, ofOperator .add,
    ofOperator .sub,
    argumentPair, appendArgument, concatenateArguments, noArguments, call, substitution]

def ofName? (name : String) : Option Rule := table.find? fun r => r.name = name

/-- Splits off the front the tokens that a pattern accepts one by one. -/
def matchSlots : List Slot → List Token → Option (List Token × List Token)
  | [], ts => some ([], ts)
  | _ :: _, [] => none
  | slot :: slots, t :: ts =>
    if slot.accepts t.kind then
      (matchSlots slots ts).map fun (window, rest) => (t :: window, rest)
    else none

/-- Whether what comes after a window keeps the rule from matching it. -/
def blockedBy (r : Rule) (rest : List Token) : Bool :=
  match r.notBefore, rest with
  | some k, t :: _ => t.kind = k
  | _, _ => false

/-- The window of the rule at the front of the tokens, and the tokens after it. -/
def window? (r : Rule) (ts : List Token) : Option (List Token × List Token) :=
  match matchSlots r.pattern ts with
  | some (window, rest) => if r.blockedBy rest then none else some (window, rest)
  | none => none

end Rule

end Formula
