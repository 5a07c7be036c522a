import Formula.Error

/-!
# Functions

A function takes evaluated arguments. It may read and change a state that it shares with its host,
so a call also tells what it leaves of that state. The functions of the host come first and the
standard ones after them, so a host can replace a standard function.
-/

namespace Formula

/-- A function of a host with the state `σ`. It fails with a reason. -/
abbrev Function (σ : Type) := List Value → σ → Except String Value × σ

/-- A function that depends on its arguments only. -/
def Function.pure {σ : Type} (f : List Value → Except String Value) : Function σ :=
  fun args state => (f args, state)

/-- The functions of a host, by name. -/
abbrev Functions (σ : Type) := String → Option (Function σ)

namespace Functions

def none {σ : Type} : Functions σ := fun _ => .none

/-- Takes the second of three arguments if the first is true, and otherwise the third. -/
def choose : List Value → Except String Value
  | [.bool condition, whenTrue, whenFalse] => .ok (if condition then whenTrue else whenFalse)
  | [condition, _, _] => .error ("condition must be a bool, not a " ++ condition.kind.name)
  | args => .error ("expected 3 arguments, got " ++ toString args.length)

/-- The texts of all arguments, one after another. -/
def join (args : List Value) : Except String Value :=
  .ok (.text (String.join (args.map Value.display)))

/-- The numbers among arguments that are all numbers. -/
def numbers : List Value → Except String (List Float)
  | [] => .ok []
  | v :: args =>
    match v.number? with
    | some x => (numbers args).map (x :: ·)
    | .none => .error ("expected a number, got a " ++ v.kind.name)

/-- The sum is taken from the left and starts at negative zero, which adding changes nothing. -/
def mean (args : List Value) : Except String Value :=
  if args.isEmpty then .error "cannot take the mean of no values"
  else (numbers args).map fun xs => .number (xs.foldl (· + ·) (-0.0) / Float.ofNat xs.length)

/-- The functions that every formula can call. -/
def standard? : String → Option (List Value → Except String Value)
  | "if" => some choose
  | "join" => some join
  | "mean" => some mean
  | _ => .none

/-- The function that a call of a name reaches. -/
def resolve? {σ : Type} (functions : Functions σ) (name : String) : Option (Function σ) :=
  match functions name with
  | some f => some f
  | .none => (standard? name).map Function.pure

/-- Calls a function by name. The result may be any value. -/
def call {σ : Type} (functions : Functions σ) (name : String) (args : List Value) (state : σ) :
    Except EvalError Value × σ :=
  match functions.resolve? name with
  | .none => (.error (.unknownFunction name), state)
  | some f =>
    match f args state with
    | (.ok v, state) => (.ok v, state)
    | (.error reason, state) => (.error (.functionFailed name reason), state)

end Functions

end Formula
