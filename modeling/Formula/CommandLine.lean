import Formula.Session
import Formula.Stored.Writer

/-!
# The command line

A command evaluates one formula, or starts a session that reads its lines from the input. Options
bind variables and ask for the tokens of the formula instead of its value. `execute` is the whole
program as a function of its arguments and its input.
-/

namespace Formula.CommandLine

/-! ## Bindings -/

/-- Why an argument is no binding. -/
inductive BindingError where
  | noEqualsSign (text : String)
  | badName (name : String)
  deriving DecidableEq, Repr

def BindingError.message : BindingError → String
  | noEqualsSign text => "expected NAME=VALUE, got '" ++ text ++ "'"
  | badName name => "'" ++ name ++ "' is not a valid variable name"

/-- A truth value or a number where the text can be read as one, and otherwise the text. -/
def readBound (text : String) : Value :=
  if text = "true" then .bool true
  else if text = "false" then .bool false
  else
    match readNumber? text with
    | some x => .number x
    | none => .text text

/-- Splits at the first equals sign. -/
def splitAtEquals? (cs : List Char) : Option (List Char × List Char) :=
  match cs.dropWhile (· ≠ '=') with
  | [] => none
  | _ :: value => some (cs.takeWhile (· ≠ '='), value)

/-- A binding in the form `NAME=VALUE`, whose name is a run of letters. -/
def readBinding (text : String) : Except BindingError (String × Value) :=
  match splitAtEquals? text.toList with
  | none => .error (.noEqualsSign text)
  | some (name, value) =>
    if name.isEmpty || !name.all Lexeme.isLetter then .error (.badName (String.ofList name))
    else .ok (String.ofList name, readBound (String.ofList value))

/-! ## Requests -/

/-- What a single option or argument asks for. An option for a binding may stand without one. -/
inductive Request where
  | expression (text : String)
  | binding (text? : Option String)
  | tokens
  | verbose
  | quiet
  deriving DecidableEq, Repr

/-- Why arguments are refused. -/
inductive UsageError where
  | unexpected (argument : String)
  | unexpectedValue (value option : String)
  | missingBinding
  | badBinding (argument : String) (e : BindingError)
  | repeatedTokens
  | conflict (option other : String)
  deriving DecidableEq, Repr

def UsageError.message : UsageError → String
  | unexpected argument =>
    "Found argument '" ++ argument ++ "' which wasn't expected, or isn't valid in this context"
  | unexpectedValue value option =>
    "The value '" ++ value ++ "' was provided to '" ++ option
      ++ "' but it wasn't expecting any more values"
  | missingBinding => "The argument '--var <NAME=VALUE>' requires a value but none was supplied"
  | badBinding argument e =>
    "Invalid value " ++ Text.visible argument ++ " for '--var <NAME=VALUE>': " ++ e.message
  | repeatedTokens =>
    "The argument '--tokens' was provided more than once, but cannot be used multiple times"
  | conflict option other => "The argument '" ++ option ++ "' cannot be used with '" ++ other ++ "'"

namespace Request

/-- Whether an argument begins with a dash and is therefore no expression and no binding. -/
def isOption (argument : String) : Bool :=
  match argument.toList with
  | '-' :: _ :: _ => true
  | _ => false

/-- The requests of the letters of a short option, and whether the next argument may be a binding
that the last letter asks for. The text of a binding may also follow its letter at once. -/
def readLetters : List Char → Except UsageError (List Request × Bool)
  | [] => .ok ([], false)
  | 'D' :: [] => .ok ([], true)
  | 'D' :: '=' :: text => .ok ([.binding (some (String.ofList text))], false)
  | 'D' :: text => .ok ([.binding (some (String.ofList text))], false)
  | 'v' :: letters =>
    (readLetters letters).map fun (requests, waits) => (verbose :: requests, waits)
  | 'q' :: letters =>
    (readLetters letters).map fun (requests, waits) => (quiet :: requests, waits)
  | c :: _ => .error (.unexpected (String.ofList ['-', c]))

/-- The same for an option with two dashes, without the dashes. -/
def readWord (cs : List Char) : Except UsageError (List Request × Bool) :=
  let (word, value?) := match splitAtEquals? cs with
    | some (word, value) => (String.ofList word, some (String.ofList value))
    | none => (String.ofList cs, none)
  match word, value? with
  | "var", some value => .ok ([.binding (some value)], false)
  | "var", none => .ok ([], true)
  | "tokens", none => .ok ([tokens], false)
  | "verbose", none => .ok ([verbose], false)
  | "quiet", none => .ok ([quiet], false)
  | "tokens", some value | "verbose", some value | "quiet", some value =>
    .error (.unexpectedValue value ("--" ++ word))
  | _, _ => .error (.unexpected ("--" ++ word))

/-- The same for any option. -/
def readOption (argument : String) : Except UsageError (List Request × Bool) :=
  match argument.toList with
  | '-' :: '-' :: word => readWord word
  | _ :: letters => readLetters letters
  | [] => .ok ([], false)

/-- Everything after a double dash is an expression, of which there is one at most. -/
def readPlain (hasExpression : Bool) : List String → Except UsageError (List Request)
  | [] => .ok []
  | text :: rest =>
    if hasExpression then .error (.unexpected text)
    else (readPlain true rest).map (expression text :: ·)

/-- The request of an option for a binding that was waiting for one in vain. -/
def unanswered (waits : Bool) : List Request := if waits then [.binding none] else []

/-- The requests of arguments in their order. If an option waits for a binding, the first argument
is taken for it, unless this is an option. -/
def readFrom (waits hasExpression : Bool) : List String → Except UsageError (List Request)
  | [] => .ok (unanswered waits)
  | argument :: rest =>
    if argument = "--" then (readPlain hasExpression rest).map (unanswered waits ++ ·)
    else if isOption argument then
      match readOption argument with
      | .error e => .error e
      | .ok (requests, waitsNow) =>
        (readFrom waitsNow hasExpression rest).map (unanswered waits ++ requests ++ ·)
    else if waits then (readFrom false hasExpression rest).map (.binding (some argument) :: ·)
    else if hasExpression then .error (.unexpected argument)
    else (readFrom false true rest).map (expression argument :: ·)

def read (arguments : List String) : Except UsageError (List Request) :=
  readFrom false false arguments

end Request

/-! ## Arguments -/

/-- What the arguments ask for together. -/
structure Arguments where
  expression? : Option String
  bindings : Bindings
  tokens : Bool

namespace Arguments

def expressionOf? : Request → Option String
  | .expression text => some text
  | _ => none

def bindingOf? : Request → Option String
  | .binding text? => text?
  | _ => none

/-- The bindings in their order, of which the first bad one is reported. -/
def readBindings : List String → Except UsageError (List (String × Value))
  | [] => .ok []
  | text :: rest =>
    match readBinding text with
    | .error e => .error (.badBinding text e)
    | .ok binding => (readBindings rest).map (binding :: ·)

/-- An option at the very end that waits for a binding, if there is no binding at all. -/
def danglingError? (requests : List Request) : Option UsageError :=
  if requests.getLast? = some (.binding none) && (requests.filterMap bindingOf?).isEmpty then
    some .missingBinding
  else none

/-- The program cannot be verbose and quiet at once. The option that came first is named first. -/
def conflict? (requests : List Request) : Option UsageError :=
  match (requests.filter fun r => r = .verbose || r = .quiet).eraseDups with
  | [.verbose, .quiet] => some (.conflict "--verbose" "--quiet")
  | [.quiet, .verbose] => some (.conflict "--quiet" "--verbose")
  | _ => none

/-- What is wrong with all uses of an option together, told at one of them. An option without a
binding is ignored as long as another one has a binding. -/
def useError? (requests : List Request) : Request → Option UsageError
  | .binding _ =>
    let texts := requests.filterMap bindingOf?
    if texts.isEmpty then some .missingBinding
    else
      match readBindings texts with
      | .error e => some e
      | .ok _ => none
  | .tokens => if 1 < requests.count .tokens then some .repeatedTokens else none
  | _ => none

/-- The first thing that is wrong with requests: a conflict comes before what is wrong with a single
option, and options come in the order in which they were used first. -/
def error? (requests : List Request) : Option UsageError :=
  (danglingError? requests).or ((conflict? requests).or (requests.findSome? (useError? requests)))

/-- Of two bindings of a name the later one counts. -/
def ofRequests (requests : List Request) : Except UsageError Arguments :=
  match error? requests with
  | some e => .error e
  | none =>
    (readBindings (requests.filterMap bindingOf?)).map fun bindings =>
      { expression? := requests.findSome? expressionOf?
        bindings := Bindings.ofList bindings
        tokens := requests.contains .tokens }

def read (arguments : List String) : Except UsageError Arguments :=
  match Request.read arguments with
  | .error e => .error e
  | .ok requests => ofRequests requests

end Arguments

/-! ## Results -/

structure Result where
  exitCode : UInt8
  stdout : String
  stderr : String
  deriving DecidableEq, Repr

/-- The first line of a text. -/
def firstLine (text : String) : String :=
  String.ofList (text.toList.takeWhile (· ≠ '\n'))

/-- Arguments that cannot be understood end the program before it has done anything. -/
def refuse (e : UsageError) : Result where
  exitCode := 2
  stdout := ""
  stderr := firstLine ("error: " ++ e.message)

/-- The causes of a failure, numbered if there are several. -/
def listCauses : List String → List String
  | [cause] => ["    " ++ cause]
  | causes => causes.zipIdx.map fun (cause, i) => "    " ++ toString i ++ ": " ++ cause

/-- A failure with what led to it. -/
def fail (headline : String) (causes : List String) : Result where
  exitCode := 1
  stdout := ""
  stderr :=
    "Error: " ++ headline ++ "\n\nCaused by:\n"
      ++ "\n".intercalate (listCauses causes) ++ "\n"

def succeed (output : String) : Result where
  exitCode := 0
  stdout := output ++ "\n"
  stderr := ""

/-- Evaluates one expression, or shows its tokens. -/
def evaluateOnce (bindings : Bindings) (tokens : Bool) (text : String) : Result :=
  match Expression.parse text with
  | .error e => fail ("could not parse '" ++ text ++ "'") [e.message]
  | .ok expression =>
    if tokens then succeed (String.ofList (expression.toJson.indented 0))
    else
      match (expression.run { bindings, functions := Functions.none } ()).outcome with
      | .ok v => succeed v.display
      | .error e => fail ("could not evaluate '" ++ text ++ "'") e.chain

/-! ## Dialogue -/

/-- The lines of a text. A line feed ends a line and does not begin another. -/
def lines (text : String) : List String :=
  let pieces := text.splitOn "\n"
  if pieces.getLast? = some "" then pieces.dropLast else pieces

/-- The output and the errors of a session that is given lines until they or it come to an end. -/
def converse (s : Session) : List String → String × String
  | [] => (Session.prompt, "")
  | line :: rest =>
    let (reply, s) := s.respond line
    let (output, errors) := Session.write reply
    if s.finished then (Session.prompt ++ output, errors)
    else
      let (laterOutput, laterErrors) := converse s rest
      (Session.prompt ++ output ++ laterOutput, errors ++ laterErrors)

/-- The whole program. -/
def execute (arguments : List String) (input : String) : Result :=
  match Arguments.read arguments with
  | .error e => refuse e
  | .ok a =>
    match a.expression? with
    | some text => evaluateOnce a.bindings a.tokens text
    | none =>
      let (stdout, stderr) := converse (Session.start a.bindings) (lines input)
      { exitCode := 0, stdout, stderr }

end Formula.CommandLine
