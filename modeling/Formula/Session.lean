import Formula.Expression
import Formula.Text.Blank

/-!
# Sessions

A session evaluates one line after another. Its variables are those that earlier lines have defined,
by calling functions that change the session itself. A line reads the variables as they were before
it, so what it defines can be used from the next line on.
-/

namespace Formula

structure Session where
  bindings : Bindings
  finished : Bool

namespace Session

def start (bindings : Bindings) : Session where
  bindings := bindings
  finished := false

/-- Binds a variable to a value. -/
def define : Function Session
  | [.text name, v], s => (.ok (.bool true), { s with bindings := s.bindings.insert name v })
  | _, s => (.error "usage: define(\"name\", value)", s)

/-- Removes a variable. It need not be bound. -/
def delete : Function Session
  | [.text name], s => (.ok (.bool true), { s with bindings := s.bindings.erase name })
  | _, s => (.error "usage: delete(\"name\")", s)

/-- Ends the session after the line. -/
def exit : Function Session
  | _, s => (.ok (.bool true), { s with finished := true })

/-- The functions that a line can call in addition to the standard ones. -/
def functions : Functions Session
  | "define" => some define
  | "delete" => some delete
  | "exit" => some exit
  | _ => none

/-- Evaluates a line. What its calls have changed stays changed also when the line fails. -/
def evaluate (s : Session) (line : String) : Except Error Value × Session :=
  Formula.evaluate { bindings := s.bindings, functions } s line

/-! ## Dialogue -/

/-- What a session writes before it reads a line. -/
def prompt : String := "fxn> "

/-- The answer to a line: its value, or why it has none. -/
inductive Reply where
  | value (v : Value)
  | error (e : Error)
  deriving Repr

/-- Answers a line. Blanks around it do not count, and a blank line has no answer. -/
def respond (s : Session) (line : String) : Option Reply × Session :=
  let text := Text.trim line.toList
  if text.isEmpty then (none, s)
  else
    match s.evaluate (String.ofList text) with
    | (.ok v, s) => (some (.value v), s)
    | (.error e, s) => (some (.error e), s)

/-- How an answer is written: a value to the output, and an error beside it. -/
def write : Option Reply → String × String
  | none => ("", "")
  | some (.value v) => (v.display ++ "\n", "")
  | some (.error e) => ("", "error: " ++ e.summary ++ "\n")

end Session

end Formula
