import Formula.CommandLine

namespace Formula.CommandLine

/-- Answers the lines of the input one by one, each before the next is read. -/
partial def converseLive (input output errors : IO.FS.Stream) (s : Session) : IO Unit := do
  output.putStr Session.prompt
  output.flush
  let line ← input.getLine
  if line.isEmpty then return
  let (reply, s) := s.respond line
  let (text, report) := Session.write reply
  output.putStr text
  errors.putStr report
  unless s.finished do converseLive input output errors s

/-- Shows a result that is known as a whole. -/
def Result.show (result : Result) : IO UInt32 := do
  IO.print result.stdout
  IO.eprint result.stderr
  return result.exitCode.toUInt32

end Formula.CommandLine

open Formula CommandLine in
def main (arguments : List String) : IO UInt32 := do
  match Arguments.read arguments with
  | .error e => (refuse e).show
  | .ok a =>
    match a.expression? with
    | some text => (evaluateOnce a.bindings a.tokens text).show
    | none =>
      converseLive (← IO.getStdin) (← IO.getStdout) (← IO.getStderr) (Session.start a.bindings)
      return 0
