import Formula.Proofs.Agreement

/-! # What a line of a session does

A line reads the variables as they were before it, so it does not see what its own calls change. Its
outcome is that of the same line with functions in the place of `define`, `delete` and `exit` that
give the same answers and change nothing (`Session.call_eq`). The calls are the same then, and what
they change can be done afterwards, one after another. -/

namespace Formula

/-! ## Calls that are answered alike -/

section

variable {σ τ : Type} {host : Host σ} {host' : Host τ} {state : σ} {state' : τ} {ts : List Token}

/-- Runs that take the same steps make the same calls. -/
theorem Run.Alike.calls_eq (h : (run host state ts).Alike (run host' state' ts)) :
    calls host state ts = calls host' state' ts := by
  rw [calls, calls, requests, requests, programs, programs, h.2]

/-- A function can be replaced by one that gives the same answers and has no state. -/
theorem Functions.call_of_pure {functions : Functions σ} {functions' : Functions τ} {name : String}
    {f : Function σ} {g : List Value → Except String Value} {args : List Value} {state later : σ}
    (h : functions name = some f) (h' : functions' name = some (Function.pure g))
    (hf : f args state = (g args, later)) (state' : τ) :
    functions.call name args state = ((functions'.call name args state').1, later) := by
  rw [call, call, resolve?, resolve?, h, h']
  simp only [hf, Function.pure]
  cases g args <;> rfl

/-- The standard functions are there for every host, and they change none. -/
theorem Functions.call_of_standard {functions : Functions σ} {functions' : Functions τ}
    {name : String} (h : functions name = .none) (h' : functions' name = .none)
    (args : List Value) (state : σ) (state' : τ) :
    functions.call name args state = ((functions'.call name args state').1, state) := by
  rw [call, call, resolve?, resolve?, h, h']
  cases standard? name with
  | none => rfl
  | some f =>
    simp only [Option.map_some, Function.pure]
    cases f args <;> rfl

end

namespace Session

/-! ## Functions that only answer -/

/-- The answer of `define`. -/
def definition : List Value → Except String Value
  | [.text _, _] => .ok (.bool true)
  | _ => .error "usage: define(\"name\", value)"

/-- The answer of `delete`. -/
def deletion : List Value → Except String Value
  | [.text _] => .ok (.bool true)
  | _ => .error "usage: delete(\"name\")"

/-- What a line can call in the place of the functions of a session. -/
def answers : Functions Unit
  | "define" => some (Function.pure definition)
  | "delete" => some (Function.pure deletion)
  | "exit" => some (Function.pure fun _ => .ok (.bool true))
  | _ => none

/-- A session that no line changes. -/
def stateless (s : Session) : Host Unit where
  bindings := s.bindings
  functions := answers

/-- The calls that a line makes, with their arguments and in their order. -/
def callsIn (s : Session) (line : String) : List (String × List Value) :=
  match Expression.parse line with
  | .error _ => []
  | .ok e => calls s.stateless () e.tokens

/-- Whether a call has a value. -/
def succeeds (call : String × List Value) : Bool := (answers.call call.1 call.2 ()).1.isOk

/-- What a call makes of the variables. -/
def change (bindings : Bindings) (call : String × List Value) : Bindings :=
  match call.1, call.2 with
  | "define", [.text name, v] => bindings.insert name v
  | "delete", [.text name] => bindings.erase name
  | _, _ => bindings

/-! ## One call -/

/-- What a call makes of a session. -/
def after (s : Session) (call : String × List Value) : Session where
  bindings := change s.bindings call
  finished := s.finished || call.1 == "exit"

/-- Only the three functions of a session change it, and two of them only with proper arguments. -/
theorem after_eq_self (s : Session) {f : String} {args : List Value}
    (hdefine : ∀ name v, f = "define" → args ≠ [.text name, v])
    (hdelete : ∀ name, f = "delete" → args ≠ [.text name]) (hexit : f ≠ "exit") :
    s.after (f, args) = s := by
  have hchange : change s.bindings (f, args) = s.bindings := by
    unfold change
    grind
  rw [after, hchange, beq_false_of_ne hexit, Bool.or_false]

theorem define_eq (args : List Value) (s : Session) :
    define args s = (definition args, s.after ("define", args)) := by
  unfold define
  split
  · simp [definition, after, change]
  · rename_i h
    rw [definition, after_eq_self s (fun name v _ => h name v) (by simp) (by simp)]
    exact h

theorem delete_eq (args : List Value) (s : Session) :
    delete args s = (deletion args, s.after ("delete", args)) := by
  unfold delete
  split
  · simp [deletion, after, change]
  · rename_i h
    rw [deletion, after_eq_self s (by simp) (fun name _ => h name) (by simp)]
    exact h

theorem exit_eq (args : List Value) (s : Session) :
    exit args s = (.ok (.bool true), s.after ("exit", args)) := by
  simp [exit, after, change]

/-- **A call in a session is answered as if nothing changed.** What it changes depends on its
arguments only. -/
theorem call_eq (s : Session) (f : String) (args : List Value) :
    functions.call f args s = ((answers.call f args ()).1, s.after (f, args)) := by
  by_cases hdefine : f = "define"
  · subst hdefine
    exact Functions.call_of_pure rfl rfl (define_eq args s) ()
  by_cases hdelete : f = "delete"
  · subst hdelete
    exact Functions.call_of_pure rfl rfl (delete_eq args s) ()
  by_cases hexit : f = "exit"
  · subst hexit
    exact Functions.call_of_pure rfl rfl (exit_eq args s) ()
  · have hnone : functions f = none := by
      unfold functions
      grind
    have hnone' : answers f = none := by
      unfold answers
      grind
    have hafter : s.after (f, args) = s :=
      s.after_eq_self (fun _ _ h => absurd h hdefine) (fun _ h => absurd h hdelete) hexit
    rw [Functions.call_of_standard hnone hnone' args s (), hafter]

/-- If a call has no value, it has not changed the session either. -/
theorem after_of_fails (s : Session) {call : String × List Value} (h : succeeds call = false) :
    s.after call = s := by
  obtain ⟨f, args⟩ := call
  refine s.after_eq_self ?_ ?_ ?_
  · rintro name v rfl rfl
    cases h
  · rintro name rfl rfl
    cases h
  · rintro rfl
    cases h

/-! ## All calls of a line -/

theorem bindings_foldl_after (s : Session) (calls : List (String × List Value)) :
    (calls.foldl after s).bindings = calls.foldl change s.bindings :=
  (List.foldl_hom bindings fun _ _ => rfl).symm

theorem finished_foldl_after (s : Session) (calls : List (String × List Value)) :
    (calls.foldl after s).finished = true
      ↔ s.finished = true ∨ ∃ args, ("exit", args) ∈ calls := by
  induction calls generalizing s with
  | nil => simp
  | cons call calls ih =>
    rw [List.foldl_cons, ih]
    simp [after]
    grind

/-- Calls that leave a session as it is can be left out. -/
theorem foldl_after_filter (s : Session) {p : String × List Value → Bool}
    {calls : List (String × List Value)}
    (h : ∀ call ∈ calls, p call = false → ∀ s : Session, s.after call = s) :
    (calls.filter p).foldl after s = calls.foldl after s := by
  induction calls generalizing s with
  | nil => rfl
  | cons call calls ih =>
    obtain ⟨hcall, hcalls⟩ := List.forall_mem_cons.mp h
    cases hp : p call with
    | true => rw [List.filter_cons_of_pos hp, List.foldl_cons, List.foldl_cons, ih _ hcalls]
    | false => rw [List.filter_cons_of_neg (by simp [hp]), List.foldl_cons, hcall hp, ih _ hcalls]

theorem agreeOn_stateless (s : Session) (ts : List Token) : s.asHost.AgreeOn s.stateless ts where
  lookup _ _ := rfl
  call f _ args state _ := by
    rw [show s.asHost.functions = functions from rfl, call_eq state f args]
    rfl

/-- **A line can be evaluated without the session**, and what its calls change done afterwards. -/
theorem evaluate_eq (s : Session) (line : String) :
    s.evaluate line
      = ((Formula.evaluate s.stateless () line).1, (s.callsIn line).foldl after s) := by
  cases hparse : Expression.parse line with
  | error e => simp only [evaluate, Formula.evaluate, callsIn, hparse, List.foldl_nil]
  | ok e =>
    simp only [evaluate, Formula.evaluate, callsIn, hparse]
    have halike : (run s.asHost s e.tokens).Alike (run s.stateless () e.tokens) :=
      (s.agreeOn_stateless e.tokens).alike s ()
    have hperform : s.asHost.perform = after := by
      funext state call
      exact congrArg Prod.snd (call_eq state call.1 call.2)
    have hstate := state_run s.asHost s e.tokens
    rw [hperform, halike.calls_eq] at hstate
    exact Prod.ext (congrArg (Except.mapError Error.eval) halike.1) hstate

/-- **A line of a session does not see its own effects.** Its outcome is that of the line as a formula
over the variables as they were before it, with functions that only answer, and the calls are those
of this evaluation. The variables are afterwards what the definitions and deletions that had a value
make of them, in their order and also if the line fails, and the session ends if there was a call of
`exit`. If there is no such call, or the line cannot be read, nothing changes. -/
theorem evaluate_eq_replay (s : Session) (line : String) :
    (s.evaluate line).1 = (Formula.evaluate s.stateless () line).1 ∧
    (∀ e, Expression.parse line = .ok e → calls s.asHost s e.tokens = s.callsIn line) ∧
    (s.evaluate line).2.bindings
      = ((s.callsIn line).filter succeeds).foldl change s.bindings ∧
    ((s.evaluate line).2.finished = true
      ↔ s.finished = true ∨ ∃ args, ("exit", args) ∈ s.callsIn line) ∧
    (∀ e, Expression.parse line = .error e → (s.evaluate line).2 = s) ∧
    ((∀ call ∈ s.callsIn line, succeeds call = true → call.1 ∉ ["define", "delete", "exit"]) →
      (s.evaluate line).2 = s) := by
  have heval := s.evaluate_eq line
  refine ⟨by rw [heval], ?_, ?_, ?_, ?_, ?_⟩
  · intro e hparse
    rw [callsIn, hparse]
    exact ((s.agreeOn_stateless e.tokens).alike s ()).calls_eq
  · rw [heval, ← bindings_foldl_after, foldl_after_filter]
    exact fun call _ hfails s => s.after_of_fails hfails
  · rw [heval]
    exact finished_foldl_after s _
  · intro e hparse
    rw [heval, callsIn, hparse, List.foldl_nil]
  · intro hcalls
    rw [heval, ← foldl_after_filter s (p := fun _ => false), List.filter_false, List.foldl_nil]
    rintro ⟨f, args⟩ hmem - s
    by_cases hf : f ∈ ["define", "delete", "exit"]
    · have hfails : succeeds (f, args) = false := by
        by_contra h
        exact hcalls _ hmem (by simpa using h) hf
      exact s.after_of_fails hfails
    · exact s.after_eq_self (by grind) (by grind) (by grind)

/-- The first line reads `x` and `y` after their changes as they were before it, and fails at the last
call. The second line makes no such call, and the third one cannot be read. -/
theorem evaluate_eq_replay_fails :
    ∃ (s : Session) (line : String) (reason : EvalError),
      s = ⟨Bindings.ofList [("x", .number 1), ("y", .text "b")], false⟩ ∧
      line = "join(define(\"x\", x + 1), delete(\"y\"), x, y, exit(), define(x))" ∧
      reason = .functionFailed "define" "usage: define(\"name\", value)" ∧
      (s.evaluate line).1 = .error (.eval reason) ∧
      (s.evaluate line).2.bindings.get? "x" = some (.number 2) ∧
      (s.evaluate line).2.bindings.get? "y" = none ∧
      (s.evaluate line).2.finished = true ∧
      (s.evaluate "mean(x, 3)").2 = s ∧
      (s.evaluate "x + #").2 = s := by
  refine ⟨_, _, _, rfl, rfl, rfl, ?_, ?_, ?_, ?_, ?_, ?_⟩
  · exact (evaluate_eq_replay _ _).1.trans (by decide +kernel)
  · rw [(evaluate_eq_replay _ _).2.2.1]
    decide +kernel
  · rw [(evaluate_eq_replay _ _).2.2.1]
    decide +kernel
  · exact (evaluate_eq_replay _ _).2.2.2.1.mpr (.inr ⟨[], by decide +kernel⟩)
  · exact (evaluate_eq_replay _ _).2.2.2.2.2 (by decide +kernel)
  · exact (evaluate_eq_replay _ _).2.2.2.2.1 ⟨4, .unexpectedCharacter '#'⟩ (by decide +kernel)

end Session

end Formula
