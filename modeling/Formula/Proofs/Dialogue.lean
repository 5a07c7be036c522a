import Formula.CommandLine
import Formula.Proofs.Ends
import Formula.Proofs.Replay
import Formula.Proofs.Scalars

/-! # Sessions keep to scalars

A variable of a session comes from an argument of the command line or from a call of `define`, which
gets scalars only. So a line leaves scalar variables as such, also one that fails after it has called
`define` (`Session.holdsScalars_evaluate`). The functions of a session return scalars too. What is
bound or returned is therefore never the wrong kind of value, whatever the lines are. -/

namespace Formula

variable {σ : Type} {host : Host σ} {state state' : σ} {ts : List Token} {e : EvalError}
  {b : Bindings} {v : Value} {name : String}

/-! ## Scalar variables -/

/-- All variables have scalar values. -/
def Bindings.HoldsScalars (b : Bindings) : Prop :=
  ∀ name v, b.get? name = some v → v.isScalar = true

namespace Bindings.HoldsScalars

theorem empty : Bindings.empty.HoldsScalars := by
  intro name v h
  cases h

theorem insert (h : b.HoldsScalars) (hv : v.isScalar = true) (bound : String) :
    (b.insert bound v).HoldsScalars := by
  intro name w hw
  rw [get?_insert] at hw
  split at hw
  · cases hw
    exact hv
  · exact h name w hw

theorem erase (h : b.HoldsScalars) (erased : String) : (b.erase erased).HoldsScalars := by
  intro name w hw
  rw [get?_erase] at hw
  split at hw
  · cases hw
  · exact h name w hw

theorem ofList {pairs : List (String × Value)} (h : ∀ pair ∈ pairs, pair.2.isScalar = true) :
    (Bindings.ofList pairs).HoldsScalars :=
  List.foldlRecOn pairs _ empty fun _ hb pair hpair => hb.insert (h pair hpair) pair.1

end Bindings.HoldsScalars

namespace CommandLine

theorem isScalar_readBound (text : String) : (readBound text).isScalar = true := by
  unfold readBound
  split
  · rfl
  · split
    · rfl
    · split <;> rfl

theorem isScalar_of_readBinding {text : String} {binding : String × Value}
    (h : readBinding text = .ok binding) : binding.2.isScalar = true := by
  unfold readBinding at h
  split at h
  · cases h
  · split at h
    · cases h
    · cases h
      exact isScalar_readBound _

theorem isScalar_of_readBindings {texts : List String} {bindings : List (String × Value)}
    (h : Arguments.readBindings texts = .ok bindings) :
    ∀ binding ∈ bindings, binding.2.isScalar = true := by
  induction texts generalizing bindings with
  | nil =>
    cases h
    simp
  | cons text texts ih =>
    unfold Arguments.readBindings at h
    split at h
    · cases h
    · rename_i binding hbinding
      obtain ⟨later, hlater, rfl⟩ := exists_of_map_eq_ok h
      exact List.forall_mem_cons.mpr ⟨isScalar_of_readBinding hbinding, ih hlater⟩

/-- The variables that are given on the command line are scalars. -/
theorem holdsScalars_of_read {arguments : List String} {a : Arguments}
    (h : Arguments.read arguments = .ok a) : a.bindings.HoldsScalars := by
  unfold Arguments.read at h
  split at h
  · cases h
  · unfold Arguments.ofRequests at h
    split at h
    · cases h
    · obtain ⟨bindings, hbindings, rfl⟩ := exists_of_map_eq_ok h
      exact .ofList (isScalar_of_readBindings hbindings)

end CommandLine

/-! ## Variables that are reported -/

/-- Only a value that is no scalar makes a bound variable a bad one. -/
theorem run_ne_badVariable (h : host.bindings.HoldsScalars) (x : String) (kind : Value.Kind) :
    (run host state ts).outcome ≠ .error (.badVariable x (some kind)) := by
  intro hrun
  have hhost : (EvalError.badVariable x (some kind)).ByHost := trivial
  obtain ⟨us, r, later, later', hfind, hnew⟩ := exists_rewrite_of_run_eq_error hhost hrun
  obtain ⟨replacement, -, hfails⟩ := Redex.exists_fails hfind hnew
  cases hfails with
  | badVariable x hv hscalar =>
    rw [h x _ hv] at hscalar
    cases hscalar

namespace Session

/-! ## One line -/

theorem isScalar_of_definition {vs : List Value} (h : definition vs = .ok v) :
    v.isScalar = true := by
  unfold definition at h
  split at h <;> cases h
  rfl

theorem isScalar_of_deletion {vs : List Value} (h : deletion vs = .ok v) : v.isScalar = true := by
  unfold deletion at h
  split at h <;> cases h
  rfl

theorem keepScalars_answers (f : String) : answers.KeepScalars f := by
  cases hf : answers f with
  | none => exact Functions.keepScalars_of_eq_none hf
  | some function =>
    refine Functions.keepScalars_of_eq_some hf ?_
    intro vs state v hv
    unfold answers at hf
    split at hf <;> cases hf
    · exact isScalar_of_definition hv
    · exact isScalar_of_deletion hv
    · cases hv
      rfl

/-- The calls that a line makes have scalar arguments. -/
theorem isScalar_of_mem_callsIn (s : Session) (line : String) :
    ∀ call ∈ s.callsIn line, ∀ v ∈ call.2, v.isScalar = true := by
  unfold callsIn
  split
  · simp
  · rename_i e hparse
    rintro ⟨f, vs⟩ hcall
    exact isScalar_of_mem_calls (Expression.Read.parsed hparse).holdsScalars hcall

theorem holdsScalars_change (h : b.HoldsScalars) {call : String × List Value}
    (hargs : ∀ v ∈ call.2, v.isScalar = true) : (change b call).HoldsScalars := by
  unfold change
  split
  · rename_i name v _ hcall
    exact h.insert (hargs v (by simp [hcall])) name
  · exact h.erase _
  · exact h

/-- **A line leaves scalar variables**, also if it fails. -/
theorem holdsScalars_evaluate {s : Session} (h : s.bindings.HoldsScalars) (line : String) :
    (s.evaluate line).2.bindings.HoldsScalars := by
  rw [evaluate_eq, bindings_foldl_after]
  exact List.foldlRecOn _ _ h fun _ hb call hcall =>
    holdsScalars_change hb (s.isScalar_of_mem_callsIn line call hcall)

theorem exists_run_of_evaluate_eq_error {s : Session} {line : String}
    (h : (s.evaluate line).1 = .error (.eval e)) :
    ∃ expression, Expression.parse line = .ok expression ∧
      (run s.stateless () expression.tokens).outcome = .error e := by
  rw [evaluate_eq] at h
  unfold Formula.evaluate at h
  split at h
  · cases h
  · rename_i expression hparse
    refine ⟨expression, hparse, ?_⟩
    dsimp only [Expression.run] at h
    cases houtcome : (run s.stateless () expression.tokens).outcome with
    | ok v =>
      rw [houtcome] at h
      cases h
    | error e' =>
      rw [houtcome] at h
      cases h
      rfl

theorem evaluate_ne_badResult (s : Session) (line f : String) (kind : Value.Kind) :
    (s.evaluate line).1 ≠ .error (.eval (.badResult f kind)) := by
  intro h
  obtain ⟨expression, hparse, hrun⟩ := exists_run_of_evaluate_eq_error h
  exact run_ne_badResult (Expression.Read.parsed hparse).holdsScalars
    (fun call _ => keepScalars_answers call.1) f kind hrun

theorem evaluate_ne_badVariable {s : Session} (hs : s.bindings.HoldsScalars) (line x : String)
    (kind : Value.Kind) : (s.evaluate line).1 ≠ .error (.eval (.badVariable x (some kind))) := by
  intro h
  obtain ⟨expression, -, hrun⟩ := exists_run_of_evaluate_eq_error h
  have hstateless : s.stateless.bindings.HoldsScalars := hs
  exact run_ne_badVariable hstateless x kind hrun

/-! ## All lines -/

/-- What lines come to, one after another, each with the session that it leaves. -/
def evaluateAll (s : Session) : List String → List (Except Error Value × Session)
  | [] => []
  | line :: lines => s.evaluate line :: (s.evaluate line).2.evaluateAll lines

/-- What is found at any line of a session with scalar variables holds at all of its lines. -/
theorem forall_mem_evaluateAll {P : Except Error Value × Session → Prop}
    (hline : ∀ s : Session, s.bindings.HoldsScalars → ∀ line, P (s.evaluate line)) {s : Session}
    (hs : s.bindings.HoldsScalars) (lines : List String) : ∀ answer ∈ s.evaluateAll lines, P answer := by
  induction lines generalizing s with
  | nil => simp [evaluateAll]
  | cons line lines ih =>
    exact List.forall_mem_cons.mpr ⟨hline s hs line, ih (holdsScalars_evaluate hs line)⟩

/-- **The variables of a session are scalars after each line**, and no line fails because a variable
or the result of a function is none. A session that is started with the variables of a command line
is one of this kind. -/
theorem holdsScalars_of_mem_evaluateAll :
    (∀ arguments a, CommandLine.Arguments.read arguments = .ok a →
      (start a.bindings).bindings.HoldsScalars) ∧
    ∀ s : Session, s.bindings.HoldsScalars → ∀ lines, ∀ answer ∈ s.evaluateAll lines,
      answer.2.bindings.HoldsScalars ∧
        (∀ f kind, answer.1 ≠ .error (.eval (.badResult f kind))) ∧
        ∀ x kind, answer.1 ≠ .error (.eval (.badVariable x (some kind))) := by
  refine ⟨fun arguments a h => CommandLine.holdsScalars_of_read h, ?_⟩
  intro s hs lines
  refine forall_mem_evaluateAll ?_ hs lines
  intro s hs line
  exact ⟨holdsScalars_evaluate hs line, s.evaluate_ne_badResult line,
    evaluate_ne_badVariable hs line⟩

/-- A line that fails after it has bound a text to a variable. The next ones read it in place of a
number. -/
theorem holdsScalars_of_mem_evaluateAll_fails :
    (∃ a, CommandLine.Arguments.read ["-Dx=2.5", "--var", "name=Ada"] = .ok a ∧
      (start a.bindings).bindings.HoldsScalars) ∧
    ∃ s lines, s = start (Bindings.ofList [("x", .number 2.5), ("name", .text "Ada")]) ∧
      lines = ["define(\"x\", name) + y", "x * 2", "mean(x)"] ∧
      s.bindings.HoldsScalars ∧
      ((s.evaluateAll lines).map fun answer => (answer.1, answer.2.bindings.get? "x"))
        = [(.error (.eval (.badVariable "y" none)), some (.text "Ada")),
          (.error (.eval .stuck), some (.text "Ada")),
          (.error (.eval (.functionFailed "mean" "expected a number, got a string")),
            some (.text "Ada"))] ∧
      ∀ answer ∈ s.evaluateAll lines, answer.2.bindings.HoldsScalars := by
  have hread : (CommandLine.Arguments.read ["-Dx=2.5", "--var", "name=Ada"]).toOption.isSome := by
    decide +kernel
  obtain ⟨a, ha⟩ := Option.isSome_iff_exists.mp hread
  have hread := eq_ok_of_toOption_eq_some ha
  have hbindings : (Bindings.ofList [("x", .number 2.5), ("name", .text "Ada")]).HoldsScalars :=
    .ofList (by decide)
  refine ⟨⟨a, hread, holdsScalars_of_mem_evaluateAll.1 _ a hread⟩, _, _, rfl, rfl, hbindings,
    by decide +kernel, ?_⟩
  exact fun answer h => (holdsScalars_of_mem_evaluateAll.2 _ hbindings _ answer h).1

end Session

end Formula
