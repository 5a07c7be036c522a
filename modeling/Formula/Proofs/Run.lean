import Formula.Proofs.Redex

/-! # Whole runs

A run is taken apart into its first rewriting and the run that follows it. Two inductions are made
from this, and all statements about runs go through one of them. Forward: what holds of the tokens,
is kept by each rewriting and never lets the run get stuck holds of what is left at the end
(`exists_finish_of_invariant`). Backward: what holds of every single token with a value, and can be
carried from the tokens after a rewriting to those before it, holds all along each run that has a
value (`holds_of_run_eq_ok`). -/

namespace Formula

variable {σ : Type} {host : Host σ} {state state' : σ} {ts new : List Token} {r : Redex}

/-- The tokens after a rewriting that puts `new` in the place of the window. -/
def Redex.result (r : Redex) (new : List Token) : List Token := r.before ++ (new ++ r.after)

/-- A rewriting as it is recorded. -/
def Redex.step (r : Redex) (new : List Token) : Step where
  rule := r.rule
  start := r.before.length
  program := r.result new

/-- The tokens that a run reaches, those that it starts from among them. -/
def programs (host : Host σ) (state : σ) (ts : List Token) : List (List Token) :=
  ts :: (run host state ts).steps.map Step.program

/-! ## What calls and variables leave -/

theorem Token.exists_of_isScalar {v : Value} (h : v.isScalar = true) :
    ∃ t, Token.ofScalar? v = some t ∧ t.scalar? = some v := by
  cases v with
  | number x => exact ⟨.number x, rfl, rfl⟩
  | text s => exact ⟨.text s, rfl, rfl⟩
  | bool b => exact ⟨.bool b, rfl, rfl⟩
  | list vs => cases h
  | empty => cases h

theorem Replacement.resolve_result {f : String} {vs : List Value} {v : Value} {t : Token}
    (hv : (host.functions.call f vs state).1 = .ok v) (ht : Token.ofScalar? v = some t) :
    (Replacement.result f vs).resolve host state
      = (.ok [t], (host.functions.call f vs state).2) := by
  rw [resolve]
  split
  · rename_i hcall
    rw [hcall] at hv
    cases hv
    rw [hcall, literal, ht]
  · rename_i hcall
    rw [hcall] at hv; cases hv

theorem Replacement.resolve_binding {x : String} {v : Value} {t : Token}
    (hv : host.bindings.get? x = some v) (ht : Token.ofScalar? v = some t) :
    (Replacement.binding x).resolve host state = (.ok [t], state) := by
  rw [resolve, hv]
  simp only [literal, ht]

theorem Functions.cases_of_call_eq_error {functions : Functions σ} {f : String} {vs : List Value}
    {e : EvalError} (h : functions.call f vs state = (.error e, state')) :
    e = .unknownFunction f ∨ ∃ reason, e = .functionFailed f reason := by
  unfold call at h
  split at h
  · cases h
    exact .inl rfl
  · split at h
    · cases h
    · cases h
      exact .inr ⟨_, rfl⟩

theorem Replacement.eq_of_literal_eq_error {v : Value} {misplaced : Value.Kind → EvalError}
    {e : EvalError} (h : literal v misplaced = .error e) :
    v.isScalar = false ∧ e = misplaced v.kind := by
  cases hscalar : v.isScalar with
  | true =>
    obtain ⟨t, ht, -⟩ := Token.exists_of_isScalar hscalar
    simp [literal, ht] at h
  | false =>
    unfold literal at h
    split at h
    · cases h
    · cases h
      exact ⟨rfl, rfl⟩

/-- Calls whose outcome depends on the arguments only. They may still change the host's state. -/
def Functions.ArgumentDetermined (functions : Functions σ) : Prop :=
  ∀ f args state state', (functions.call f args state).1 = (functions.call f args state').1

theorem Replacement.resolve_outcome_eq (hdetermined : host.functions.ArgumentDetermined)
    (replacement : Replacement) (state state' : σ) :
    (replacement.resolve host state).1 = (replacement.resolve host state').1 := by
  cases replacement with
  | tokens ts => rfl
  | binding x =>
    rw [resolve, resolve]
    split <;> rfl
  | result f vs =>
    have hcall := hdetermined f vs state state'
    rw [resolve, resolve]
    split <;> rename_i h <;> split <;> rename_i h' <;> rw [h, h'] at hcall <;> cases hcall <;> rfl

theorem Functions.none_argumentDetermined : (none : Functions σ).ArgumentDetermined := by
  intro f args state state'
  simp only [call, resolve?, none]
  cases standard? f with
  | none => rfl
  | some g =>
    simp only [Option.map_some, Function.pure]
    cases g args <;> rfl

/-- Whether a given run has a given value can be decided, since values can be compared. -/
theorem eq_ok_of_toOption_eq_some {ε α : Type} {outcome : Except ε α} {v : α}
    (h : outcome.toOption = some v) : outcome = .ok v := by
  cases outcome with
  | error e => cases h
  | ok w => cases h; rfl

theorem exists_scalar_of_finish {v : Value} (h : finish ts = .ok v) :
    ∃ t, ts = [t] ∧ t.scalar? = some v := by
  match ts, h with
  | [t], h =>
    rw [finish] at h
    split at h
    · rename_i w hw
      cases h
      exact ⟨t, rfl, hw⟩
    · cases h

/-! ## The first rewriting and the rest -/

theorem run_of_isReduced (h : isReduced ts = true) :
    run host state ts = { steps := [], outcome := finish ts, state } := by
  rw [run, if_pos h]

theorem run_of_rewrite_eq_ok (h : isReduced ts = false) (hfind : Redex.find? ts = some r)
    (hnew : r.rule.action.rewrite host state r.window = (.ok new, state')) :
    run host state ts =
      { run host state' (r.result new) with
        steps := r.step new :: (run host state' (r.result new)).steps } := by
  rw [run, if_neg (by simp [h])]
  split
  · rename_i hnone
    rw [hfind] at hnone; cases hnone
  · rename_i found hfound
    rw [hfind] at hfound
    cases hfound
    split
    · rename_i herror
      rw [hnew] at herror; cases herror
    · rename_i hok
      rw [hnew] at hok
      cases hok
      rfl

theorem run_of_find?_eq_none (h : isReduced ts = false) (hfind : Redex.find? ts = none) :
    run host state ts = { steps := [], outcome := .error .stuck, state } := by
  rw [run, if_neg (by simp [h])]
  split
  · rfl
  · rename_i hfound
    rw [hfind] at hfound; cases hfound

theorem run_of_rewrite_eq_error {e : EvalError} (h : isReduced ts = false)
    (hfind : Redex.find? ts = some r)
    (hnew : r.rule.action.rewrite host state r.window = (.error e, state')) :
    run host state ts = { steps := [], outcome := .error e, state := state' } := by
  rw [run, if_neg (by simp [h])]
  split
  · rename_i hnone
    rw [hfind] at hnone; cases hnone
  · rename_i found hfound
    rw [hfind] at hfound
    cases hfound
    split
    · rename_i herror
      rw [hnew] at herror
      cases herror
      rfl
    · rename_i hok
      rw [hnew] at hok; cases hok

/-! ## Induction along a run -/

/-- A run has nothing to do, gets stuck, fails, or makes a rewriting and goes on from there. -/
@[elab_as_elim]
theorem run_induction (host : Host σ) {motive : σ → List Token → Prop}
    (reduced : ∀ state ts, isReduced ts = true → motive state ts)
    (stuck : ∀ state ts, isReduced ts = false → Redex.find? ts = none → motive state ts)
    (failed : ∀ state ts r e state', isReduced ts = false → Redex.find? ts = some r →
      r.rule.action.rewrite host state r.window = (.error e, state') → motive state ts)
    (rewritten : ∀ state ts r new state', isReduced ts = false → Redex.find? ts = some r →
      r.rule.action.rewrite host state r.window = (.ok new, state') →
        motive state' (r.result new) → motive state ts)
    (state : σ) (ts : List Token) : motive state ts := by
  -- every rewriting leaves less work
  induction hn : work false ts using Nat.strongRecOn generalizing ts state with
  | ind n ih =>
    cases hr : isReduced ts with
    | true => exact reduced state ts hr
    | false =>
      cases hfind : Redex.find? ts with
      | none => exact stuck state ts hr hfind
      | some r =>
        obtain ⟨outcome, state', hnew⟩ :
            ∃ outcome state', r.rule.action.rewrite host state r.window = (outcome, state') :=
          ⟨_, _, rfl⟩
        cases outcome with
        | error e => exact failed state ts r e state' hr hfind hnew
        | ok new =>
          have hless : work false (r.result new) < n :=
            hn ▸ Redex.work_rewrite_lt hfind (by rw [hnew])
          exact rewritten state ts r new state' hr hfind hnew (ih _ hless _ _ rfl)

/-- What every rewriting keeps holds of all that a run reaches. -/
theorem forall_mem_programs {I : List Token → Prop}
    (hstep : ∀ ts r state new state', Redex.find? ts = some r →
      r.rule.action.rewrite host state r.window = (.ok new, state') → I ts → I (r.result new))
    (state : σ) (ts : List Token) (hts : I ts) : ∀ us ∈ programs host state ts, I us := by
  induction state, ts using run_induction host with
  | reduced state ts hr => simpa [programs, run_of_isReduced hr] using hts
  | stuck state ts hr hfind => simpa [programs, run_of_find?_eq_none hr hfind] using hts
  | failed state ts r e state' hr hfind hnew =>
    simpa [programs, run_of_rewrite_eq_error hr hfind hnew] using hts
  | rewritten state ts r new state' hr hfind hnew ih =>
    intro us hus
    rw [programs, run_of_rewrite_eq_ok hr hfind hnew, List.map_cons] at hus
    rcases List.mem_cons.mp hus with rfl | hus
    · exact hts
    · exact ih (hstep ts r state new state' hfind hnew hts) us hus

/-- **What every rewriting keeps holds at the end**, if it never lets the run get stuck. -/
theorem exists_finish_of_invariant {I : List Token → Prop}
    (hstep : ∀ ts state, I ts → isReduced ts = false → ∃ r new state',
      Redex.find? ts = some r ∧ r.rule.action.rewrite host state r.window = (.ok new, state') ∧
        I (r.result new))
    (hts : I ts) :
    ∃ left, I left ∧ isReduced left = true ∧ (run host state ts).outcome = finish left := by
  induction state, ts using run_induction host with
  | reduced state ts hr => exact ⟨ts, hts, hr, by rw [run_of_isReduced hr]⟩
  | stuck state ts hr hfind =>
    obtain ⟨r, new, state', hfind', -⟩ := hstep ts state hts hr
    rw [hfind] at hfind'
    cases hfind'
  | failed state ts r e state' hr hfind hnew =>
    obtain ⟨r', new, state'', hfind', hnew', -⟩ := hstep ts state hts hr
    rw [hfind] at hfind'
    cases hfind'
    rw [hnew] at hnew'
    cases hnew'
  | rewritten state ts r new state' hr hfind hnew ih =>
    obtain ⟨r', new', state'', hfind', hnew', hI⟩ := hstep ts state hts hr
    rw [hfind] at hfind'
    cases hfind'
    rw [hnew] at hnew'
    cases hnew'
    rw [run_of_rewrite_eq_ok hr hfind hnew]
    exact ih hI

/-- **What can be carried back over every rewriting holds all along a run that has a value.** -/
theorem holds_of_run_eq_ok {D : List Token → Prop} {v : Value}
    (hfinish : ∀ ts v, finish ts = .ok v → D ts)
    (hstep : ∀ ts r state new state', Redex.find? ts = some r →
      r.rule.action.rewrite host state r.window = (.ok new, state') → D (r.result new) → D ts)
    (h : (run host state ts).outcome = .ok v) :
    D ts ∧ ∀ s ∈ (run host state ts).steps, D s.program := by
  induction state, ts using run_induction host with
  | reduced state ts hr =>
    rw [run_of_isReduced hr] at h ⊢
    exact ⟨hfinish ts v h, by simp⟩
  | stuck state ts hr hfind => rw [run_of_find?_eq_none hr hfind] at h; cases h
  | failed state ts r e state' hr hfind hnew =>
    rw [run_of_rewrite_eq_error hr hfind hnew] at h; cases h
  | rewritten state ts r new state' hr hfind hnew ih =>
    rw [run_of_rewrite_eq_ok hr hfind hnew] at h ⊢
    obtain ⟨hD, hsteps⟩ := ih h
    refine ⟨hstep ts r state new state' hfind hnew hD, ?_⟩
    intro s hs
    rcases List.mem_cons.mp hs with rfl | hs
    · exact hD
    · exact hsteps s hs

end Formula
