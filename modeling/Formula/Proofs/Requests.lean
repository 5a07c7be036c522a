import Formula.Proofs.Lists
import Formula.Proofs.Run
import Formula.Proofs.Window

/-! # What a run asks of its host

The host is asked for the result of a call or for the value of a variable, at most once for each
sequence of tokens that a run reaches. The rewriting that fails is among those that ask. What the
calls do to the state of the host, one after another, is all that becomes of it (`state_run`). -/

namespace Formula

variable {σ : Type} {host : Host σ} {state state' : σ} {ts new : List Token} {r : Redex}
  {replacement : Replacement}

/-- What the next rewriting is, if there is one. -/
def request? (ts : List Token) : Option Replacement :=
  if isReduced ts then none
  else (Redex.find? ts).bind fun r => (r.rule.action.replacement r.window).toOption

/-- All that the rewritings of a run come to, one after another. -/
def requests (host : Host σ) (state : σ) (ts : List Token) : List Replacement :=
  (programs host state ts).filterMap request?

namespace Replacement

/-- The call that is made, with its arguments. -/
def call? : Replacement → Option (String × List Value)
  | result f vs => some (f, vs)
  | tokens _ | binding _ => none

/-- The variable that is looked up. -/
def lookup? : Replacement → Option String
  | binding x => some x
  | tokens _ | result _ _ => none

end Replacement

/-- The calls of a run with their arguments, one after another. -/
def calls (host : Host σ) (state : σ) (ts : List Token) : List (String × List Value) :=
  (requests host state ts).filterMap Replacement.call?

/-- The variables that a run looks up, one after another. -/
def lookups (host : Host σ) (state : σ) (ts : List Token) : List String :=
  (requests host state ts).filterMap Replacement.lookup?

/-! ## The first request and the rest -/

theorem requests_of_isReduced (h : isReduced ts = true) : requests host state ts = [] := by
  simp [requests, programs, run_of_isReduced h, request?, h]

theorem requests_of_find?_eq_none (h : isReduced ts = false) (hfind : Redex.find? ts = none) :
    requests host state ts = [] := by
  simp [requests, programs, run_of_find?_eq_none h hfind, request?, hfind]

theorem request?_eq_some (h : isReduced ts = false) (hfind : Redex.find? ts = some r)
    (hreplacement : r.rule.action.replacement r.window = .ok replacement) :
    request? ts = some replacement := by
  simp [request?, h, hfind, hreplacement, Except.toOption]

theorem requests_of_rewrite_eq_error {e : EvalError} (h : isReduced ts = false)
    (hfind : Redex.find? ts = some r)
    (hreplacement : r.rule.action.replacement r.window = .ok replacement)
    (hnew : r.rule.action.rewrite host state r.window = (.error e, state')) :
    requests host state ts = [replacement] := by
  simp [requests, programs, run_of_rewrite_eq_error h hfind hnew,
    request?_eq_some h hfind hreplacement]

theorem requests_of_rewrite_eq_ok (h : isReduced ts = false) (hfind : Redex.find? ts = some r)
    (hreplacement : r.rule.action.replacement r.window = .ok replacement)
    (hnew : r.rule.action.rewrite host state r.window = (.ok new, state')) :
    requests host state ts = replacement :: requests host state' (r.result new) := by
  rw [requests, programs, List.filterMap_cons, request?_eq_some h hfind hreplacement,
    run_of_rewrite_eq_ok h hfind hnew]
  rfl

/-! ## What the calls leave of the host -/

/-- The state that a call leaves. -/
def Host.perform (host : Host σ) (state : σ) (call : String × List Value) : σ :=
  (host.functions.call call.1 call.2 state).2

theorem Replacement.state_resolve (replacement : Replacement) (host : Host σ) (state : σ) :
    (replacement.resolve host state).2 = replacement.call?.toList.foldl host.perform state := by
  cases replacement with
  | tokens ts => rfl
  | result f vs =>
    rw [resolve]
    split <;> rename_i hcall <;> simp [call?, Host.perform, hcall]
  | binding x =>
    rw [resolve]
    split <;> rfl

/-- A rewriting does to the state what its call does, whether it fails or not. -/
theorem Redex.state_rewrite {outcome : Except EvalError (List Token)}
    (hreplacement : r.rule.action.replacement r.window = .ok replacement)
    (hnew : r.rule.action.rewrite host state r.window = (outcome, state')) :
    state' = replacement.call?.toList.foldl host.perform state := by
  rw [Action.rewrite_eq hreplacement] at hnew
  rw [← replacement.state_resolve host state, hnew]

/-- **A run does nothing to the state of its host but what its calls do.** -/
theorem state_run (host : Host σ) (state : σ) (ts : List Token) :
    (run host state ts).state = (calls host state ts).foldl host.perform state := by
  induction state, ts using run_induction host with
  | reduced state ts hr => rw [run_of_isReduced hr, calls, requests_of_isReduced hr]; rfl
  | stuck state ts hr hfind =>
    rw [run_of_find?_eq_none hr hfind, calls, requests_of_find?_eq_none hr hfind]; rfl
  | failed state ts r e state' hr hfind hnew =>
    obtain ⟨replacement, hreplacement, -⟩ := Redex.exists_replacement hfind
    rw [run_of_rewrite_eq_error hr hfind hnew, calls,
      requests_of_rewrite_eq_error hr hfind hreplacement hnew, filterMap_cons_eq_toList_append,
      List.filterMap_nil, List.append_nil]
    exact Redex.state_rewrite hreplacement hnew
  | rewritten state ts r new state' hr hfind hnew ih =>
    obtain ⟨replacement, hreplacement, -⟩ := Redex.exists_replacement hfind
    rw [run_of_rewrite_eq_ok hr hfind hnew, calls,
      requests_of_rewrite_eq_ok hr hfind hreplacement hnew, filterMap_cons_eq_toList_append,
      List.foldl_append, ← Redex.state_rewrite hreplacement hnew]
    exact ih

end Formula
