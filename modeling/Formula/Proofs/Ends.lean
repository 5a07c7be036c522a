import Formula.Proofs.Yield
import Mathlib.Control.Monad.Basic

/-! # How a reduction can end

A rewriting fails only where the host fails: no window leaves its rule wanting. So the errors of a
run fall apart. Some are those of a call or a variable (`EvalError.ByHost`), and each of the others
tells what was left: nothing, several tokens that no rule matches, or one token that is no literal.
Several tokens come to a single one of this kind only by collecting arguments without a call. -/

namespace Formula

variable {σ : Type} {host : Host σ} {state state' : σ} {ts new : List Token} {t : Token} {r : Redex}
  {e : EvalError}

/-- The errors that come from a call or a variable. -/
def EvalError.ByHost : EvalError → Prop
  | unknownFunction _ | functionFailed _ _ | badResult _ _ | badVariable _ _ => True
  | stuck | notScalar _ | emptyFormula | internal _ => False

/-! ## A rewriting that fails -/

/-- **A rewriting fails only by its host.** -/
theorem Redex.byHost_of_rewrite_eq_error (hfind : find? ts = some r)
    (h : r.rule.action.rewrite host state r.window = (.error e, state')) : e.ByHost := by
  obtain ⟨replacement, -, hfails⟩ := exists_fails hfind h
  cases hfails <;> trivial

/-- An error of the host is that of the last rewriting of a run. -/
theorem exists_rewrite_of_run_eq_error (he : e.ByHost)
    (h : (run host state ts).outcome = .error e) :
    ∃ us r later later', Redex.find? us = some r ∧
      r.rule.action.rewrite host later r.window = (.error e, later') := by
  induction state, ts using run_induction host with
  | reduced state ts hr =>
    rw [run_of_isReduced hr] at h
    unfold finish at h
    split at h
    · cases h
      exact he.elim
    · split at h
      · cases h
      · cases h
        exact he.elim
    · cases h
      exact he.elim
  | stuck state ts hr hfind =>
    rw [run_of_find?_eq_none hr hfind] at h
    cases h
    exact he.elim
  | failed state ts r e' state' hr hfind hnew =>
    rw [run_of_rewrite_eq_error hr hfind hnew] at h
    cases h
    exact ⟨ts, r, state, state', hfind, hnew⟩
  | rewritten state ts r new state' hr hfind hnew ih =>
    rw [run_of_rewrite_eq_ok hr hfind hnew] at h
    exact ih h

/-! ## A rewriting that leaves a single token -/

theorem Token.kind_eq_args_of_values? {vs : List Value} (h : t.values? = some vs)
    (hscalar : t.scalar? = none) : t.kind = .args := by
  cases t <;> simp_all [values?, scalar?]

/-- What is left alone by a rewriting holds values. -/
theorem Redex.exists_values_of_result (hfind : find? ts = some r)
    (hnew : r.rule.action.rewrite host state r.window = (.ok new, state'))
    (h : isReduced (r.result new) = true) : ∃ t vs, r.result new = [t] ∧ t.values? = some vs := by
  have hlength : (r.result new).length ≤ 1 := of_decide_eq_true h
  have hleaves := leaves hfind hnew
  unfold result at hlength ⊢
  generalize r.window = window at hleaves
  cases hleaves with
  | wrapped f inner vs =>
    simp only [List.length_append, List.length_cons] at hlength
    omega
  | @values _ t vs ht =>
    simp only [List.length_append, List.length_singleton] at hlength
    have hbefore : r.before = [] := List.eq_nil_of_length_eq_zero (by omega)
    have hafter : r.after = [] := List.eq_nil_of_length_eq_zero (by omega)
    exact ⟨t, vs, by rw [hbefore, hafter]; rfl, ht⟩

/-! ## All ends of a run -/

/-- How the reduction of several tokens can end. -/
inductive Ends : Except EvalError Value → Prop
  | value (v : Value) : Ends (.ok v)
  | stuck : Ends (.error .stuck)
  | collected : Ends (.error (.notScalar .args))
  | byHost {e : EvalError} (h : e.ByHost) : Ends (.error e)

theorem ends_finish {vs : List Value} (h : t.values? = some vs) : Ends (finish [t]) := by
  cases hscalar : t.scalar? with
  | some v => simpa [finish, hscalar] using Ends.value v
  | none => simpa [finish, hscalar, Token.kind_eq_args_of_values? h hscalar] using Ends.collected

theorem ends_run (host : Host σ) (state : σ) (ts : List Token) (h : isReduced ts = false) :
    Ends (run host state ts).outcome := by
  induction state, ts using run_induction host with
  | reduced state ts hr => rw [h] at hr; cases hr
  | stuck state ts hr hfind => rw [run_of_find?_eq_none hr hfind]; exact .stuck
  | failed state ts r e state' hr hfind hnew =>
    rw [run_of_rewrite_eq_error hr hfind hnew]
    exact .byHost (Redex.byHost_of_rewrite_eq_error hfind hnew)
  | rewritten state ts r new state' hr hfind hnew ih =>
    rw [run_of_rewrite_eq_ok hr hfind hnew]
    cases hresult : isReduced (r.result new) with
    | false => exact ih hresult
    | true =>
      obtain ⟨t, vs, ht, hvs⟩ := Redex.exists_values_of_result hfind hnew hresult
      rw [run_of_isReduced hresult, ht]
      exact ends_finish hvs

/-- A single token is not reduced: it is a literal with its value, or it is reported. -/
theorem run_singleton (host : Host σ) (state : σ) (t : Token) :
    (run host state [t]).outcome = finish [t] := by
  rw [run_of_isReduced rfl]

/-- **Every error tells what it means.** No run fails by a rule that is given the wrong tokens. A
formula is reported as empty exactly if it is. A token is reported as unresolved only if it is the
whole formula, or if collected arguments are all that is left. And a single token comes to its value
or is reported, whatever the host is. -/
theorem run_error_meaning (host : Host σ) (state : σ) (ts : List Token) :
    (∀ misfit, (run host state ts).outcome ≠ .error (.internal misfit)) ∧
      ((run host state ts).outcome = .error .emptyFormula ↔ ts = []) ∧
      (∀ k, (run host state ts).outcome = .error (.notScalar k) →
        (∃ t, ts = [t] ∧ t.scalar? = none ∧ t.kind = k) ∨ 1 < ts.length ∧ k = .args) ∧
      ∀ t, ts = [t] →
        (∃ v, t.scalar? = some v ∧ (run host state ts).outcome = .ok v) ∨
          t.scalar? = none ∧ (run host state ts).outcome = .error (.notScalar t.kind) := by
  match ts with
  | [] =>
    rw [run_of_isReduced rfl]
    simp [finish]
  | [t] =>
    rw [run_singleton]
    cases hscalar : t.scalar? with
    | some v => simp [finish, hscalar]
    | none => simp [finish, hscalar]
  | t :: u :: ts =>
    have hends := ends_run host state (t :: u :: ts) (by simp [isReduced])
    generalize (run host state (t :: u :: ts)).outcome = outcome at hends
    cases hends with
    | value v => simp
    | stuck => simp
    | collected => simp
    | byHost he =>
      refine ⟨?_, ?_, ?_, by simp⟩
      · rintro misfit ⟨⟩
        exact he
      · refine ⟨?_, by simp⟩
        rintro ⟨⟩
        exact he.elim
      · rintro k ⟨⟩
        exact he.elim

/-- Two numbers with a comma between them are collected as arguments, of which nothing is made. -/
theorem run_error_meaning_pair :
    (run { bindings := ∅, functions := Functions.none } () [.number 1, .comma, .number 2]).outcome
        = .error (.notScalar .args) ∧
      1 < [Token.number 1, .comma, .number 2].length := by
  have houtcome : (run { bindings := ∅, functions := Functions.none } ()
      [.number 1, .comma, .number 2]).outcome = .error (.notScalar .args) := by decide +kernel
  refine ⟨houtcome, ?_⟩
  rcases (run_error_meaning _ () _).2.2.1 _ houtcome with ⟨t, ht, -⟩ | ⟨hlength, -⟩
  · cases ht
  · exact hlength

end Formula
