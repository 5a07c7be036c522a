import Formula.Proofs.Run
import Formula.Proofs.Window

/-! # What a rewriting leaves

Whatever the host is, a rewriting leaves one of two things in the place of its window: a single token
with values in it, or a call whose arguments are collected (`Redex.leaves`). If it fails, the reason
lies in the call or the variable that it needs (`Redex.exists_fails`). -/

namespace Formula

variable {σ : Type} {host : Host σ} {state state' : σ} {ts window new : List Token}

/-- The values that a literal or collected arguments stand for. -/
def Token.values? : Token → Option (List Value)
  | .args vs => some vs
  | t => t.scalar?.map fun v => [v]

@[simp] theorem Token.values?_args (vs : List Value) : (Token.args vs).values? = some vs := rfl

theorem Token.values?_of_scalar? {t : Token} {v : Value} (h : t.scalar? = some v) :
    t.values? = some [v] := by
  cases t <;> simp_all [values?, scalar?]

/-! ## What a replacement comes to -/

/-- The tokens that a replacement can come to. -/
inductive Replacement.Yields : Replacement → List Token → Prop
  | tokens (ts : List Token) : Yields (.tokens ts) ts
  | result (f : String) (vs : List Value) {t : Token} {v : Value} (h : t.scalar? = some v) :
    Yields (.result f vs) [t]
  | binding (x : String) {t : Token} {v : Value} (h : t.scalar? = some v) : Yields (.binding x) [t]

theorem Replacement.yields_of_resolve {replacement : Replacement}
    (h : replacement.resolve host state = (.ok new, state')) : replacement.Yields new := by
  have hok := congrArg Prod.fst h
  cases replacement with
  | tokens ts =>
    cases hok
    exact .tokens _
  | result f vs =>
    rw [resolve] at hok
    split at hok
    · obtain ⟨t, rfl, ht⟩ := exists_of_literal_eq_ok hok
      exact .result f vs ht
    · cases hok
  | binding x =>
    rw [resolve] at hok
    split at hok
    · dsimp only at hok
      obtain ⟨t, rfl, ht⟩ := exists_of_literal_eq_ok hok
      exact .binding x ht
    · cases hok

/-- The errors that a replacement can come to, each with its reason. -/
inductive Replacement.Fails (host : Host σ) (state : σ) : Replacement → EvalError → Prop
  | unknownFunction (f : String) (vs : List Value) :
    Fails host state (.result f vs) (.unknownFunction f)
  | functionFailed (f : String) (vs : List Value) (reason : String) :
    Fails host state (.result f vs) (.functionFailed f reason)
  | badResult (f : String) {vs : List Value} {v : Value}
      (hcall : (host.functions.call f vs state).1 = .ok v) (hscalar : v.isScalar = false) :
    Fails host state (.result f vs) (.badResult f v.kind)
  | unbound (x : String) : Fails host state (.binding x) (.badVariable x none)
  | badVariable (x : String) {v : Value} (hv : host.bindings.get? x = some v)
      (hscalar : v.isScalar = false) :
    Fails host state (.binding x) (.badVariable x (some v.kind))

theorem Replacement.fails_of_resolve {replacement : Replacement} {e : EvalError}
    (h : replacement.resolve host state = (.error e, state')) :
    replacement.Fails host state e := by
  have herror := congrArg Prod.fst h
  cases replacement with
  | tokens ts => cases herror
  | result f vs =>
    rw [resolve] at herror
    split at herror
    · rename_i v later hcall
      obtain ⟨hscalar, rfl⟩ := eq_of_literal_eq_error herror
      exact .badResult f (by rw [hcall]) hscalar
    · rename_i hcall
      cases herror
      rcases Functions.cases_of_call_eq_error hcall with rfl | ⟨reason, rfl⟩
      · exact .unknownFunction f vs
      · exact .functionFailed f vs reason
  | binding x =>
    rw [resolve] at herror
    split at herror
    · rename_i v hv
      dsimp only at herror
      obtain ⟨hscalar, rfl⟩ := eq_of_literal_eq_error herror
      exact .badVariable x hv hscalar
    · cases herror
      exact .unbound x

/-- What is rewritten is contracted, and its replacement has come to something. -/
theorem Redex.exists_yields {r : Redex} (hfind : find? ts = some r)
    (hnew : r.rule.action.rewrite host state r.window = (.ok new, state')) :
    ∃ replacement, Contracts r.window replacement ∧ replacement.Yields new := by
  obtain ⟨replacement, hcontracts, hrewrite⟩ := exists_contracts hfind
  rw [hrewrite] at hnew
  exact ⟨replacement, hcontracts, Replacement.yields_of_resolve hnew⟩

theorem Redex.exists_fails {r : Redex} {e : EvalError} (hfind : find? ts = some r)
    (hnew : r.rule.action.rewrite host state r.window = (.error e, state')) :
    ∃ replacement, Contracts r.window replacement ∧ replacement.Fails host state e := by
  obtain ⟨replacement, hcontracts, hrewrite⟩ := exists_contracts hfind
  rw [hrewrite] at hnew
  exact ⟨replacement, hcontracts, Replacement.fails_of_resolve hnew⟩

/-! ## What it leaves in the place of the window -/

/-- What is left in the place of a window. -/
inductive Leaves : List Token → List Token → Prop
  | values {window : List Token} {t : Token} {vs : List Value} (h : t.values? = some vs) :
    Leaves window [t]
  | wrapped (f : String) (inner : List Token) (vs : List Value) :
    Leaves (.name f :: .openParen :: (inner ++ [.closeParen]))
      [.name f, .openParen, .args vs, .closeParen]

theorem Contracts.leaves {replacement : Replacement} (h : Contracts window replacement)
    (hyields : replacement.Yields new) : Leaves window new := by
  cases h with
  | @wrapArgument f t v ht => cases hyields; exact .wrapped f [t] [v]
  | wrapNothing f => cases hyields; exact .wrapped f [] []
  | multiply | unwrap | operate | pair | append | concatenate => cases hyields; exact .values rfl
  | call f vs => cases hyields with | result _ _ ht => exact .values (Token.values?_of_scalar? ht)
  | substitute x => cases hyields with | binding _ ht => exact .values (Token.values?_of_scalar? ht)

theorem Redex.leaves {r : Redex} (hfind : find? ts = some r)
    (hnew : r.rule.action.rewrite host state r.window = (.ok new, state')) :
    Leaves r.window new := by
  obtain ⟨replacement, hcontracts, hyields⟩ := exists_yields hfind hnew
  exact hcontracts.leaves hyields

end Formula
