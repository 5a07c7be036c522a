import Formula.Proofs.Lexing.Tokens
import Formula.Proofs.Stored.Postconditions
import Formula.Proofs.Requests
import Formula.Proofs.Yield

/-! # Functions get scalars

Lists and empty values can be bound to variables and returned by functions, but they do not get into
a formula: what is written in one is a scalar, and a value is let in only as a literal token. So the
arguments that are collected are scalars all along a run. The standard functions return scalars for
scalars, so a run that calls no other function never ends with a result that is none. -/

namespace Formula

variable {σ : Type} {host : Host σ} {state state' : σ} {ts us window new : List Token} {t : Token}
  {r : Redex} {replacement : Replacement}

/-- The arguments that have been collected in a token are scalars. -/
def Token.HoldsScalars : Token → Prop
  | .args vs => ∀ v ∈ vs, v.isScalar = true
  | _ => True

theorem Token.isScalar_of_scalar? {v : Value} (h : t.scalar? = some v) : v.isScalar = true :=
  isScalar_of_ofScalar? (scalar?_eq_some_iff.mp h)

theorem Token.holdsScalars_of_scalar? {v : Value} (h : t.scalar? = some v) : t.HoldsScalars := by
  cases t with
  | args vs => cases h
  | number | text | bool | name | operator | openParen | closeParen | comma => trivial

/-! ## What is read -/

theorem Token.Readable.holdsScalars (h : t.Readable) : t.HoldsScalars := by
  cases h <;> trivial

theorem Token.holdsScalars_of_ofPayload {k : Kind} {v : Value} (h : ofPayload k v = .ok t) :
    t.HoldsScalars := by
  cases t with
  | args vs =>
    unfold ofPayload at h
    split at h <;> try cases h
    split at h
    · rename_i hall
      cases h
      exact List.all_eq_true.mp hall
    · cases h
  | number | text | bool | name | operator | openParen | closeParen | comma => trivial

/-- Expressions that have been read, from the text of a formula or from a stored one. -/
inductive Expression.Read : Expression → Prop
  | parsed {text : String} {e : Expression} (h : parse text = .ok e) : Read e
  | loaded {text : String} {e : Expression} (h : load? text = .ok e) : Read e

theorem Expression.Read.holdsScalars {e : Expression} (h : e.Read) :
    ∀ t ∈ e.tokens, t.HoldsScalars := by
  cases h with
  | parsed h =>
    obtain ⟨ts, hts, rfl⟩ := exists_of_map_eq_ok h
    exact fun t ht => (readable_of_lex hts t ht).holdsScalars
  | loaded h =>
    obtain ⟨ts, rfl, hts⟩ := Stored.exists_tokens_of_load?
      (fun _ _ _ => Token.holdsScalars_of_ofPayload) h
    exact hts

/-! ## What a rewriting makes of it -/

theorem Contracts.holdsScalars (h : Contracts window replacement) (hyields : replacement.Yields new)
    (hwindow : ∀ t ∈ window, t.HoldsScalars) : ∀ t ∈ new, t.HoldsScalars := by
  have hscalar : ∀ {t : Token} {v : Value}, t.scalar? = some v → ∀ u ∈ [t], u.HoldsScalars :=
    fun ht u hu => by
      obtain rfl := List.mem_singleton.mp hu
      exact Token.holdsScalars_of_scalar? ht
  cases h with
  | multiply | unwrap | operate => cases hyields; exact hscalar rfl
  | call f vs => cases hyields with | result _ _ ht => exact hscalar ht
  | substitute x => cases hyields with | binding _ ht => exact hscalar ht
  | wrapNothing f => cases hyields; simp [Token.HoldsScalars]
  | wrapArgument f ht =>
    cases hyields
    simpa [Token.HoldsScalars] using Token.isScalar_of_scalar? ht
  | pair ht hu =>
    cases hyields
    simpa [Token.HoldsScalars] using ⟨Token.isScalar_of_scalar? ht, Token.isScalar_of_scalar? hu⟩
  | append vs ht =>
    cases hyields
    have hvs : ∀ v ∈ vs, v.isScalar = true := hwindow (.args vs) (by simp)
    simpa [Token.HoldsScalars, or_imp, forall_and] using ⟨hvs, Token.isScalar_of_scalar? ht⟩
  | concatenate vs ws =>
    cases hyields
    have hvs : ∀ v ∈ vs, v.isScalar = true := hwindow (.args vs) (by simp)
    have hws : ∀ v ∈ ws, v.isScalar = true := hwindow (.args ws) (by simp)
    simpa [Token.HoldsScalars, or_imp, forall_and] using ⟨hvs, hws⟩

theorem Redex.holdsScalars_result (hfind : find? ts = some r)
    (hnew : r.rule.action.rewrite host state r.window = (.ok new, state'))
    (hts : ∀ t ∈ ts, t.HoldsScalars) : ∀ t ∈ r.result new, t.HoldsScalars := by
  obtain ⟨replacement, hcontracts, hyields⟩ := exists_yields hfind hnew
  obtain rfl := (find?_eq_some hfind).2.1
  simp only [program, List.forall_mem_append] at hts
  simp only [result, List.forall_mem_append]
  exact ⟨hts.1, hcontracts.holdsScalars hyields hts.2.1, hts.2.2⟩

/-- **Collected arguments are scalars all along a run.** -/
theorem holdsScalars_of_mem_programs (hts : ∀ t ∈ ts, t.HoldsScalars) :
    ∀ us ∈ programs host state ts, ∀ t ∈ us, t.HoldsScalars :=
  forall_mem_programs (I := fun ts => ∀ t ∈ ts, t.HoldsScalars)
    (fun _ _ _ _ _ hfind hnew => Redex.holdsScalars_result hfind hnew) state ts hts

/-! ## What functions are called with -/

/-- A call is made with arguments that have been collected in a token. -/
theorem exists_args_of_mem_calls {f : String} {vs : List Value}
    (h : (f, vs) ∈ calls host state ts) : ∃ us ∈ programs host state ts, Token.args vs ∈ us := by
  obtain ⟨replacement, hrequest, hcall⟩ := List.mem_filterMap.mp h
  obtain ⟨us, hus, hus'⟩ := List.mem_filterMap.mp hrequest
  refine ⟨us, hus, ?_⟩
  unfold request? at hus'
  split at hus'
  · cases hus'
  · obtain ⟨r, hfind, hreplacement⟩ := Option.bind_eq_some_iff.mp hus'
    obtain ⟨replacement', hreplacement', hcontracts⟩ := Redex.exists_replacement hfind
    rw [hreplacement'] at hreplacement
    cases hreplacement
    obtain rfl := (Redex.find?_eq_some hfind).2.1
    cases replacement <;> cases hcall
    generalize hwindow : r.window = window at hcontracts
    cases hcontracts
    simp [Redex.program, hwindow]

theorem isScalar_of_mem_calls (hts : ∀ t ∈ ts, t.HoldsScalars) {f : String} {vs : List Value}
    (h : (f, vs) ∈ calls host state ts) : ∀ v ∈ vs, v.isScalar = true := by
  obtain ⟨us, hus, hmem⟩ := exists_args_of_mem_calls h
  exact holdsScalars_of_mem_programs hts us hus _ hmem

/-! ## What they return -/

namespace Functions

/-- A function that returns scalars for scalars. -/
def KeepScalars (functions : Functions σ) (f : String) : Prop :=
  ∀ vs state v, (∀ w ∈ vs, w.isScalar = true) → (functions.call f vs state).1 = .ok v →
    v.isScalar = true

theorem isScalar_of_choose {vs : List Value} {v : Value} (hvs : ∀ w ∈ vs, w.isScalar = true)
    (h : choose vs = .ok v) : v.isScalar = true := by
  unfold choose at h
  split at h
  · cases h
    split <;> exact hvs _ (by simp)
  · cases h
  · cases h

theorem isScalar_of_mean {vs : List Value} {v : Value} (h : mean vs = .ok v) :
    v.isScalar = true := by
  unfold mean at h
  split at h
  · cases h
  · obtain ⟨xs, -, rfl⟩ := exists_of_map_eq_ok h
    rfl

/-- The standard functions return scalars for scalars. -/
theorem isScalar_of_standard? {f : String} {function : List Value → Except String Value}
    (hf : standard? f = some function) {vs : List Value} {v : Value}
    (hvs : ∀ w ∈ vs, w.isScalar = true) (h : function vs = .ok v) : v.isScalar = true := by
  unfold standard? at hf
  split at hf
  · cases hf; exact isScalar_of_choose hvs h
  · cases hf; cases h; rfl
  · cases hf; exact isScalar_of_mean h
  · cases hf

theorem keepScalars_of_eq_none {functions : Functions σ} {f : String} (hf : functions f = .none) :
    functions.KeepScalars f := by
  intro vs state v hvs h
  unfold call resolve? at h
  rw [hf] at h
  cases hstandard : standard? f with
  | none => simp [hstandard] at h
  | some function =>
    cases hresult : function vs with
    | error reason => simp [hstandard, Function.pure, hresult] at h
    | ok w =>
      simp only [hstandard, Option.map_some, Function.pure, hresult, Except.ok.injEq] at h
      exact isScalar_of_standard? hstandard hvs (h ▸ hresult)

/-- A function of the host that returns scalars for all arguments. -/
theorem keepScalars_of_eq_some {functions : Functions σ} {f : String} {function : Function σ}
    (hf : functions f = some function)
    (h : ∀ vs state v, (function vs state).1 = .ok v → v.isScalar = true) :
    functions.KeepScalars f := by
  intro vs state v _ hv
  unfold call resolve? at hv
  rw [hf] at hv
  dsimp only at hv
  split at hv
  · rename_i w later hw
    cases hv
    exact h vs state v (by rw [hw])
  · cases hv

end Functions

/-- A run that is told of a bad result has made a call that gave one. -/
theorem exists_call_of_run_eq_badResult {f : String} {kind : Value.Kind}
    (h : (run host state ts).outcome = .error (.badResult f kind)) :
    ∃ vs state' v, (f, vs) ∈ calls host state ts ∧
      (host.functions.call f vs state').1 = .ok v ∧ v.isScalar = false := by
  induction state, ts using run_induction host with
  | reduced state ts hr =>
    rw [run_of_isReduced hr] at h
    unfold finish at h
    split at h
    · cases h
    · split at h <;> cases h
    · cases h
  | stuck state ts hr hfind => rw [run_of_find?_eq_none hr hfind] at h; cases h
  | failed state ts r e state' hr hfind hnew =>
    rw [run_of_rewrite_eq_error hr hfind hnew] at h
    cases h
    obtain ⟨replacement, hreplacement, -⟩ := Redex.exists_replacement hfind
    have hresolve := hnew
    rw [Action.rewrite_eq hreplacement] at hresolve
    cases Replacement.fails_of_resolve hresolve with
    | @badResult _ vs v hcall hscalar =>
      refine ⟨vs, state, v, ?_, hcall, hscalar⟩
      rw [calls, requests_of_rewrite_eq_error hr hfind hreplacement hnew]
      exact List.mem_singleton_self _
  | rewritten state ts r new state' hr hfind hnew ih =>
    rw [run_of_rewrite_eq_ok hr hfind hnew] at h
    obtain ⟨replacement, hreplacement, -⟩ := Redex.exists_replacement hfind
    obtain ⟨vs, later, v, hmem, hcall, hscalar⟩ := ih h
    refine ⟨vs, later, v, ?_, hcall, hscalar⟩
    rw [calls, requests_of_rewrite_eq_ok hr hfind hreplacement hnew,
      filterMap_cons_eq_toList_append]
    exact List.mem_append_right _ hmem

theorem run_ne_badResult (hts : ∀ t ∈ ts, t.HoldsScalars)
    (hkeep : ∀ call ∈ calls host state ts, host.functions.KeepScalars call.1) (f : String)
    (kind : Value.Kind) : (run host state ts).outcome ≠ .error (.badResult f kind) := by
  intro h
  obtain ⟨vs, state', v, hmem, hcall, hscalar⟩ := exists_call_of_run_eq_badResult h
  have hv := hkeep _ hmem vs state' v (isScalar_of_mem_calls hts hmem) hcall
  rw [hscalar] at hv
  cases hv

/-- **Functions get scalars only.** All arguments that are collected in an expression that has been
read are scalars, and so are those of each call, whatever values the host binds and returns. If no
call reaches a function of the host, no call returns anything else than a scalar. No other calls are
made: what these do one after another is all that becomes of the state of the host. -/
theorem isScalar_of_called (e : Expression) (hread : e.Read) (σ : Type) (host : Host σ)
    (state : σ) :
    (∀ call ∈ calls host state e.tokens, ∀ v ∈ call.2, v.isScalar = true) ∧
      (∀ ts ∈ programs host state e.tokens, ∀ vs, Token.args vs ∈ ts → ∀ v ∈ vs,
        v.isScalar = true) ∧
      ((∀ call ∈ calls host state e.tokens, host.functions call.1 = none) →
        ∀ f kind, (e.run host state).outcome ≠ .error (.badResult f kind)) ∧
      (e.run host state).state = (calls host state e.tokens).foldl host.perform state := by
  refine ⟨?_, ?_, ?_, state_run host state e.tokens⟩
  · rintro ⟨f, vs⟩ hcall
    exact isScalar_of_mem_calls hread.holdsScalars hcall
  · intro ts hts vs hvs
    exact holdsScalars_of_mem_programs hread.holdsScalars ts hts _ hvs
  · intro hcalls f kind
    exact run_ne_badResult hread.holdsScalars
      (fun call hcall => Functions.keepScalars_of_eq_none (hcalls call hcall)) f kind

/-- A stored call whose arguments have been collected, beside a variable that is bound to a list. -/
theorem isScalar_of_called_mean :
    ∃ (host : Host Unit) (e : Expression),
      host = ⟨Bindings.empty.insert "x" (.list [.empty]), Functions.none⟩ ∧
      Expression.load?
        "[[[\"ident\",\"mean\"],[\"paren_open\",null],[\"params\",[1,3]],[\"paren_close\",null]]]"
        = .ok e ∧
      calls host () e.tokens = [("mean", [.number 1, .number 3])] ∧
      (∀ call ∈ calls host () e.tokens, ∀ v ∈ call.2, v.isScalar = true) ∧
      ∀ f kind, (e.run host ()).outcome ≠ .error (.badResult f kind) := by
  have htokens : Option.map Expression.tokens (Except.toOption (Expression.load?
      "[[[\"ident\",\"mean\"],[\"paren_open\",null],[\"params\",[1,3]],[\"paren_close\",null]]]"))
      = some [.name "mean", .openParen, .args [.number 1, .number 3], .closeParen] := by
    decide +kernel
  obtain ⟨e, he, htokens⟩ := Option.map_eq_some_iff.mp htokens
  have hload := eq_ok_of_toOption_eq_some he
  refine ⟨_, e, rfl, hload, ?_, (isScalar_of_called e (.loaded hload) Unit _ ()).1,
    (isScalar_of_called e (.loaded hload) Unit _ ()).2.2.1 fun _ _ => rfl⟩
  rw [htokens]
  decide +kernel

end Formula
