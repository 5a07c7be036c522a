import Formula.Proofs.Arguments.Turn

/-! # Which calls get their arguments

The arguments of a call get their values at different times. What is collected has to begin with the
first one, so a call whose second argument is collected before is never made (`run_callTokens`). -/

namespace Formula

variable {σ : Type} {host : Host σ} {state : σ} {f : String} {ps : List Piece}

/-! ## What a call gives -/

/-- The scalar that a call returns, or why there is none. -/
def Functions.answer (functions : Functions σ) (f : String) (vs : List Value) (state : σ) :
    Except EvalError Value :=
  match (functions.call f vs state).1 with
  | .ok v => if v.isScalar then .ok v else .error (.badResult f v.kind)
  | .error e => .error e

theorem Functions.ArgumentDetermined.answer_eq {functions : Functions σ}
    (h : functions.ArgumentDetermined) (f : String) (vs : List Value) (state state' : σ) :
    functions.answer f vs state = functions.answer f vs state' := by
  rw [answer, answer, h f vs state state']

theorem Replacement.answer_of_resolve_eq_error {vs : List Value} {e : EvalError}
    (h : ((Replacement.result f vs).resolve host state).1 = .error e) :
    host.functions.answer f vs state = .error e := by
  rw [resolve] at h
  unfold Functions.answer
  split at h <;> rename_i hcall <;> rw [hcall]
  · rename_i v _
    cases v <;> cases h <;> rfl
  · cases h; rfl

theorem Replacement.answer_of_resolve_eq_ok {vs : List Value} {new : List Token}
    (h : ((Replacement.result f vs).resolve host state).1 = .ok new) :
    ∃ t v, new = [t] ∧ t.scalar? = some v ∧ host.functions.answer f vs state = .ok v := by
  rw [resolve] at h
  unfold Functions.answer
  split at h <;> rename_i hcall <;> rw [hcall]
  · obtain ⟨t, rfl, ht⟩ := exists_of_literal_eq_ok h
    refine ⟨t, _, rfl, ht, if_pos ?_⟩
    exact Token.isScalar_of_ofScalar? (Token.scalar?_eq_some_iff.mp ht)
  · cases h

theorem Functions.answer_ne_stuck (functions : Functions σ) (f : String) (vs : List Value)
    (state : σ) : functions.answer f vs state ≠ .error .stuck := by
  unfold answer call
  cases functions.resolve? f with
  | none => simp
  | some g =>
    dsimp only
    rcases g vs state with ⟨reason | v, state'⟩
    · simp
    · by_cases h : v.isScalar <;> simp [h]

/-! ## The whole run -/

namespace Piece

/-- Nothing can be rewritten only if the call is blocked, and then no argument waits any more. -/
theorem blocked_of_find?_eq_none (hfind : Redex.find? (program f ps) = none)
    (hps : ∀ p ∈ ps, p.Known host state) :
    Shape.Blocked (ps.map shape) ∧ ps.filterMap pending? = [] := by
  have hparts : ∃ parts : List Part, ps = parts.map part := by
    rw [exists_parts_iff]
    intro p hp
    obtain ⟨front, back, rfl⟩ := List.append_of_mem hp
    cases p with
    | part q => exact ⟨q, rfl⟩
    | name x =>
      exact absurd hfind (Redex.find?_ne_none (by decide) (program_append f front (name x) back)
        (matches_name x back))
    | call g parts =>
      obtain ⟨rule, htable, -, before, window, after, hprogram, hmatches, -⟩ :=
        exists_match_call f front back (hps (call g parts) hp).2
      exact absurd hfind (Redex.find?_ne_none htable hprogram hmatches)
  obtain ⟨parts, rfl⟩ := hparts
  constructor
  · by_cases h : Shape.Blocked (parts.map Part.shape)
    · rwa [map_shape_map_part]
    · obtain ⟨rule, htable, -, before, window, after, hprogram, -, hmatches⟩ := exists_match f h
      exact absurd hfind (Redex.find?_ne_none htable hprogram (hmatches after))
  · simp [pending?, List.filterMap_eq_nil_iff]

theorem isReduced_program (f : String) (ps : List Piece) : isReduced (program f ps) = false := by
  simp [isReduced, program_eq_cons]

/-- **A call is made exactly if it is not blocked**, after all calls that its arguments wait for. -/
theorem run_program (host : Host σ) (hdetermined : host.functions.ArgumentDetermined) (state : σ)
    (f : String) (ps : List Piece) (hps : ∀ p ∈ ps, p.Known host state) (state' : σ) :
    (Shape.Blocked (ps.map shape) →
      (run host state' (program f ps)).outcome = .error .stuck ∧
        calls host state' (program f ps) = ps.filterMap pending?) ∧
    (¬ Shape.Blocked (ps.map shape) →
      (run host state' (program f ps)).outcome
          = host.functions.answer f (ps.flatMap (values host state)) state ∧
        calls host state' (program f ps)
          = ps.filterMap pending? ++ [(f, ps.flatMap (values host state))]) := by
  generalize hts : program f ps = ts
  induction state', ts using run_induction host generalizing ps with
  | reduced state' ts hr =>
    subst hts
    rw [isReduced_program] at hr
    cases hr
  | stuck state' ts hr hfind =>
    subst hts
    obtain ⟨hblocked, hpending⟩ := blocked_of_find?_eq_none hfind hps
    rw [run_of_find?_eq_none hr hfind, calls, requests_of_find?_eq_none hr hfind, hpending]
    exact ⟨fun _ => ⟨rfl, rfl⟩, fun h => absurd hblocked h⟩
  | failed state' ts r e state₁ hr hfind hnew =>
    subst hts
    obtain ⟨replacement, hreplacement, hturn⟩ := turn hdetermined hfind hps
    rw [run_of_rewrite_eq_error hr hfind hnew, calls,
      requests_of_rewrite_eq_error hr hfind hreplacement hnew]
    have hresolve := congrArg Prod.fst hnew
    rw [Action.rewrite_eq hreplacement] at hresolve
    rcases hturn with ⟨vs, rfl, -, -, rfl⟩ | ⟨new, qs, -, -, hok⟩
    · have hanswer := Replacement.answer_of_resolve_eq_error hresolve
      rw [hdetermined.answer_eq f vs state' state] at hanswer
      refine ⟨fun h => absurd h not_false, fun _ => ⟨?_, ?_⟩⟩
      · simpa [values, Part.values] using hanswer.symm
      · simp [Replacement.call?, pending?, values, Part.values]
    · rw [hok state'] at hresolve
      cases hresolve
  | rewritten state' ts r new state₁ hr hfind hnew ih =>
    subst hts
    obtain ⟨replacement, hreplacement, hturn⟩ := turn hdetermined hfind hps
    rw [run_of_rewrite_eq_ok hr hfind hnew, calls,
      requests_of_rewrite_eq_ok hr hfind hreplacement hnew, filterMap_cons_eq_toList_append]
    have hresolve := congrArg Prod.fst hnew
    rw [Action.rewrite_eq hreplacement] at hresolve
    rcases hturn with ⟨vs, rfl, hbefore, hafter, rfl⟩ | ⟨new', qs, hevolves, hresult, hok⟩
    · -- the call itself is made, and its result is all that is left
      obtain ⟨t, v, rfl, ht, hanswer⟩ := Replacement.answer_of_resolve_eq_ok hresolve
      rw [hdetermined.answer_eq f vs state' state] at hanswer
      have hresult : r.result [t] = [t] := by simp [Redex.result, hbefore, hafter]
      rw [hresult, run_of_isReduced rfl, requests_of_isReduced rfl]
      refine ⟨fun h => absurd h not_false, fun _ => ⟨?_, ?_⟩⟩
      · simpa [values, Part.values, finish, ht] using hanswer.symm
      · simp [Replacement.call?, pending?, values, Part.values]
    · -- the values stay, the calls move from pending to made, and blocked is blocked
      rw [hok state'] at hresolve
      cases hresolve
      have hrun := ih qs (hevolves.known hps) hresult.symm
      rw [hevolves.shifts.blocked_iff, hevolves.values_eq] at hrun
      rw [hevolves.pending_eq]
      refine ⟨fun h => ?_, fun h => ?_⟩
      · exact ⟨(hrun.1 h).1, congrArg (replacement.call?.toList ++ ·) (hrun.1 h).2⟩
      · refine ⟨(hrun.2 h).1, ?_⟩
        rw [List.append_assoc]
        exact congrArg (replacement.call?.toList ++ ·) (hrun.2 h).2

end Piece

/-! ## Arguments as they are written -/

/-- A literal, a variable, or a call of literals. -/
inductive Argument where
  | literal (l : Literal)
  | name (x : String)
  | call (g : String) (ls : List Literal)

namespace Argument

def tokens : Argument → List Token
  | literal l => [l.token]
  | name x => [.name x]
  | call g ls => callTokens g (ls.map fun l => [l.token])

def shape : Argument → Shape
  | literal _ => .literal
  | name _ => .name
  | call _ _ => .call

/-- The call of an argument, with its own arguments. -/
def call? : Argument → Option (String × List Value)
  | call g ls => some (g, ls.map Literal.value)
  | literal _ | name _ => none

/-- The value, if the variable is bound to a scalar or the call returns one. -/
def value? (host : Host σ) (state : σ) : Argument → Option Value
  | literal l => some l.value
  | name x => (host.bindings.get? x).filter Value.isScalar
  | call g ls =>
    (host.functions.call g (ls.map Literal.value) state).1.toOption.filter Value.isScalar

/-- The argument before anything has been collected. -/
def piece : Argument → Piece
  | literal l => .part (.literal l)
  | name x => .name x
  | call g ls => .call g (ls.map .literal)

theorem flatMap_values_literal (ls : List Literal) :
    (ls.map Part.literal).flatMap Part.values = ls.map Literal.value := by
  induction ls with
  | nil => rfl
  | cons l ls ih => simp [Part.values, ih]

theorem not_blocked_literal (ls : List Literal) :
    ¬ Shape.Blocked ((ls.map Part.literal).map Part.shape) := by
  match ls with
  | [] => simp [Shape.Blocked]
  | [l] => simp [Shape.Blocked, Part.shape]
  | l :: l' :: ls => simp [Shape.Blocked, Part.shape]

theorem tokens_piece (a : Argument) : a.piece.tokens = a.tokens := by
  cases a with
  | literal l => rfl
  | name x => rfl
  | call g ls => simp [piece, tokens, Piece.tokens, Part.token, Function.comp_def]

theorem shape_piece (a : Argument) : a.piece.shape = a.shape := by
  cases a <;> rfl

theorem pending?_piece (a : Argument) : a.piece.pending? = a.call? := by
  cases a with
  | literal l => rfl
  | name x => rfl
  | call g ls => simp only [piece, call?, Piece.pending?, flatMap_values_literal]

theorem known_piece {a : Argument} {v : Value} (h : a.value? host state = some v) :
    a.piece.Known host state ∧ a.piece.values host state = [v] := by
  cases a with
  | literal l =>
    cases h
    exact ⟨trivial, rfl⟩
  | name x =>
    obtain ⟨hx, hscalar⟩ := Option.filter_eq_some_iff.mp h
    obtain ⟨t, -, ht⟩ := Token.exists_of_isScalar hscalar
    exact ⟨⟨⟨t, v, ht⟩, hx⟩, by simp [piece, Piece.values, hx]⟩
  | call g ls =>
    obtain ⟨hresult, hscalar⟩ := Option.filter_eq_some_iff.mp h
    have hok := eq_ok_of_toOption_eq_some hresult
    obtain ⟨t, -, ht⟩ := Token.exists_of_isScalar hscalar
    refine ⟨⟨⟨⟨t, v, ht⟩, ?_⟩, not_blocked_literal ls⟩, ?_⟩
    · rw [flatMap_values_literal, hok]
    · rw [piece, Piece.values, flatMap_values_literal, hresult]
      rfl

theorem known_pieces {args : List Argument} {vs : List Value}
    (h : args.map (value? host state) = vs.map some) :
    (∀ p ∈ args.map piece, p.Known host state) ∧
      (args.map piece).flatMap (Piece.values host state) = vs := by
  induction args generalizing vs with
  | nil =>
    cases vs with
    | nil => simp
    | cons v vs => cases h
  | cons a args ih =>
    cases vs with
    | nil => cases h
    | cons v vs =>
      rw [List.map_cons, List.map_cons, List.cons.injEq] at h
      obtain ⟨hknown, hvalues⟩ := known_piece h.1
      obtain ⟨hall, hrest⟩ := ih h.2
      rw [List.map_cons, List.flatMap_cons, hvalues, hrest]
      exact ⟨List.forall_mem_cons.mpr ⟨hknown, hall⟩, rfl⟩

/-- **Which calls get their arguments.** A call is stuck exactly if its arguments are starved. Else it
is made once, with the values of its arguments in their order, and its outcome is that of the run.
The calls among the arguments are made before, from left to right. These are the calls that are made
in either case: what they do one after another is all that becomes of the state of the host. -/
theorem run_callTokens (host : Host σ) (hdetermined : host.functions.ArgumentDetermined) (state : σ)
    (f : String) (args : List Argument) (vs : List Value)
    (hvs : args.map (value? host state) = vs.map some) :
    (Shape.Starved (args.map shape) →
      (run host state (callTokens f (args.map tokens))).outcome = .error .stuck ∧
        calls host state (callTokens f (args.map tokens)) = args.filterMap call?) ∧
    (¬ Shape.Starved (args.map shape) →
      (run host state (callTokens f (args.map tokens))).outcome
          = host.functions.answer f vs state ∧
        host.functions.answer f vs state ≠ .error .stuck ∧
        calls host state (callTokens f (args.map tokens))
          = args.filterMap call? ++ [(f, vs)]) ∧
    (run host state (callTokens f (args.map tokens))).state
      = (calls host state (callTokens f (args.map tokens))).foldl host.perform state := by
  obtain ⟨hknown, hvalues⟩ := known_pieces hvs
  have hrun := Piece.run_program host hdetermined state f (args.map piece) hknown state
  have htokens : Piece.program f (args.map piece) = callTokens f (args.map tokens) := by
    simp [Piece.program, Function.comp_def, tokens_piece]
  have hcalls : (args.map piece).filterMap Piece.pending? = args.filterMap call? := by
    rw [List.filterMap_map]
    exact congrArg (args.filterMap ·) (funext pending?_piece)
  have hshapes : (args.map piece).map Piece.shape = args.map shape := by
    simp [Function.comp_def, shape_piece]
  have hblock : .block ∉ args.map shape := by
    intro hmem
    obtain ⟨a, -, ha⟩ := List.mem_map.mp hmem
    cases a <;> cases ha
  rw [htokens, hcalls, hshapes, hvalues, Shape.blocked_iff_starved hblock] at hrun
  refine ⟨hrun.1, ?_, state_run host state _⟩
  intro hstarved
  obtain ⟨houtcome, hcalled⟩ := hrun.2 hstarved
  exact ⟨houtcome, host.functions.answer_ne_stuck f vs state, hcalled⟩

/-- With `x = 3`, `mean(x, 1, 2)` is stuck, while `mean(1, x, 2)` is 2. -/
theorem run_callTokens_mean :
    ∃ (host : Host Unit) (one two : Literal),
      host = ⟨Bindings.empty.insert "x" (.number 3), Functions.none⟩ ∧
      one = ⟨.number 1, .number 1, rfl⟩ ∧ two = ⟨.number 2, .number 2, rfl⟩ ∧
      (run host () (callTokens "mean" ([name "x", literal one, literal two].map tokens))).outcome
        = .error .stuck ∧
      (run host () (callTokens "mean" ([literal one, name "x", literal two].map tokens))).outcome
        = .ok (.number 2) := by
  refine ⟨_, _, _, rfl, rfl, rfl, ?_, ?_⟩
  · have hrun := run_callTokens ⟨Bindings.empty.insert "x" (.number 3), Functions.none⟩
      Functions.none_argumentDetermined () "mean"
      [name "x", literal ⟨.number 1, .number 1, rfl⟩, literal ⟨.number 2, .number 2, rfl⟩]
      [.number 3, .number 1, .number 2] (by decide +kernel)
    exact (hrun.1 (by simp [Shape.Starved, shape])).1
  · have hrun := run_callTokens ⟨Bindings.empty.insert "x" (.number 3), Functions.none⟩
      Functions.none_argumentDetermined () "mean"
      [literal ⟨.number 1, .number 1, rfl⟩, name "x", literal ⟨.number 2, .number 2, rfl⟩]
      [.number 1, .number 3, .number 2] (by decide +kernel)
    exact (hrun.2.1 (by simp [Shape.Starved, shape])).1.trans
      (eq_ok_of_toOption_eq_some (by decide +kernel))

/-- Two literals behind a variable and a call are collected before the call is made, so its result
waits for the variable: with `x = 6`, `mean(x, mean(1), 2, 3)` is 3. -/
theorem run_callTokens_name_call :
    ∃ (host : Host Unit) (args : List Argument) (vs : List Value) (second third : Shape)
      (rest : List Shape),
      host = ⟨Bindings.empty.insert "x" (.number 6), Functions.none⟩ ∧
      args = [name "x", call "mean" [⟨.number 1, .number 1, rfl⟩],
        literal ⟨.number 2, .number 2, rfl⟩, literal ⟨.number 3, .number 3, rfl⟩] ∧
      args.map (value? host ()) = vs.map some ∧
      args.map shape = .name :: second :: third :: rest ∧ second ≠ .name ∧ third ≠ .name ∧
      (run host () (callTokens "mean" (args.map tokens))).outcome = .ok (.number 3) := by
  refine ⟨_, _, [.number 6, .number 1, .number 2, .number 3], _, _, _, rfl, rfl, ?_, rfl, ?_, ?_,
    eq_ok_of_toOption_eq_some ?_⟩ <;> decide +kernel

end Argument

end Formula
