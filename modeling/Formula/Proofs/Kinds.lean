import Formula.Proofs.Names
import Mathlib.Data.List.Forall2

/-! # What the kinds of the tokens decide

Without calls a formula is driven by the kinds of its tokens. Two formulas whose tokens correspond
are rewritten in step: the same rules match at the same places, and what is put there corresponds
again (`Correspond.exists_rewrite`). So whether a formula has a value depends on no number in it. A
division by zero and a number beyond all bounds are numbers like any others. -/

namespace Formula

variable {σ τ : Type} {host : Host σ} {host' : Host τ} {b b' : Bindings} {t u : Token}
  {ts us before window after window' : List Token} {r : Redex} {rule : Rule}
  {replacement replacement' : Replacement}

/-! ## Windows of the same kinds -/

theorem Fits.of_kinds {slots : List Slot} (h : us.map Token.kind = ts.map Token.kind)
    (hfits : Fits slots ts) : Fits slots us := by
  induction slots generalizing ts us with
  | nil =>
    cases ts with
    | nil =>
      rw [List.map_nil, List.map_eq_nil_iff] at h
      rw [h]
      trivial
    | cons t ts => exact hfits.elim
  | cons slot slots ih =>
    cases ts with
    | nil => exact hfits.elim
    | cons t ts =>
      obtain ⟨u, us, rfl, hkind, hkinds⟩ := List.map_eq_cons_iff.mp h
      exact ⟨hkind ▸ hfits.1, ih hkinds hfits.2⟩

theorem Rule.blockedBy_of_kinds (h : us.map Token.kind = ts.map Token.kind) :
    rule.blockedBy us = rule.blockedBy ts := by
  cases ts with
  | nil => rw [List.map_eq_nil_iff.mp h]
  | cons t ts =>
    obtain ⟨u, us, rfl, hkind, -⟩ := List.map_eq_cons_iff.mp h
    unfold blockedBy
    cases rule.notBefore with
    | none => rfl
    | some k => simp only [hkind]

/-- A rule matches at a place of both sequences or of neither. -/
theorem Rule.Matches.of_kinds (h : us.map Token.kind = ts.map Token.kind)
    (hts : ts = before ++ (window ++ after)) (hm : rule.Matches window after) :
    ∃ before' window' after', us = before' ++ (window' ++ after') ∧ rule.Matches window' after' ∧
      before'.length = before.length := by
  rw [hts, List.map_append, List.map_append] at h
  obtain ⟨before', rest', rfl, hbefore, hrest⟩ := List.map_eq_append_iff.mp h
  obtain ⟨window', after', rfl, hwindow, hafter⟩ := List.map_eq_append_iff.mp hrest
  refine ⟨before', window', after', rfl, ⟨hm.fits.of_kinds hwindow, ?_⟩, ?_⟩
  · rw [Rule.blockedBy_of_kinds hafter]
    exact hm.clear
  · simpa using congrArg List.length hbefore

theorem Redex.find?_eq_none_of_kinds (h : us.map Token.kind = ts.map Token.kind)
    (hfind : find? ts = none) : find? us = none := by
  rw [find?_eq_none_iff] at hfind ⊢
  intro rule hrule before window after hus hm
  obtain ⟨before', window', after', hts, hm', -⟩ := hm.of_kinds h.symm hus
  exact hfind rule hrule before' window' after' hts hm'

/-! ## Formulas without calls -/

/-- No name is followed by an opening parenthesis. -/
def Callless (ts : List Token) : Prop :=
  ∀ before x after, ts ≠ before ++ .name x :: .openParen :: after

theorem Callless.tail (h : Callless (t :: ts)) : Callless ts := by
  intro before x after hts
  exact h (t :: before) x after (by rw [hts, List.cons_append])

theorem callless_of_not_mem (h : .openParen ∉ ts) : Callless ts := by
  intro before x after hts
  rw [hts] at h
  simp at h

theorem Callless.namesFor_call (h : Callless ts) : namesFor .call ts = 0 := by
  induction ts with
  | nil => rfl
  | cons t ts ih =>
    have hrest := ih h.tail
    cases t with
    | name x =>
      have hnext : ts.head? ≠ some .openParen := by
        intro hopen
        obtain ⟨after, rfl⟩ := List.head?_eq_some_iff.mp hopen
        exact h [] x after rfl
      rw [namesFor, Use.before_of_ne hnext, hrest]
      rfl
    | number | text | bool | operator | openParen | closeParen | comma | args => exact hrest

/-! ## Corresponding tokens -/

/-- Tokens of the same kind. If they are names, they are bound to scalars of the same kind. -/
structure Token.Corresponds (b b' : Bindings) (t u : Token) : Prop where
  kind_eq : t.kind = u.kind
  bound : ∀ x y, t = .name x → u = .name y →
    ∃ v w, b.get? x = some v ∧ b'.get? y = some w ∧ v.isScalar = true ∧ v.kind = w.kind

/-- Tokens that correspond one by one. -/
abbrev Correspond (b b' : Bindings) (ts us : List Token) : Prop :=
  List.Forall₂ (Token.Corresponds b b') ts us

theorem Token.corresponds_of_ne (h : t.kind = u.kind) (hname : t.kind ≠ .name) :
    t.Corresponds b b' u where
  kind_eq := h
  bound x y ht _ := by
    rw [ht] at hname
    exact absurd rfl hname

theorem Token.corresponds_number (x y : Float) : (number x).Corresponds b b' (number y) :=
  corresponds_of_ne rfl (by simp)

theorem Token.corresponds_operator (o : Operator) :
    (operator o).Corresponds b b' (operator o) :=
  corresponds_of_ne rfl (by simp)

theorem Token.corresponds_args (vs ws : List Value) : (args vs).Corresponds b b' (args ws) :=
  corresponds_of_ne rfl (by simp)

theorem Token.corresponds_of_get? {x y : String} {v w : Value} (hx : b.get? x = some v)
    (hy : b'.get? y = some w) (hscalar : v.isScalar = true) (hkind : v.kind = w.kind) :
    (Token.name x).Corresponds b b' (.name y) where
  kind_eq := rfl
  bound x' y' hx' hy' := by
    cases hx'
    cases hy'
    exact ⟨v, w, hx, hy, hscalar, hkind⟩

theorem Correspond.kinds_eq (h : Correspond b b' ts us) :
    us.map Token.kind = ts.map Token.kind := by
  induction h with
  | nil => rfl
  | cons htoken _ ih => rw [List.map_cons, List.map_cons, htoken.kind_eq, ih]

theorem Correspond.isReduced_eq (h : Correspond b b' ts us) : isReduced us = isReduced ts := by
  rw [isReduced, isReduced, List.Forall₂.length_eq h]

theorem Correspond.exists_append (h : Correspond b b' (ts ++ after) us) :
    ∃ us' after', us = us' ++ after' ∧ Correspond b b' ts us' ∧ Correspond b b' after after' := by
  have hfront := List.forall₂_take ts.length h
  have hback := List.forall₂_drop ts.length h
  rw [List.take_left] at hfront
  rw [List.drop_left] at hback
  exact ⟨_, _, (List.take_append_drop _ us).symm, hfront, hback⟩

/-- The matches that are rewritten next lie at the same place. -/
theorem Correspond.exists_find? (h : Correspond b b' ts us) (hfind : Redex.find? ts = some r) :
    ∃ r', Redex.find? us = some r' ∧ r'.rule = r.rule ∧ Correspond b b' r.before r'.before ∧
      Correspond b b' r.window r'.window ∧ Correspond b b' r.after r'.after := by
  obtain ⟨hts, hm, ⟨higher, lower, htable, hhigher⟩, hleast⟩ := Redex.find?_eq_some_iff.mp hfind
  have hkinds := h.kinds_eq
  rw [hts] at h
  obtain ⟨before', rest', rfl, hbefore, hrest⟩ := h.exists_append
  obtain ⟨window', after', rfl, hwindow, hafter⟩ := hrest.exists_append
  refine ⟨⟨r.rule, before', window', after'⟩, Redex.find?_eq_some_iff.mpr ⟨rfl, ?_, ?_, ?_⟩, rfl,
    hbefore, hwindow, hafter⟩
  · refine ⟨hm.fits.of_kinds hwindow.kinds_eq, ?_⟩
    rw [Rule.blockedBy_of_kinds hafter.kinds_eq]
    exact hm.clear
  · refine ⟨higher, lower, htable, ?_⟩
    intro rule hrule front middle back hus hmatches
    obtain ⟨front', middle', back', hts', hmatches', -⟩ := hmatches.of_kinds hkinds.symm hus
    exact hhigher rule hrule front' middle' back' hts' hmatches'
  · intro front middle back hus hmatches
    obtain ⟨front', middle', back', hts', hmatches', hlength⟩ := hmatches.of_kinds hkinds.symm hus
    rw [← hlength, ← List.Forall₂.length_eq hbefore]
    exact hleast front' middle' back' hts' hmatches'

/-! ## What takes their place -/

theorem Value.kind_eq_of_ofScalar? {v w : Value} (ht : Token.ofScalar? v = some t)
    (hu : Token.ofScalar? w = some u) (h : v.kind = w.kind) : t.kind = u.kind := by
  cases v <;> cases w <;> cases h <;> cases ht <;> cases hu <;> rfl

theorem Token.Corresponds.of_name {x y : String} (h : (Token.name x).Corresponds b b' (.name y)) :
    ∃ v w t u, b.get? x = some v ∧ b'.get? y = some w ∧ Token.ofScalar? v = some t ∧
      Token.ofScalar? w = some u ∧ t.Corresponds b b' u := by
  obtain ⟨v, w, hv, hw, hscalar, hkind⟩ := h.bound x y rfl rfl
  have hscalar' : w.isScalar = true := by
    cases v <;> cases w <;> cases hkind <;> first | rfl | cases hscalar
  obtain ⟨t, ht, hvalue⟩ := Token.exists_of_isScalar hscalar
  obtain ⟨u, hu, -⟩ := Token.exists_of_isScalar hscalar'
  have hne : t.kind ≠ .name := by
    cases t <;> simp_all [Token.scalar?]
  exact ⟨v, w, t, u, hv, hw, ht, hu,
    Token.corresponds_of_ne (Value.kind_eq_of_ofScalar? ht hu hkind) hne⟩

/-- Corresponding windows are contracted to corresponding tokens, unless they are those of calls. -/
theorem Contracts.corresponds (h : Contracts window replacement)
    (h' : Contracts window' replacement')
    (hwindow : Correspond host.bindings host'.bindings window window')
    (hcalls : namesFor .call window = 0) (state : σ) (state' : τ) :
    ∃ t u, replacement.resolve host state = (.ok [t], state) ∧
      replacement'.resolve host' state' = (.ok [u], state') ∧
      t.Corresponds host.bindings host'.bindings u := by
  have hkinds := hwindow.kinds_eq
  cases h with
  | wrapArgument | wrapNothing | call => simp [namesFor, Use.before] at hcalls
  | multiply x y =>
    cases h' with
    | multiply => exact ⟨_, _, rfl, rfl, Token.corresponds_number _ _⟩
    | _ => simp at hkinds
  | unwrap x =>
    cases h' with
    | unwrap => exact ⟨_, _, rfl, rfl, Token.corresponds_number _ _⟩
    | _ => simp at hkinds
  | operate x o y =>
    cases h' with
    | operate => exact ⟨_, _, rfl, rfl, Token.corresponds_number _ _⟩
    | _ => simp at hkinds
  | pair | append | concatenate =>
    cases h' with
    | pair | append | concatenate => exact ⟨_, _, rfl, rfl, Token.corresponds_args _ _⟩
    | _ => simp at hkinds
  | substitute x =>
    cases h' with
    | substitute y =>
      cases hwindow with
      | cons hx _ =>
        obtain ⟨v, w, t, u, hv, hw, ht, hu, hcorresponds⟩ := hx.of_name
        exact ⟨t, u, Replacement.resolve_binding hv ht, Replacement.resolve_binding hw hu,
          hcorresponds⟩
    | _ => simp at hkinds

/-! ## One rewriting -/

/-- **Corresponding tokens are rewritten in step.** Neither rewriting fails, and neither changes the
state of its host. -/
theorem Correspond.exists_rewrite (h : Correspond host.bindings host'.bindings ts us)
    (hcalls : namesFor .call ts = 0) (hfind : Redex.find? ts = some r) (state : σ) (state' : τ) :
    ∃ r' new new', Redex.find? us = some r' ∧ r'.rule = r.rule ∧
      r'.before.length = r.before.length ∧
      r.rule.action.rewrite host state r.window = (.ok new, state) ∧
      r'.rule.action.rewrite host' state' r'.window = (.ok new', state') ∧
      Correspond host.bindings host'.bindings (r.result new) (r'.result new') := by
  obtain ⟨r', hfind', hrule, hbefore, hwindow, hafter⟩ := h.exists_find? hfind
  obtain ⟨replacement, hcontracts, hrewrite⟩ := Redex.exists_contracts hfind
  obtain ⟨replacement', hcontracts', hrewrite'⟩ := Redex.exists_contracts hfind'
  have hnone : namesFor .call r.window = 0 := by
    rw [Redex.namesFor_program hfind] at hcalls
    have hinner : namesFor .call r.window + namesFor .call r.after = 0 :=
      Multiset.le_zero.mp (hcalls ▸ Multiset.le_add_left _ _)
    exact Multiset.le_zero.mp (hinner ▸ Multiset.le_add_right _ _)
  obtain ⟨t, u, hresolve, hresolve', hcorresponds⟩ :=
    hcontracts.corresponds hcontracts' hwindow hnone state state'
  refine ⟨r', [t], [u], hfind', hrule, (List.Forall₂.length_eq hbefore).symm, ?_, ?_, ?_⟩
  · rw [hrewrite, hresolve]
  · rw [hrewrite', hresolve']
  · exact List.rel_append hbefore (.cons hcorresponds hafter)

/-- No call comes about. -/
theorem Redex.namesFor_call_result {state state' : σ} {new : List Token}
    (hcalls : namesFor .call ts = 0) (hfind : find? ts = some r)
    (hnew : r.rule.action.rewrite host state r.window = (.ok new, state')) :
    namesFor .call (r.result new) = 0 := by
  obtain ⟨replacement, hreplacement, hcontracts⟩ := exists_replacement hfind
  rw [namesFor_eq hfind hreplacement hcontracts hnew] at hcalls
  exact Multiset.le_zero.mp (hcalls ▸ Multiset.le_add_left _ _)

/-! ## Whole runs -/

/-- A rewriting, without the contents of the tokens. -/
def Step.outline (s : Step) : Rule × Nat × List Token.Kind :=
  (s.rule, s.start, s.program.map Token.kind)

/-- Values of the same kind, or the same error, which is none of a call or a variable. -/
inductive EndsAlike : Except EvalError Value → Except EvalError Value → Prop
  | value {v w : Value} (h : v.kind = w.kind) : EndsAlike (.ok v) (.ok w)
  | emptyFormula : EndsAlike (.error .emptyFormula) (.error .emptyFormula)
  | stuck : EndsAlike (.error .stuck) (.error .stuck)
  | notScalar (k : Token.Kind) : EndsAlike (.error (.notScalar k)) (.error (.notScalar k))

theorem endsAlike_finish_singleton (h : t.kind = u.kind) : EndsAlike (finish [t]) (finish [u]) := by
  cases t <;> cases u <;> cases h <;> first | exact .value rfl | exact .notScalar _

theorem endsAlike_finish (h : Correspond b b' ts us) (hr : isReduced ts = true) :
    EndsAlike (finish ts) (finish us) := by
  cases h with
  | nil => exact .emptyFormula
  | @cons t u ts us htoken htokens =>
    cases htokens with
    | cons _ _ => cases hr
    | nil => exact endsAlike_finish_singleton htoken.kind_eq

/-- Two runs of corresponding tokens stay in step. -/
theorem run_in_step (h : Correspond host.bindings host'.bindings ts us)
    (hcalls : namesFor .call ts = 0) (state : σ) (state' : τ) :
    (run host state ts).steps.map Step.outline = (run host' state' us).steps.map Step.outline ∧
      EndsAlike (run host state ts).outcome (run host' state' us).outcome := by
  induction state, ts using run_induction host generalizing us state' with
  | reduced state ts hr =>
    have hr' : isReduced us = true := h.isReduced_eq.trans hr
    rw [run_of_isReduced hr, run_of_isReduced hr']
    exact ⟨rfl, endsAlike_finish h hr⟩
  | stuck state ts hr hfind =>
    have hr' : isReduced us = false := h.isReduced_eq.trans hr
    rw [run_of_find?_eq_none hr hfind,
      run_of_find?_eq_none hr' (Redex.find?_eq_none_of_kinds h.kinds_eq hfind)]
    exact ⟨rfl, .stuck⟩
  | failed state ts r e later hr hfind hnew =>
    obtain ⟨r', new, new', -, -, -, hok, -⟩ := h.exists_rewrite hcalls hfind state state'
    rw [hnew] at hok
    cases hok
  | rewritten state ts r new later hr hfind hnew ih =>
    obtain ⟨r', new₁, new', hfind', hrule, hstart, hok, hok', hresult⟩ :=
      h.exists_rewrite hcalls hfind state state'
    rw [hnew] at hok
    cases hok
    have hr' : isReduced us = false := h.isReduced_eq.trans hr
    obtain ⟨hsteps, houtcome⟩ :=
      ih hresult (Redex.namesFor_call_result hcalls hfind hnew) state'
    rw [run_of_rewrite_eq_ok hr hfind hnew, run_of_rewrite_eq_ok hr' hfind' hok']
    refine ⟨?_, houtcome⟩
    have houtline : (r'.step new').outline = (r.step new).outline := by
      show (r'.rule, r'.before.length, (r'.result new').map Token.kind)
        = (r.rule, r.before.length, (r.result new).map Token.kind)
      rw [hrule, hstart, hresult.kinds_eq]
    rw [List.map_cons, List.map_cons, hsteps, houtline]

/-- **Without calls, the kinds of the tokens drive a run.** Formulas of the same kinds, whose names
are bound to scalars of the same kinds, are rewritten by the same rules at the same places, and both
have values of the same kind or both fail with the same error. -/
theorem run_alike_of_same_kinds (host : Host σ) (host' : Host τ) (state : σ) (state' : τ)
    (ts us : List Token) (h : Correspond host.bindings host'.bindings ts us)
    (hcalls : Callless ts) :
    (run host state ts).steps.map Step.outline = (run host' state' us).steps.map Step.outline ∧
      EndsAlike (run host state ts).outcome (run host' state' us).outcome :=
  run_in_step h hcalls.namesFor_call state state'

/-- A division by zero and one by another number. -/
theorem run_alike_of_same_kinds_division :
    ∃ (host host' : Host Unit) (ts us : List Token),
      host = ⟨(Bindings.empty.insert "x" (.number 1)).insert "y" (.number 0), Functions.none⟩ ∧
      host' = ⟨(Bindings.empty.insert "u" (.number 0)).insert "v" (.number 3), Functions.none⟩ ∧
      ts = [.name "x", .operator .div, .name "y", .operator .sub, .number 1] ∧
      us = [.name "u", .operator .div, .name "v", .operator .sub, .number 2] ∧
      Correspond host.bindings host'.bindings ts us ∧ Callless ts ∧
      (run host () ts).steps.map Step.outline = (run host' () us).steps.map Step.outline ∧
      EndsAlike (run host () ts).outcome (run host' () us).outcome := by
  have hx : (Token.name "x").Corresponds
      ((Bindings.empty.insert "x" (.number 1)).insert "y" (.number 0))
      ((Bindings.empty.insert "u" (.number 0)).insert "v" (.number 3)) (.name "u") :=
    Token.corresponds_of_get? (v := .number 1) (w := .number 0) (by decide +kernel)
      (by decide +kernel) rfl rfl
  have hy : (Token.name "y").Corresponds
      ((Bindings.empty.insert "x" (.number 1)).insert "y" (.number 0))
      ((Bindings.empty.insert "u" (.number 0)).insert "v" (.number 3)) (.name "v") :=
    Token.corresponds_of_get? (v := .number 0) (w := .number 3) (by decide +kernel)
      (by decide +kernel) rfl rfl
  have hts : Correspond ((Bindings.empty.insert "x" (.number 1)).insert "y" (.number 0))
      ((Bindings.empty.insert "u" (.number 0)).insert "v" (.number 3))
      [.name "x", .operator .div, .name "y", .operator .sub, .number 1]
      [.name "u", .operator .div, .name "v", .operator .sub, .number 2] :=
    .cons hx <| .cons (Token.corresponds_operator _) <| .cons hy <|
      .cons (Token.corresponds_operator _) <| .cons (Token.corresponds_number _ _) .nil
  have hcalls : Callless [.name "x", .operator .div, .name "y", .operator .sub, .number 1] :=
    callless_of_not_mem (by simp)
  exact ⟨⟨_, _⟩, ⟨_, _⟩, _, _, rfl, rfl, rfl, rfl, hts, hcalls,
    run_alike_of_same_kinds _ _ () () _ _ hts hcalls⟩

end Formula
