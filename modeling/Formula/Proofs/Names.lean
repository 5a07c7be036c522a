import Formula.Proofs.Requests
import Formula.Proofs.Yield
import Formula.Session
import Mathlib.Algebra.Order.Group.Multiset

/-! # Every name is used once

A name is that of a function if an opening parenthesis follows it, and else that of a variable. No
rewriting changes this for the names that are left, so nothing is called or looked up twice, and when
a value is left, nothing has been left out. -/

namespace Formula

variable {σ : Type} {host : Host σ} {state state' : σ} {ts us window new : List Token} {t : Token}
  {r : Redex} {replacement : Replacement}

/-- What a name is there for. -/
inductive Use where
  | call
  | lookup
  deriving DecidableEq

/-- What a name is there for, by the token that follows it. -/
def Use.before : Option Token → Use
  | some .openParen => call
  | _ => lookup

theorem Use.before_of_ne (h : ts.head? ≠ some .openParen) : before ts.head? = lookup := by
  unfold before
  split
  · exact absurd ‹_› h
  · rfl

/-- The names of one use. -/
def namesFor (use : Use) : List Token → Multiset String
  | [] => 0
  | .name x :: ts => (if Use.before ts.head? = use then {x} else 0) + namesFor use ts
  | _ :: ts => namesFor use ts

/-- The names of one use that a run asks its host about, each as often as it does. -/
def namesAsked (host : Host σ) (state : σ) (ts : List Token) : Use → Multiset String
  | .call => ((calls host state ts).map Prod.fst : List String)
  | .lookup => (lookups host state ts : List String)

/-- The name of one use that a replacement asks about. -/
def Replacement.nameFor : Use → Replacement → Multiset String
  | .call, .result f _ => {f}
  | .lookup, .binding x => {x}
  | _, _ => 0

theorem namesAsked_eq_sum (host : Host σ) (state : σ) (ts : List Token) (use : Use) :
    namesAsked host state ts use
      = ((requests host state ts).map (Replacement.nameFor use)).sum := by
  cases use with
  | call =>
    rw [namesAsked, calls]
    induction requests host state ts with
    | nil => rfl
    | cons replacement rest ih =>
      rw [List.map_cons, List.sum_cons, ← ih]
      cases replacement with
      | tokens | binding => exact (zero_add _).symm
      | result f vs =>
        simp only [List.filterMap_cons, Replacement.call?, List.map_cons]
        rw [Replacement.nameFor, Multiset.singleton_add, Multiset.cons_coe]
  | lookup =>
    rw [namesAsked, lookups]
    induction requests host state ts with
    | nil => rfl
    | cons replacement rest ih =>
      rw [List.map_cons, List.sum_cons, ← ih]
      cases replacement with
      | tokens | result => exact (zero_add _).symm
      | binding x =>
        simp only [List.filterMap_cons, Replacement.lookup?]
        rw [Replacement.nameFor, Multiset.singleton_add, Multiset.cons_coe]

/-! ## Names side by side -/

/-- Only between a name and an opening parenthesis it matters what comes next. -/
theorem namesFor_append (use : Use) (ts : List Token)
    (h : us.head? ≠ some .openParen ∨ ∀ x, ts.getLast? ≠ some (.name x)) :
    namesFor use (ts ++ us) = namesFor use ts + namesFor use us := by
  induction ts with
  | nil => simp [namesFor]
  | cons t ts ih =>
    have hrest : namesFor use (ts ++ us) = namesFor use ts + namesFor use us := by
      cases ts with
      | nil => simp [namesFor]
      | cons u ts => exact ih (by simpa using h)
    cases t with
    | name x =>
      have hnext : Use.before (ts ++ us).head? = Use.before ts.head? := by
        cases ts with
        | cons u ts => rfl
        | nil =>
          rcases h with h | h
          · exact Use.before_of_ne h
          · exact absurd rfl (h x)
      rw [List.cons_append, namesFor, namesFor, hrest, hnext, add_assoc]
    | number | text | bool | operator | openParen | closeParen | comma | args => exact hrest

theorem namesFor_cons_scalar {v : Value} (h : t.scalar? = some v) (use : Use) (ts : List Token) :
    namesFor use (t :: ts) = namesFor use ts := by
  cases t <;> simp [namesFor, Token.scalar?] at h ⊢

/-! ## What a rewriting does to the names -/

/-- The tokens that stay whatever the host does. -/
def Replacement.fixed : Replacement → List Token
  | .tokens ts => ts
  | .result _ _ | .binding _ => []

theorem Replacement.Yields.namesFor_eq (use : Use) (h : replacement.Yields new) :
    namesFor use new = namesFor use replacement.fixed := by
  cases h with
  | tokens ts => rfl
  | result f vs ht | binding x ht => exact namesFor_cons_scalar ht use []

theorem Contracts.namesFor_eq (use : Use) (h : Contracts window replacement) :
    namesFor use window = replacement.nameFor use + namesFor use replacement.fixed := by
  cases h with
  | wrapArgument f ht => cases use <;> simp [namesFor, namesFor_cons_scalar ht, Use.before,
      Replacement.nameFor, Replacement.fixed]
  | pair ht hu =>
    simp [namesFor, namesFor_cons_scalar ht, namesFor_cons_scalar hu, Replacement.nameFor,
      Replacement.fixed]
  | append vs ht =>
    simp [namesFor, namesFor_cons_scalar ht, Replacement.nameFor, Replacement.fixed]
  | multiply | unwrap | operate | concatenate | wrapNothing | call | substitute =>
    cases use <;> rfl

/-- A window is cut out between names that keep their use. -/
theorem Redex.namesFor_program (hfind : find? ts = some r) (use : Use) :
    namesFor use ts = namesFor use r.before + (namesFor use r.window + namesFor use r.after) := by
  obtain ⟨replacement, hcontracts, -⟩ := exists_contracts hfind
  have hedges : ((r.window ++ r.after).head? ≠ some .openParen ∨
        ∀ x, r.before.getLast? ≠ some (.name x)) ∧
      (r.after.head? ≠ some .openParen ∨ ∀ x, r.window.getLast? ≠ some (.name x)) := by
    generalize hwindow : r.window = window at hcontracts
    cases hcontracts with
    | unwrap x => exact ⟨.inr (getLast?_before_ne_name hfind hwindow), .inr (by simp)⟩
    | substitute x => exact ⟨.inl (by simp), .inl (head?_after_ne_openParen hfind hwindow)⟩
    | @pair t u v w ht hu =>
      have hopen : t ≠ .openParen := by rintro rfl; cases ht
      have hname : ∀ x, u ≠ .name x := by rintro x rfl; cases hu
      exact ⟨.inl (by simpa using hopen), .inr (by simpa using hname)⟩
    | @append vs t v ht =>
      have hname : ∀ x, t ≠ .name x := by rintro x rfl; cases ht
      exact ⟨.inl (by simp), .inr (by simpa using hname)⟩
    | wrapArgument | multiply | operate | concatenate | wrapNothing | call =>
      exact ⟨.inl (by simp), .inr (by simp)⟩
  rw [(find?_eq_some hfind).2.1, program, namesFor_append use r.before hedges.1,
    namesFor_append use r.window hedges.2]

theorem Leaves.head?_ne (h : Leaves window new) (after : List Token) :
    (new ++ after).head? ≠ some .openParen := by
  cases h with
  | values ht =>
    rintro he
    cases he
    cases ht
  | wrapped f inner vs => simp

theorem Leaves.getLast?_ne (h : Leaves window new) (x : String) :
    new.getLast? ≠ some (.name x) := by
  cases h with
  | values ht =>
    rintro he
    cases he
    cases ht
  | wrapped f inner vs => simp

theorem Redex.namesFor_result (hfind : find? ts = some r)
    (hnew : r.rule.action.rewrite host state r.window = (.ok new, state')) (use : Use) :
    namesFor use (r.result new)
      = namesFor use r.before + (namesFor use new + namesFor use r.after) := by
  have hleaves := leaves hfind hnew
  rw [result, namesFor_append use r.before (.inl (hleaves.head?_ne r.after)),
    namesFor_append use new (.inr hleaves.getLast?_ne)]

/-! ## Along a run -/

/-- What a rewriting asks about was there before it, and all other names stay. -/
theorem Redex.namesFor_eq (hfind : find? ts = some r)
    (hreplacement : r.rule.action.replacement r.window = .ok replacement)
    (hcontracts : Contracts r.window replacement)
    (hnew : r.rule.action.rewrite host state r.window = (.ok new, state')) (use : Use) :
    namesFor use ts = replacement.nameFor use + namesFor use (r.result new) := by
  have hyields : replacement.Yields new := by
    rw [Action.rewrite_eq hreplacement] at hnew
    exact Replacement.yields_of_resolve hnew
  rw [namesFor_program hfind, hcontracts.namesFor_eq, namesFor_result hfind hnew,
    hyields.namesFor_eq, add_assoc, add_left_comm]

/-- What a run asks about is in the formula, and it is all that is there if a value is left. -/
theorem namesAsked_le_and_eq (host : Host σ) (state : σ) (ts : List Token) (use : Use) :
    namesAsked host state ts use ≤ namesFor use ts ∧
      ∀ v, (run host state ts).outcome = .ok v → namesAsked host state ts use = namesFor use ts := by
  rw [namesAsked_eq_sum]
  induction state, ts using run_induction host with
  | reduced state ts hr =>
    rw [requests_of_isReduced hr, run_of_isReduced hr]
    refine ⟨Multiset.zero_le _, ?_⟩
    intro v hv
    obtain ⟨t, rfl, ht⟩ := exists_scalar_of_finish hv
    rw [namesFor_cons_scalar ht]
    rfl
  | stuck state ts hr hfind =>
    rw [requests_of_find?_eq_none hr hfind, run_of_find?_eq_none hr hfind]
    exact ⟨Multiset.zero_le _, fun _ h => by cases h⟩
  | failed state ts r e state' hr hfind hnew =>
    obtain ⟨replacement, hreplacement, hcontracts⟩ := Redex.exists_replacement hfind
    rw [requests_of_rewrite_eq_error hr hfind hreplacement hnew, run_of_rewrite_eq_error hr hfind hnew]
    refine ⟨?_, fun _ h => by cases h⟩
    rw [Redex.namesFor_program hfind, hcontracts.namesFor_eq, List.map_singleton,
      List.sum_singleton]
    exact (Multiset.le_add_right _ _).trans
      ((Multiset.le_add_right _ _).trans (Multiset.le_add_left _ _))
  | rewritten state ts r new state' hr hfind hnew ih =>
    obtain ⟨replacement, hreplacement, hcontracts⟩ := Redex.exists_replacement hfind
    rw [requests_of_rewrite_eq_ok hr hfind hreplacement hnew, run_of_rewrite_eq_ok hr hfind hnew,
      List.map_cons, List.sum_cons, Redex.namesFor_eq hfind hreplacement hcontracts hnew]
    refine ⟨add_le_add_right ih.1 _, ?_⟩
    intro v hv
    rw [ih.2 v hv]

/-- What a line of a session can use. -/
def Session.asHost (s : Session) : Host Session where
  bindings := s.bindings
  functions := functions

/-- A line that has a value is a formula that has it. -/
theorem Session.exists_of_evaluate_eq_ok {s s' : Session} {line : String} {v : Value}
    (h : s.evaluate line = (.ok v, s')) :
    ∃ e, Expression.parse line = .ok e ∧ (run s.asHost s e.tokens).outcome = .ok v ∧
      (run s.asHost s e.tokens).state = s' := by
  rw [evaluate, Formula.evaluate] at h
  split at h
  · cases h
  · rename_i e he
    obtain ⟨hvalue, hstate⟩ := Prod.mk.inj h
    refine ⟨e, he, ?_, hstate⟩
    change (run s.asHost s e.tokens).outcome.mapError Error.eval = .ok v at hvalue
    cases houtcome : (run s.asHost s e.tokens).outcome with
    | error e => rw [houtcome] at hvalue; cases hvalue
    | ok w => rw [houtcome] at hvalue; cases hvalue; rfl

/-- **Every call and every variable of a formula is asked about at most once, and once if the formula
has a value.** The calls that are counted are those that are made: what they do one after another is
all that the run does to the state of its host. So every call in a line of a session that has a value
is made once, and the line does nothing else to the session. -/
theorem namesAsked_le_namesFor :
    (∀ (σ : Type) (host : Host σ) (state : σ) (ts : List Token),
      (∀ use, namesAsked host state ts use ≤ namesFor use ts) ∧
        (∀ v, (run host state ts).outcome = .ok v →
          ∀ use, namesAsked host state ts use = namesFor use ts) ∧
        (run host state ts).state = (calls host state ts).foldl host.perform state) ∧
      ∀ (s s' : Session) (line : String) (v : Value), s.evaluate line = (.ok v, s') →
        ∃ e, Expression.parse line = .ok e ∧
          namesAsked s.asHost s e.tokens .call = namesFor .call e.tokens ∧
          s' = (calls s.asHost s e.tokens).foldl s.asHost.perform s := by
  refine ⟨?_, ?_⟩
  · intro σ host state ts
    have hall := fun use => namesAsked_le_and_eq host state ts use
    exact ⟨fun use => (hall use).1, fun v hv use => (hall use).2 v hv, state_run host state ts⟩
  · intro s s' line v h
    obtain ⟨e, hparse, houtcome, hstate⟩ := Session.exists_of_evaluate_eq_ok h
    refine ⟨e, hparse, (namesAsked_le_and_eq s.asHost s e.tokens .call).2 v houtcome, ?_⟩
    rw [← hstate, state_run]

/-- A line that calls a function within the arguments of another one. -/
theorem namesAsked_define :
    ∃ e, Expression.parse "define(\"x\", mean(1, 3))" = .ok e ∧
      namesAsked (Session.start ∅).asHost (Session.start ∅) e.tokens .call = {"define", "mean"} ∧
      ((Session.start ∅).evaluate "define(\"x\", mean(1, 3))").2.bindings.get? "x"
        = some (.number 2) := by
  have hvalue : ((Session.start ∅).evaluate "define(\"x\", mean(1, 3))").1.toOption
      = some (.bool true) := by decide +kernel
  obtain ⟨e, hparse, hnames, -⟩ := namesAsked_le_namesFor.2 (Session.start ∅) _ _ (.bool true)
    (Prod.ext (eq_ok_of_toOption_eq_some hvalue) rfl)
  refine ⟨e, hparse, ?_, by decide +kernel⟩
  have htokens : (Expression.parse "define(\"x\", mean(1, 3))").toOption.map Expression.tokens
      = some [.name "define", .openParen, .text "x", .comma, .name "mean", .openParen, .number 1,
        .comma, .number 3, .closeParen, .closeParen] := by decide +kernel
  rw [hparse] at htokens
  rw [hnames, Option.some.inj htokens]
  decide

end Formula
