import Formula.Bindings
import Formula.Contraction
import Formula.Functions

/-!
# Reduction

A formula is reduced by rewriting one window at a time, until one token is left or no rule applies.
`Redex.find?` chooses the window: the first rule of the table that matches anywhere, at its
leftmost match. Not every rewriting makes the tokens fewer, so `run` ends by another measure:
`work` counts what is left to be done, and every rule of the table lowers it by one at least.
-/

namespace Formula

/-- The variables and functions that an evaluation can use. -/
structure Host (σ : Type) where
  bindings : Bindings
  functions : Functions σ

/-! ## The next window -/

/-- A match of a rule inside a sequence of tokens. -/
structure Redex where
  rule : Rule
  before : List Token
  window : List Token
  after : List Token
  deriving DecidableEq, Repr

namespace Redex

/-- The whole sequence. -/
def program (r : Redex) : List Token := r.before ++ (r.window ++ r.after)

/-- The leftmost match of a rule. -/
def leftmost? (rule : Rule) : List Token → Option Redex
  | [] => none
  | t :: ts =>
    match rule.window? (t :: ts) with
    | some (window, after) => some { rule, before := [], window, after }
    | none => (leftmost? rule ts).map fun r => { r with before := t :: r.before }

/-- The match that is rewritten next. -/
def find? (ts : List Token) : Option Redex := Rule.table.findSome? fun rule => leftmost? rule ts

theorem leftmost?_eq_some {rule : Rule} {ts : List Token} {r : Redex}
    (h : leftmost? rule ts = some r) :
    r.rule = rule ∧ ts = r.program ∧ Fits rule.pattern r.window := by
  induction ts generalizing r with
  | nil => simp [leftmost?] at h
  | cons t ts ih =>
    simp only [leftmost?] at h
    split at h
    · rename_i hw
      simp only [Option.some.injEq] at h
      subst h
      obtain ⟨hts, hfits⟩ := Rule.window?_eq_some hw
      exact ⟨rfl, by simpa [program] using hts, hfits⟩
    · obtain ⟨inner, hinner, rfl⟩ := Option.map_eq_some_iff.mp h
      obtain ⟨hrule, hts, hfits⟩ := ih hinner
      exact ⟨hrule, by rw [hts]; simp [program], hfits⟩

theorem find?_eq_some {ts : List Token} {r : Redex} (h : find? ts = some r) :
    r.rule ∈ Rule.table ∧ ts = r.program ∧ Fits r.rule.pattern r.window := by
  obtain ⟨rule, hmem, hr⟩ := List.exists_of_findSome?_eq_some h
  obtain ⟨hrule, hts, hfits⟩ := leftmost?_eq_some hr
  exact ⟨hrule ▸ hmem, hts, hrule ▸ hfits⟩

end Redex

/-! ## What takes its place -/

/-- The literal token of a value that has to be a scalar. -/
def Replacement.literal (v : Value) (misplaced : Value.Kind → EvalError) :
    Except EvalError (List Token) :=
  match Token.ofScalar? v with
  | some t => .ok [t]
  | none => .error (misplaced v.kind)

/-- The tokens that a replacement stands for. -/
def Replacement.resolve {σ : Type} (host : Host σ) (state : σ) :
    Replacement → Except EvalError (List Token) × σ
  | .tokens ts => (.ok ts, state)
  | .result name args =>
    match host.functions.call name args state with
    | (.ok v, state) => (literal v (.badResult name), state)
    | (.error e, state) => (.error e, state)
  | .binding name =>
    match host.bindings.get? name with
    | some v => (literal v fun kind => .badVariable name (some kind), state)
    | none => (.error (.badVariable name none), state)

/-- What an action makes of a window. -/
def Action.rewrite {σ : Type} (action : Action) (host : Host σ) (state : σ) (window : List Token) :
    Except EvalError (List Token) × σ :=
  match action.replacement window with
  | .ok replacement => replacement.resolve host state
  | .error misfit => (.error (.internal misfit), state)

theorem Replacement.exists_of_literal_eq_ok {v : Value} {misplaced : Value.Kind → EvalError}
    {new : List Token} (h : literal v misplaced = .ok new) :
    ∃ t, new = [t] ∧ t.scalar? = some v := by
  cases v <;> simp [literal, Token.ofScalar?] at h <;> subst h <;> exact ⟨_, rfl, rfl⟩

/-! ## The work that is left -/

/-- The work that is left in tokens that come right after collected arguments, or do not. A closing
parenthesis counts until the arguments before it have been collected. -/
def work (afterArgs : Bool) : List Token → Nat
  | [] => 0
  | .name _ :: ts | .operator _ :: ts | .comma :: ts => work false ts + 1
  | .closeParen :: ts => work false ts + if afterArgs then 0 else 1
  | .args _ :: ts => work true ts
  | .number _ :: ts | .text _ :: ts | .bool _ :: ts | .openParen :: ts => work false ts

theorem work_true_le (ts : List Token) : work true ts ≤ work false ts := by
  cases ts with
  | nil => simp [work]
  | cons t ts => cases t <;> simp [work]

theorem work_append_lt (before : List Token) {new old : List Token}
    (h : ∀ afterArgs, work afterArgs new < work afterArgs old) (afterArgs : Bool) :
    work afterArgs (before ++ new) < work afterArgs (before ++ old) := by
  induction before generalizing afterArgs with
  | nil => exact h afterArgs
  | cons t before ih => cases t <;> simp [work, ih]

theorem work_scalar {t : Token} {v : Value} (h : t.scalar? = some v) (afterArgs : Bool)
    (ts : List Token) : work afterArgs (t :: ts) = work false ts := by
  cases t <;> simp_all [Token.scalar?, work]

theorem work_resolve_lt {σ : Type} {host : Host σ} {state : σ} {window new : List Token}
    {r : Replacement} (hr : Contracts window r) (h : (r.resolve host state).1 = .ok new)
    (after : List Token) (afterArgs : Bool) :
    work afterArgs (new ++ after) < work afterArgs (window ++ after) := by
  have hafter := work_true_le after
  cases hr with
  | wrapArgument f ht =>
    simp only [Replacement.resolve, Except.ok.injEq] at h
    subst h
    simp [work, work_scalar ht]
  | multiply x y | unwrap x | operate x o y | concatenate vs ws | wrapNothing f =>
    simp only [Replacement.resolve, Except.ok.injEq] at h
    subst h
    simp [work]
  | pair ht hu =>
    simp only [Replacement.resolve, Except.ok.injEq] at h
    subst h
    simp [work, work_scalar ht, work_scalar hu]
    omega
  | append vs ht =>
    simp only [Replacement.resolve, Except.ok.injEq] at h
    subst h
    simp [work, work_scalar ht]
    omega
  | call f vs =>
    simp only [Replacement.resolve] at h
    split at h
    · obtain ⟨t, rfl, ht⟩ := Replacement.exists_of_literal_eq_ok h
      simp [work, work_scalar ht]
    · simp at h
  | substitute x =>
    simp only [Replacement.resolve] at h
    split at h
    · obtain ⟨t, rfl, ht⟩ := Replacement.exists_of_literal_eq_ok (by simpa only using h)
      simp [work, work_scalar ht]
    · simp at h

/-- **Every rewriting leaves less work.** -/
theorem Redex.work_rewrite_lt {σ : Type} {host : Host σ} {state : σ} {ts new : List Token}
    {r : Redex} (hfind : find? ts = some r)
    (h : (r.rule.action.rewrite host state r.window).1 = .ok new) :
    work false (r.before ++ (new ++ r.after)) < work false ts := by
  obtain ⟨hrule, rfl, hfits⟩ := find?_eq_some hfind
  obtain ⟨replacement, hreplacement, hcontracts⟩ := contracts_of_fits hrule hfits
  rw [Action.rewrite, hreplacement] at h
  exact work_append_lt _ (work_resolve_lt hcontracts h r.after) false

/-! ## Runs -/

/-- The value of what is left when a reduction ends. -/
def finish : List Token → Except EvalError Value
  | [] => .error .emptyFormula
  | [t] =>
    match t.scalar? with
    | some v => .ok v
    | none => .error (.notScalar t.kind)
  | _ => .error .stuck

def isReduced (ts : List Token) : Bool := ts.length ≤ 1

/-- A rewriting: its rule, where its window began, and all tokens after it. -/
structure Step where
  rule : Rule
  start : Nat
  program : List Token
  deriving DecidableEq, Repr

/-- A whole reduction: its steps, how it ended, and the state in which it left the host. -/
structure Run (σ : Type) where
  steps : List Step
  outcome : Except EvalError Value
  state : σ

/-- Reduces a sequence of tokens. A rewriting that fails is no step and ends the run. -/
def run {σ : Type} (host : Host σ) (state : σ) (program : List Token) : Run σ :=
  if isReduced program then { steps := [], outcome := finish program, state }
  else
    match hfind : Redex.find? program with
    | none => { steps := [], outcome := .error .stuck, state }
    | some r =>
      match hnew : r.rule.action.rewrite host state r.window with
      | (.error e, state) => { steps := [], outcome := .error e, state }
      | (.ok new, state) =>
        let next := r.before ++ (new ++ r.after)
        have : work false next < work false program := r.work_rewrite_lt hfind (by rw [hnew])
        let later := run host state next
        { later with steps := { rule := r.rule, start := r.before.length, program := next }
                                :: later.steps }
termination_by work false program

end Formula
