import Formula.Proofs.Agreement
import Formula.Proofs.Waiting

/-! # Parentheses around a number

The first three rules deal with a single literal in parentheses: it is an argument, a factor, or the
parentheses are redundant. These rules are used up before any other one is tried, and what they leave
is found by reading the tokens once from the left with a stack (`condense`). A step of theirs does not
change what is found (`Redex.condensed_or`), so a run ends as that of the condensed tokens does
(`run_condense`), and two formulas that are condensed to the same tokens end alike. -/

namespace Formula

variable {σ : Type} {host : Host σ} {state : σ} {ts stack before after : List Token} {x : Float}
  {r : Redex} {rule : Rule}

/-! ## Reading from the left -/

/-- The stack after a closing parenthesis, the last token first. Parentheses around a single literal
are dealt with by what stands in front of them. -/
def close : List Token → List Token
  | t :: .openParen :: .name f :: stack =>
    match t.scalar? with
    | some v => .closeParen :: .args [v] :: .openParen :: .name f :: stack
    | none => .closeParen :: t :: .openParen :: .name f :: stack
  | .number y :: .openParen :: .number x :: stack => .number (Operator.mul.apply x y) :: stack
  | .number x :: .openParen :: stack => .number x :: stack
  | stack => .closeParen :: stack

/-- Puts the next token on the stack. -/
def shift (stack : List Token) : Token → List Token
  | .closeParen => close stack
  | t => t :: stack

/-- What the first three rules leave of the tokens. -/
def condense (ts : List Token) : List Token := (ts.foldl shift []).reverse

theorem shift_of_ne {t : Token} (h : t ≠ .closeParen) : shift stack t = t :: stack := by
  cases t <;> first | rfl | exact absurd rfl h

/-- A token makes neither an argument nor a factor of the parentheses that follow it. -/
def Token.Detached (t : Token) : Prop := t.kind ≠ .name ∧ t.kind ≠ .number

theorem close_number (h : ∀ t ∈ stack.head?, t.Detached) :
    close (.number x :: .openParen :: stack) = .number x :: stack := by
  cases stack with
  | nil => rfl
  | cons t stack =>
    obtain ⟨hname, hnumber⟩ := h t rfl
    cases t <;> first | rfl | exact absurd rfl hname | exact absurd rfl hnumber

/-! ## Tokens with nothing left for these rules -/

/-- No parentheses are around a single number, and none that belong to a call are around a single
literal. -/
structure Condensed (ts : List Token) : Prop where
  unwrapped : Unwrapped ts
  collected : ∀ f t v, t.scalar? = some v → ¬ [.name f, .openParen, t, .closeParen] <:+: ts

theorem Condensed.close_eq (h : Condensed (stack.reverse ++ .closeParen :: after)) :
    close stack = .closeParen :: stack := by
  fun_cases close stack with
  | case1 t f stack v hv => exact absurd ⟨stack.reverse, after, by simp⟩ (h.collected f t v hv)
  | case2 => rfl
  | case3 y x stack =>
    exact absurd ⟨stack.reverse ++ [.number x], after, by simp⟩ (h.unwrapped y)
  | case4 x stack => exact absurd ⟨stack.reverse, after, by simp⟩ (h.unwrapped x)
  | case5 => rfl

theorem Condensed.foldl_shift_append (h : Condensed (stack.reverse ++ ts)) :
    ts.foldl shift stack = ts.reverse ++ stack := by
  induction ts generalizing stack with
  | nil => rfl
  | cons t ts ih =>
    have hshift : shift stack t = t :: stack := by
      by_cases ht : t = .closeParen
      · subst ht
        exact h.close_eq
      · exact shift_of_ne ht
    rw [List.foldl_cons, hshift, ih (by simpa using h)]
    simp

theorem Condensed.foldl_shift (h : Condensed ts) : ts.foldl shift [] = ts.reverse := by
  have hfold : ts.foldl shift [] = ts.reverse ++ [] := foldl_shift_append h
  rw [hfold, List.append_nil]

/-- **What is condensed is left as it is.** -/
theorem Condensed.condense_eq (h : Condensed ts) : condense ts = ts := by
  rw [condense, h.foldl_shift, List.reverse_reverse]

/-! ## The first three rules -/

theorem condensed_of_forall
    (hunwrap : ∀ before window after, ts = before ++ (window ++ after) →
      ¬ Rule.redundantParentheses.Matches window after)
    (hwrap : ∀ before window after, ts = before ++ (window ++ after) →
      ¬ Rule.singleArgument.Matches window after) : Condensed ts where
  unwrapped := by
    rintro x ⟨before, after, rfl⟩
    exact hunwrap before _ after (by simp) (Rule.matches_redundantParentheses x)
  collected := by
    rintro f t v hv ⟨before, after, rfl⟩
    exact hwrap before _ after (by simp) (Rule.matches_singleArgument f hv)

theorem condensed_of_find?_eq_none (h : Redex.find? ts = none) : Condensed ts := by
  rw [Redex.find?_eq_none_iff] at h
  exact condensed_of_forall (h _ (by decide)) (h _ (by decide))

theorem condensed_of_isReduced (h : isReduced ts = true) : Condensed ts := by
  have hlength : ts.length ≤ 1 := of_decide_eq_true h
  have hshort : ∀ us : List Token, 1 < us.length → ¬ us <:+: ts := by
    intro us hus hinfix
    exact absurd hinfix.length_le (by omega)
  exact ⟨fun x => hshort _ (by simp), fun f t v _ => hshort _ (by simp)⟩

namespace Redex

/-- If a later rule is used, the first three have been used up. -/
theorem condensed_of_find? (hfind : find? ts = some r) (hrule : rule ∈ Rule.table)
    (hfits : Fits rule.pattern r.window) (hlate : 2 < rule.priority) : Condensed ts := by
  obtain rfl := rule_eq hfind hrule hfits
  refine condensed_of_forall ?_ ?_
  · intro before window after hts hm
    have hle : r.rule.priority ≤ 2 := find?_priority hfind hts hm
    omega
  · intro before window after hts hm
    have hle : r.rule.priority ≤ 0 := find?_priority hfind hts hm
    omega

/-- In front of parentheses that are taken away, the first three rules have been used up. -/
theorem condensed_before (hfind : find? ts = some r)
    (hwindow : r.window = [.openParen, .number x, .closeParen]) : Condensed r.before := by
  have hrule := rule_eq_redundantParentheses hfind hwindow
  have hts : ∀ {before window after}, r.before = before ++ (window ++ after) →
      ts = before ++ (window ++ (after ++ (r.window ++ r.after))) := by
    intro before window after h
    rw [(find?_eq_some hfind).2.1, program, h]
    simp
  refine condensed_of_forall ?_ ?_
  · intro before window after hbefore hm
    have hle := find?_leftmost hfind (hts hbefore) (hrule ▸ ⟨hm.fits, rfl⟩)
    have hwidth : window.length = 3 := hm.fits.length_eq
    have hlength := congrArg List.length hbefore
    simp only [List.length_append] at hlength
    omega
  · intro before window after hbefore hm
    have hle := find?_priority hfind (hts hbefore) ⟨hm.fits, rfl⟩
    rw [hrule] at hle
    exact absurd hle (by decide)

/-- Parentheses that are taken away are not those of a call or of a product: what is in front of
them is dealt with first. -/
theorem detached_of_find? (hfind : find? ts = some r)
    (hwindow : r.window = [.openParen, .number x, .closeParen]) :
    ∀ t ∈ r.before.getLast?, t.Detached := by
  intro t ht
  obtain ⟨front, hbefore⟩ := List.getLast?_eq_some_iff.mp ht
  refine ⟨?_, ?_⟩
  · intro hkind
    obtain ⟨f, rfl⟩ := Token.exists_name hkind
    exact getLast?_before_ne_name hfind hwindow f ht
  · intro hkind
    obtain ⟨y, rfl⟩ := Token.exists_number hkind
    have hts : ts = front ++ ([.number y, .openParen, .number x, .closeParen] ++ r.after) := by
      rw [(find?_eq_some hfind).2.1, program, hwindow, hbefore]
      simp
    have hle := find?_priority hfind hts (Rule.matches_implicitMultiplication y x)
    rw [rule_eq_redundantParentheses hfind hwindow] at hle
    exact absurd hle (by decide)

theorem condense_result {new : List Token} (hfind : find? ts = some r)
    (hshift : r.window.foldl shift (r.before.foldl shift [])
      = new.foldl shift (r.before.foldl shift [])) : condense (r.result new) = condense ts := by
  rw [(find?_eq_some hfind).2.1, condense, condense, program, result, List.foldl_append,
    List.foldl_append, List.foldl_append, List.foldl_append, hshift]

/-- **A step of the first three rules changes nothing in what they leave.** It does not fail, and
nothing but the tokens is changed. If there is no such step, the tokens are condensed. -/
theorem condensed_or (hfind : find? ts = some r) :
    Condensed ts ∨ ∃ new, (∀ {σ : Type} (host : Host σ) (state : σ),
        r.rule.action.rewrite host state r.window = (.ok new, state)) ∧
      condense (r.result new) = condense ts := by
  obtain ⟨replacement, hcontracts, hrewrite⟩ := exists_contracts hfind
  generalize hwindow : r.window = window at hcontracts hrewrite
  have late : ∀ {rule : Rule}, rule ∈ Rule.table → rule.Matches window [] → 2 < rule.priority →
      Condensed ts :=
    fun hrule hm hlate => condensed_of_find? hfind hrule (hwindow ▸ hm.fits) hlate
  cases hcontracts with
  | @wrapArgument f t v hv =>
    refine .inr ⟨_, hrewrite, condense_result hfind ?_⟩
    rw [hwindow]
    cases t <;> cases hv <;> rfl
  | multiply x y =>
    refine .inr ⟨_, hrewrite, condense_result hfind ?_⟩
    rw [hwindow]
    rfl
  | unwrap x =>
    refine .inr ⟨_, hrewrite, condense_result hfind ?_⟩
    rw [hwindow, (condensed_before hfind hwindow).foldl_shift]
    refine close_number ?_
    rw [List.head?_reverse]
    exact detached_of_find? hfind hwindow
  | operate x o y =>
    exact .inl (late (Rule.ofOperator_mem o) (Rule.matches_ofOperator o x y) (by cases o <;> decide))
  | pair ht hu => exact .inl (late (by decide) (Rule.matches_argumentPair ht hu) (by decide))
  | append vs ht => exact .inl (late (by decide) (Rule.matches_appendArgument vs ht) (by decide))
  | concatenate vs ws =>
    exact .inl (late (by decide) (Rule.matches_concatenateArguments vs ws) (by decide))
  | wrapNothing f => exact .inl (late (by decide) (Rule.matches_noArguments f) (by decide))
  | call f vs => exact .inl (late (by decide) (Rule.matches_call f vs) (by decide))
  | substitute x =>
    exact .inl (late (by decide) (Rule.matches_substitution x (by simp)) (by decide))

end Redex

/-! ## Whole runs -/

/-- **A run ends as that of the condensed tokens does**, and leaves its host in the same state. -/
theorem run_condense (host : Host σ) (state : σ) (ts : List Token) :
    (run host state (condense ts)).outcome = (run host state ts).outcome ∧
      (run host state (condense ts)).state = (run host state ts).state := by
  induction state, ts using run_induction host with
  | reduced state ts hr =>
    rw [(condensed_of_isReduced hr).condense_eq]
    exact ⟨rfl, rfl⟩
  | stuck state ts hr hfind =>
    rw [(condensed_of_find?_eq_none hfind).condense_eq]
    exact ⟨rfl, rfl⟩
  | failed state ts r e state' hr hfind hnew =>
    rcases Redex.condensed_or hfind with hcondensed | ⟨new, hok, -⟩
    · rw [hcondensed.condense_eq]
      exact ⟨rfl, rfl⟩
    · rw [hok] at hnew
      cases hnew
  | rewritten state ts r new state' hr hfind hnew ih =>
    rcases Redex.condensed_or hfind with hcondensed | ⟨new', hok, hresult⟩
    · rw [hcondensed.condense_eq]
      exact ⟨rfl, rfl⟩
    · rw [run_of_rewrite_eq_ok hr hfind hnew]
      rw [hok] at hnew
      cases hnew
      rwa [hresult] at ih

/-- Formulas that are condensed to the same tokens end alike. -/
theorem run_eq_of_condense_eq {us : List Token} (h : condense ts = condense us) (host : Host σ)
    (state : σ) : (run host state ts).outcome = (run host state us).outcome ∧
      (run host state ts).state = (run host state us).state := by
  obtain ⟨houtcome, hstate⟩ := run_condense host state ts
  obtain ⟨houtcome', hstate'⟩ := run_condense host state us
  rw [h] at houtcome hstate
  exact ⟨houtcome.symm.trans houtcome', hstate.symm.trans hstate'⟩

/-! ## Parentheses around one number -/

theorem condense_parenthesized
    (h : ∀ t ∈ before.getLast?, t.Detached ∧ t ≠ .closeParen) (x : Float) (after : List Token) :
    condense (before ++ .openParen :: .number x :: .closeParen :: after)
      = condense (before ++ .number x :: after) := by
  have hhead : ∀ t ∈ (before.foldl shift []).head?, t.Detached := by
    rcases List.eq_nil_or_concat before with rfl | ⟨front, t, rfl⟩
    · simp
    · obtain ⟨hdetached, hclose⟩ := h t (by simp)
      simpa [shift_of_ne hclose] using hdetached
  have hclose : close (.number x :: .openParen :: before.foldl shift [])
      = .number x :: before.foldl shift [] := close_number hhead
  simp only [condense, List.foldl_append, List.foldl_cons, shift, hclose]

/-- **Parentheses around a number are redundant**, unless a name, a number or a closing parenthesis
is in front of them. With them and without them a formula has the same value or the same error,
whatever stands around them, and its host is left in the same state. If no outcome of a call depends
on that state, the two hosts need not even begin in the same one. -/
theorem run_parenthesized (host : Host σ) (before after : List Token) (x : Float)
    (h : ∀ t ∈ before.getLast?,
      t.kind ≠ .name ∧ t.kind ≠ .number ∧ t.kind ≠ .closeParen) :
    (∀ state,
      (run host state (before ++ .openParen :: .number x :: .closeParen :: after)).outcome
          = (run host state (before ++ .number x :: after)).outcome ∧
        (run host state (before ++ .openParen :: .number x :: .closeParen :: after)).state
          = (run host state (before ++ .number x :: after)).state) ∧
    (host.functions.ArgumentDetermined → ∀ state state',
      (run host state (before ++ .openParen :: .number x :: .closeParen :: after)).outcome
        = (run host state' (before ++ .number x :: after)).outcome) := by
  have hcondense : condense (before ++ .openParen :: .number x :: .closeParen :: after)
      = condense (before ++ .number x :: after) := by
    refine condense_parenthesized (fun t ht => ?_) x after
    obtain ⟨hname, hnumber, hclose⟩ := h t ht
    refine ⟨⟨hname, hnumber⟩, ?_⟩
    rintro rfl
    exact hclose rfl
  refine ⟨run_eq_of_condense_eq hcondense host, ?_⟩
  intro hdetermined state state'
  have halike : (run host state (before ++ .number x :: after)).Alike
      (run host state' (before ++ .number x :: after)) :=
    (Host.agreeOn_of_eq hdetermined (fun _ _ => rfl) fun _ _ => rfl).alike state state'
  exact (run_eq_of_condense_eq hcondense host state).1.trans halike.1

/-- In `mean(1 + 2 (3))` the number becomes a factor of the parentheses behind it, and so it does in
parentheses of its own. -/
theorem run_parenthesized_factor :
    ∃ (host : Host Unit) (before after : List Token),
      host = ⟨Bindings.empty, Functions.none⟩ ∧
      before = [.name "mean", .openParen, .number 1, .operator .add] ∧
      after = [.openParen, .number 3, .closeParen, .closeParen] ∧
      (run host () (before ++ .number 2 :: after)).outcome = .ok (.number 7) ∧
      (run host () (before ++ .openParen :: .number 2 :: .closeParen :: after)).outcome
        = .ok (.number 7) := by
  have hvalue : (run (⟨Bindings.empty, Functions.none⟩ : Host Unit) ()
      ([.name "mean", .openParen, .number 1, .operator .add]
        ++ .number 2 :: [.openParen, .number 3, .closeParen, .closeParen])).outcome
      = .ok (.number 7) := by decide +kernel
  refine ⟨_, _, _, rfl, rfl, rfl, hvalue, ?_⟩
  exact ((run_parenthesized _ _ _ 2 (by simp)).2 Functions.none_argumentDetermined () ()).trans hvalue

/-- Behind a closing parenthesis they are not redundant: `(2) (3)` is a product and `(2) 3` is not. -/
example : (run (⟨Bindings.empty, Functions.none⟩ : Host Unit) ()
      [.openParen, .number 2, .closeParen, .openParen, .number 3, .closeParen]).outcome
      = .ok (.number 6) ∧
    (run (⟨Bindings.empty, Functions.none⟩ : Host Unit) ()
      [.openParen, .number 2, .closeParen, .number 3]).outcome = .error .stuck := by
  decide +kernel

end Formula
