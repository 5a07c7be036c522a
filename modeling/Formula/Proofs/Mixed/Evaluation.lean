import Formula.Proofs.Mixed.Turn

/-! # The value of a chain of numbers and variables

Each rewriting of a chain leaves a chain for which the reference is the same (`Leads.exists_next`),
and there is one as long as two operands are left. So the run ends with the number of the reference. -/

namespace Formula

namespace Mixed

variable {σ : Type} {host : Host σ} {state : σ} {c c' d : Chain Operand} {value : String → Float}

/-! ## Windows of a chain -/

theorem hasMatch_tokens (h : c.tail ≠ []) : HasMatch (tokens c) := by
  have hname : ∀ x tail, HasMatch (tokens ⟨.name x, tail⟩) := by
    intro x tail
    have hrule : Rule.substitution ∈ Rule.table := by decide
    exact .front hrule (Rule.matches_substitution x (head?_laterTokens_ne tail))
  obtain ⟨w, tail⟩ := c
  cases w with
  | name x => exact hname x tail
  | number x =>
    cases tail with
    | nil => exact absurd rfl h
    | cons entry rest =>
      obtain ⟨o, u⟩ := entry
      cases u with
      | name y => exact ((hname y rest).cons (.operator o)).cons (.number x)
      | number y => exact .front (Rule.ofOperator_mem o) (Rule.matches_ofOperator o x y)

/-- What can be rewritten is an operation between two numbers or a variable. -/
theorem window_cases {before window after : List Token} {replacement : Replacement}
    (hts : tokens c = before ++ (window ++ after)) (h : Contracts window replacement) :
    (∃ x o y, window = [.number x, .operator o, .number y] ∧
        replacement = .tokens [.number (o.apply x y)]) ∨
      ∃ x, window = [.name x] ∧ replacement = .binding x := by
  have hmem : ∀ t ∈ window, t ≠ .openParen ∧ t ≠ .comma := by
    intro t ht
    have ht' : t ∈ tokens c := by simp [hts, ht]
    rcases mem_tokens ht' with ⟨x, rfl⟩ | ⟨o, rfl⟩ | ⟨x, rfl⟩ <;> simp
  cases h with
  | operate x o y => exact .inl ⟨x, o, y, rfl, rfl⟩
  | substitute x => exact .inr ⟨x, rfl, rfl⟩
  | wrapArgument | multiply | unwrap | wrapNothing | call =>
    exact absurd rfl (hmem .openParen (by simp)).1
  | pair | append | concatenate => exact absurd rfl (hmem .comma (by simp)).2

/-! ## Along a run -/

theorem Performs.reference_eq {o : Operator} (h : Performs o c c') :
    reference value c' = reference value c := by
  unfold reference
  rw [h.names_eq, h.collapse_eq]

theorem LooksUp.reference_eq {x : String} (h : LooksUp value x c c') (hapart : Apart (tokens c)) :
    reference value c' = reference value c := by
  unfold reference
  rw [h.names_eq, List.length_cons, Function.iterate_succ_apply, h.collapse_eq hapart]

/-- A chain of which the reference leaves `d`. Its variables are bound, and it is not one of them. -/
structure Leads (host : Host σ) (value : String → Float) (d c : Chain Operand) : Prop where
  bound : ∀ x ∈ names c, host.bindings.get? x = some (.number (value x))
  reduces : ∀ x, c ≠ ⟨.name x, []⟩
  reference_eq : reference value c = d

theorem Leads.performs {o : Operator} (h : Leads host value d c) (hp : Performs o c c') :
    Leads host value d c' := by
  refine ⟨?_, ?_, ?_⟩
  · rw [hp.names_eq]
    exact h.bound
  · rintro x rfl
    cases hp
  · rw [hp.reference_eq, h.reference_eq]

theorem Leads.looksUp {x : String} (h : Leads host value d c) (hl : LooksUp value x c c')
    (hapart : Apart (tokens c)) : Leads host value d c' := by
  refine ⟨?_, ?_, ?_⟩
  · intro y hy
    refine h.bound y ?_
    rw [hl.names_eq]
    exact List.mem_cons_of_mem _ hy
  · rintro y rfl
    cases hl
  · rw [hl.reference_eq hapart, h.reference_eq]

/-- **What comes after a rewriting is a chain again, and the reference leaves the same.** -/
theorem Leads.exists_next (h : Leads host value d c) (state : σ)
    (hreduced : isReduced (tokens c) = false) :
    ∃ r new, Redex.find? (tokens c) = some r ∧
      r.rule.action.rewrite host state r.window = (.ok new, state) ∧
      ∃ c', tokens c' = r.result new ∧ Leads host value d c' := by
  have htail : c.tail ≠ [] := by
    intro hnil
    rw [isReduced, tokens, hnil] at hreduced
    cases hreduced
  obtain ⟨r, hfind⟩ := (hasMatch_tokens htail).exists_find?
  obtain ⟨replacement, hcontracts, hrewrite⟩ := Redex.exists_contracts hfind
  have hprogram : tokens c = r.before ++ (r.window ++ r.after) := (Redex.find?_eq_some hfind).2.1
  rcases window_cases hprogram hcontracts with ⟨x, o, y, hwindow, rfl⟩ | ⟨x, hwindow, rfl⟩
  · rw [hwindow] at hprogram
    obtain ⟨c', hperforms, hc'⟩ := exists_performs hprogram
      (Redex.waits_of_find? hfind hwindow) (Redex.waits_front_of_find? hfind hwindow)
    exact ⟨r, _, hfind, hrewrite host state, c', hc', h.performs hperforms⟩
  · rw [hwindow] at hprogram
    have hrule := Redex.rule_eq_substitution hfind hwindow
    have hapart := Redex.apart_of_find? hfind hrule
    have hleftmost : ∀ front y rest, tokens c = front ++ ([.name y] ++ laterTokens rest) →
        r.before.length ≤ front.length := by
      intro front y rest hsplit
      refine Redex.find?_leftmost hfind hsplit ?_
      rw [hrule]
      exact Rule.matches_substitution y (head?_laterTokens_ne rest)
    obtain ⟨c', hlooksUp, hc'⟩ := exists_looksUp hprogram hapart hleftmost value
    have hx : host.bindings.get? x = some (.number (value x)) := by
      refine h.bound x ?_
      rw [hlooksUp.names_eq]
      exact List.mem_cons_self
    exact ⟨r, _, hfind, (hrewrite host state).trans (Replacement.resolve_binding hx rfl), c', hc',
      h.looksUp hlooksUp hapart⟩

/-- No more than a number can be left. -/
theorem Leads.eq_number (h : Leads host value d c) (hreduced : isReduced (tokens c) = true) :
    ∃ z, c = ⟨.number z, []⟩ := by
  obtain ⟨w, tail⟩ := c
  cases tail with
  | nil =>
    cases w with
    | number z => exact ⟨z, rfl⟩
    | name x => exact absurd rfl (h.reduces x)
  | cons entry rest => cases hreduced

/-- **A chain of numbers and variables evaluates to the number of the reference.** -/
theorem run_tokens_eq_reference (host : Host σ) (state : σ) (value : String → Float)
    (c : Chain Operand) (hc : c.tail ≠ [])
    (hbound : ∀ x ∈ names c, host.bindings.get? x = some (.number (value x))) :
    ∃ z, reference value c = ⟨.number z, []⟩ ∧
      (run host state (tokens c)).outcome = .ok (.number z) := by
  have hstep : ∀ ts state, (∃ d, ts = tokens d ∧ Leads host value (reference value c) d) →
      isReduced ts = false → ∃ r new state', Redex.find? ts = some r ∧
        r.rule.action.rewrite host state r.window = (.ok new, state') ∧
          ∃ d, r.result new = tokens d ∧ Leads host value (reference value c) d := by
    rintro _ state ⟨d, rfl, hd⟩ hreduced
    obtain ⟨r, new, hfind, hnew, d', hd', hleads⟩ := hd.exists_next state hreduced
    exact ⟨r, new, state, hfind, hnew, d', hd'.symm, hleads⟩
  have hleads : Leads host value (reference value c) c := by
    refine ⟨hbound, ?_, rfl⟩
    rintro x rfl
    exact hc rfl
  have hfinish : ∃ left, (∃ d, left = tokens d ∧ Leads host value (reference value c) d) ∧
      isReduced left = true ∧ (run host state (tokens c)).outcome = finish left :=
    exists_finish_of_invariant hstep ⟨c, rfl, hleads⟩
  obtain ⟨_, ⟨d, rfl, hd⟩, hreduced, houtcome⟩ := hfinish
  obtain ⟨z, rfl⟩ := hd.eq_number hreduced
  exact ⟨z, hd.reference_eq.symm, houtcome⟩

/-- The sum does not wait for the variable: `a * 2 + 2` is `a * (2 + 2)`. -/
theorem run_tokens_eq_reference_product :
    (run { bindings := Bindings.empty.insert "a" (.number 5), functions := Functions.none } ()
      (tokens ⟨.name "a", [(.mul, .number 2), (.add, .number 2)]⟩)).outcome
      = .ok (.number 20) := by
  have hvalue : reference (fun _ => 5) ⟨.name "a", [(.mul, .number 2), (.add, .number 2)]⟩
      = ⟨.number 20, []⟩ := by decide +kernel
  obtain ⟨z, hz, houtcome⟩ := run_tokens_eq_reference
    { bindings := Bindings.empty.insert "a" (.number 5), functions := Functions.none } ()
    (fun _ => 5) ⟨.name "a", [(.mul, .number 2), (.add, .number 2)]⟩ (by simp)
    (by simp [names, Operand.name?, Bindings.get?_insert])
  rw [hvalue] at hz
  cases hz
  exact houtcome

end Mixed

end Formula
