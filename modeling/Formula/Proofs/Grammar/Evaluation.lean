import Formula.Proofs.Grammar.Scanner
import Formula.Proofs.Run
import Formula.Proofs.Window

/-! # Only formulas have values

Each rewriting, undone, turns a formula into a formula: wherever the tokens after it are accepted, the
tokens before it are accepted as well. A single token with a value is a formula, so whatever
evaluates to a value was one from the beginning (`derives_of_run_eq_ok`). -/

namespace Formula

namespace Scan

variable {bindings : Bindings} {a b : Scan} {t u : Token} {ts : List Token} {v w : Value}

/-- What can be an operand can be an argument. -/
theorem accepts_of_complete_false {bs : List Bracket}
    (h : Accepts (Next bindings) (Done bindings) (complete false bs) ts) (operand : Bool) :
    Accepts (Next bindings) (Done bindings) (complete operand bs) ts := by
  cases ts with
  | nil =>
    cases h.done_of_nil
    exact ⟨_, .nil, .complete operand⟩
  | cons t ts =>
    obtain ⟨b, hstep, hts⟩ := h.uncons
    cases hstep with
    | comma => exact .cons .comma hts
    | closeCall => exact .cons .closeCall hts

/-- A literal stands where an operand or an argument is expected. -/
theorem exists_expecting_of_scalar (ht : t.scalar? = some v)
    (h : Accepts (Next bindings) (Done bindings) a (t :: ts)) :
    ∃ p bs operand, a = expecting p bs ∧
      Accepts (Next bindings) (Done bindings) (complete operand bs) ts ∧
        (operand = true → ∃ x, v = .number x) ∧ (operand = false → p ≠ .operand) := by
  obtain ⟨b, hstep, hts⟩ := h.uncons
  cases hstep with
  | number x =>
    cases ht
    exact ⟨_, _, true, rfl, hts, fun _ => ⟨x, rfl⟩, nofun⟩
  | literal _ hp => exact ⟨_, _, false, rfl, hts, nofun, fun _ => hp⟩
  | lookup _ _ h => cases h <;> cases ht
  | args | name | openGroup | openCall | openProduct | operator | comma | closeGroup
    | closeNothing | closeCall => cases ht

theorem exists_expecting_of_number {x : Float}
    (h : Accepts (Next bindings) (Done bindings) a (.number x :: ts)) :
    ∃ p bs, a = expecting p bs ∧
      Accepts (Next bindings) (Done bindings) (complete true bs) ts := by
  obtain ⟨p, bs, operand, ha, hts, -, -⟩ := exists_expecting_of_scalar rfl h
  cases operand with
  | true => exact ⟨p, bs, ha, hts⟩
  | false => exact ⟨p, bs, ha, accepts_of_complete_false hts true⟩

theorem exists_expecting_of_args {vs : List Value}
    (h : Accepts (Next bindings) (Done bindings) a (.args vs :: ts)) :
    ∃ p bs, a = expecting p (.call :: bs) ∧ p ≠ .operand ∧
      Accepts (Next bindings) (Done bindings) (complete false (.call :: bs)) ts := by
  obtain ⟨b, hstep, hts⟩ := h.uncons
  cases hstep with
  | literal ht _ => cases ht
  | args _ hp => exact ⟨_, _, rfl, hp, hts⟩
  | lookup _ _ h => cases h

/-- The arguments of a call are read inside its parentheses. -/
theorem exists_expecting_of_call {f : String}
    (h : Accepts (Next bindings) (Done bindings) a (.name f :: .openParen :: ts)) :
    ∃ p bs, a = expecting p bs ∧
      Accepts (Next bindings) (Done bindings) (expecting .first (.call :: bs)) ts := by
  obtain ⟨b, hname, hopen⟩ := h.uncons
  cases hname with
  | literal ht _ => cases ht
  | lookup _ _ h => cases h
  | name f =>
    obtain ⟨c, hstep, hts⟩ := hopen.uncons
    cases hstep with
    | openCall => exact ⟨_, _, rfl, hts⟩
    | lookup _ ht _ => exact absurd rfl ht

/-! ## Rewritings undone -/

theorem accepts_wrapArgument {f : String} (ht : t.scalar? = some v)
    (h : Accepts (Next bindings) (Done bindings) a
      (.name f :: .openParen :: .args [v] :: .closeParen :: ts)) :
    Accepts (Next bindings) (Done bindings) a
      (.name f :: .openParen :: t :: .closeParen :: ts) := by
  obtain ⟨p, bs, rfl, hargs⟩ := exists_expecting_of_call h
  obtain ⟨p', bs', he, hp, hclose⟩ := exists_expecting_of_args hargs
  cases he
  exact .cons (.name f) (.cons .openCall (.cons (.literal ht hp) hclose))

theorem accepts_wrapNothing {f : String}
    (h : Accepts (Next bindings) (Done bindings) a
      (.name f :: .openParen :: .args [] :: .closeParen :: ts)) :
    Accepts (Next bindings) (Done bindings) a (.name f :: .openParen :: .closeParen :: ts) := by
  obtain ⟨p, bs, rfl, hargs⟩ := exists_expecting_of_call h
  obtain ⟨p', bs', he, -, hclose⟩ := exists_expecting_of_args hargs
  cases he
  obtain ⟨c, hstep, hts⟩ := hclose.uncons
  cases hstep with
  | closeCall => exact .cons (.name f) (.cons .openCall (.cons .closeNothing hts))

theorem accepts_multiply (x y z : Float)
    (h : Accepts (Next bindings) (Done bindings) a (.number z :: ts)) :
    Accepts (Next bindings) (Done bindings) a
      (.number x :: .openParen :: .number y :: .closeParen :: ts) := by
  obtain ⟨p, bs, rfl, hts⟩ := exists_expecting_of_number h
  exact .cons (.number x) (.cons .openProduct (.cons (.number y) (.cons .closeGroup hts)))

theorem accepts_unwrap {x : Float}
    (h : Accepts (Next bindings) (Done bindings) a (.number x :: ts)) :
    Accepts (Next bindings) (Done bindings) a (.openParen :: .number x :: .closeParen :: ts) := by
  obtain ⟨p, bs, rfl, hts⟩ := exists_expecting_of_number h
  exact .cons .openGroup (.cons (.number x) (.cons .closeGroup hts))

theorem accepts_operate (x y z : Float) (o : Operator)
    (h : Accepts (Next bindings) (Done bindings) a (.number z :: ts)) :
    Accepts (Next bindings) (Done bindings) a (.number x :: .operator o :: .number y :: ts) := by
  obtain ⟨p, bs, rfl, hts⟩ := exists_expecting_of_number h
  exact .cons (.number x) (.cons (.operator o) (.cons (.number y) hts))

theorem accepts_pair (ht : t.scalar? = some v) (hu : u.scalar? = some w) {vs : List Value}
    (h : Accepts (Next bindings) (Done bindings) a (.args vs :: ts)) :
    Accepts (Next bindings) (Done bindings) a (t :: .comma :: u :: ts) := by
  obtain ⟨p, bs, rfl, hp, hts⟩ := exists_expecting_of_args h
  exact .cons (.literal ht hp) (.cons .comma (.cons (.literal hu (by simp)) hts))

theorem accepts_append (us : List Value) (ht : t.scalar? = some v) {vs : List Value}
    (h : Accepts (Next bindings) (Done bindings) a (.args vs :: ts)) :
    Accepts (Next bindings) (Done bindings) a (.args us :: .comma :: t :: ts) := by
  obtain ⟨p, bs, rfl, hp, hts⟩ := exists_expecting_of_args h
  exact .cons (.args us hp) (.cons .comma (.cons (.literal ht (by simp)) hts))

theorem accepts_concatenate (us ws : List Value) {vs : List Value}
    (h : Accepts (Next bindings) (Done bindings) a (.args vs :: ts)) :
    Accepts (Next bindings) (Done bindings) a (.args us :: .comma :: .args ws :: ts) := by
  obtain ⟨p, bs, rfl, hp, hts⟩ := exists_expecting_of_args h
  exact .cons (.args us hp) (.cons .comma (.cons (.args ws (by simp)) hts))

theorem accepts_call (f : String) (vs : List Value) (ht : t.scalar? = some v)
    (h : Accepts (Next bindings) (Done bindings) a (t :: ts)) :
    Accepts (Next bindings) (Done bindings) a
      (.name f :: .openParen :: .args vs :: .closeParen :: ts) := by
  obtain ⟨p, bs, operand, rfl, hts, -, -⟩ := exists_expecting_of_scalar ht h
  have hts' : Accepts (Next bindings) (Done bindings) (complete true bs) ts := by
    cases operand with
    | true => exact hts
    | false => exact accepts_of_complete_false hts true
  exact .cons (.name f) (.cons .openCall (.cons (.args vs (by simp)) (.cons .closeCall hts')))

/-- A variable that is looked up where a text or a truth value is of no use would be accepted no
more. -/
theorem accepts_substitute {x : String} (hx : bindings.get? x = some v)
    (ht : t.scalar? = some v) (hts : ts.head? ≠ some .openParen)
    (h : Accepts (Next bindings) (Done bindings) a (t :: ts)) :
    Accepts (Next bindings) (Done bindings) a (.name x :: ts) := by
  obtain ⟨p, bs, operand, rfl, hrest, hnumber, hp⟩ := exists_expecting_of_scalar ht h
  have hresolves : Resolves bindings x p operand := by
    cases operand with
    | true =>
      obtain ⟨y, rfl⟩ := hnumber rfl
      exact .number hx
    | false =>
      exact .scalar hx (Token.isScalar_of_ofScalar? (Token.scalar?_eq_some_iff.mp ht)) (hp rfl)
  refine .cons (.name x) ?_
  cases ts with
  | nil =>
    cases hrest.done_of_nil
    exact ⟨_, .nil, .named hresolves⟩
  | cons u rest =>
    obtain ⟨b, hstep, hrest'⟩ := hrest.uncons
    exact .cons (.lookup hresolves (fun hu => hts (by simp [hu])) hstep) hrest'

/-- **What is accepted after a rewriting was accepted before it.** -/
theorem accepts_of_result {σ : Type} {host : Host σ} {state state' : σ} {r : Redex}
    {new : List Token} (hfind : Redex.find? ts = some r)
    (hnew : r.rule.action.rewrite host state r.window = (.ok new, state'))
    (h : Accepts (Next host.bindings) (Done host.bindings) a (r.result new)) :
    Accepts (Next host.bindings) (Done host.bindings) a ts := by
  obtain ⟨replacement, hcontracts, hrewrite⟩ := Redex.exists_contracts hfind
  obtain ⟨b, hbefore, h⟩ := h.split
  rw [hrewrite] at hnew
  rw [(Redex.find?_eq_some hfind).2.1, Redex.program]
  refine hbefore.accepts ?_
  generalize hwindow : r.window = window at hcontracts
  cases hcontracts with
  | wrapArgument f ht => cases hnew; exact accepts_wrapArgument ht h
  | multiply x y => cases hnew; exact accepts_multiply x y _ h
  | unwrap x => cases hnew; exact accepts_unwrap h
  | operate x o y => cases hnew; exact accepts_operate x y _ o h
  | pair ht hu => cases hnew; exact accepts_pair ht hu h
  | append vs ht => cases hnew; exact accepts_append vs ht h
  | concatenate vs ws => cases hnew; exact accepts_concatenate vs ws h
  | wrapNothing f => cases hnew; exact accepts_wrapNothing h
  | call f vs =>
    rw [Replacement.resolve] at hnew
    split at hnew
    · obtain ⟨t, rfl, ht⟩ := Replacement.exists_of_literal_eq_ok (congrArg Prod.fst hnew)
      exact accepts_call f vs ht h
    · cases hnew
  | substitute x =>
    rw [Replacement.resolve] at hnew
    split at hnew
    · rename_i v hx
      have hliteral := congrArg Prod.fst hnew
      dsimp only at hliteral
      obtain ⟨t, rfl, ht⟩ := Replacement.exists_of_literal_eq_ok hliteral
      exact accepts_substitute hx ht (Redex.head?_after_ne_openParen hfind hwindow) h
    · cases hnew

theorem accepts_of_finish (h : finish ts = .ok v) :
    Accepts (Next bindings) (Done bindings) (expecting .any []) ts := by
  obtain ⟨t, rfl, ht⟩ := exists_scalar_of_finish h
  exact ⟨_, .cons (.literal ht (by simp)) .nil, .complete false⟩

end Scan

/-- **Whatever evaluates to a value is a formula**, and so is all that is left of it on the way. -/
theorem derives_of_run_eq_ok {σ : Type} (host : Host σ) (state : σ) (ts : List Token) (v : Value)
    (h : (run host state ts).outcome = .ok v) :
    ∀ us ∈ ts :: (run host state ts).steps.map Step.program,
      Derives .formula us ∧ Orderly host.bindings us := by
  obtain ⟨hts, hsteps⟩ := holds_of_run_eq_ok
    (D := Accepts (Scan.Next host.bindings) (Scan.Done host.bindings) (.expecting .any []))
    (fun ts v => Scan.accepts_of_finish) (fun ts r state new state' => Scan.accepts_of_result) h
  intro us hus
  rcases List.mem_cons.mp hus with rfl | hus
  · exact ⟨Scan.derives_of_accepts hts, Scan.orderly_of_accepts hts⟩
  · obtain ⟨s, hs, rfl⟩ := List.mem_map.mp hus
    exact ⟨Scan.derives_of_accepts (hsteps s hs), Scan.orderly_of_accepts (hsteps s hs)⟩

/-- A call whose result is multiplied by a group with a variable in it. -/
theorem derives_of_run_mean :
    Derives .formula [.name "mean", .openParen, .number 2, .comma, .number 4, .closeParen,
        .openParen, .name "x", .operator .add, .number 1, .closeParen] ∧
      Orderly (Bindings.empty.insert "x" (.number 3))
        [.name "mean", .openParen, .number 2, .comma, .number 4, .closeParen,
          .openParen, .name "x", .operator .add, .number 1, .closeParen] := by
  refine derives_of_run_eq_ok
    { bindings := Bindings.empty.insert "x" (.number 3), functions := Functions.none } () _
    (.number 12) (eq_ok_of_toOption_eq_some ?_) _ List.mem_cons_self
  decide +kernel

end Formula
