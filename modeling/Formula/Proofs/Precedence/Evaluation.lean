import Formula.Proofs.Precedence.Turn
import Formula.Proofs.Run

/-! # How arithmetic formulas are evaluated

The steps of a run tell which operations it has performed on which operands, so a term can be put
together from them: the grouping that the run has followed (`Term.performed`). It has the tokens of
the formula and the value that the run ends with, but it is the conventional one exactly for terms
that are timely. An operator outside parentheses can get its turn while they are still being
evaluated, and then it takes the number next to it. -/

namespace Formula

namespace Term

/-- What the tokens in front group, when they are rewritten. -/
def ofWindow? : List Token → Option Term
  | .number x :: .operator o :: .number y :: _ => some (operation (number x) o (number y))
  | .openParen :: .number x :: .closeParen :: _ => some (paren (number x))
  | _ => none

/-- The grouping that a run on arithmetic tokens has followed. The number that a step has left is
the value of what the step has grouped, so this takes its place in the grouping of what is left. -/
def performed : List Token → List Step → Option Term
  | [.number x], [] => some (number x)
  | _, [] => none
  | ts, s :: later =>
    match ofWindow? (ts.drop s.start), performed s.program later with
    | some window, some t => some (t.replaceAt s.start window)
    | _, _ => none

theorem ofWindow?_append {k : Nat} {w : Term} (h : Window k w) (after : List Token) :
    ofWindow? (w.tokens ++ after) = some w := by
  cases h <;> rfl

theorem performed_cons {ts before after : List Token} {s : Step} {later : List Step} {k : Nat}
    {w t : Term} (hts : ts = before ++ (w.tokens ++ after)) (hw : Window k w)
    (hs : s.start = before.length) (ht : performed s.program later = some t) :
    performed ts (s :: later) = some (t.replaceAt before.length w) := by
  have hwindow : ofWindow? (ts.drop s.start) = some w := by
    rw [hts, hs, List.drop_left, ofWindow?_append hw]
  rw [performed, hwindow, ht, hs]

/-- What is no number can be rewritten. -/
theorem hasMatch_tokens {t : Term} (h : ∀ x, t ≠ number x) (back : List Token) :
    HasMatch (t.tokens ++ back) := by
  induction t generalizing back with
  | number x => exact absurd rfl (h x)
  | paren t ih =>
    by_cases hx : ∃ x, t = number x
    · obtain ⟨x, rfl⟩ := hx
      exact .front (by decide) (Rule.matches_redundantParentheses x)
    · have hm := (ih (fun x hx' => hx ⟨x, hx'⟩) (.closeParen :: back)).cons .openParen
      simpa [tokens] using hm
  | operation l o r ihl ihr =>
    by_cases hl : ∃ x, l = number x
    · by_cases hr : ∃ y, r = number y
      · obtain ⟨x, rfl⟩ := hl
        obtain ⟨y, rfl⟩ := hr
        exact .front (Rule.ofOperator_mem o) (Rule.matches_ofOperator o x y)
      · have hm := (ihr (fun y hy => hr ⟨y, hy⟩) back).append (l.tokens ++ [.operator o])
        simpa [tokens] using hm
    · have hm := ihl (fun x hx => hl ⟨x, hx⟩) (.operator o :: (r.tokens ++ back))
      simpa [tokens] using hm

theorem one_lt_length_tokens {t : Term} (h : ∀ x, t ≠ number x) : 1 < t.tokens.length := by
  cases t with
  | number x => exact absurd rfl (h x)
  | paren t => simp [tokens]
  | operation l o r =>
    have hl := List.length_pos_iff.mpr l.tokens_ne_nil
    rw [tokens, List.length_append, List.length_cons]
    omega

/-- What is left after a rewriting is the text of a term again: of the same term with a number in the
place of a part, or of some other term if no part has been rewritten. -/
theorem exists_next {t w : Term} {r : Redex} {k : Nat} (hfind : Redex.find? t.tokens = some r)
    (hw : Window k w) (hwindow : w.tokens = r.window) (ht : t.Conventional) :
    ∃ u : Term, u.Conventional ∧ u.tokens = r.result [.number w.value] ∧
      (Replaces w (number w.value) r.before.length t u ∧ (u.Timely ↔ t.Timely) ∨
        (∀ u', ¬ Replaces w (number w.value) r.before.length t u') ∧ ¬ t.Timely) := by
  have hprogram : t.tokens = r.before ++ (w.tokens ++ r.after) := by
    rw [(Redex.find?_eq_some hfind).2.1, Redex.program, hwindow]
  by_cases hpart : ∃ u, Replaces w (number w.value) r.before.length t u
  · obtain ⟨u, hu⟩ := hpart
    refine ⟨u, (hu.conventional ht).1, hu.tokens_eq_of hprogram, .inl ⟨hu, ?_⟩⟩
    exact (contraction_of_find? hfind hw hwindow hu).timely_iff
  · have hnone : ∀ u, ¬ Replaces w (number w.value) r.before.length t u :=
      fun u hu => hpart ⟨u, hu⟩
    cases hw with
    | unwrap x =>
      obtain ⟨inner, rest, hafter, hreplaces⟩ := exists_replaces_paren hprogram
      have hinner : inner = number x := by
        cases hi : inner.tokens with
        | nil => exact absurd hi inner.tokens_ne_nil
        | cons v vs =>
          rw [hi] at hafter
          obtain ⟨rfl, hafter'⟩ := List.cons.inj hafter
          obtain ⟨-, hx | ⟨o, vs', rfl⟩⟩ := eq_number_or_of_tokens_eq_cons hi
          · exact hx
          · cases hafter'
      obtain ⟨u, hu⟩ := hreplaces (number x)
      exact absurd (hinner ▸ hu) (hnone u)
    | operate x o y =>
      obtain ⟨u, hu⟩ := exists_tokens_eq hprogram (o.apply x y)
      refine ⟨u.parse, u.conventional_parse, u.tokens_parse.trans hu, .inr ⟨hnone, ?_⟩⟩
      exact not_timely_of_find? hfind hwindow.symm ht hnone

/-- What a run on the text of a conventional term performs. -/
theorem exists_performed {σ : Type} (host : Host σ) (state : σ) {t : Term} (ht : t.Conventional) :
    ∃ u, performed t.tokens (run host state t.tokens).steps = some u ∧ u.tokens = t.tokens ∧
      (run host state t.tokens).outcome = .ok (.number u.value) ∧ (u = t ↔ t.Timely) := by
  -- every rewriting makes the text shorter
  induction hn : t.tokens.length using Nat.strongRecOn generalizing t state with
  | ind n ih =>
    by_cases hx : ∃ x, t = number x
    · obtain ⟨x, rfl⟩ := hx
      rw [tokens, run_of_isReduced rfl]
      exact ⟨number x, rfl, rfl, rfl, iff_of_true rfl trivial⟩
    · have hne : ∀ x, t ≠ number x := fun x hx' => hx ⟨x, hx'⟩
      have hmatch : HasMatch t.tokens := by simpa using hasMatch_tokens hne []
      obtain ⟨r, hfind⟩ := hmatch.exists_find?
      obtain ⟨replacement, hcontracts, hrewrite⟩ := Redex.exists_contracts hfind
      obtain ⟨-, hprogram, -⟩ := Redex.find?_eq_some hfind
      obtain ⟨k, w, hw, hwindow, rfl⟩ := exists_window hprogram hcontracts
      have hreduced : isReduced t.tokens = false := by
        simpa [isReduced] using one_lt_length_tokens hne
      have hrun := run_of_rewrite_eq_ok hreduced hfind (hrewrite host state)
      obtain ⟨next, hnext, htokens, hcases⟩ := exists_next hfind hw hwindow ht
      have hprogram' : t.tokens = r.before ++ (w.tokens ++ r.after) := by
        rw [hprogram, Redex.program, hwindow]
      have hless : next.tokens.length < n := by
        have hlength := congrArg List.length hprogram'
        have hthree : w.tokens.length = 3 := by cases hw <;> rfl
        simp only [List.length_append, hthree] at hlength
        rw [htokens, Redex.result, ← hn]
        simp only [List.length_append, List.length_cons, List.length_nil]
        omega
      obtain ⟨u, hu, hutokens, houtcome, hiff⟩ := ih _ hless state hnext rfl
      rw [htokens] at hu hutokens houtcome
      have hplace := replaces_replaceAt hutokens w
      rw [hrun]
      refine ⟨u.replaceAt r.before.length w, performed_cons hprogram' hw rfl hu,
        (hplace.tokens_eq_of hutokens).trans hprogram'.symm, ?_, ?_⟩
      · rw [← hplace.value_eq rfl]
        exact houtcome
      · rcases hcases with ⟨hpart, htimely⟩ | ⟨hnone, htimely⟩
        · rw [← htimely, ← hiff]
          constructor
          · intro he
            rw [he] at hplace
            exact hplace.symm.unique hpart
          · intro he
            rw [he] at hplace ⊢
            exact hplace.unique hpart.symm
        · refine iff_of_false ?_ htimely
          intro he
          rw [he] at hplace
          exact hnone u hplace.symm

/-- Without parentheses, a formula has the value of its conventional grouping. -/
theorem run_eq_value_of_not_mem {σ : Type} (host : Host σ) (state : σ) {e : Term}
    (h : .openParen ∉ e.tokens) :
    (run host state e.tokens).outcome = .ok (.number e.parse.value) := by
  rw [← e.tokens_parse] at h ⊢
  obtain ⟨t, -, -, houtcome, hiff⟩ := exists_performed host state e.conventional_parse
  rw [houtcome, hiff.mpr (timely_of_not_mem e.conventional_parse h)]

/-- **An arithmetic formula is grouped by parentheses, tiers and order exactly if its term is
timely.** The run follows some grouping `t` of the tokens of `e` and ends with its value. -/
theorem run_performs_parse_iff {σ : Type} (host : Host σ) (state : σ) (e : Term) :
    ∃ t, performed e.tokens (run host state e.tokens).steps = some t ∧ t.tokens = e.tokens ∧
      (run host state e.tokens).outcome = .ok (.number t.value) ∧ (t = e.parse ↔ e.parse.Timely) := by
  obtain ⟨t, hperformed, htokens, houtcome, hiff⟩ := exists_performed host state e.conventional_parse
  rw [e.tokens_parse] at hperformed htokens houtcome
  exact ⟨t, hperformed, htokens, houtcome, hiff⟩

/-- The sum on the left gets its turn before the product, which still waits for its right operand:
`2 + 3 * (4 + 5)` is not 29 but 45. -/
theorem run_ne_value_parse :
    (run { bindings := Bindings.empty, functions := Functions.none } ()
      (operation (number 2) .add (operation (number 3) .mul
        (paren (operation (number 4) .add (number 5))))).tokens).outcome
      ≠ .ok (.number (operation (number 2) .add (operation (number 3) .mul
        (paren (operation (number 4) .add (number 5))))).parse.value) := by
  intro h
  have hvalue := congrArg Except.toOption h
  revert hvalue
  decide +kernel

end Term

end Formula
