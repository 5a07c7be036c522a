import Formula.Proofs.Group.Boundary

/-! # A group evolves by itself

Which rule is used and where is decided over all tokens. Still, what happens inside a group that is
balanced is what would happen if there were nothing else: a rewriting inside is the next one of the
group alone (`Group.find?_inner`), and all others leave the group as it is. -/

namespace Formula

variable {σ : Type} {host : Host σ} {state state' : σ} {new : List Token} {r : Redex}

/-! ## Matches inside a group -/

theorem Rule.blockedBy_append_closeParen {rule : Rule} (hrule : rule ∈ Rule.table)
    (after post : List Token) :
    rule.blockedBy (after ++ .closeParen :: post) = rule.blockedBy after := by
  have hall : ∀ r ∈ Rule.table, r.notBefore = none ∨ r.notBefore = some .openParen := by decide
  unfold blockedBy
  rcases hall rule hrule with hnone | hopen
  · rw [hnone]
  · cases after <;> simp [hopen]

/-- The end of a group is no obstacle for a match inside it. -/
theorem Rule.matches_append_closeParen_iff {rule : Rule} (hrule : rule ∈ Rule.table)
    {window after post : List Token} :
    rule.Matches window (after ++ .closeParen :: post) ↔ rule.Matches window after := by
  constructor
  · rintro ⟨hfits, hclear⟩
    exact ⟨hfits, by rwa [blockedBy_append_closeParen hrule] at hclear⟩
  · rintro ⟨hfits, hclear⟩
    exact ⟨hfits, by rwa [blockedBy_append_closeParen hrule]⟩

namespace Group

variable {g : Group}

theorem program_eq_append {before window after : List Token}
    (h : g.inner = before ++ (window ++ after)) :
    g.program = (g.before ++ .openParen :: before)
      ++ (window ++ (after ++ .closeParen :: g.after)) := by
  simp [program, h]

/-- **A match inside a group that is rewritten next is the next one of the group alone.** -/
theorem find?_inner (hfind : Redex.find? g.program = some r) {m m' : List Token}
    (hbefore : r.before = g.before ++ .openParen :: m) (hinner : g.inner = m ++ (r.window ++ m'))
    (hafter : r.after = m' ++ .closeParen :: g.after) :
    Redex.find? g.inner = some { r with before := m, after := m' } := by
  obtain ⟨-, hmatches, ⟨higher, lower, htable, hhigher⟩, hleast⟩ := Redex.find?_eq_some_iff.mp hfind
  have hrule : r.rule ∈ Rule.table := (Redex.find?_eq_some hfind).1
  rw [hafter, Rule.matches_append_closeParen_iff hrule] at hmatches
  refine Redex.find?_eq_some_iff.mpr ⟨hinner, hmatches, ⟨higher, lower, htable, ?_⟩, ?_⟩
  · intro rule hmem before window after hsplit hm
    have hmem' : rule ∈ Rule.table := by rw [htable]; exact List.mem_append_left _ hmem
    exact hhigher rule hmem _ _ _ (program_eq_append hsplit)
      ((Rule.matches_append_closeParen_iff hmem').mpr hm)
  · intro before window after hsplit hm
    have hle := hleast _ _ _ (program_eq_append hsplit)
      ((Rule.matches_append_closeParen_iff hrule).mpr hm)
    rw [hbefore, List.length_append, List.length_append, List.length_cons, List.length_cons] at hle
    dsimp only
    omega

/-! ## A rewriting next to a group and in it -/

/-- **A rewriting leaves the group as it is, or it is the next one of the group alone.** -/
theorem result_cases (hdetermined : host.functions.ArgumentDetermined) (hinner : Balanced g.inner)
    (hlong : 2 ≤ g.inner.length) (hfind : Redex.find? g.program = some r)
    (hnew : r.rule.action.rewrite host state r.window = (.ok new, state')) (state₁ : σ) :
    (∃ g' : Group, g'.inner = g.inner ∧ (g'.before = g.before ∨ g'.after = g.after) ∧
        r.result new = g'.program) ∨
      ∃ own state₂, Redex.find? g.inner = some own ∧ own.rule = r.rule ∧
        own.rule.action.rewrite host state₁ own.window = (.ok new, state₂) ∧
        r.before.length = g.before.length + 1 + own.before.length ∧
        r.result new = program { g with inner := own.result new } := by
  obtain ⟨replacement, hcontracts, hrewrite⟩ := Redex.exists_contracts hfind
  have hprogram : r.before ++ (r.window ++ r.after) = g.program := (Redex.find?_eq_some hfind).2.1.symm
  rcases window_cases hinner hcontracts.balanced (hcontracts.not_isInfix hlong) hprogram with
    ⟨m, hbefore, hafter⟩ | ⟨m, m', hbefore, hwindow, hafter⟩ | ⟨m, hbefore, hafter⟩
  · refine .inl ⟨{ g with before := r.before ++ (new ++ m) }, rfl, .inr rfl, ?_⟩
    simp [Redex.result, program, hafter]
  · refine .inr ⟨{ r with before := m, after := m' }, (replacement.resolve host state₁).2,
      find?_inner hfind hbefore hwindow hafter, rfl, ?_, ?_, ?_⟩
    · have hok := replacement.resolve_outcome_eq hdetermined state₁ state
      rw [← hrewrite host state, hnew] at hok
      exact (hrewrite host state₁).trans (Prod.ext hok rfl)
    · rw [hbefore, List.length_append, List.length_cons]
      dsimp only
      omega
    · simp [Redex.result, program, hbefore, hafter]
  · refine .inl ⟨{ g with after := m ++ (new ++ r.after) }, rfl, .inl rfl, ?_⟩
    simp [Redex.result, program, hbefore]

/-! ## Along a run -/

/-- A run goes on with a group in it, while the group makes its own steps. It is followed as long as
the group has two tokens. -/
inductive Follows : Group → List Step → List Step → Group → Prop
  | refl (g : Group) : Follows g [] [] g
  | outside {g g₁ g₂ : Group} {own steps : List Step} {step : Step} (hlong : 2 ≤ g.inner.length)
    (hinner : g₁.inner = g.inner) (hside : g₁.before = g.before ∨ g₁.after = g.after)
    (hprogram : step.program = g₁.program) (h : Follows g₁ own steps g₂) :
    Follows g own (step :: steps) g₂
  | inside {g g₁ g₂ : Group} {own steps : List Step} {step ownStep : Step}
    (hlong : 2 ≤ g.inner.length) (hinner : g₁ = { g with inner := ownStep.program })
    (hrule : step.rule = ownStep.rule)
    (hstart : step.start = g.before.length + 1 + ownStep.start)
    (hprogram : step.program = g₁.program) (h : Follows g₁ own steps g₂) :
    Follows g (ownStep :: own) (step :: steps) g₂

/-- What the group comes to is the last that it comes to by itself. -/
theorem Follows.getLast?_eq {own steps : List Step} {g' : Group} (h : Follows g own steps g') :
    (g.inner :: own.map Step.program).getLast? = some g'.inner := by
  induction h with
  | refl g => rfl
  | outside hlong hinner hside hprogram h ih => rwa [hinner] at ih
  | inside hlong hinner hrule hstart hprogram h ih =>
    subst hinner
    rw [List.map_cons, List.getLast?_cons_cons]
    exact ih

/-- A run is followed until it ends or until one token of the group is left. -/
theorem exists_follows (host : Host σ) (hdetermined : host.functions.ArgumentDetermined)
    (state state' : σ) (g : Group) (hinner : Balanced g.inner) (hlong : 2 ≤ g.inner.length) :
    ∃ own ownRest steps rest g',
      (run host state' g.inner).steps = own ++ ownRest ∧
      (run host state g.program).steps = steps ++ rest ∧
      Follows g own steps g' ∧
      (2 ≤ g'.inner.length ∧ rest = [] ∨ ∃ t, g'.inner = [t] ∧ ownRest = []) := by
  generalize hts : g.program = ts
  induction state, ts using run_induction host generalizing g state' with
  | reduced state ts hr =>
    subst hts
    simp only [isReduced, program, List.length_append, List.length_cons, decide_eq_true_eq] at hr
    omega
  | stuck state ts hr hfind =>
    rw [run_of_find?_eq_none hr hfind]
    exact ⟨[], _, [], [], g, rfl, rfl, .refl g, .inl ⟨hlong, rfl⟩⟩
  | failed state ts r e state₁ hr hfind hnew =>
    rw [run_of_rewrite_eq_error hr hfind hnew]
    exact ⟨[], _, [], [], g, rfl, rfl, .refl g, .inl ⟨hlong, rfl⟩⟩
  | rewritten state ts r new state₁ hr hfind hnew ih =>
    subst hts
    rw [run_of_rewrite_eq_ok hr hfind hnew]
    rcases result_cases hdetermined hinner hlong hfind hnew state' with
      ⟨g₁, hinner₁, hside, hresult⟩ | ⟨own₁, state₂, hfind₁, hrule, hnew₁, hstart, hresult⟩
    · -- the group is left as it is
      obtain ⟨own, ownRest, steps, rest, g', hown, hsteps, hfollows, hend⟩ :=
        ih state' g₁ (hinner₁ ▸ hinner) (hinner₁ ▸ hlong) hresult.symm
      rw [hinner₁] at hown
      exact ⟨own, ownRest, r.step new :: steps, rest, g', hown, congrArg (r.step new :: ·) hsteps,
        .outside hlong hinner₁ hside hresult hfollows, hend⟩
    · -- the group makes its next step, and may come to an end by it
      have hreduced : isReduced g.inner = false := by
        simp only [isReduced, decide_eq_false_iff_not]
        omega
      rw [run_of_rewrite_eq_ok hreduced hfind₁ hnew₁]
      by_cases hshort : 2 ≤ (own₁.result new).length
      · obtain ⟨own, ownRest, steps, rest, g', hown, hsteps, hfollows, hend⟩ :=
          ih state₂ { g with inner := own₁.result new }
            (Redex.balanced_result hfind₁ hnew₁ hinner) hshort hresult.symm
        exact ⟨own₁.step new :: own, ownRest, r.step new :: steps, rest, g',
          congrArg (own₁.step new :: ·) hown, congrArg (r.step new :: ·) hsteps,
          .inside hlong rfl hrule.symm hstart hresult hfollows, hend⟩
      · have hnonempty : own₁.result new ≠ [] := by
          have hnew' := (Redex.leaves hfind₁ hnew₁).ne_nil
          simp [Redex.result, hnew']
        have hpos := List.length_pos_iff.mpr hnonempty
        obtain ⟨t, ht⟩ := List.length_eq_one_iff.mp (by omega : (own₁.result new).length = 1)
        refine ⟨[own₁.step new], [], [r.step new], _, { g with inner := own₁.result new }, ?_, rfl,
          .inside hlong rfl hrule.symm hstart hresult (.refl _), .inr ⟨t, ht, rfl⟩⟩
        rw [ht, run_of_isReduced rfl]
        rfl

/-- **A group evolves as if it were alone.** All that is reached until one token of the group is left
is the group at some point of its own run, with something around it. This token is the one with which
the group's own run ends. -/
theorem run_follows (host : Host σ) (hdetermined : host.functions.ArgumentDetermined)
    (state state' : σ) (g : Group) (hinner : Balanced g.inner) (hlong : 2 ≤ g.inner.length) :
    ∃ own ownRest steps rest g',
      (run host state' g.inner).steps = own ++ ownRest ∧
      (run host state g.program).steps = steps ++ rest ∧
      Follows g own steps g' ∧
      (2 ≤ g'.inner.length ∧ rest = [] ∨
        ∃ t, g'.inner = [t] ∧ ownRest = [] ∧
          (programs host state' g.inner).getLast? = some [t]) := by
  obtain ⟨own, ownRest, steps, rest, g', hown, hsteps, hfollows, hend⟩ :=
    exists_follows host hdetermined state state' g hinner hlong
  refine ⟨own, ownRest, steps, rest, g', hown, hsteps, hfollows, ?_⟩
  rcases hend with hend | ⟨t, ht, rfl⟩
  · exact .inl hend
  · refine .inr ⟨t, ht, rfl, ?_⟩
    rw [programs, hown, List.append_nil, hfollows.getLast?_eq, ht]

/-- In `2 + 3 * (3 * x + 1)` the sum in front of the group is taken before the group's first step. -/
theorem run_follows_sum :
    ∃ (host : Host Unit) (g : Group),
      host = ⟨Bindings.empty.insert "x" (.number 5), Functions.none⟩ ∧
      g = ⟨[.number 2, .operator .add, .number 3, .operator .mul],
        [.number 3, .operator .mul, .name "x", .operator .add, .number 1], []⟩ ∧
      ∃ own ownRest steps rest g',
        (run host () g.inner).steps = own ++ ownRest ∧
        (run host () g.program).steps = steps ++ rest ∧
        Follows g own steps g' ∧
        (2 ≤ g'.inner.length ∧ rest = [] ∨
          ∃ t, g'.inner = [t] ∧ ownRest = [] ∧ (programs host () g.inner).getLast? = some [t]) :=
  ⟨_, _, rfl, rfl, run_follows _ Functions.none_argumentDetermined () () _
    (balanced_of_forall (by simp)) (by decide)⟩

end Group

end Formula
