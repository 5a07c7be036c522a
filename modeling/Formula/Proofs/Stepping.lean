import Formula.Proofs.Ends

/-! # Single steps

A run makes one step after another (`run_eq_nextStep`). What a step does is told here by places, counted
from the front: a rule holds at a place or it does not (`Rule.HoldsAt`). A step takes the first rule
that holds anywhere, at the first place where it holds, and this determines the window
(`Redex.IsNext`). All tokens around the window are left as they are. -/

namespace Formula

variable {σ : Type} {host : Host σ} {state : σ} {ts after : List Token} {rule : Rule} {r : Redex}
  {i : Nat}

/-! ## Places -/

/-- The pattern of a rule accepts the tokens from a place on, one by one, and the token behind them,
if there is one, is not of the kind that keeps the rule from matching. -/
structure Rule.HoldsAt (rule : Rule) (ts : List Token) (i : Nat) : Prop where
  accepts : ∀ j slot, rule.pattern[j]? = some slot →
    ∃ t, ts[i + j]? = some t ∧ slot.accepts t.kind = true
  clear : ∀ t, ts[i + rule.pattern.length]? = some t → rule.notBefore ≠ some t.kind

theorem Fits.exists_getElem? {slots : List Slot} {window : List Token} (h : Fits slots window)
    (after : List Token) {j : Nat} {slot : Slot} (hslot : slots[j]? = some slot) :
    ∃ t, (window ++ after)[j]? = some t ∧ slot.accepts t.kind = true := by
  induction slots generalizing window j with
  | nil => simp at hslot
  | cons first slots ih =>
    cases window with
    | nil => exact h.elim
    | cons t window =>
      cases j with
      | zero =>
        cases hslot
        exact ⟨t, rfl, h.1⟩
      | succ j => exact ih h.2 hslot

theorem exists_fits_of_getElem? {slots : List Slot}
    (h : ∀ (j : Nat) (slot : Slot), slots[j]? = some slot →
      ∃ t, ts[j]? = some t ∧ slot.accepts t.kind = true) :
    ∃ window after, ts = window ++ after ∧ Fits slots window := by
  induction slots generalizing ts with
  | nil => exact ⟨[], ts, rfl, trivial⟩
  | cons slot slots ih =>
    obtain ⟨t, ht, haccepts⟩ := h 0 slot rfl
    cases ts with
    | nil => simp at ht
    | cons u ts =>
      cases ht
      obtain ⟨window, after, rfl, hfits⟩ := ih fun j slot hslot => h (j + 1) slot hslot
      exact ⟨t :: window, after, rfl, haccepts, hfits⟩

theorem Rule.blockedBy_eq_false_iff :
    rule.blockedBy after = false ↔ ∀ t, after[0]? = some t → rule.notBefore ≠ some t.kind := by
  unfold blockedBy
  cases rule.notBefore with
  | none => simp
  | some k =>
    cases after with
    | nil => simp
    | cons t after => simp [eq_comm]

theorem Rule.Matches.holdsAt {window : List Token} (h : rule.Matches window after)
    (before : List Token) : rule.HoldsAt (before ++ (window ++ after)) before.length := by
  constructor
  · intro j slot hslot
    rw [List.getElem?_append_right (Nat.le_add_right _ _), Nat.add_sub_cancel_left]
    exact h.fits.exists_getElem? after hslot
  · intro t ht
    rw [← h.fits.length_eq, List.getElem?_append_right (Nat.le_add_right _ _),
      Nat.add_sub_cancel_left, List.getElem?_append_right (Nat.le_refl _), Nat.sub_self] at ht
    exact Rule.blockedBy_eq_false_iff.mp h.clear t ht

/-- A rule of the table holds at a place exactly if it matches a window that begins there. -/
theorem Rule.holdsAt_iff (hrule : rule ∈ Rule.table) :
    rule.HoldsAt ts i ↔ ∃ before window after, ts = before ++ (window ++ after) ∧
      before.length = i ∧ rule.Matches window after := by
  constructor
  · intro h
    obtain ⟨slot, slots, hpattern⟩ := List.exists_cons_of_ne_nil (pattern_ne_nil hrule)
    obtain ⟨t, ht, -⟩ := h.accepts 0 slot (by rw [hpattern]; rfl)
    have hi : (ts.take i).length = i :=
      List.length_take_of_le (Nat.le_of_lt (List.getElem?_eq_some_iff.mp ht).1)
    have haccepts : ∀ (j : Nat) (slot : Slot), rule.pattern[j]? = some slot →
        ∃ t, (ts.drop i)[j]? = some t ∧ slot.accepts t.kind = true := by
      simpa using h.accepts
    obtain ⟨window, after, hdrop, hfits⟩ := exists_fits_of_getElem? haccepts
    refine ⟨ts.take i, window, after, ?_, hi, hfits, ?_⟩
    · rw [← hdrop, List.take_append_drop]
    · refine blockedBy_eq_false_iff.mpr fun u hu => h.clear u ?_
      rw [← hfits.length_eq, ← List.getElem?_drop, hdrop,
        List.getElem?_append_right (Nat.le_refl _), Nat.sub_self, hu]
  · rintro ⟨before, window, after, rfl, rfl, hm⟩
    exact hm.holdsAt before

/-! ## The window of a step -/

/-- A match of the first rule that holds anywhere, at the first place where it holds. -/
structure Redex.IsNext (r : Redex) (ts : List Token) : Prop where
  mem : r.rule ∈ Rule.table
  split : ts = r.before ++ (r.window ++ r.after)
  width : r.window.length = r.rule.pattern.length
  holds : r.rule.HoldsAt ts r.before.length
  first : ∀ rule ∈ Rule.table, rule.priority < r.rule.priority → ∀ i, ¬ rule.HoldsAt ts i
  leftmost : ∀ i < r.before.length, ¬ r.rule.HoldsAt ts i

namespace Redex

theorem IsNext.exists_higher (h : r.IsNext ts) :
    ∃ higher lower, Rule.table = higher ++ r.rule :: lower ∧
      ∀ rule ∈ higher, ∀ i, ¬ rule.HoldsAt ts i := by
  obtain ⟨higher, lower, htable, hnot⟩ := List.eq_append_cons_of_mem h.mem
  refine ⟨higher, lower, htable, ?_⟩
  intro rule hrule
  refine h.first rule (by rw [htable]; exact List.mem_append_left _ hrule) ?_
  rw [Rule.priority, Rule.priority, htable, List.idxOf_append, List.idxOf_append,
    if_pos hrule, if_neg hnot, List.idxOf_cons_self]
  exact Nat.lt_add_left 0 (List.idxOf_lt_length_of_mem hrule)

/-- **The search for the next match finds exactly the window of the step.** -/
theorem find?_eq_some_iff_isNext : find? ts = some r ↔ r.IsNext ts := by
  constructor
  · intro hfind
    obtain ⟨hts, hm, -, hleast⟩ := find?_eq_some_iff.mp hfind
    have hmem : r.rule ∈ Rule.table := (find?_eq_some hfind).1
    refine ⟨hmem, hts, hm.fits.length_eq, hts ▸ hm.holdsAt r.before, ?_, ?_⟩
    · intro rule hrule hbefore i hholds
      obtain ⟨before, window, after, hsplit, -, hmatch⟩ := (Rule.holdsAt_iff hrule).mp hholds
      exact absurd (find?_priority hfind hsplit hmatch) (Nat.not_le.mpr hbefore)
    · intro i hi hholds
      obtain ⟨before, window, after, hsplit, rfl, hmatch⟩ := (Rule.holdsAt_iff hmem).mp hholds
      exact absurd (hleast before window after hsplit hmatch) (Nat.not_le.mpr hi)
  · intro h
    obtain ⟨before, window, after, hts, hbefore, hm⟩ := (Rule.holdsAt_iff h.mem).mp h.holds
    -- a window of the same width at the same place is the same window
    obtain ⟨hbefore, hrest⟩ := List.append_inj (hts.symm.trans h.split) hbefore
    obtain ⟨hwindow, hafter⟩ := List.append_inj hrest (hm.fits.length_eq.trans h.width.symm)
    subst hbefore hwindow hafter
    obtain ⟨higher, lower, htable, hhigher⟩ := h.exists_higher
    refine find?_eq_some_iff.mpr ⟨hts, hm, ⟨higher, lower, htable, ?_⟩, ?_⟩
    · rintro rule hrule before window after rfl hmatch
      exact hhigher rule hrule _ (hmatch.holdsAt before)
    · intro before window after hsplit hmatch
      by_contra hlt
      exact h.leftmost _ (Nat.not_le.mp hlt) (hsplit ▸ hmatch.holdsAt before)

theorem find?_eq_none_iff_holdsAt :
    find? ts = none ↔ ∀ rule ∈ Rule.table, ∀ i, ¬ rule.HoldsAt ts i := by
  rw [find?_eq_none_iff]
  constructor
  · intro h rule hrule i hholds
    obtain ⟨before, window, after, hts, -, hm⟩ := (Rule.holdsAt_iff hrule).mp hholds
    exact h rule hrule before window after hts hm
  · rintro h rule hrule before window after rfl hm
    exact h rule hrule _ (hm.holdsAt before)

end Redex

/-! ## The step -/

/-- One step from any tokens. -/
def nextStep (host : Host σ) (state : σ) (ts : List Token) : Except EvalError Step × σ :=
  match Redex.find? ts with
  | none => (.error .stuck, state)
  | some r =>
    match r.rule.action.rewrite host state r.window with
    | (.error e, state) => (.error e, state)
    | (.ok new, state) => (.ok (r.step new), state)

/-- A step fails as its rewriting does, or puts what that leaves in the place of the window. -/
theorem Redex.IsNext.nextStep_cases (h : r.IsNext ts) (host : Host σ) (state : σ) :
    (∃ e state', r.rule.action.rewrite host state r.window = (.error e, state') ∧
        nextStep host state ts = (.error e, state')) ∨
      ∃ new state', r.rule.action.rewrite host state r.window = (.ok new, state') ∧
        nextStep host state ts = (.ok (r.step new), state') := by
  have hfind := find?_eq_some_iff_isNext.mpr h
  obtain ⟨outcome, state', hnew⟩ :
      ∃ outcome state', r.rule.action.rewrite host state r.window = (outcome, state') :=
    ⟨_, _, rfl⟩
  cases outcome with
  | error e => exact .inl ⟨e, state', hnew, by simp [nextStep, hfind, hnew]⟩
  | ok new => exact .inr ⟨new, state', hnew, by simp [nextStep, hfind, hnew]⟩

/-- **A run makes one step after another** until at most one token is left or a step fails. -/
theorem run_eq_nextStep (host : Host σ) (state : σ) (ts : List Token) :
    run host state ts =
      if isReduced ts then { steps := [], outcome := finish ts, state }
      else
        match nextStep host state ts with
        | (.error e, state) => { steps := [], outcome := .error e, state }
        | (.ok s, state) =>
          { run host state s.program with steps := s :: (run host state s.program).steps } := by
  cases hr : isReduced ts with
  | true => exact run_of_isReduced hr
  | false =>
    cases hfind : Redex.find? ts with
    | none =>
      rw [run_of_find?_eq_none hr hfind]
      simp [nextStep, hfind]
    | some r =>
      rcases (Redex.find?_eq_some_iff_isNext.mp hfind).nextStep_cases host state with
        ⟨e, state', hnew, hstep⟩ | ⟨new, state', hnew, hstep⟩
      · rw [run_of_rewrite_eq_error hr hfind hnew, hstep]
        rfl
      · rw [run_of_rewrite_eq_ok hr hfind hnew, hstep]
        rfl

theorem nextStep_eq_stuck_iff :
    (nextStep host state ts).1 = .error .stuck ↔
      ∀ rule ∈ Rule.table, ∀ i, ¬ rule.HoldsAt ts i := by
  rw [← Redex.find?_eq_none_iff_holdsAt]
  cases hfind : Redex.find? ts with
  | none => simp [nextStep, hfind]
  | some r =>
    refine iff_of_false ?_ (by simp)
    intro hstuck
    rcases (Redex.find?_eq_some_iff_isNext.mp hfind).nextStep_cases host state with
      ⟨e, state', hnew, hstep⟩ | ⟨new, state', -, hstep⟩
    · -- a rewriting fails only by its host, and a host does not get stuck
      rw [hstep] at hstuck
      cases hstuck
      exact (Redex.byHost_of_rewrite_eq_error hfind hnew).elim
    · rw [hstep] at hstuck
      cases hstuck

/-- **A step rewrites exactly one window, and which one is determined.** It gets stuck exactly if no
rule holds at any place. Otherwise there is one rule and one window that is a match of the first rule
that holds anywhere, at the first place where it holds. Either what the rule makes of this window is
an error, and then the step fails with it, or it takes the place of the window between the tokens in
front of it and behind it. Runs are made of these steps. -/
theorem nextStep_rewrites_window (host : Host σ) (state : σ) (ts : List Token) :
    ((nextStep host state ts).1 = .error .stuck ↔
      ∀ rule ∈ Rule.table, ∀ i, ¬ rule.HoldsAt ts i) ∧
    ((∃ rule ∈ Rule.table, ∃ i, rule.HoldsAt ts i) →
      ∃ r : Redex, r.IsNext ts ∧ (∀ r' : Redex, r'.IsNext ts → r' = r) ∧
        ((∃ e state', r.rule.action.rewrite host state r.window = (.error e, state') ∧
            nextStep host state ts = (.error e, state')) ∨
          ∃ new state', r.rule.action.rewrite host state r.window = (.ok new, state') ∧
            nextStep host state ts =
              (.ok ⟨r.rule, r.before.length, r.before ++ (new ++ r.after)⟩, state'))) ∧
    run host state ts =
      if isReduced ts then { steps := [], outcome := finish ts, state }
      else
        match nextStep host state ts with
        | (.error e, state) => { steps := [], outcome := .error e, state }
        | (.ok s, state) =>
          { run host state s.program with steps := s :: (run host state s.program).steps } := by
  refine ⟨nextStep_eq_stuck_iff, ?_, run_eq_nextStep host state ts⟩
  rintro ⟨rule, hrule, i, hholds⟩
  cases hfind : Redex.find? ts with
  | none => exact absurd hholds (Redex.find?_eq_none_iff_holdsAt.mp hfind rule hrule i)
  | some r =>
    have hnext : r.IsNext ts := Redex.find?_eq_some_iff_isNext.mp hfind
    refine ⟨r, hnext, ?_, hnext.nextStep_cases host state⟩
    intro r' hnext'
    have hfind' := Redex.find?_eq_some_iff_isNext.mpr hnext'
    rw [hfind] at hfind'
    exact (Option.some.inj hfind').symm

/-- In `1 + 2 * 3 + 4` the product is taken, though a sum is further left. Nothing can be done with
`1 +`. -/
theorem nextStep_rewrites_window_product :
    ∃ (host : Host Unit) (ts : List Token),
      host = ⟨Bindings.empty, Functions.none⟩ ∧
      ts = [.number 1, .operator .add, .number 2, .operator .mul, .number 3, .operator .add,
        .number 4] ∧
      (∃ r : Redex, r.IsNext ts ∧ (∀ r' : Redex, r'.IsNext ts → r' = r) ∧
        r.rule = Rule.ofOperator .mul ∧ r.before = [.number 1, .operator .add]) ∧
      (nextStep host () ts).1 = .ok ⟨Rule.ofOperator .mul, 2,
        [.number 1, .operator .add, .number 6, .operator .add, .number 4]⟩ ∧
      ∀ rule ∈ Rule.table, ∀ i, ¬ rule.HoldsAt [.number 1, .operator .add] i := by
  refine ⟨_, _, rfl, rfl, ?_, by decide +kernel, ?_⟩
  · have hm : (Rule.ofOperator .mul).Matches [.number 2, .operator .mul, .number 3]
        [.operator .add, .number 4] := Rule.matches_ofOperator .mul 2 3
    obtain ⟨r, hnext, hunique, -⟩ := (nextStep_rewrites_window
      (⟨Bindings.empty, Functions.none⟩ : Host Unit) () _).2.1
      ⟨_, Rule.ofOperator_mem .mul, _, hm.holdsAt [.number 1, .operator .add]⟩
    have hfind : Redex.find? [.number 1, .operator .add, .number 2, .operator .mul, .number 3,
        .operator .add, .number 4]
        = some ⟨Rule.ofOperator .mul, [.number 1, .operator .add],
            [.number 2, .operator .mul, .number 3], [.operator .add, .number 4]⟩ := by
      decide +kernel
    obtain rfl := hunique _ (Redex.find?_eq_some_iff_isNext.mp hfind)
    exact ⟨_, hnext, hunique, rfl, rfl⟩
  · exact (nextStep_rewrites_window (⟨Bindings.empty, Functions.none⟩ : Host Unit) () _).1.mp
      (by decide +kernel)

end Formula
