import Formula.Reduction

/-! # The match that is rewritten next

`Redex.find?` searches twice, for a rule and for a place. `find?_eq_some_iff` says what it finds: a
rule that matches, at its leftmost match, while no rule that is tried before it matches anywhere.
The other statements are the two ways in which this is used. A rule that matches somewhere is never
overtaken by a later one (`find?_priority`), and the search fails only if no rule matches at all
(`find?_eq_none_iff`). -/

namespace Formula

/-! ## Matches of one rule -/

/-- A rule matches a window that fits its pattern, unless what comes after keeps it from that. -/
structure Rule.Matches (rule : Rule) (window after : List Token) : Prop where
  fits : Fits rule.pattern window
  clear : rule.blockedBy after = false

theorem Fits.length_eq {slots : List Slot} {window : List Token} (h : Fits slots window) :
    window.length = slots.length := by
  induction slots generalizing window with
  | nil =>
    cases window with
    | nil => rfl
    | cons t ts => exact False.elim h
  | cons slot slots ih =>
    cases window with
    | nil => exact False.elim h
    | cons t ts => simp [ih h.2]

theorem Rule.matchSlots_append {slots : List Slot} {window : List Token} (h : Fits slots window)
    (after : List Token) : Rule.matchSlots slots (window ++ after) = some (window, after) := by
  induction slots generalizing window with
  | nil =>
    cases window with
    | nil => rfl
    | cons t ts => exact False.elim h
  | cons slot slots ih =>
    cases window with
    | nil => exact False.elim h
    | cons t ts => simp [Rule.matchSlots, h.1, ih h.2]

theorem Rule.window?_eq_some_iff {rule : Rule} {ts window after : List Token} :
    rule.window? ts = some (window, after) ↔ ts = window ++ after ∧ rule.Matches window after := by
  constructor
  · intro h
    obtain ⟨hts, hfits⟩ := Rule.window?_eq_some h
    refine ⟨hts, hfits, ?_⟩
    subst hts
    rw [Rule.window?, Rule.matchSlots_append hfits] at h
    cases hb : rule.blockedBy after with
    | false => rfl
    | true => simp [hb] at h
  · rintro ⟨rfl, hfits, hclear⟩
    rw [Rule.window?, Rule.matchSlots_append hfits]
    simp [hclear]

theorem Rule.pattern_ne_nil {rule : Rule} (h : rule ∈ Rule.table) : rule.pattern ≠ [] := by
  have hall : ∀ r ∈ Rule.table, r.pattern ≠ [] := by decide
  exact hall rule h

namespace Redex

theorem leftmost?_eq_none_iff {rule : Rule} (hrule : rule ∈ Rule.table) {ts : List Token} :
    leftmost? rule ts = none ↔
      ∀ before window after, ts = before ++ (window ++ after) → ¬ rule.Matches window after := by
  induction ts with
  | nil =>
    refine iff_of_true rfl ?_
    intro before window after hts hm
    have hwindow : window = [] := by simp_all
    have hlength := hm.fits.length_eq
    rw [hwindow, List.length_nil, eq_comm, List.length_eq_zero_iff] at hlength
    exact Rule.pattern_ne_nil hrule hlength
  | cons t ts ih =>
    rw [leftmost?]
    constructor
    · intro h before window after hts hm
      cases hw : rule.window? (t :: ts) with
      | some split => simp [hw] at h
      | none =>
        rw [hw] at h
        cases before with
        | nil =>
          have hmatch : rule.window? (t :: ts) = some (window, after) :=
            Rule.window?_eq_some_iff.mpr ⟨hts, hm⟩
          rw [hmatch] at hw; cases hw
        | cons u before =>
          exact ih.mp (Option.map_eq_none_iff.mp h) before window after (List.cons.inj hts).2 hm
    · intro h
      cases hw : rule.window? (t :: ts) with
      | some split =>
        obtain ⟨hts, hm⟩ := Rule.window?_eq_some_iff.mp hw
        exact absurd hm (h [] _ _ hts)
      | none =>
        have hnone := ih.mpr fun before window after hts => h (t :: before) window after (by rw [hts]; rfl)
        simp [hnone]

theorem matches_of_leftmost?_eq_some {rule : Rule} {ts : List Token} {r : Redex}
    (h : leftmost? rule ts = some r) : rule.Matches r.window r.after := by
  induction ts generalizing r with
  | nil => simp [leftmost?] at h
  | cons t ts ih =>
    rw [leftmost?] at h
    split at h
    · rename_i hw
      cases h
      exact (Rule.window?_eq_some_iff.mp hw).2
    · obtain ⟨inner, hinner, he⟩ := Option.map_eq_some_iff.mp h
      subst he
      have hm := ih hinner
      exact hm

theorem length_before_le_of_leftmost?_eq_some {rule : Rule} {ts : List Token} {r : Redex}
    (h : leftmost? rule ts = some r) {before window after : List Token}
    (hts : ts = before ++ (window ++ after)) (hm : rule.Matches window after) :
    r.before.length ≤ before.length := by
  induction ts generalizing r before with
  | nil => simp [leftmost?] at h
  | cons t ts ih =>
    rw [leftmost?] at h
    split at h
    · cases h; simp
    · rename_i hw
      obtain ⟨inner, hinner, rfl⟩ := Option.map_eq_some_iff.mp h
      cases before with
      | nil =>
        have hmatch : rule.window? (t :: ts) = some (window, after) :=
          Rule.window?_eq_some_iff.mpr ⟨hts, hm⟩
        rw [hmatch] at hw; cases hw
      | cons u before => simpa using ih hinner (List.cons.inj hts).2

theorem leftmost?_eq_some_iff {rule : Rule} (hrule : rule ∈ Rule.table) {ts : List Token}
    {r : Redex} :
    leftmost? rule ts = some r ↔
      r.rule = rule ∧ ts = r.program ∧ rule.Matches r.window r.after ∧
        ∀ before window after, ts = before ++ (window ++ after) → rule.Matches window after →
          r.before.length ≤ before.length := by
  constructor
  · intro h
    obtain ⟨hr, hts, _⟩ := leftmost?_eq_some h
    exact ⟨hr, hts, matches_of_leftmost?_eq_some h,
      fun _ _ _ hsplit hm => length_before_le_of_leftmost?_eq_some h hsplit hm⟩
  · rintro ⟨hr, hts, hm, hleast⟩
    cases hfound : leftmost? rule ts with
    | none => exact absurd hm (leftmost?_eq_none_iff hrule |>.mp hfound _ _ _ hts)
    | some found =>
      obtain ⟨hr', hts', hfits'⟩ := leftmost?_eq_some hfound
      have hm' := matches_of_leftmost?_eq_some hfound
      -- both lie at the smallest distance from the front, and both are as wide as the pattern
      have hbefore : found.before.length = r.before.length := Nat.le_antisymm
        (length_before_le_of_leftmost?_eq_some hfound hts hm) (hleast _ _ _ hts' hm')
      have hwindow : found.window.length = r.window.length := by
        rw [hm'.fits.length_eq, hm.fits.length_eq]
      have hsame : found.before ++ (found.window ++ found.after)
          = r.before ++ (r.window ++ r.after) := by
        rw [← program, ← program, ← hts, ← hts']
      obtain ⟨h₁, htail⟩ := List.append_inj hsame hbefore
      obtain ⟨h₂, h₃⟩ := List.append_inj htail hwindow
      cases r; cases found
      simp_all

/-! ## The search through the rules -/

/-- **The rule that is used is the first one that matches anywhere, and its leftmost match is
rewritten.** -/
theorem find?_eq_some_iff {ts : List Token} {r : Redex} :
    find? ts = some r ↔
      ts = r.program ∧ r.rule.Matches r.window r.after ∧
        (∃ higher lower, Rule.table = higher ++ r.rule :: lower ∧
          ∀ rule ∈ higher, ∀ before window after, ts = before ++ (window ++ after) →
            ¬ rule.Matches window after) ∧
        ∀ before window after, ts = before ++ (window ++ after) → r.rule.Matches window after →
          r.before.length ≤ before.length := by
  constructor
  · intro h
    obtain ⟨higher, rule, lower, htable, hfound, hhigher⟩ := List.findSome?_eq_some_iff.mp h
    have hmem : rule ∈ Rule.table := by rw [htable]; simp
    obtain ⟨rfl, hts, hm, hleast⟩ := (leftmost?_eq_some_iff hmem).mp hfound
    refine ⟨hts, hm, ⟨higher, lower, htable, ?_⟩, hleast⟩
    intro rule hrule
    exact (leftmost?_eq_none_iff (by rw [htable]; simp [hrule])).mp (hhigher rule hrule)
  · rintro ⟨hts, hm, ⟨higher, lower, htable, hhigher⟩, hleast⟩
    have hmem : r.rule ∈ Rule.table := by rw [htable]; simp
    refine List.findSome?_eq_some_iff.mpr ⟨higher, r.rule, lower, htable, ?_, ?_⟩
    · exact (leftmost?_eq_some_iff hmem).mpr ⟨rfl, hts, hm, hleast⟩
    · intro rule hrule
      exact (leftmost?_eq_none_iff (by rw [htable]; simp [hrule])).mpr (hhigher rule hrule)

theorem find?_eq_none_iff {ts : List Token} :
    find? ts = none ↔
      ∀ rule ∈ Rule.table, ∀ before window after, ts = before ++ (window ++ after) →
        ¬ rule.Matches window after := by
  rw [find?, List.findSome?_eq_none_iff]
  exact forall₂_congr fun _ hrule => leftmost?_eq_none_iff hrule

end Redex

/-- The place of a rule among the rules: a smaller one is tried earlier. -/
def Rule.priority (rule : Rule) : Nat := Rule.table.idxOf rule

namespace Redex

/-- The rule that is used is not later than any rule that matches somewhere. -/
theorem find?_priority {ts : List Token} {r : Redex} (h : find? ts = some r) {rule : Rule}
    {before window after : List Token}
    (hts : ts = before ++ (window ++ after)) (hm : rule.Matches window after) :
    r.rule.priority ≤ rule.priority := by
  obtain ⟨-, -, ⟨higher, lower, htable, hhigher⟩, -⟩ := find?_eq_some_iff.mp h
  have hnot : rule ∉ higher := fun hmem => hhigher rule hmem before window after hts hm
  unfold Rule.priority
  rw [htable, List.idxOf_append, List.idxOf_append, if_neg hnot]
  split
  · rename_i hmem
    exact Nat.le_trans (List.idxOf_le_length) (Nat.le_add_left _ _)
  · simp

/-- Of several matches of the rule that is used, the leftmost is rewritten. -/
theorem find?_leftmost {ts : List Token} {r : Redex} (h : find? ts = some r)
    {before window after : List Token} (hts : ts = before ++ (window ++ after))
    (hm : r.rule.Matches window after) : r.before.length ≤ before.length := by
  obtain ⟨-, -, -, hleast⟩ := find?_eq_some_iff.mp h
  exact hleast before window after hts hm

theorem find?_ne_none {ts : List Token} {rule : Rule} (hrule : rule ∈ Rule.table)
    {before window after : List Token} (hts : ts = before ++ (window ++ after))
    (hm : rule.Matches window after) : find? ts ≠ none := by
  intro hnone
  exact find?_eq_none_iff.mp hnone rule hrule before window after hts hm

end Redex

end Formula
