import Mathlib.Data.List.Basic

/-! # Lists

What the proofs need of lists and the library does not say: where an element stands in a list that is
put together from others, what is left of a list when some of its elements or their repetitions are
dropped, and which of two elements occurs first in it. -/

namespace Formula

variable {α β : Type}

/-! ## Places in joined lists -/

/-- The elements after a separator, or those before it, hold an occurrence of another element. -/
theorem append_cons_split {front back before after : List α} {s u : α}
    (hne : u ≠ s) (h : front ++ s :: back = before ++ u :: after) :
    (∃ middle, front = before ++ u :: middle ∧ after = middle ++ s :: back) ∨
      ∃ middle, before = front ++ s :: middle ∧ back = middle ++ u :: after := by
  rcases List.append_eq_append_iff.mp h with ⟨middle, rfl, hback⟩ | ⟨middle, rfl, hafter⟩
  · cases middle with
    | nil => exact absurd (List.cons.inj hback).1.symm hne
    | cons t middle =>
      obtain ⟨rfl, hback'⟩ := List.cons.inj hback
      exact .inr ⟨middle, rfl, hback'⟩
  · cases middle with
    | nil => exact absurd (List.cons.inj hafter).1 hne
    | cons t middle =>
      obtain ⟨rfl, hafter'⟩ := List.cons.inj hafter
      exact .inl ⟨middle, rfl, hafter'⟩

/-- An element of a list lies behind a window, in front of it or in it. -/
theorem append_append_eq_append_cons {before window after front back : List α} {a : α}
    (h : before ++ (window ++ after) = front ++ a :: back) :
    (∃ middle, front = before ++ (window ++ middle) ∧ after = middle ++ a :: back) ∨
      (∃ middle, before = front ++ a :: middle ∧ back = middle ++ (window ++ after)) ∨
      ∃ left right, front = before ++ left ∧ window = left ++ a :: right ∧ back = right ++ after := by
  rcases List.append_eq_append_iff.mp h with ⟨left, rfl, hwindow⟩ | ⟨left, rfl, hback⟩
  · rcases List.append_eq_append_iff.mp hwindow with ⟨middle, rfl, rfl⟩ | ⟨right, rfl, hafter⟩
    · exact .inl ⟨middle, rfl, rfl⟩
    · cases right with
      | nil => exact .inl ⟨[], by simp, hafter.symm⟩
      | cons b right =>
        obtain ⟨rfl, rfl⟩ := List.cons.inj hafter
        exact .inr (.inr ⟨left, right, rfl, rfl, rfl⟩)
  · cases left with
    | cons b middle =>
      obtain ⟨rfl, rfl⟩ := List.cons.inj hback
      exact .inr (.inl ⟨middle, rfl, rfl⟩)
    | nil =>
      cases window with
      | nil => exact .inl ⟨[], by simp, hback.symm⟩
      | cons b right =>
        obtain ⟨rfl, rfl⟩ := List.cons.inj hback
        exact .inr (.inr ⟨[], right, by simp, rfl, rfl⟩)

theorem not_prefix_takeWhile_of_isPrefixOf [BEq α] [LawfulBEq α] {front l : List α} {p : α → Bool}
    (h : ¬ front.isPrefixOf l = true) : ¬ front <+: l.takeWhile p :=
  fun hfront => h (List.isPrefixOf_iff_prefix.mpr (hfront.trans (List.takeWhile_prefix p)))

/-! ## What is made of each element -/

theorem filterMap_cons_eq_toList_append (f : α → Option β) (a : α) (l : List α) :
    (a :: l).filterMap f = (f a).toList ++ l.filterMap f := by
  cases hfa : f a <;> simp [hfa]

theorem mapM_ite {p : α → Prop} [DecidablePred p] (f : α → β) (l : List α) :
    l.mapM (fun a => if p a then some (f a) else none)
      = if ∀ a ∈ l, p a then some (l.map f) else none := by
  induction l with
  | nil => simp
  | cons a l ih =>
    rw [List.mapM_cons, ih]
    by_cases ha : p a
    · by_cases hrest : ∀ a ∈ l, p a
      · rw [if_pos ha, if_pos hrest, if_pos (List.forall_mem_cons.mpr ⟨ha, hrest⟩)]
        rfl
      · rw [if_pos ha, if_neg hrest, if_neg fun h => hrest (List.forall_mem_cons.mp h).2]
        rfl
    · rw [if_neg ha, if_neg fun h => ha (List.forall_mem_cons.mp h).1]
      rfl

theorem mapM_eq_some_self {f : α → Option α} {l : List α} (h : ∀ a ∈ l, f a = some a) :
    l.mapM f = some l := by
  induction l with
  | nil => rfl
  | cons a l ih =>
    obtain ⟨ha, hl⟩ := List.forall_mem_cons.mp h
    rw [List.mapM_cons, ha, ih hl]
    rfl

theorem forall_of_mapM_eq_some {f : α → Option β} {l : List α} {results : List β}
    (h : l.mapM f = some results) : ∀ a ∈ l, ∃ b ∈ results, f a = some b := by
  induction l generalizing results with
  | nil => simp
  | cons a l ih =>
    rw [List.mapM_cons] at h
    obtain ⟨b, hb, h⟩ := Option.bind_eq_some_iff.mp h
    obtain ⟨bs, hbs, h⟩ := Option.bind_eq_some_iff.mp h
    cases h
    refine List.forall_mem_cons.mpr ⟨⟨b, List.mem_cons_self, hb⟩, ?_⟩
    intro c hc
    obtain ⟨d, hd, hfd⟩ := ih hbs c hc
    exact ⟨d, List.mem_cons_of_mem b hd, hfd⟩

/-! ## Lists without repetitions -/

@[elab_as_elim]
theorem eraseDups_induction [BEq α] {motive : List α → Prop} (nil : motive [])
    (cons : ∀ a l, motive (l.filter fun b => !b == a) → motive (a :: l)) (l : List α) :
    motive l := by
  induction hn : l.length using Nat.strongRecOn generalizing l with
  | ind n ih =>
    cases l with
    | nil => exact nil
    | cons a l =>
      have hle := List.length_filter_le (fun b => !b == a) l
      exact cons a l (ih _ (by rw [← hn, List.length_cons]; omega) _ rfl)

variable [BEq α] [LawfulBEq α]

theorem nodup_eraseDups (l : List α) : l.eraseDups.Nodup := by
  induction l using eraseDups_induction with
  | nil => exact List.nodup_nil
  | cons a l ih =>
    rw [List.eraseDups_cons, List.nodup_cons]
    exact ⟨by simp, ih⟩

/-- Whether an element is kept does not depend on how often it is there. -/
theorem eraseDups_filter (p : α → Bool) (l : List α) :
    (l.filter p).eraseDups = l.eraseDups.filter p := by
  induction l using eraseDups_induction with
  | nil => rfl
  | cons a l ih =>
    have hswap : (l.filter p).filter (fun b => !b == a) = (l.filter fun b => !b == a).filter p := by
      rw [List.filter_filter, List.filter_filter]
      exact List.filter_congr fun b _ => Bool.and_comm _ _
    by_cases hp : p a = true
    · rw [List.filter_cons_of_pos hp, List.eraseDups_cons, List.eraseDups_cons,
        List.filter_cons_of_pos hp, hswap, ih]
    · have hne : ∀ b ∈ l.filter p, (!b == a) = true := by
        intro b hb
        rw [Bool.not_eq_true', beq_eq_false_iff_ne]
        rintro rfl
        exact hp (List.of_mem_filter hb)
      rw [List.filter_cons_of_neg hp, List.eraseDups_cons, List.filter_cons_of_neg hp, ← ih, ← hswap,
        List.filter_eq_self.mpr hne]

theorem eraseDups_eraseDups (l : List α) : l.eraseDups.eraseDups = l.eraseDups := by
  induction l using eraseDups_induction with
  | nil => rfl
  | cons a l ih =>
    rw [List.eraseDups_cons, List.eraseDups_cons, ← eraseDups_filter, List.filter_filter]
    simp only [Bool.and_self, ih]

theorem eraseDups_append_eraseDups (l m : List α) :
    (l.eraseDups ++ m.eraseDups).eraseDups = (l ++ m).eraseDups := by
  have hremove : m.eraseDups.removeAll l.eraseDups = (m.removeAll l).eraseDups := by
    rw [List.removeAll, List.removeAll, eraseDups_filter]
    refine List.filter_congr fun b _ => ?_
    simp [List.mem_eraseDups]
  rw [List.eraseDups_append, List.eraseDups_append, eraseDups_eraseDups, hremove,
    eraseDups_eraseDups]

/-! ## The order of first occurrence -/

/-- What is picked from the elements of a list occurs first in the order in which the elements do,
if each of it is picked from one element only. -/
theorem idxOf_filterMap_lt_iff [BEq β] [LawfulBEq β] {f : α → Option β} {a b : α} {x y : β}
    (hx : ∀ c, f c = some x ↔ c = a) (hy : ∀ c, f c = some y ↔ c = b) (l : List α) :
    (l.filterMap f).idxOf x < (l.filterMap f).idxOf y ↔ l.idxOf a < l.idxOf b := by
  induction l with
  | nil => simp
  | cons c l ih =>
    cases hc : f c with
    | none =>
      have ha : c ≠ a := by
        rintro rfl
        simp [(hx c).mpr rfl] at hc
      have hb : c ≠ b := by
        rintro rfl
        simp [(hy c).mpr rfl] at hc
      rw [List.filterMap_cons_none hc, List.idxOf_cons_ne l ha, List.idxOf_cons_ne l hb, ih,
        Nat.succ_lt_succ_iff]
    | some z =>
      have ha : (z == x) = (c == a) := by
        rw [Bool.eq_iff_iff, beq_iff_eq, beq_iff_eq, ← hx c, hc, Option.some.injEq]
      have hb : (z == y) = (c == b) := by
        rw [Bool.eq_iff_iff, beq_iff_eq, beq_iff_eq, ← hy c, hc, Option.some.injEq]
      rw [List.filterMap_cons_some hc, List.idxOf_cons, List.idxOf_cons, List.idxOf_cons,
        List.idxOf_cons, ha, hb]
      cases c == a <;> cases c == b <;> simp [ih]

theorem idxOf_filter_lt_iff {p : α → Bool} {x y : α} (hx : p x = true) (hy : p y = true)
    (l : List α) : (l.filter p).idxOf x < (l.filter p).idxOf y ↔ l.idxOf x < l.idxOf y := by
  have hguard : ∀ {z}, p z = true → ∀ c, Option.guard p c = some z ↔ c = z := by
    intro z hz c
    rw [Option.guard_eq_some_iff]
    constructor
    · exact And.left
    · rintro rfl
      exact ⟨rfl, hz⟩
  rw [← List.filterMap_eq_filter]
  exact idxOf_filterMap_lt_iff (hguard hx) (hguard hy) l

/-- Of several occurrences the first one is kept. -/
theorem idxOf_eraseDups_lt_iff (x y : α) (l : List α) :
    l.eraseDups.idxOf x < l.eraseDups.idxOf y ↔ l.idxOf x < l.idxOf y := by
  induction l using eraseDups_induction with
  | nil => simp
  | cons a l ih =>
    rw [List.eraseDups_cons]
    by_cases hx : a = x
    · subst hx
      by_cases hy : a = y <;> simp [hy]
    · by_cases hy : a = y
      · subst hy
        simp
      · rw [List.idxOf_cons_ne _ hx, List.idxOf_cons_ne _ hy, List.idxOf_cons_ne _ hx,
          List.idxOf_cons_ne _ hy, Nat.succ_lt_succ_iff, Nat.succ_lt_succ_iff, ih]
        exact idxOf_filter_lt_iff (by simpa using Ne.symm hx) (by simpa using Ne.symm hy) l

end Formula
