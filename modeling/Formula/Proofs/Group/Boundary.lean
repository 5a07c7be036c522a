import Formula.Proofs.Grammar.Derivation
import Formula.Proofs.Lists
import Formula.Proofs.Yield

/-! # The boundary of a group

Every window of a rule is balanced by itself, and so is what takes its place. Therefore a window
cannot reach over a parenthesis of a group that is balanced inside (`Group.window_cases`), unless it
holds the whole group, which is too long for it as soon as the group has two tokens. -/

namespace Formula

variable {ts us window new before after : List Token} {t : Token}

/-! ## Balanced tokens -/

theorem balanced_of_forall (h : ∀ t ∈ ts, t ≠ .openParen ∧ t ≠ .closeParen) : Balanced ts := by
  have hopen : .openParen ∉ ts := fun hmem => (h _ hmem).1 rfl
  have hclose : .closeParen ∉ ts := fun hmem => (h _ hmem).2 rfl
  refine ⟨?_, by rw [List.count_eq_zero.mpr hopen, List.count_eq_zero.mpr hclose]⟩
  rintro front back rfl
  rw [List.count_eq_zero.mpr fun hmem => hclose (List.mem_append_left back hmem)]
  exact Nat.zero_le _

theorem balanced_nil : Balanced [] := balanced_of_forall (by simp)

theorem Balanced.call (h : Balanced ts) (f : String) :
    Balanced (.name f :: .openParen :: (ts ++ [.closeParen])) :=
  (balanced_singleton (t := .name f) (by simp) (by simp)).append h.parens

theorem Balanced.count_open_le (h : Balanced (ts ++ us)) :
    us.count .openParen ≤ us.count .closeParen := by
  have hfront := h.1 ts us rfl
  have hall := h.2
  simp only [List.count_append] at hall
  omega

/-- What is balanced may be replaced by something else that is. -/
theorem Balanced.replace (h : Balanced (before ++ (ts ++ after))) (hts : Balanced ts)
    (hus : Balanced us) : Balanced (before ++ (us ++ after)) := by
  have hts' := hts.2
  have hus' := hus.2
  refine ⟨?_, ?_⟩
  · intro front back hsplit
    rcases List.append_eq_append_iff.mp hsplit with ⟨middle, rfl, hmiddle⟩ | ⟨middle, rfl, -⟩
    · rcases List.append_eq_append_iff.mp hmiddle with ⟨rest, rfl, rfl⟩ | ⟨rest, rfl, -⟩
      · have hall := h.1 (before ++ (ts ++ rest)) back (by simp)
        simp only [List.count_append] at hall ⊢
        omega
      · have hbefore := h.1 before _ rfl
        have hmiddle := hus.1 middle rest rfl
        simp only [List.count_append]
        omega
    · exact h.1 front (middle ++ (ts ++ after)) (by simp)
  · have hall := h.2
    simp only [List.count_append] at hall ⊢
    omega

theorem Token.ne_of_values? {vs : List Value} (h : t.values? = some vs) :
    t ≠ .openParen ∧ t ≠ .closeParen := by
  cases t <;> simp [values?, scalar?] at h ⊢

theorem Balanced.values {vs : List Value} (h : t.values? = some vs) : Balanced [t] := by
  obtain ⟨hopen, hclose⟩ := Token.ne_of_values? h
  exact balanced_singleton hopen hclose

/-- A window is balanced. -/
theorem Contracts.balanced {replacement : Replacement} (h : Contracts window replacement) :
    Balanced window := by
  have hnumber : ∀ x, Balanced [.number x] := fun x => .values rfl
  cases h with
  | wrapArgument f ht => exact (Balanced.values (Token.values?_of_scalar? ht)).call f
  | multiply x y => exact (hnumber x).append (hnumber y).parens
  | unwrap x => exact (hnumber x).parens
  | pair ht hu =>
    have ht' := Token.ne_of_values? (Token.values?_of_scalar? ht)
    have hu' := Token.ne_of_values? (Token.values?_of_scalar? hu)
    exact balanced_of_forall (by simp [ht', hu'])
  | append vs ht =>
    have ht' := Token.ne_of_values? (Token.values?_of_scalar? ht)
    exact balanced_of_forall (by simp [ht'])
  | wrapNothing f => exact balanced_nil.call f
  | call f vs => exact (Balanced.values rfl).call f
  | operate | concatenate | substitute => exact balanced_of_forall (by simp)

theorem Leaves.balanced (h : Leaves window new) : Balanced new := by
  cases h with
  | values ht => exact .values ht
  | wrapped f inner vs => exact (Balanced.values rfl).call f

theorem Leaves.ne_nil (h : Leaves window new) : new ≠ [] := by cases h <;> simp

/-- Rewriting keeps parentheses balanced. -/
theorem Redex.balanced_result {σ : Type} {host : Host σ} {state state' : σ} {r : Redex}
    (hfind : find? ts = some r)
    (hnew : r.rule.action.rewrite host state r.window = (.ok new, state')) (h : Balanced ts) :
    Balanced (r.result new) := by
  obtain ⟨replacement, hcontracts, hyields⟩ := exists_yields hfind hnew
  rw [(find?_eq_some hfind).2.1, program] at h
  exact h.replace hcontracts.balanced (hcontracts.leaves hyields).balanced

/-! ## Windows beside and in a group -/

/-- Tokens in parentheses, with all that is around them. -/
structure Group where
  before : List Token
  inner : List Token
  after : List Token

namespace Group

def program (g : Group) : List Token :=
  g.before ++ .openParen :: (g.inner ++ .closeParen :: g.after)

/-- A balanced window that does not hold the whole group is in front of it, in it or behind it. -/
theorem window_cases {g : Group} (hinner : Balanced g.inner) (hwindow : Balanced window)
    (hwhole : ¬ .openParen :: (g.inner ++ [.closeParen]) <:+: window)
    (h : before ++ (window ++ after) = g.program) :
    (∃ m, g.before = before ++ (window ++ m) ∧
        after = m ++ .openParen :: (g.inner ++ .closeParen :: g.after)) ∨
      (∃ m m', before = g.before ++ .openParen :: m ∧ g.inner = m ++ (window ++ m') ∧
        after = m' ++ .closeParen :: g.after) ∨
      ∃ m, before = g.before ++ .openParen :: (g.inner ++ .closeParen :: m) ∧
        g.after = m ++ (window ++ after) := by
  rcases append_append_eq_append_cons h with
    ⟨m, hbefore, hafter⟩ | ⟨m, rfl, hrest⟩ | ⟨left, right, hbefore, rfl, hrest⟩
  · exact .inl ⟨m, hbefore, hafter⟩
  · rcases append_append_eq_append_cons hrest.symm with
      ⟨m', hm, hafter⟩ | ⟨m', rfl, hafter⟩ | ⟨left, right, hm, rfl, hafter⟩
    · exact .inr (.inl ⟨m, m', rfl, hm, hafter⟩)
    · exact .inr (.inr ⟨m', rfl, hafter⟩)
    · -- a parenthesis that closes in the window is opened in it, and not at the end of the group
      have hclosed := hwindow.1 (left ++ [.closeParen]) right (by simp)
      have hopened := Balanced.count_open_le (hm ▸ hinner)
      simp only [List.count_append, List.count_singleton_self] at hclosed
      rw [List.count_cons_of_ne (by simp), List.count_nil] at hclosed
      omega
  · have hleft := hwindow.1 left _ rfl
    have hall := hwindow.2
    simp only [List.count_append, List.count_cons_self] at hall
    rw [List.count_cons_of_ne (by simp)] at hall
    -- what is opened in front of the group's tokens can only be closed behind them
    rcases List.append_eq_append_iff.mp hrest.symm with ⟨m, hm, -⟩ | ⟨m, rfl, hclose⟩
    · have hright := hinner.1 right m hm
      omega
    · cases m with
      | nil =>
        have hright := hinner.2
        rw [List.append_nil] at hall
        omega
      | cons t m =>
        obtain ⟨rfl, -⟩ := List.cons.inj hclose
        exact absurd ⟨left, m, by simp⟩ hwhole

end Group

theorem Contracts.length_le_three_or {replacement : Replacement}
    (h : Contracts window replacement) :
    window.length ≤ 3 ∨ window.length = 4 ∧ window.head? ≠ some .openParen := by
  cases h <;> simp

/-- No window holds a group of two tokens. -/
theorem Contracts.not_isInfix {replacement : Replacement} (h : Contracts window replacement)
    (hlong : 2 ≤ ts.length) : ¬ .openParen :: (ts ++ [.closeParen]) <:+: window := by
  rintro ⟨left, right, rfl⟩
  have hwidth := h.length_le_three_or
  simp only [List.length_append, List.length_cons, List.length_nil] at hwidth
  rcases hwidth with hthree | ⟨hfour, hhead⟩
  · omega
  · have hleft : left = [] := List.eq_nil_of_length_eq_zero (by omega)
    subst hleft
    exact hhead rfl

end Formula
