import Formula.Proofs.Lists
import Formula.Proofs.Precedence.Timing

/-! # Parts of a term

A part of a term is found by the place of its first token. Where a token stands in the text of a term
tells which part it belongs to: an opening parenthesis begins a part in parentheses
(`exists_replaces_paren`), and an operator stands between its operands
(`exists_replaces_operation`). -/

namespace Formula

namespace Term

/-- The second term is the first one with `b` in the place of its part `a`, which begins at the
token `k`. -/
inductive Replaces (a b : Term) : Nat → Term → Term → Prop
  | whole : Replaces a b 0 a b
  | paren {k : Nat} {t t' : Term} (h : Replaces a b k t t') :
    Replaces a b (k + 1) (paren t) (paren t')
  | left {k : Nat} {l l' : Term} (h : Replaces a b k l l') (o : Operator) (r : Term) :
    Replaces a b k (operation l o r) (operation l' o r)
  | right {k : Nat} {r r' : Term} (h : Replaces a b k r r') (l : Term) (o : Operator) {j : Nat}
      (hj : j = l.tokens.length + (k + 1)) : Replaces a b j (operation l o r) (operation l o r')

/-- Puts a term in the place of the number that is the token `k`. -/
def replaceAt : Term → Nat → Term → Term
  | number _, _, new => new
  | paren t, k, new => paren (t.replaceAt (k - 1) new)
  | operation l o r, k, new =>
    if k < l.tokens.length then operation (l.replaceAt k new) o r
    else operation l o (r.replaceAt (k - (l.tokens.length + 1)) new)

namespace Replaces

variable {a b t t' : Term} {k : Nat}

theorem symm (h : Replaces a b k t t') : Replaces b a k t' t := by
  induction h with
  | whole => exact .whole
  | paren _ ih => exact .paren ih
  | left _ o r ih => exact .left ih o r
  | right _ l o hj ih => exact .right ih l o hj

theorem tokens_eq (h : Replaces a b k t t') :
    ∃ before after, before.length = k ∧ t.tokens = before ++ (a.tokens ++ after) ∧
      t'.tokens = before ++ (b.tokens ++ after) := by
  induction h with
  | whole => exact ⟨[], [], rfl, by simp, by simp⟩
  | paren _ ih =>
    obtain ⟨before, after, rfl, ht, ht'⟩ := ih
    exact ⟨.openParen :: before, after ++ [.closeParen], rfl, by simp [tokens, ht],
      by simp [tokens, ht']⟩
  | left _ o r ih =>
    obtain ⟨before, after, rfl, hl, hl'⟩ := ih
    exact ⟨before, after ++ .operator o :: r.tokens, rfl, by simp [tokens, hl],
      by simp [tokens, hl']⟩
  | right _ l o hj ih =>
    obtain ⟨before, after, rfl, hr, hr'⟩ := ih
    exact ⟨l.tokens ++ .operator o :: before, after, by simp [hj], by simp [tokens, hr],
      by simp [tokens, hr']⟩

theorem length_le (h : Replaces a b k t t') : k + a.tokens.length ≤ t.tokens.length := by
  obtain ⟨before, after, rfl, ht, -⟩ := h.tokens_eq
  rw [ht, List.length_append, List.length_append]
  omega

theorem value_eq (h : Replaces a b k t t') (hab : a.value = b.value) : t.value = t'.value := by
  induction h with
  | whole => exact hab
  | paren _ ih => exact ih
  | left _ o r ih => rw [value, value, ih]
  | right _ l o _ ih => rw [value, value, ih]

/-- What is put in a place tells what comes out. -/
theorem unique {t₁ t₂ : Term} (h₁ : Replaces a b k t t₁) (h₂ : Replaces a b k t t₂) : t₁ = t₂ := by
  induction h₁ generalizing t₂ with
  | whole =>
    cases h₂ with
    | whole => rfl
    | left h o r =>
      have hle := h.length_le
      simp only [tokens, List.length_append, List.length_cons] at hle
      omega
    | right h l o hj =>
      have hle := h.length_le
      omega
  | paren h ih =>
    cases h₂ with
    | paren h' => rw [ih h']
  | left h o r ih =>
    have hle := h.length_le
    cases h₂ with
    | whole =>
      simp only [tokens, List.length_append, List.length_cons] at hle
      omega
    | left h' => rw [ih h']
    | right h' _ _ hj => omega
  | right h l o hj ih =>
    cases h₂ with
    | whole => omega
    | left h' =>
      have hle := h'.length_le
      omega
    | right h' _ _ hj' =>
      obtain rfl : _ = _ := Nat.add_right_cancel (Nat.add_left_cancel (hj.symm.trans hj'))
      rw [ih h']

/-! ## What goes with a part -/

theorem timely_part (h : Replaces a b k t t') (ht : t.Timely) : a.Timely := by
  induction h with
  | whole => exact ht
  | paren _ ih => exact ih ht
  | left _ _ _ ih => exact ih ht.1
  | right _ _ _ _ ih => exact ih ht.2.1

theorem conventional_part (h : Replaces a b k t t') (ht : t.Conventional) : a.Conventional := by
  induction h with
  | whole => exact ht
  | paren _ ih => exact ih ht
  | left _ _ _ ih => exact ih ht.1
  | right _ _ _ _ ih => exact ih ht.2.1

/-- A number suits the place of any part. -/
theorem conventional {z : Float} (h : Replaces a (number z) k t t') (ht : t.Conventional) :
    t'.Conventional ∧ t'.looseness ≤ t.looseness := by
  induction h with
  | whole => exact ⟨trivial, Nat.zero_le _⟩
  | paren _ ih => exact ⟨(ih ht).1, Nat.le_refl _⟩
  | left _ o r ih =>
    obtain ⟨hl, hr, hlo, hro⟩ := ht
    obtain ⟨hl', hlooseness⟩ := ih hl
    exact ⟨⟨hl', hr, Nat.le_trans hlooseness hlo, hro⟩, Nat.le_refl _⟩
  | right _ l o _ ih =>
    obtain ⟨hl, hr, hlo, hro⟩ := ht
    obtain ⟨hr', hlooseness⟩ := ih hr
    exact ⟨⟨hl, hr', hlo, Nat.lt_of_le_of_lt hlooseness hro⟩, Nat.le_refl _⟩

end Replaces

/-! ## Which part a token belongs to -/

theorem replaces_replaceAt {t : Term} {before after : List Token} {z : Float}
    (ht : t.tokens = before ++ .number z :: after) (new : Term) :
    Replaces (number z) new before.length t (t.replaceAt before.length new) := by
  induction t generalizing before after with
  | number x =>
    cases before with
    | nil =>
      cases ht
      exact .whole
    | cons u before => cases before <;> cases ht
  | paren t ih =>
    cases before with
    | nil => cases ht
    | cons u before =>
      obtain ⟨-, hrest⟩ := List.cons.inj ht
      rcases append_cons_split (by simp) hrest with
        ⟨middle, ht, -⟩ | ⟨middle, -, hnil⟩
      · exact .paren (ih ht)
      · cases middle <;> cases hnil
  | operation l o r ihl ihr =>
    rw [replaceAt]
    rcases append_cons_split (by simp) ht with ⟨middle, hl, -⟩ | ⟨middle, rfl, hr⟩
    · rw [if_pos (by simp [hl])]
      exact .left (ihl hl) o r
    · have hk : (l.tokens ++ .operator o :: middle).length = l.tokens.length + (middle.length + 1) := by
        simp
      have hsub : l.tokens.length + (middle.length + 1) - (l.tokens.length + 1) = middle.length := by
        omega
      rw [hk, if_neg (by omega), hsub]
      exact .right (ihr hr) l o (by simp)

theorem exists_replaces_paren {t : Term} {before after : List Token}
    (ht : t.tokens = before ++ .openParen :: after) :
    ∃ inner rest, after = inner.tokens ++ .closeParen :: rest ∧
      ∀ new, ∃ t', Replaces (paren inner) new before.length t t' := by
  induction t generalizing before after with
  | number x => cases before <;> simp [tokens] at ht
  | paren t ih =>
    cases before with
    | nil =>
      obtain ⟨-, rfl⟩ := List.cons.inj ht
      exact ⟨t, [], rfl, fun new => ⟨new, .whole⟩⟩
    | cons u before =>
      obtain ⟨-, hrest⟩ := List.cons.inj ht
      rcases append_cons_split (by simp) hrest with
        ⟨middle, hinner, rfl⟩ | ⟨middle, -, hnil⟩
      · obtain ⟨inner, rest, rfl, hreplaces⟩ := ih hinner
        refine ⟨inner, rest ++ [.closeParen], by simp, ?_⟩
        intro new
        obtain ⟨t', h⟩ := hreplaces new
        exact ⟨paren t', .paren h⟩
      · cases middle <;> cases hnil
  | operation l o r ihl ihr =>
    rcases append_cons_split (by simp) ht with
      ⟨middle, hl, rfl⟩ | ⟨middle, rfl, hr⟩
    · obtain ⟨inner, rest, rfl, hreplaces⟩ := ihl hl
      refine ⟨inner, rest ++ .operator o :: r.tokens, by simp, ?_⟩
      intro new
      obtain ⟨l', h⟩ := hreplaces new
      exact ⟨operation l' o r, .left h o r⟩
    · obtain ⟨inner, rest, rfl, hreplaces⟩ := ihr hr
      refine ⟨inner, rest, rfl, ?_⟩
      intro new
      obtain ⟨r', h⟩ := hreplaces new
      exact ⟨operation l o r', .right h l o (by simp)⟩

theorem exists_replaces_operation {t : Term} {before after : List Token} {o : Operator}
    (ht : t.tokens = before ++ .operator o :: after) :
    ∃ l r front rest, before = front ++ l.tokens ∧ after = r.tokens ++ rest ∧
      ∀ new, ∃ t', Replaces (operation l o r) new front.length t t' := by
  induction t generalizing before after with
  | number x => cases before <;> simp [tokens] at ht
  | paren t ih =>
    cases before with
    | nil => cases ht
    | cons u before =>
      obtain ⟨rfl, hrest⟩ := List.cons.inj ht
      rcases append_cons_split (by simp) hrest with
        ⟨middle, hinner, rfl⟩ | ⟨middle, -, hnil⟩
      · obtain ⟨l, r, front, rest, rfl, rfl, hreplaces⟩ := ih hinner
        refine ⟨l, r, .openParen :: front, rest ++ [.closeParen], rfl, by simp, ?_⟩
        intro new
        obtain ⟨t', h⟩ := hreplaces new
        exact ⟨paren t', .paren h⟩
      · cases middle <;> cases hnil
  | operation l p r ihl ihr =>
    -- the operator is that of `t`, or one of the operands holds it
    rcases List.append_eq_append_iff.mp ht with ⟨middle, rfl, hr⟩ | ⟨middle, hl, hafter⟩
    · cases middle with
      | nil =>
        obtain ⟨he, rfl⟩ := List.cons.inj hr
        cases he
        exact ⟨l, r, [], [], by simp, by simp, fun new => ⟨new, .whole⟩⟩
      | cons u middle =>
        obtain ⟨rfl, hr'⟩ := List.cons.inj hr
        obtain ⟨l', r', front, rest, rfl, rfl, hreplaces⟩ := ihr hr'
        refine ⟨l', r', l.tokens ++ .operator p :: front, rest, by simp, rfl, ?_⟩
        intro new
        obtain ⟨t', h⟩ := hreplaces new
        exact ⟨operation l p t', .right h l p (by simp)⟩
    · cases middle with
      | nil =>
        obtain ⟨he, rfl⟩ := List.cons.inj hafter
        cases he
        rw [List.append_nil] at hl
        exact ⟨l, r, [], [], hl.symm, by simp, fun new => ⟨new, .whole⟩⟩
      | cons u middle =>
        obtain ⟨rfl, rfl⟩ := List.cons.inj hafter
        obtain ⟨l', r', front, rest, rfl, rfl, hreplaces⟩ := ihl hl
        refine ⟨l', r', front, rest ++ .operator p :: r.tokens, rfl, by simp, ?_⟩
        intro new
        obtain ⟨t', h⟩ := hreplaces new
        exact ⟨operation t' p r, .left h p r⟩

end Term

end Formula
