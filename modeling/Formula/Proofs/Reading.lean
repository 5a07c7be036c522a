import Formula.Token

/-! # Reading tokens one after another

A machine that reads tokens from left to right is given by its steps and by the readings that it may
end with. What several tokens lead to is what the first of them lead to, and the rest from there. -/

namespace Formula

section

variable {α : Type} (step : α → Token → α → Prop) (done : α → Prop)

/-- Reads tokens one after another. -/
inductive Reads : α → List Token → α → Prop
  | nil {a : α} : Reads a [] a
  | cons {a b c : α} {t : Token} {ts : List Token} (h : step a t b) (hs : Reads b ts c) :
    Reads a (t :: ts) c

/-- Reading can come to an end. -/
def Accepts (a : α) (ts : List Token) : Prop := ∃ b, Reads step a ts b ∧ done b

end

variable {α : Type} {step : α → Token → α → Prop} {done : α → Prop} {a b c : α} {t : Token}
  {ts us : List Token}

theorem Reads.append (h : Reads step a ts b) (h' : Reads step b us c) :
    Reads step a (ts ++ us) c := by
  induction h with
  | nil => exact h'
  | cons hstep _ ih => exact .cons hstep (ih h')

theorem Reads.snoc (h : Reads step a ts b) (h' : step b t c) : Reads step a (ts ++ [t]) c :=
  h.append (.cons h' .nil)

theorem Reads.split (h : Reads step a (ts ++ us) c) :
    ∃ b, Reads step a ts b ∧ Reads step b us c := by
  induction ts generalizing a with
  | nil => exact ⟨a, .nil, h⟩
  | cons t ts ih =>
    cases h with
    | cons hstep hs =>
      obtain ⟨b, hts, hus⟩ := ih hs
      exact ⟨b, .cons hstep hts, hus⟩

theorem Reads.last (h : Reads step a ts c) :
    (ts = [] ∧ a = c) ∨
      ∃ front t b, ts = front ++ [t] ∧ Reads step a front b ∧ step b t c := by
  induction h with
  | nil => exact .inl ⟨rfl, rfl⟩
  | @cons a b c t ts hstep hs ih =>
    right
    rcases ih with ⟨rfl, rfl⟩ | ⟨front, u, m, rfl, hfront, hlast⟩
    · exact ⟨[], t, a, rfl, .nil, hstep⟩
    · exact ⟨t :: front, u, m, rfl, .cons hstep hfront, hlast⟩

theorem Reads.accepts (h : Reads step a ts b) (h' : Accepts step done b us) :
    Accepts step done a (ts ++ us) := by
  obtain ⟨c, hus, hc⟩ := h'
  exact ⟨c, h.append hus, hc⟩

theorem Accepts.split (h : Accepts step done a (ts ++ us)) :
    ∃ b, Reads step a ts b ∧ Accepts step done b us := by
  obtain ⟨c, hreads, hc⟩ := h
  obtain ⟨b, hts, hus⟩ := hreads.split
  exact ⟨b, hts, c, hus, hc⟩

theorem Accepts.cons (h : step a t b) (h' : Accepts step done b ts) :
    Accepts step done a (t :: ts) := by
  obtain ⟨c, hts, hc⟩ := h'
  exact ⟨c, .cons h hts, hc⟩

theorem Accepts.uncons (h : Accepts step done a (t :: ts)) :
    ∃ b, step a t b ∧ Accepts step done b ts := by
  obtain ⟨c, hreads, hc⟩ := h
  cases hreads with
  | cons hstep hs => exact ⟨_, hstep, c, hs, hc⟩

theorem Accepts.done_of_nil (h : Accepts step done a []) : done a := by
  obtain ⟨b, hreads, hb⟩ := h
  cases hreads
  exact hb

end Formula
