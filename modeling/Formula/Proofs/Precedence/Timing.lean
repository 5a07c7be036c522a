import Formula.Proofs.Precedence.Term

/-! # When the operations of a term are performed

The operations of all parentheses compete for their turn. An operation is performed when its tier
comes up, but not before the operands next to its operator have become numbers. So a term is
evaluated as it is grouped if everything that groups an operand happens before the operator beside
that operand gets its turn (`Term.Timely`), and rewriting a window in its turn changes nothing of
this (`Contraction.timely`). -/

namespace Formula

namespace Term

/-- The loosest tier in a term: when it comes up, the term becomes a number. -/
def rank : Term → Nat
  | number _ => 0
  | paren t => t.rank
  | operation l o r => max o.tier (max l.rank r.rank)

/-- The operand in front. -/
def first : Term → Term
  | operation l _ _ => l.first
  | t => t

/-- The operand at the end. -/
def last : Term → Term
  | operation _ _ r => r.last
  | t => t

/-- The tier in which an operator gets its turn, by the operands next to it. -/
def due (l : Term) (o : Operator) (r : Term) : Nat := max o.tier (max l.last.rank r.first.rank)

/-- An operator behind the term, which gets its turn in the tier `m` unless the operand before it
takes longer, finds each operation of the term performed. -/
def DoneBy (m : Nat) : Term → Prop
  | operation l _ r => l.rank ≤ max m r.rank ∧ r.DoneBy m
  | _ => True

/-- The same of an operator in front. In one tier the left one of two operations comes first, so
here the operations have to be earlier. -/
def DoneBefore (m : Nat) : Term → Prop
  | operation l _ r => r.rank < max m l.rank ∧ l.DoneBefore m
  | _ => True

/-- No operation takes an operand before everything that is grouped with it has been performed. -/
def Timely : Term → Prop
  | number _ => True
  | paren t => t.Timely
  | operation l o r =>
    l.Timely ∧ r.Timely ∧ l.DoneBy (max o.tier r.first.rank) ∧ r.DoneBefore (max o.tier l.last.rank)

instance decidableDoneBy (m : Nat) : (t : Term) → Decidable (t.DoneBy m)
  | number _ | paren _ => isTrue trivial
  | operation _ _ r => @instDecidableAnd _ _ _ (decidableDoneBy m r)

instance decidableDoneBefore (m : Nat) : (t : Term) → Decidable (t.DoneBefore m)
  | number _ | paren _ => isTrue trivial
  | operation l _ _ => @instDecidableAnd _ _ _ (decidableDoneBefore m l)

instance decidableTimely : (t : Term) → Decidable t.Timely
  | number _ => isTrue trivial
  | paren t => decidableTimely t
  | operation l _ r =>
    @instDecidableAnd _ _ (decidableTimely l) (@instDecidableAnd _ _ (decidableTimely r) _)

/-- No operation gets its turn before the tier `k`. -/
def Quiet (k : Nat) : Term → Prop
  | number _ => True
  | paren t => t.Quiet k
  | operation l o r => l.Quiet k ∧ r.Quiet k ∧ k ≤ due l o r

theorem rank_first_le (t : Term) : t.first.rank ≤ t.rank := by
  induction t with
  | number x => exact Nat.le_refl _
  | paren t _ => exact Nat.le_refl _
  | operation l o r ihl _ =>
    rw [first, rank]
    omega

theorem rank_last_le (t : Term) : t.last.rank ≤ t.rank := by
  induction t with
  | number x => exact Nat.le_refl _
  | paren t _ => exact Nat.le_refl _
  | operation l o r _ ihr =>
    rw [last, rank]
    omega

/-- What is of a tighter tier than all that is left has been evaluated. -/
theorem Quiet.rank_eq_zero {k : Nat} {t : Term} (h : t.Quiet k) (hk : t.rank < k) : t.rank = 0 := by
  induction t with
  | number x => rfl
  | paren t ih => exact ih h hk
  | operation l o r _ _ =>
    obtain ⟨-, -, hdue⟩ := h
    have hl := l.rank_last_le
    have hr := r.rank_first_le
    rw [rank] at hk
    rw [due] at hdue
    omega

/-- Before the first tier, nothing has to wait. -/
theorem quiet_one (t : Term) : t.Quiet 1 := by
  induction t with
  | number x => trivial
  | paren t ih => exact ih
  | operation l o r ihl ihr =>
    refine ⟨ihl, ihr, ?_⟩
    have ho := o.tier_pos
    rw [due]
    omega

theorem Quiet.mono {k m : Nat} {t : Term} (h : t.Quiet k) (hm : m ≤ k) : t.Quiet m := by
  induction t with
  | number x => trivial
  | paren t ih => exact ih h
  | operation l o r ihl ihr => exact ⟨ihl h.1, ihr h.2.1, Nat.le_trans hm h.2.2⟩

/-! ## Rewriting in turn -/

/-- What can be rewritten, and the tier that it has to wait for. Parentheses around a number are
taken away at once. -/
inductive Window : Nat → Term → Prop
  | unwrap (x : Float) : Window 0 (paren (number x))
  | operate (x : Float) (o : Operator) (y : Float) :
    Window o.tier (operation (number x) o (number y))

theorem Window.rank {k : Nat} {t : Term} (h : Window k t) : t.rank = k := by
  cases h with
  | unwrap x => rfl
  | operate x o y => exact Nat.max_eq_left (Nat.zero_le _)

theorem Window.rank_first {k : Nat} {t : Term} (h : Window k t) : t.first.rank = 0 := by
  cases h <;> rfl

theorem Window.rank_last {k : Nat} {t : Term} (h : Window k t) : t.last.rank = 0 := by
  cases h <;> rfl

theorem Window.doneBy {k m : Nat} {t : Term} (h : Window k t) : t.DoneBy m := by
  cases h with
  | unwrap x => trivial
  | operate x o y => exact ⟨Nat.zero_le _, trivial⟩

theorem Window.doneBefore {k m : Nat} {t : Term} (h : Window k t) (hm : 0 < m) :
    t.DoneBefore m := by
  cases h with
  | unwrap x => trivial
  | operate x o y => exact ⟨Nat.lt_of_lt_of_le hm (Nat.le_max_left _ _), trivial⟩

theorem Window.timely {k : Nat} {t : Term} (h : Window k t) : t.Timely := by
  cases h with
  | unwrap x => trivial
  | operate x o y => exact ⟨trivial, trivial, trivial, trivial⟩

/-- A window of the tier `k` becomes a number while nothing beside it has its turn yet: what stands
behind waits for the tier `k` as well, and what stands in front for a later one. -/
inductive Contraction (k : Nat) : Term → Term → Prop
  | window {t : Term} (h : Window k t) (z : Float) : Contraction k t (number z)
  | paren {t t' : Term} (h : Contraction k t t') : Contraction k (paren t) (paren t')
  | left {l l' r : Term} {o : Operator} (h : Contraction k l l') (hr : r.Quiet k)
      (hdue : k ≤ due l o r) : Contraction k (operation l o r) (operation l' o r)
  | right {l r r' : Term} {o : Operator} (h : Contraction k r r') (hl : l.Quiet (k + 1))
      (hdue : r.first.rank = 0 → k < max o.tier l.last.rank) :
    Contraction k (operation l o r) (operation l o r')

namespace Contraction

variable {k m m' : Nat} {t t' l r : Term}

/-! Above the tier `k`, no rank changes. -/

theorem rank (h : Contraction k t t') : max k t'.rank = max k t.rank := by
  induction h with
  | window h z =>
    rw [h.rank, Nat.max_self]
    exact Nat.max_eq_left (Nat.zero_le _)
  | paren _ ih => exact ih
  | left _ _ _ ih | right _ _ _ ih =>
    rw [Term.rank, Term.rank]
    omega

theorem rank_first (h : Contraction k t t') : max k t'.first.rank = max k t.first.rank := by
  induction h with
  | window h z => rw [h.rank_first]; rfl
  | paren h _ => exact h.rank
  | left _ _ _ ih => exact ih
  | right _ _ _ _ => rfl

theorem rank_last (h : Contraction k t t') : max k t'.last.rank = max k t.last.rank := by
  induction h with
  | window h z => rw [h.rank_last]; rfl
  | paren h _ => exact h.rank
  | left _ _ _ _ => rfl
  | right _ _ _ ih => exact ih

/-- An operator that waits for the tier `k` anyhow finds the term in front of it as before. -/
theorem doneBy_iff (h : Contraction k t t') (hm : k ≤ max m t.last.rank) :
    t'.DoneBy m ↔ t.DoneBy m := by
  induction h with
  | window h z => exact iff_of_true trivial h.doneBy
  | paren _ _ => exact Iff.rfl
  | @left l l' r o h _ _ _ =>
    have hrank := h.rank
    have hlast : k ≤ max m r.last.rank := hm
    have hr := r.rank_last_le
    refine and_congr_left ?_
    intro _
    omega
  | @right l r r' o h hl _ ih =>
    have hrank := h.rank
    have hzero := hl.rank_eq_zero
    refine and_congr ?_ (ih hm)
    by_cases hk : l.rank < k + 1
    · rw [hzero hk]
      exact iff_of_true (Nat.zero_le _) (Nat.zero_le _)
    · omega

theorem doneBefore_iff (h : Contraction k t t') (hpos : 0 < m) (hm : t.first.rank = 0 → k < m) :
    t'.DoneBefore m ↔ t.DoneBefore m := by
  induction h with
  | window h z => exact iff_of_true trivial (h.doneBefore hpos)
  | paren _ _ => exact Iff.rfl
  | @left l l' r o h hr _ ih =>
    have hrank := h.rank
    have hzero := hr.rank_eq_zero
    refine and_congr ?_ (ih hm)
    by_cases hk : r.rank < k
    · rw [hzero hk]
      exact iff_of_true (Nat.lt_of_lt_of_le hpos (Nat.le_max_left _ _))
        (Nat.lt_of_lt_of_le hpos (Nat.le_max_left _ _))
    · omega
  | @right l r r' o h hl _ _ =>
    have hrank := h.rank
    have hzero := hl.rank_eq_zero
    have hfirst := l.rank_first_le
    have hm' : l.first.rank = 0 → k < m := hm
    refine and_congr_left ?_
    intro _
    by_cases hk : l.rank < k + 1
    · have hlt := hm' (by have := hzero hk; omega)
      omega
    · omega

/-! What a term does for an operator beside it depends on the turn of the operator only above the
tier that the term waits for. -/

theorem doneBy_congr (hl : l.Quiet (k + 1)) (hm : max k m = max k m') :
    l.DoneBy m ↔ l.DoneBy m' := by
  induction l with
  | number x => exact Iff.rfl
  | paren t _ => exact Iff.rfl
  | operation l o r _ ihr =>
    have hzero := hl.1.rank_eq_zero
    refine and_congr ?_ (ihr hl.2.1)
    by_cases hk : l.rank < k + 1
    · rw [hzero hk]
      exact iff_of_true (Nat.zero_le _) (Nat.zero_le _)
    · omega

theorem doneBefore_congr (hr : r.Quiet k) (hm : max k m = max k m') (hpos : 0 < m)
    (hpos' : 0 < m') : r.DoneBefore m ↔ r.DoneBefore m' := by
  induction r with
  | number x => exact Iff.rfl
  | paren t _ => exact Iff.rfl
  | operation l o r ihl _ =>
    have hzero := hr.2.1.rank_eq_zero
    refine and_congr ?_ (ihl hr.1)
    by_cases hk : r.rank < k
    · rw [hzero hk]
      exact iff_of_true (Nat.lt_of_lt_of_le hpos (Nat.le_max_left _ _))
        (Nat.lt_of_lt_of_le hpos' (Nat.le_max_left _ _))
    · omega

/-- **Rewriting a window in its turn does not change whether a term is timely.** -/
theorem timely_iff (h : Contraction k t t') : t'.Timely ↔ t.Timely := by
  induction h with
  | window h z => exact iff_of_true trivial h.timely
  | paren _ ih => exact ih
  | @left l l' r o h hr hdue ih =>
    have hpos := o.tier_pos
    have hlast := h.rank_last
    rw [due] at hdue
    refine and_congr ih (and_congr Iff.rfl (and_congr ?_ ?_))
    · exact h.doneBy_iff (by omega)
    · exact doneBefore_congr hr (by omega) (by omega) (by omega)
  | @right l r r' o h hl hdue ih =>
    have hpos := o.tier_pos
    have hfirst := h.rank_first
    refine and_congr Iff.rfl (and_congr ih (and_congr ?_ ?_))
    · exact doneBy_congr hl (by omega)
    · exact h.doneBefore_iff (by omega) hdue

end Contraction

/-! ## Rewriting out of turn -/

/-- If an operator gets its turn and takes the last number of the term in front of it, then this
term was not done. -/
theorem not_doneBy {k : Nat} {t : Term} (h : t.Quiet (k + 1)) (hk : t.looseness ≤ k)
    (hconventional : t.Conventional) {x : Float} (hlast : t.last = number x)
    (ht : t ≠ number x) : ¬ t.DoneBy k := by
  induction t with
  | number y => exact absurd hlast ht
  | paren t _ => cases hlast
  | operation l o r _ ihr =>
    rintro ⟨hl, hr⟩
    obtain ⟨-, hquiet, hdue⟩ := h
    obtain ⟨-, hconventional', -, htighter⟩ := hconventional
    by_cases hx : r = number x
    · have hlast' := l.rank_last_le
      rw [hx] at hl hdue
      simp only [due, first, Term.rank, looseness] at hl hdue hk
      omega
    · exact ihr hquiet (Nat.le_trans (Nat.le_of_lt htighter) hk) hconventional' hlast hx hr

theorem not_doneBefore {k : Nat} {t : Term} (h : t.Quiet k) (hk : t.looseness < k)
    (hconventional : t.Conventional) {x : Float} (hfirst : t.first = number x)
    (ht : t ≠ number x) : ¬ t.DoneBefore k := by
  induction t with
  | number y => exact absurd hfirst ht
  | paren t _ => cases hfirst
  | operation l o r ihl _ =>
    rintro ⟨hr, hl⟩
    obtain ⟨hquiet, -, hdue⟩ := h
    obtain ⟨hconventional', -, htighter, -⟩ := hconventional
    by_cases hx : l = number x
    · have hfirst' := r.rank_first_le
      rw [hx] at hr hdue
      simp only [due, last, Term.rank, looseness] at hr hdue hk
      omega
    · exact ihl hquiet (Nat.lt_of_le_of_lt htighter hk) hconventional' hfirst hx hl

/-! ## Terms without parentheses -/

theorem rank_le_looseness {t : Term} (h : t.Conventional) (hflat : .openParen ∉ t.tokens) :
    t.rank ≤ t.looseness := by
  induction t with
  | number x => exact Nat.le_refl _
  | paren t _ => exact absurd List.mem_cons_self hflat
  | operation l o r ihl ihr =>
    obtain ⟨hl, hr, hlo, hro⟩ := h
    obtain ⟨hflat, hflat'⟩ := not_or.mp (mt List.mem_append.mpr hflat)
    have hrank := ihl hl hflat
    have hrank' := ihr hr fun h => hflat' (List.mem_cons_of_mem _ h)
    rw [rank, looseness]
    omega

theorem doneBy_of_looseness_le {m : Nat} {t : Term} (h : t.Conventional)
    (hflat : .openParen ∉ t.tokens) (hm : t.looseness ≤ m) : t.DoneBy m := by
  induction t with
  | number x => trivial
  | paren t _ => trivial
  | operation l o r _ ihr =>
    obtain ⟨hl, hr, hlo, hro⟩ := h
    obtain ⟨hflat, hflat'⟩ := not_or.mp (mt List.mem_append.mpr hflat)
    have hrank := rank_le_looseness hl hflat
    rw [looseness] at hm
    refine ⟨by omega, ihr hr (fun h => hflat' (List.mem_cons_of_mem _ h)) (by omega)⟩

theorem doneBefore_of_looseness_lt {m : Nat} {t : Term} (h : t.Conventional)
    (hflat : .openParen ∉ t.tokens) (hm : t.looseness < m) : t.DoneBefore m := by
  induction t with
  | number x => trivial
  | paren t _ => trivial
  | operation l o r ihl _ =>
    obtain ⟨hl, hr, hlo, hro⟩ := h
    obtain ⟨hflat, hflat'⟩ := not_or.mp (mt List.mem_append.mpr hflat)
    have hrank := rank_le_looseness hr fun h => hflat' (List.mem_cons_of_mem _ h)
    rw [looseness] at hm
    refine ⟨by omega, ihl hl hflat (by omega)⟩

/-- Where no operator has to wait for parentheses, the tiers alone decide. -/
theorem timely_of_not_mem {t : Term} (h : t.Conventional) (hflat : .openParen ∉ t.tokens) :
    t.Timely := by
  induction t with
  | number x => trivial
  | paren t _ => exact absurd List.mem_cons_self hflat
  | operation l o r ihl ihr =>
    obtain ⟨hl, hr, hlo, hro⟩ := h
    obtain ⟨hflatl, hflat'⟩ := not_or.mp (mt List.mem_append.mpr hflat)
    have hflatr : .openParen ∉ r.tokens := fun h => hflat' (List.mem_cons_of_mem _ h)
    refine ⟨ihl hl hflatl, ihr hr hflatr, ?_, ?_⟩
    · exact doneBy_of_looseness_le hl hflatl (Nat.le_trans hlo (Nat.le_max_left _ _))
    · exact doneBefore_of_looseness_lt hr hflatr (Nat.lt_of_lt_of_le hro (Nat.le_max_left _ _))

end Term

end Formula
