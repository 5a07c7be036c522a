import Formula.Proofs.Redex

/-! # Chains of operands

Operands with an operator between each two of them have one meaning, once the operators have tiers:
those of the tightest tier are performed first, from left to right, then those of the next one.
`Chain.total` does this in six sweeps, whatever the operands are, numbers or trees. An operation that
comes first in this order may as well be performed in advance (`Chain.total_fuse`). -/

namespace Formula

namespace Operator

/-- The tier of an operator. Those of a smaller tier bind tighter. -/
def tier : Operator → Nat
  | pow => 1
  | div => 2
  | mul => 3
  | rem => 4
  | add => 5
  | sub => 6

/-- The operators, those that bind tightest first. -/
def byTier : List Operator := [pow, div, mul, rem, add, sub]

theorem priority_ofOperator (o : Operator) : (Rule.ofOperator o).priority = o.tier + 2 := by
  cases o <;> decide

theorem tier_pos (o : Operator) : 0 < o.tier := by cases o <;> decide

theorem tier_injective {o p : Operator} (h : o.tier = p.tier) : o = p := by
  cases o <;> cases p <;> first | rfl | cases h

theorem mem_byTier (o : Operator) : o ∈ byTier := by cases o <;> decide

/-- The operators up to a given one are those that bind tighter. -/
theorem exists_byTier_eq (o : Operator) :
    ∃ tighter looser, byTier = tighter ++ o :: looser ∧ ∀ p ∈ tighter, p.tier < o.tier := by
  cases o with
  | pow => exact ⟨[], [div, mul, rem, add, sub], rfl, by decide⟩
  | div => exact ⟨[pow], [mul, rem, add, sub], rfl, by decide⟩
  | mul => exact ⟨[pow, div], [rem, add, sub], rfl, by decide⟩
  | rem => exact ⟨[pow, div, mul], [add, sub], rfl, by decide⟩
  | add => exact ⟨[pow, div, mul, rem], [sub], rfl, by decide⟩
  | sub => exact ⟨[pow, div, mul, rem, add], [], rfl, by decide⟩

end Operator

/-- Operands with an operator between each two of them. -/
structure Chain (α : Type) where
  head : α
  tail : List (Operator × α)
  deriving DecidableEq, Repr

namespace Chain

variable {α : Type}

def append (a : Chain α) (o : Operator) (b : Chain α) : Chain α :=
  ⟨a.head, a.tail ++ (o, b.head) :: b.tail⟩

def cons (x : α) (o : Operator) (c : Chain α) : Chain α := ⟨x, (o, c.head) :: c.tail⟩

def map {β : Type} (g : α → β) (c : Chain α) : Chain β :=
  ⟨g c.head, c.tail.map fun e => (e.1, g e.2)⟩

/-- A chain is either a single operand or an operand in front of a shorter chain. -/
@[elab_as_elim]
theorem induction {P : Chain α → Prop} (single : ∀ x, P ⟨x, []⟩)
    (cons : ∀ x o c, P c → P (Chain.cons x o c)) (c : Chain α) : P c := by
  obtain ⟨x, tail⟩ := c
  induction tail generalizing x with
  | nil => exact single x
  | cons entry rest ih => exact cons x entry.1 ⟨entry.2, rest⟩ (ih entry.2)

/-- Performs all occurrences of one operator in a chain that begins with `x`, from left to right. -/
def sweep (f : Operator → α → α → α) (o : Operator) : α → List (Operator × α) → Chain α
  | x, [] => ⟨x, []⟩
  | x, (p, y) :: rest =>
    if p = o then sweep f o (f o x y) rest else cons x p (sweep f o y rest)

/-- Performs all occurrences of some operators, of one after the other. -/
def sweeps (f : Operator → α → α → α) (c : Chain α) (os : List Operator) : Chain α :=
  os.foldl (fun c o => sweep f o c.head c.tail) c

/-- Performs all operations, those of the tightest tier first and from left to right in each tier. -/
def total (f : Operator → α → α → α) (c : Chain α) : α := (c.sweeps f Operator.byTier).head

variable {f : Operator → α → α → α}

/-! ## What a sweep leaves -/

theorem ne_of_mem_sweep {o : Operator} {x : α} {tail : List (Operator × α)} {e : Operator × α}
    (h : e ∈ (sweep f o x tail).tail) : e.1 ≠ o ∧ ∃ e' ∈ tail, e'.1 = e.1 := by
  induction tail generalizing x with
  | nil => cases h
  | cons entry rest ih =>
    obtain ⟨p, y⟩ := entry
    rw [sweep] at h
    by_cases hp : p = o
    · rw [if_pos hp] at h
      obtain ⟨hne, e', he', heq⟩ := ih h
      exact ⟨hne, e', List.mem_cons_of_mem _ he', heq⟩
    · rw [if_neg hp] at h
      rcases List.mem_cons.mp h with rfl | h
      · exact ⟨hp, (p, y), List.mem_cons_self, rfl⟩
      · obtain ⟨hne, e', he', heq⟩ := ih h
        exact ⟨hne, e', List.mem_cons_of_mem _ he', heq⟩

theorem not_mem_of_mem_sweeps {os : List Operator} {c : Chain α} {e : Operator × α}
    (h : e ∈ (c.sweeps f os).tail) : e.1 ∉ os ∧ ∃ e' ∈ c.tail, e'.1 = e.1 := by
  induction os generalizing c with
  | nil => exact ⟨List.not_mem_nil, e, h, rfl⟩
  | cons o os ih =>
    obtain ⟨hos, e', he', heq⟩ := ih h
    obtain ⟨hne, e'', he'', heq'⟩ := ne_of_mem_sweep he'
    refine ⟨?_, e'', he'', heq'.trans heq⟩
    rw [List.mem_cons, not_or]
    exact ⟨heq ▸ hne, hos⟩

/-- No operator is left at the end. -/
theorem sweeps_byTier (c : Chain α) : c.sweeps f Operator.byTier = ⟨c.total f, []⟩ := by
  have htail : (c.sweeps f Operator.byTier).tail = [] := by
    rw [List.eq_nil_iff_forall_not_mem]
    intro e he
    exact (not_mem_of_mem_sweeps he).1 (Operator.mem_byTier e.1)
  rw [total, ← htail]

theorem total_single (x : α) : total f ⟨x, []⟩ = x := rfl

theorem total_pair (x : α) (o : Operator) (y : α) : total f ⟨x, [(o, y)]⟩ = f o x y := by
  cases o <;> rfl

/-! ## Operations performed in advance -/

theorem sweep_of_forall_ne {o : Operator} {tail : List (Operator × α)}
    (h : ∀ e ∈ tail, e.1 ≠ o) (x : α) : sweep f o x tail = ⟨x, tail⟩ := by
  induction tail generalizing x with
  | nil => rfl
  | cons entry rest ih =>
    rw [sweep, if_neg (h entry List.mem_cons_self), ih fun e he => h e (List.mem_cons_of_mem _ he)]
    rfl

theorem sweeps_of_forall_ne {os : List Operator} {c : Chain α}
    (h : ∀ o ∈ os, ∀ e ∈ c.tail, e.1 ≠ o) : c.sweeps f os = c := by
  induction os with
  | nil => rfl
  | cons o os ih =>
    rw [sweeps, List.foldl_cons, sweep_of_forall_ne (h o List.mem_cons_self)]
    exact ih fun p hp => h p (List.mem_cons_of_mem _ hp)

/-- Two chains with an operator between them, of which the operation at that place has been
performed. -/
def fuse (f : Operator → α → α → α) (o : Operator) (b : Chain α) :
    α → List (Operator × α) → Chain α
  | x, [] => ⟨f o x b.head, b.tail⟩
  | x, (p, y) :: rest => cons x p (fuse f o b y rest)

theorem sweep_fuse {o : Operator} {b : Chain α} {tail : List (Operator × α)}
    (h : ∀ e ∈ tail, e.1 ≠ o) (x : α) :
    sweep f o (fuse f o b x tail).head (fuse f o b x tail).tail
      = sweep f o x (tail ++ (o, b.head) :: b.tail) := by
  induction tail generalizing x with
  | nil =>
    rw [List.nil_append, sweep, if_pos rfl]
    rfl
  | cons entry rest ih =>
    obtain ⟨p, y⟩ := entry
    have hp : p ≠ o := h (p, y) List.mem_cons_self
    have hrest := ih (fun e he => h e (List.mem_cons_of_mem _ he)) y
    rw [List.cons_append, sweep, if_neg hp, ← hrest]
    rw [fuse, cons, sweep, if_neg hp]

theorem mem_fuse {o : Operator} {b : Chain α} {x : α} {tail : List (Operator × α)}
    {e : Operator × α} (h : e ∈ (fuse f o b x tail).tail) :
    e ∈ b.tail ∨ ∃ e' ∈ tail, e'.1 = e.1 := by
  induction tail generalizing x with
  | nil => exact .inl h
  | cons entry rest ih =>
    rcases List.mem_cons.mp h with rfl | h
    · exact .inr ⟨entry, List.mem_cons_self, rfl⟩
    · rcases ih h with h | ⟨e', he', heq⟩
      · exact .inl h
      · exact .inr ⟨e', List.mem_cons_of_mem _ he', heq⟩

/-- **The leftmost operation of the tightest tier can be performed in advance.** -/
theorem total_fuse {a b : Chain α} {o : Operator} (ha : ∀ e ∈ a.tail, o.tier < e.1.tier)
    (hb : ∀ e ∈ b.tail, o.tier ≤ e.1.tier) :
    (fuse f o b a.head a.tail).total f = (a.append o b).total f := by
  obtain ⟨tighter, looser, hsplit, htighter⟩ := Operator.exists_byTier_eq o
  have hne : ∀ p ∈ tighter, ∀ e : Operator × α, o.tier ≤ e.1.tier → e.1 ≠ p := by
    rintro p hp e he rfl
    exact absurd (htighter _ hp) (Nat.not_lt.mpr he)
  have hfused : (fuse f o b a.head a.tail).sweeps f tighter = fuse f o b a.head a.tail := by
    refine sweeps_of_forall_ne ?_
    intro p hp e he
    refine hne p hp e ?_
    rcases mem_fuse he with he | ⟨e', he', heq⟩
    · exact hb e he
    · exact heq ▸ Nat.le_of_lt (ha e' he')
  have happended : (a.append o b).sweeps f tighter = a.append o b := by
    refine sweeps_of_forall_ne ?_
    intro p hp e he
    refine hne p hp e ?_
    rcases List.mem_append.mp he with he | he
    · exact Nat.le_of_lt (ha e he)
    · rcases List.mem_cons.mp he with rfl | he
      · exact Nat.le_refl _
      · exact hb e he
  have hsweep : sweep f o (fuse f o b a.head a.tail).head (fuse f o b a.head a.tail).tail
      = sweep f o (a.append o b).head (a.append o b).tail :=
    sweep_fuse (fun e he heq => absurd (ha e he) (by simp [heq])) a.head
  unfold sweeps at hfused happended
  unfold total sweeps
  rw [hsplit, List.foldl_append, List.foldl_append, hfused, happended, List.foldl_cons,
    List.foldl_cons, hsweep]

end Chain

end Formula
