import Formula.Proofs.Chain

/-! # Arithmetic terms

Numbers, operators and parentheses, grouped in one way or another. The tokens of a term do not tell
how it is grouped, so every arithmetic formula is the text of some term, and `Term.parse` groups it
anew: parentheses first, then the operators by their tiers and from left to right in each tier. -/

namespace Formula

inductive Term where
  | number (x : Float)
  | paren (t : Term)
  | operation (l : Term) (o : Operator) (r : Term)
  deriving DecidableEq, Repr

namespace Term

def tokens : Term → List Token
  | number x => [.number x]
  | paren t => .openParen :: (t.tokens ++ [.closeParen])
  | operation l o r => l.tokens ++ .operator o :: r.tokens

def value : Term → Float
  | number x => x
  | paren t => t.value
  | operation l o r => o.apply l.value r.value

/-- The operation on two terms. -/
def join (o : Operator) (l r : Term) : Term := operation l o r

/-- The parts of a term between the operators outside all parentheses, each of them grouped anew
inside its parentheses. -/
def chain : Term → Chain Term
  | number x => ⟨number x, []⟩
  | paren t => ⟨paren (t.chain.total join), []⟩
  | operation l o r => l.chain.append o r.chain

/-- The term with the same tokens in which parentheses, tiers and order group the operands. -/
def parse (t : Term) : Term := t.chain.total join

/-! ## The text of a chain -/

def laterTokens (tail : List (Operator × Term)) : List Token :=
  tail.flatMap fun e => .operator e.1 :: e.2.tokens

def chainTokens (c : Chain Term) : List Token := c.head.tokens ++ laterTokens c.tail

theorem laterTokens_cons (o : Operator) (t : Term) (tail : List (Operator × Term)) :
    laterTokens ((o, t) :: tail) = .operator o :: (t.tokens ++ laterTokens tail) := rfl

theorem laterTokens_append (as bs : List (Operator × Term)) :
    laterTokens (as ++ bs) = laterTokens as ++ laterTokens bs := List.flatMap_append

theorem chainTokens_append (a b : Chain Term) (o : Operator) :
    chainTokens (a.append o b) = chainTokens a ++ .operator o :: chainTokens b := by
  rw [chainTokens, Chain.append, laterTokens_append, laterTokens_cons]
  rw [chainTokens, chainTokens, List.append_assoc]

theorem chainTokens_sweep (o : Operator) (x : Term) (tail : List (Operator × Term)) :
    chainTokens (Chain.sweep join o x tail) = x.tokens ++ laterTokens tail := by
  induction tail generalizing x with
  | nil => rfl
  | cons entry rest ih =>
    obtain ⟨p, y⟩ := entry
    rw [Chain.sweep]
    by_cases hp : p = o
    · rw [if_pos hp, ih, hp, laterTokens_cons]
      simp [join, tokens]
    · have hrest := ih y
      rw [chainTokens] at hrest
      rw [if_neg hp, chainTokens, Chain.cons, laterTokens_cons, laterTokens_cons, hrest]

theorem chainTokens_sweeps (os : List Operator) (c : Chain Term) :
    chainTokens (c.sweeps join os) = chainTokens c := by
  induction os generalizing c with
  | nil => rfl
  | cons o os ih =>
    have hsweep := ih (Chain.sweep join o c.head c.tail)
    rw [chainTokens_sweep] at hsweep
    exact hsweep

theorem tokens_total (c : Chain Term) : (c.total join).tokens = chainTokens c := by
  have hsweeps := chainTokens_sweeps Operator.byTier c
  rw [Chain.sweeps_byTier] at hsweeps
  rw [← hsweeps]
  simp [chainTokens, laterTokens]

theorem chainTokens_chain (t : Term) : chainTokens t.chain = t.tokens := by
  induction t with
  | number x => rfl
  | paren t ih =>
    rw [chain, chainTokens, tokens, tokens, tokens_total, ih]
    simp [laterTokens]
  | operation l o r ihl ihr => rw [chain, chainTokens_append, ihl, ihr, tokens]

theorem tokens_parse (t : Term) : t.parse.tokens = t.tokens := by
  rw [parse, tokens_total, chainTokens_chain]

/-! ## Conventional grouping -/

/-- The tier of the outermost operation. -/
def looseness : Term → Nat
  | operation _ o _ => o.tier
  | _ => 0

/-- Operations of tighter tiers are inside, and those of one tier are grouped from the left. -/
def Conventional : Term → Prop
  | number _ => True
  | paren t => t.Conventional
  | operation l o r =>
    l.Conventional ∧ r.Conventional ∧ l.looseness ≤ o.tier ∧ r.looseness < o.tier

/-- The operands are grouped already and hold no operators of the tier `k` or a looser one outside
parentheses. -/
def TighterThan (k : Nat) (t : Term) : Prop := t.Conventional ∧ t.looseness < k

theorem tighterThan_sweep {o : Operator} {tail : List (Operator × Term)}
    (htail : ∀ e ∈ tail, e.2.TighterThan o.tier) {x : Term} (hx : x.TighterThan (o.tier + 1)) :
    (Chain.sweep join o x tail).head.TighterThan (o.tier + 1) ∧
      ∀ e ∈ (Chain.sweep join o x tail).tail, e.2.TighterThan (o.tier + 1) := by
  induction tail generalizing x with
  | nil => exact ⟨hx, by simp [Chain.sweep]⟩
  | cons entry rest ih =>
    obtain ⟨p, y⟩ := entry
    have hy : y.TighterThan o.tier := htail (p, y) List.mem_cons_self
    have hrest := fun e he => htail e (List.mem_cons_of_mem _ he)
    rw [Chain.sweep]
    by_cases hp : p = o
    · rw [if_pos hp]
      refine ih hrest ⟨⟨hx.1, hy.1, Nat.le_of_lt_succ hx.2, hy.2⟩, ?_⟩
      exact Nat.lt_succ_self _
    · rw [if_neg hp]
      obtain ⟨hhead, htail'⟩ := ih hrest ⟨hy.1, Nat.lt_succ_of_lt hy.2⟩
      refine ⟨hx, ?_⟩
      intro e he
      rcases List.mem_cons.mp he with rfl | he
      · exact hhead
      · exact htail' e he

/-- The same of all operands of a chain. -/
def AllTighterThan (k : Nat) (c : Chain Term) : Prop :=
  c.head.TighterThan k ∧ ∀ e ∈ c.tail, e.2.TighterThan k

theorem AllTighterThan.sweep {c : Chain Term} {k : Nat} (h : AllTighterThan k c) {o : Operator}
    (ho : o.tier = k) : AllTighterThan (k + 1) (Chain.sweep join o c.head c.tail) := by
  subst ho
  exact tighterThan_sweep h.2 ⟨h.1.1, Nat.lt_succ_of_lt h.1.2⟩

theorem conventional_total {c : Chain Term} (h : AllTighterThan 1 c) :
    (c.total join).Conventional := by
  have hall : AllTighterThan 7 (c.sweeps join Operator.byTier) :=
    (((((h.sweep (o := .pow) rfl).sweep (o := .div) rfl).sweep (o := .mul) rfl).sweep
      (o := .rem) rfl).sweep (o := .add) rfl).sweep (o := .sub) rfl
  exact hall.1.1

theorem allTighterThan_chain (t : Term) : AllTighterThan 1 t.chain := by
  induction t with
  | number x => exact ⟨⟨trivial, Nat.one_pos⟩, by simp [chain]⟩
  | paren t ih => exact ⟨⟨conventional_total ih, Nat.one_pos⟩, by simp [chain]⟩
  | operation l o r ihl ihr =>
    refine ⟨ihl.1, ?_⟩
    intro e he
    rcases List.mem_append.mp he with he | he
    · exact ihl.2 e he
    · rcases List.mem_cons.mp he with rfl | he
      · exact ihr.1
      · exact ihr.2 e he

theorem conventional_parse (t : Term) : t.parse.Conventional :=
  conventional_total (allTighterThan_chain t)

end Term

end Formula
