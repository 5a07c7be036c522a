import Formula.Proofs.Mixed.Reference
import Formula.Proofs.Run
import Formula.Proofs.Waiting

/-! # What is rewritten in a chain

In a chain of numbers and variables, only two kinds of windows can be rewritten. An operation is
performed in its turn (`exists_performs`), so it may as well be performed together with its whole run
(`Performs.collapse_eq`). A variable is looked up only when no numbers are adjacent any more, the
leftmost one first (`exists_looksUp`), and then the run around it is worked off at once
(`LooksUp.collapse_eq`). -/

namespace Formula

namespace Mixed

variable {o : Operator} {c c' : Chain Operand} {value : String → Float}

/-! ## An operation -/

/-- An operation between two numbers is performed. The operators in front of it that have two numbers
around them are looser, and none behind it is tighter. -/
inductive Performs (o : Operator) : Chain Operand → Chain Operand → Prop
  | here (x y : Float) (rest : List (Operator × Operand))
    (hrest : Waits o.tier (tokens ⟨.number y, rest⟩)) :
    Performs o ⟨.number x, (o, .number y) :: rest⟩ ⟨.number (o.apply x y), rest⟩
  | behind (w : Operand) (p : Operator) {c c' : Chain Operand} (h : Performs o c c')
    (hp : ∀ x y, w = .number x → c.head = .number y → o.tier < p.tier) :
    Performs o (c.cons w p) (c'.cons w p)

theorem Performs.names_eq (h : Performs o c c') : names c' = names c := by
  induction h with
  | here x y rest hrest => rfl
  | behind w p h hp ih => rw [names_cons, names_cons, ih]

/-- The first run of a chain that begins with a number, and the blocks behind it. Only the first
number of the run depends on the one that the chain begins with. -/
theorem exists_blocks_number {k : Nat} {y : Float} {rest : List (Operator × Operand)}
    (h : Waits k (tokens ⟨.number y, rest⟩)) :
    ∃ later behind, (∀ e ∈ later, k ≤ e.1.tier) ∧
      ∀ z, blocks (.number z) rest = ⟨.numbers ⟨z, later⟩, behind⟩ := by
  induction rest generalizing y with
  | nil => exact ⟨[], [], by simp, fun z => rfl⟩
  | cons entry rest ih =>
    obtain ⟨p, w⟩ := entry
    have hrest : Waits k (tokens ⟨w, rest⟩) := h.of_isInfix ⟨[.number y, .operator p], [], by simp; rfl⟩
    cases w with
    | number u =>
      have hp : k ≤ p.tier := h y p u ⟨[], laterTokens rest, rfl⟩
      obtain ⟨later, behind, hlater, hblocks⟩ := ih hrest
      refine ⟨(p, u) :: later, behind, ?_, ?_⟩
      · intro e he
        rcases List.mem_cons.mp he with rfl | he
        · exact hp
        · exact hlater e he
      · intro z
        rw [blocks, hblocks]
        rfl
    | name v =>
      refine ⟨[], (p, (blocks (.name v) rest).head) :: (blocks (.name v) rest).tail, by simp, ?_⟩
      intro z
      cases rest <;> rfl

/-- Blocks are fused as long as all operands in front of the operation are numbers. Behind a variable
nothing but the operands that come out is left to compare. -/
theorem Performs.fused_or_alike (h : Performs o c c') :
    Block.Fused o (blocks c.head c.tail) (blocks c'.head c'.tail) ∨
      Block.Alike (blocks c.head c.tail) (blocks c'.head c'.tail) := by
  induction h with
  | here x y rest hrest =>
    obtain ⟨later, behind, hlater, hblocks⟩ := exists_blocks_number hrest
    left
    rw [blocks, hblocks, hblocks]
    exact .intro ⟨x, []⟩ ⟨y, later⟩ behind (by simp) hlater
  | @behind w p c c' h hp ih =>
    rcases ih with hfused | halike
    · cases w with
      | number x =>
        obtain ⟨run, hrun⟩ := hfused.exists_run
        obtain ⟨y, hy⟩ := exists_number_of_blocks hrun
        exact .inl (hfused.extend (hp x y rfl hy) x)
      | name x => exact .inr (hfused.alike_extend x p)
    · exact .inr (halike.extend w p)

/-- An operation that is rewritten is performed in its turn. -/
theorem exists_performs {before after : List Token} {x y : Float}
    (hts : tokens c = before ++ ([.number x, .operator o, .number y] ++ after))
    (hwaits : Waits o.tier (tokens c))
    (hfront : Waits (o.tier + 1) ((tokens c).take (before.length + 1))) :
    ∃ c', Performs o c c' ∧ tokens c' = before ++ ([.number (o.apply x y)] ++ after) := by
  induction c using Chain.induction generalizing before with
  | single w =>
    have hlength := congrArg List.length hts
    simp only [tokens, laterTokens, List.length_append, List.length_cons, List.flatMap_nil,
      List.length_nil] at hlength
    omega
  | cons w p c ih =>
    rw [tokens_cons] at hts hwaits hfront
    have hrest : Waits o.tier (tokens c) := hwaits.of_isInfix ⟨[w.token, .operator p], [], by simp⟩
    cases before with
    | nil =>
      obtain ⟨hw, hts'⟩ := List.cons.inj hts
      obtain ⟨hp, hc⟩ := List.cons.inj hts'
      obtain ⟨u, rest⟩ := c
      obtain ⟨hu, rfl⟩ := List.cons.inj hc
      obtain rfl := Operand.eq_number_of_token hw
      obtain rfl := Operand.eq_number_of_token hu
      cases hp
      exact ⟨_, .here x y rest hrest, rfl⟩
    | cons t before =>
      obtain ⟨rfl, hts'⟩ := List.cons.inj hts
      cases before with
      | nil => cases hts'
      | cons t' before =>
        obtain ⟨rfl, hc⟩ := List.cons.inj hts'
        have hfront' : Waits (o.tier + 1) ((tokens c).take (before.length + 1)) :=
          hfront.of_isInfix ⟨[w.token, .operator p], [], by simp⟩
        obtain ⟨c', hperforms, hc'⟩ := ih hc hrest hfront'
        refine ⟨c'.cons w p, .behind w p hperforms ?_, ?_⟩
        · intro u v hu hv
          refine hfront u p v ⟨[], (laterTokens c.tail).take before.length, ?_⟩
          rw [hu, tokens, hv]
          rfl
        · rw [tokens_cons, hc']
          rfl

/-- **Operations can be performed one by one without a change to what their runs come to.** -/
theorem Performs.collapse_eq (h : Performs o c c') : collapse c' = collapse c := by
  rcases h.fused_or_alike with hfused | halike
  · exact hfused.operands.symm
  · exact halike.operands.symm

/-! ## A variable -/

/-- The leftmost variable is looked up, and it has no more than one number in front of it. -/
inductive LooksUp (value : String → Float) (x : String) : Chain Operand → Chain Operand → Prop
  | first (tail : List (Operator × Operand)) :
    LooksUp value x ⟨.name x, tail⟩ ⟨.number (value x), tail⟩
  | second (w : Float) (o : Operator) (tail : List (Operator × Operand)) :
    LooksUp value x ⟨.number w, (o, .name x) :: tail⟩ ⟨.number w, (o, .number (value x)) :: tail⟩

theorem LooksUp.names_eq {x : String} (h : LooksUp value x c c') : names c = x :: names c' := by
  cases h <;> rfl

theorem head?_laterTokens_ne (tail : List (Operator × Operand)) :
    (laterTokens tail).head? ≠ some .openParen := by
  cases tail with
  | nil => simp [laterTokens]
  | cons entry rest => simp [laterTokens]

/-- A variable that is rewritten is the leftmost one, and no operators in front of it are left. -/
theorem exists_looksUp {before after : List Token} {x : String}
    (hts : tokens c = before ++ ([.name x] ++ after)) (hapart : Apart (tokens c))
    (hleftmost : ∀ front y rest, tokens c = front ++ ([.name y] ++ laterTokens rest) →
      before.length ≤ front.length) (value : String → Float) :
    ∃ c', LooksUp value x c c' ∧ tokens c' = before ++ ([.number (value x)] ++ after) := by
  obtain ⟨w, tail⟩ := c
  cases w with
  | name y =>
    have hle := hleftmost [] y tail rfl
    obtain rfl : before = [] := List.eq_nil_of_length_eq_zero (Nat.le_zero.mp hle)
    obtain ⟨hy, rfl⟩ := List.cons.inj hts
    cases hy
    exact ⟨_, .first tail, rfl⟩
  | number w =>
    cases tail with
    | nil =>
      have hmem : .name x ∈ tokens ⟨.number w, []⟩ := by simp [hts]
      cases List.mem_singleton.mp hmem
    | cons entry rest =>
      obtain ⟨o, u⟩ := entry
      cases u with
      | number u => exact absurd ⟨[], laterTokens rest, rfl⟩ (hapart w o u)
      | name y =>
        have hle := hleftmost [.number w, .operator o] y rest rfl
        have hsplit : .number w :: .operator o :: .name y :: laterTokens rest
            = before ++ ([.name x] ++ after) := hts
        match before, hsplit, hle with
        | [], hsplit, _ => cases hsplit
        | [_], hsplit, _ => cases hsplit
        | [_, _], hsplit, _ =>
          cases hsplit
          exact ⟨_, .second w o rest, rfl⟩

/-- Blocks of single operands. -/
theorem blocks_of_apart (h : Apart (tokens c)) :
    blocks c.head c.tail = c.map Block.ofOperand := by
  induction c using Chain.induction with
  | single w => rfl
  | cons w p c ih =>
    rw [tokens_cons] at h
    have hc := ih (h.of_isInfix ⟨[w.token, .operator p], [], by simp⟩)
    have hblocks : blocks (c.cons w p).head (c.cons w p).tail
        = Block.extend w p (c.map Block.ofOperand) := congrArg (Block.extend w p) hc
    rw [hblocks]
    obtain ⟨u, rest⟩ := c
    cases w with
    | name x => rfl
    | number x =>
      cases u with
      | name y => rfl
      | number y => exact absurd ⟨[], laterTokens rest, rfl⟩ (h x p y)

theorem map_operand_ofOperand (tail : List (Operator × Operand)) :
    (tail.map fun e => (e.1, Block.ofOperand e.2)).map (fun e => (e.1, e.2.operand)) = tail := by
  rw [List.map_map]
  refine List.map_id'' ?_ tail
  intro e
  rw [Function.comp_apply, Block.operand_ofOperand]

theorem collapse_of_apart (h : Apart (tokens c)) : collapse c = c := by
  rw [collapse, blocks_of_apart h, Chain.map, Chain.map, map_operand_ofOperand,
    Block.operand_ofOperand]

/-- A number that takes the place of a variable has at most one number behind it. -/
theorem blocks_number_of_apart {x : String} {tail : List (Operator × Operand)}
    (h : Apart (tokens ⟨.name x, tail⟩)) (z : Float) :
    blocks (.number z) tail = ⟨.numbers ⟨z, (takeNumber tail).1⟩,
      (takeNumber tail).2.map fun e => (e.1, Block.ofOperand e.2)⟩ := by
  cases tail with
  | nil => rfl
  | cons entry rest =>
    obtain ⟨o, u⟩ := entry
    have hrest := blocks_of_apart (c := ⟨u, rest⟩)
      (h.of_isInfix ⟨[.name x, .operator o], [], by simp; rfl⟩)
    rw [blocks, hrest]
    cases u <;> rfl

/-- **What is worked off after a variable has been looked up is the run around it.** -/
theorem LooksUp.collapse_eq {x : String} (h : LooksUp value x c c') (hapart : Apart (tokens c)) :
    collapse c' = substitute value (collapse c) := by
  rw [collapse_of_apart hapart, substitute]
  cases h with
  | first tail =>
    rw [collapse, blocks_number_of_apart hapart, Chain.map, map_operand_ofOperand, substituteFrom]
    rfl
  | second w o tail =>
    have htail : Apart (tokens ⟨.name x, tail⟩) :=
      hapart.of_isInfix ⟨[.number w, .operator o], [], by simp; rfl⟩
    rw [collapse, blocks, blocks_number_of_apart htail, Block.extend_number_numbers, Chain.map,
      map_operand_ofOperand]
    rfl

end Mixed

end Formula
