import Formula.Proofs.Chain
import Mathlib.Logic.Function.Iterate

/-! # Chains of numbers and variables

An operator next to a variable is out of reach until the variable has been looked up. So a chain is
not worked off by tiers alone: at first every run of adjacent numbers is, and then the variables join
in one by one from the left, each of them with its two neighbours. `Mixed.reference` is this
evaluation, without any rules or tokens. -/

namespace Formula

inductive Operand where
  | number (x : Float)
  | name (x : String)
  deriving DecidableEq, Repr

namespace Operand

def token : Operand → Token
  | number x => .number x
  | name x => .name x

theorem eq_number_of_token {w : Operand} {x : Float} (h : w.token = .number x) : w = number x := by
  cases w <;> cases h
  rfl

def name? : Operand → Option String
  | number _ => none
  | name x => some x

end Operand

namespace Mixed

def laterTokens (tail : List (Operator × Operand)) : List Token :=
  tail.flatMap fun e => [.operator e.1, e.2.token]

def tokens (c : Chain Operand) : List Token := c.head.token :: laterTokens c.tail

/-- The variables of a chain, from left to right. -/
def names (c : Chain Operand) : List String :=
  (c.head :: c.tail.map Prod.snd).filterMap Operand.name?

/-! ## Runs of numbers -/

/-- Either all the numbers of a run or a single variable. -/
inductive Block where
  | numbers (run : Chain Float)
  | name (x : String)

namespace Block

def ofOperand : Operand → Block
  | .number x => numbers ⟨x, []⟩
  | .name x => name x

/-- What is left of a block when its run has been worked off. -/
def operand : Block → Operand
  | numbers run => .number (run.total Operator.apply)
  | name x => .name x

/-- One more operand in front of some blocks. Numbers that meet belong to one run. -/
def extend (x : Operand) (o : Operator) (blocks : Chain Block) : Chain Block :=
  match x, blocks.head with
  | .number x, .numbers run => ⟨numbers (run.cons x o), blocks.tail⟩
  | x, _ => blocks.cons (ofOperand x) o

end Block

/-- A chain that begins with `x`, cut into its maximal runs of numbers and its variables. -/
def blocks : Operand → List (Operator × Operand) → Chain Block
  | x, [] => ⟨.ofOperand x, []⟩
  | x, (o, y) :: rest => Block.extend x o (blocks y rest)

/-- Works off every maximal run of adjacent numbers. -/
def collapse (c : Chain Operand) : Chain Operand := (blocks c.head c.tail).map Block.operand

/-! ## One variable after the other -/

/-- The next operand, if it is a number, and what comes after it. -/
def takeNumber : List (Operator × Operand) → List (Operator × Float) × List (Operator × Operand)
  | (o, .number z) :: rest => ([(o, z)], rest)
  | rest => ([], rest)

/-- Looks up the leftmost variable of a chain that begins with the given operand, and works off the
numbers next to it together with its own. -/
def substituteFrom (value : String → Float) : Operand → List (Operator × Operand) → Chain Operand
  | .number w, [] => ⟨.number w, []⟩
  | .number w, (o, .number y) :: rest => (substituteFrom value (.number y) rest).cons (.number w) o
  | .number w, (o, .name x) :: rest =>
    let run : Chain Float := ⟨w, (o, value x) :: (takeNumber rest).1⟩
    ⟨.number (run.total Operator.apply), (takeNumber rest).2⟩
  | .name x, rest =>
    let run : Chain Float := ⟨value x, (takeNumber rest).1⟩
    ⟨.number (run.total Operator.apply), (takeNumber rest).2⟩

def substitute (value : String → Float) (c : Chain Operand) : Chain Operand :=
  substituteFrom value c.head c.tail

/-- What is left of a chain in the end: all runs of numbers are worked off, and then its variables are
looked up until there are none. -/
def reference (value : String → Float) (c : Chain Operand) : Chain Operand :=
  (substitute value)^[(names c).length] (collapse c)

/-! ## Tokens and variables -/

theorem tokens_cons (x : Operand) (o : Operator) (c : Chain Operand) :
    tokens (c.cons x o) = x.token :: .operator o :: tokens c := rfl

theorem mem_tokens {c : Chain Operand} {t : Token} (h : t ∈ tokens c) :
    (∃ x, t = .number x) ∨ (∃ o, t = .operator o) ∨ ∃ x, t = .name x := by
  have htoken : ∀ x : Operand, (∃ y, x.token = .number y) ∨ ∃ y, x.token = .name y := by
    intro x
    cases x with
    | number y => exact .inl ⟨y, rfl⟩
    | name y => exact .inr ⟨y, rfl⟩
  induction c using Chain.induction with
  | single x =>
    obtain rfl := List.mem_singleton.mp h
    exact (htoken x).imp_right .inr
  | cons x o c ih =>
    rw [tokens_cons] at h
    rcases List.mem_cons.mp h with rfl | h
    · exact (htoken x).imp_right .inr
    · rcases List.mem_cons.mp h with rfl | h
      · exact .inr (.inl ⟨o, rfl⟩)
      · exact ih h

theorem names_cons (x : Operand) (o : Operator) (c : Chain Operand) :
    names (c.cons x o) = x.name?.toList ++ names c := by
  cases x <;> rfl

/-! ## No variables are left -/

theorem names_collapse (c : Chain Operand) : names (collapse c) = names c := by
  have hextend : ∀ (x : Operand) (o : Operator) (bs : Chain Block),
      names ((Block.extend x o bs).map Block.operand)
        = x.name?.toList ++ names (bs.map Block.operand) := by
    rintro x o ⟨head, tail⟩
    cases x with
    | name x => rfl
    | number x => cases head <;> rfl
  induction c using Chain.induction with
  | single x => cases x <;> rfl
  | cons x o c ih =>
    have hcollapse : collapse (c.cons x o)
        = (Block.extend x o (blocks c.head c.tail)).map Block.operand := rfl
    rw [hcollapse, hextend, names_cons]
    exact congrArg (x.name?.toList ++ ·) ih

theorem names_takeNumber (z z' : Float) (tail : List (Operator × Operand)) :
    names ⟨.number z, (takeNumber tail).2⟩ = names ⟨.number z', tail⟩ := by
  cases tail with
  | nil => rfl
  | cons entry rest =>
    obtain ⟨o, y⟩ := entry
    cases y <;> rfl

theorem names_substituteFrom (value : String → Float) (x : Operand)
    (tail : List (Operator × Operand)) :
    names (substituteFrom value x tail) = (names ⟨x, tail⟩).tail := by
  induction tail generalizing x with
  | nil => cases x <;> rfl
  | cons entry rest ih =>
    obtain ⟨o, y⟩ := entry
    cases x with
    | name x => exact names_takeNumber _ 0 ((o, y) :: rest)
    | number w =>
      cases y with
      | number y => exact ih (.number y)
      | name y => exact names_takeNumber _ 0 rest

/-- The variables are looked up one by one, and all of them. -/
theorem names_reference (value : String → Float) (c : Chain Operand) :
    names (reference value c) = [] := by
  have hiterate : ∀ n d, names ((substitute value)^[n] d) = (names d).drop n := by
    intro n
    induction n with
    | zero => exact fun d => rfl
    | succ n ih =>
      intro d
      rw [Function.iterate_succ_apply, ih, substitute, names_substituteFrom, List.drop_tail]
  rw [reference, hiterate, names_collapse, List.drop_length]

/-! ## Numbers alone and variables alone -/

theorem names_numbers (c : Chain Float) : names (c.map .number) = [] := by
  induction c using Chain.induction with
  | single x => rfl
  | cons x o c ih => exact (names_cons (.number x) o (c.map .number)).trans ih

theorem blocks_numbers (c : Chain Float) :
    blocks (c.map .number).head (c.map .number).tail = ⟨.numbers c, []⟩ := by
  induction c using Chain.induction with
  | single x => rfl
  | cons x o c ih => exact congrArg (Block.extend (.number x) o) ih

/-- Numbers alone are a single run. -/
theorem reference_numbers (value : String → Float) (c : Chain Float) :
    reference value (c.map .number) = ⟨.number (c.total Operator.apply), []⟩ := by
  rw [reference, names_numbers, collapse, blocks_numbers]
  rfl

theorem length_names (c : Chain String) : (names (c.map .name)).length = c.tail.length + 1 := by
  induction c using Chain.induction with
  | single x => rfl
  | cons x o c ih => exact congrArg Nat.succ ih

theorem collapse_names (c : Chain String) : collapse (c.map .name) = c.map .name := by
  induction c using Chain.induction with
  | single x => rfl
  | cons x o c ih => exact congrArg (Chain.cons (.name x) o) ih

theorem takeNumber_names (tail : List (Operator × String)) :
    takeNumber (tail.map fun e => (e.1, .name e.2)) = ([], tail.map fun e => (e.1, .name e.2)) := by
  cases tail <;> rfl

theorem iterate_substitute_names (value : String → Float) (z : Float)
    (tail : List (Operator × String)) :
    (substitute value)^[tail.length] ⟨.number z, tail.map fun e => (e.1, .name e.2)⟩
      = ⟨.number (tail.foldl (fun z e => e.1.apply z (value e.2)) z), []⟩ := by
  induction tail generalizing z with
  | nil => rfl
  | cons entry rest ih =>
    obtain ⟨o, x⟩ := entry
    rw [List.length_cons, Function.iterate_succ_apply, substitute, List.map_cons, substituteFrom,
      takeNumber_names, Chain.total_pair, ih]
    rfl

/-- Variables alone are worked off from left to right, whatever the operators. -/
theorem reference_names (value : String → Float) (c : Chain String) :
    reference value (c.map .name)
      = ⟨.number (c.tail.foldl (fun z e => e.1.apply z (value e.2)) (value c.head)), []⟩ := by
  rw [reference, length_names, collapse_names, Function.iterate_succ_apply, Chain.map, substitute,
    substituteFrom, takeNumber_names, Chain.total_single, iterate_substitute_names]

/-! ## Operations inside a block -/

theorem exists_number_of_blocks {x : Operand} {tail : List (Operator × Operand)}
    {run : Chain Float} (h : (blocks x tail).head = .numbers run) : ∃ y, x = .number y := by
  cases x with
  | number y => exact ⟨y, rfl⟩
  | name y => cases tail <;> cases h

namespace Block

variable {o : Operator} {bs bs' : Chain Block}

theorem operand_ofOperand (x : Operand) : (ofOperand x).operand = x := by
  cases x <;> rfl

theorem extend_name (x : String) (o : Operator) (bs : Chain Block) :
    extend (.name x) o bs = bs.cons (name x) o := rfl

theorem extend_number_numbers (x : Float) (o : Operator) (run : Chain Float)
    (rest : List (Operator × Block)) :
    extend (.number x) o ⟨numbers run, rest⟩ = ⟨numbers (run.cons x o), rest⟩ := rfl

theorem map_cons (b : Block) (o : Operator) (bs : Chain Block) :
    (bs.cons b o).map operand = (bs.map operand).cons b.operand o := rfl

/-- The same comes out of two chains of blocks, also when they are extended in front. -/
structure Alike (bs bs' : Chain Block) : Prop where
  head : bs.head = bs'.head
  operands : bs.map operand = bs'.map operand

theorem Alike.extend (h : Alike bs bs') (x : Operand) (o : Operator) :
    Alike (Block.extend x o bs) (Block.extend x o bs') := by
  have hcons : ∀ b : Block, Alike (bs.cons b o) (bs'.cons b o) := by
    intro b
    exact ⟨rfl, by rw [map_cons, map_cons, h.operands]⟩
  obtain ⟨head, tail⟩ := bs
  obtain ⟨head', tail'⟩ := bs'
  obtain rfl : head = head' := h.head
  cases x with
  | name x => exact hcons (name x)
  | number x =>
    cases head with
    | name y => exact hcons (numbers ⟨x, []⟩)
    | numbers run =>
      rw [extend_number_numbers, extend_number_numbers]
      have htail : (Chain.map operand ⟨numbers run, tail⟩).tail
          = (Chain.map operand ⟨numbers run, tail'⟩).tail := by rw [h.operands]
      exact ⟨rfl, congrArg (Chain.mk (numbers (run.cons x o)).operand) htail⟩

/-- The leftmost operation of the tightest tier in the first run has been performed. -/
inductive Fused (o : Operator) : Chain Block → Chain Block → Prop
  | intro (a b : Chain Float) (rest : List (Operator × Block))
    (ha : ∀ e ∈ a.tail, o.tier < e.1.tier) (hb : ∀ e ∈ b.tail, o.tier ≤ e.1.tier) :
    Fused o ⟨numbers (a.append o b), rest⟩
      ⟨numbers (Chain.fuse Operator.apply o b a.head a.tail), rest⟩

theorem Fused.exists_run (h : Fused o bs bs') : ∃ run, bs.head = numbers run := by
  obtain ⟨a, b, rest, ha, hb⟩ := h
  exact ⟨a.append o b, rfl⟩

theorem Fused.operands (h : Fused o bs bs') : bs.map operand = bs'.map operand := by
  obtain ⟨a, b, rest, ha, hb⟩ := h
  rw [Chain.map, Chain.map, operand, operand, Chain.total_fuse ha hb]

theorem Fused.extend (h : Fused o bs bs') {p : Operator} (hp : o.tier < p.tier) (x : Float) :
    Fused o (Block.extend (.number x) p bs) (Block.extend (.number x) p bs') := by
  obtain ⟨a, b, rest, ha, hb⟩ := h
  refine .intro (a.cons x p) b rest ?_ hb
  intro e he
  rcases List.mem_cons.mp he with rfl | he
  · exact hp
  · exact ha e he

theorem Fused.alike_extend (h : Fused o bs bs') (x : String) (p : Operator) :
    Alike (Block.extend (.name x) p bs) (Block.extend (.name x) p bs') := by
  rw [extend_name, extend_name]
  exact ⟨rfl, by rw [map_cons, map_cons, h.operands]⟩

end Block

end Mixed

end Formula
