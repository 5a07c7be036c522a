/-! # What becomes of the arguments of a call

While the arguments of a call are collected, each of them is still a literal, a variable or a call,
or it has been collected with others into a block. A block takes in what comes behind it, but nothing
can be put in front of a block. So the second argument must not be collected before the first one has
a value: then the call is blocked. Whether this will happen can be told in advance (`Blocked`), as no
rewriting changes it (`Shifts.blocked_iff`). -/

namespace Formula

/-- What stands at one place of the arguments. -/
inductive Shape where
  | literal
  | block
  | name
  | call
  deriving DecidableEq

namespace Shape

/-- The second argument is in a block without the first one, or it will be before the first one is a
literal. Calls are made before variables are looked up, and both from left to right. -/
def Blocked : List Shape → Prop
  | literal :: rest => rest.head? = some block
  | call :: rest => rest.head? = some block ∨ [literal, literal] <+: rest
  | name :: rest => rest.head? = some block ∨ [literal, literal] <+: rest ∨ [literal, call] <+: rest
    ∨ [call, call] <+: rest ∨ [call, literal] <+: rest ∧ ¬ [call, literal, literal] <+: rest
  | block :: _ | [] => False

/-- No two literals are side by side. -/
def Settled (s : List Shape) : Prop := ¬ [literal, literal] <:+: s

/-- What a rewriting does to the arguments. -/
inductive Shifts : List Shape → List Shape → Prop
  | same (s : List Shape) : Shifts s s
  | pair (front back : List Shape) (h : Settled (front ++ [literal])) :
    Shifts (front ++ literal :: literal :: back) (front ++ block :: back)
  | extend (front back : List Shape) (a : Shape) (h : a = literal ∨ a = block) :
    Shifts (front ++ block :: a :: back) (front ++ block :: back)
  | result (front back : List Shape) (h : Settled (front ++ call :: back)) (hcall : call ∉ front) :
    Shifts (front ++ call :: back) (front ++ literal :: back)
  | lookup (front back : List Shape) (h : Settled (front ++ name :: back))
    (hcall : call ∉ front ++ back) (hname : name ∉ front) :
    Shifts (front ++ name :: back) (front ++ literal :: back)
  | wrapArgument : Shifts [literal] [block]
  | wrapNothing : Shifts [] [block]

/-- Only the first four arguments matter. -/
theorem blocked_append_iff (a b c d : Shape) (s s' : List Shape) :
    Blocked (a :: b :: c :: d :: s) ↔ Blocked (a :: b :: c :: d :: s') := by
  cases a <;> cases b <;> cases c <;> simp [Blocked]

/-- **Whether a call is or will be blocked does not change.** -/
theorem Shifts.blocked_iff {s s' : List Shape} (h : Shifts s s') : Blocked s' ↔ Blocked s := by
  -- what changes behind the fourth argument is of no account, so few fronts are left in each case
  cases h with
  | same => rfl
  | pair front back h =>
    match front with
    | [] => cases back <;> simp_all [Blocked]
    | [a] => cases a <;> simp_all [Blocked, Settled, List.infix_cons_iff]
    | [a, b] => cases a <;> cases b <;> simp_all [Blocked, Settled, List.infix_cons_iff]
    | [a, b, c] =>
      cases a <;> cases b <;> cases c <;> simp_all [Blocked, Settled, List.infix_cons_iff]
    | a :: b :: c :: d :: _ => exact blocked_append_iff a b c d _ _
  | extend front back a h =>
    match front with
    | [] => rcases h with rfl | rfl <;> cases back <;> simp_all [Blocked]
    | [b] => cases b <;> simp_all [Blocked]
    | [b, c] => cases b <;> cases c <;> simp_all [Blocked]
    | [b, c, d] => cases b <;> cases c <;> cases d <;> simp_all [Blocked]
    | b :: c :: d :: e :: _ => exact blocked_append_iff b c d e _ _
  | result front back h hcall =>
    have hback : ¬ [literal, literal] <+: back := by
      intro hpair
      exact h (hpair.isInfix.trans ⟨front ++ [call], [], by simp⟩)
    match front with
    | [] => cases back <;> simp_all [Blocked, Settled, List.infix_cons_iff]
    | [a] => cases a <;> simp_all [Blocked, Settled, List.infix_cons_iff, or_comm]
    | [a, b] => cases a <;> cases b <;> simp_all [Blocked, Settled, List.infix_cons_iff]
    | [a, b, c] =>
      cases a <;> cases b <;> cases c <;> simp_all [Blocked, Settled, List.infix_cons_iff]
    | a :: b :: c :: d :: _ => exact blocked_append_iff a b c d _ _
  | lookup front back h hcall hname =>
    match front with
    | [] =>
      match back with
      | [] => simp [Blocked]
      | [b] => cases b <;> simp_all [Blocked]
      | b :: c :: back => cases b <;> cases c <;> simp_all [Blocked, Settled, List.infix_cons_iff]
    | [a] => cases a <;> simp_all [Blocked, Settled, List.infix_cons_iff]
    | [a, b] => cases a <;> cases b <;> simp_all [Blocked, Settled, List.infix_cons_iff]
    | [a, b, c] =>
      cases a <;> cases b <;> cases c <;> simp_all [Blocked, Settled, List.infix_cons_iff]
    | a :: b :: c :: d :: _ => exact blocked_append_iff a b c d _ _
  | wrapArgument => simp [Blocked]
  | wrapNothing => simp [Blocked]

/-! ## Before anything is collected -/

/-- The arguments of a call, as they are written, that are never all collected. -/
def Starved : List Shape → Prop
  | first :: second :: third :: rest =>
    first = call ∧ second = literal ∧ third = literal ∨
      first = name ∧ second ≠ name ∧ third ≠ name ∧
        ¬ (second = call ∧ third = literal ∧ rest.head? = some literal)
  | _ => False

theorem blocked_iff_starved {s : List Shape} (h : block ∉ s) : Blocked s ↔ Starved s := by
  match s with
  | [] => simp [Blocked, Starved]
  | [a] => cases a <;> simp [Blocked, Starved]
  | [a, b] => cases a <;> cases b <;> simp_all [Blocked, Starved]
  | a :: b :: c :: rest =>
    cases a <;> cases b <;> cases c <;> cases rest <;> simp_all [Blocked, Starved, eq_comm]

end Shape

end Formula
