import Formula.Proofs.Chain
import Formula.Proofs.Window

/-! # Waiting for a turn

When an operator is used, all other operators between two numbers have the same tier or a looser one,
and in front of it they have a looser one. This is all that the search for the next match tells about
the tokens around it. -/

namespace Formula

/-- All operators between two numbers wait for the tier `k` or a later one. -/
def Waits (k : Nat) (ts : List Token) : Prop :=
  ∀ x o y, [.number x, .operator o, .number y] <:+: ts → k ≤ o.tier

/-- No operator is between two numbers. -/
def Apart (ts : List Token) : Prop := ∀ x o y, ¬ [.number x, .operator o, .number y] <:+: ts

/-- No number is alone between parentheses. -/
def Unwrapped (ts : List Token) : Prop := ∀ x, ¬ [.openParen, .number x, .closeParen] <:+: ts

theorem Waits.of_isInfix {k : Nat} {ts us : List Token} (h : Waits k ts) (hus : us <:+: ts) :
    Waits k us := by
  intro x o y hw
  exact h x o y (hw.trans hus)

theorem Apart.of_isInfix {ts us : List Token} (h : Apart ts) (hus : us <:+: ts) : Apart us := by
  intro x o y hw
  exact h x o y (hw.trans hus)

theorem Unwrapped.of_isInfix {ts us : List Token} (h : Unwrapped ts) (hus : us <:+: ts) :
    Unwrapped us := by
  intro x hw
  exact h x (hw.trans hus)

namespace Redex

variable {ts : List Token} {r : Redex} {x y : Float} {o : Operator}

theorem rule_eq_ofOperator (hfind : find? ts = some r)
    (hwindow : r.window = [.number x, .operator o, .number y]) : r.rule = Rule.ofOperator o := by
  have hm : (Rule.ofOperator o).Matches r.window [] := hwindow ▸ Rule.matches_ofOperator o x y
  exact rule_eq hfind (Rule.ofOperator_mem o) hm.fits

/-- No parentheses are left to be taken away when an operator is used. -/
theorem unwrapped_of_find? (hfind : find? ts = some r)
    (hwindow : r.window = [.number x, .operator o, .number y]) : Unwrapped ts := by
  rintro w ⟨before, after, hts⟩
  have hts' : ts = before ++ ([.openParen, .number w, .closeParen] ++ after) := by simp [← hts]
  have hle := find?_priority hfind hts' (Rule.matches_redundantParentheses w)
  have hthird : Rule.redundantParentheses.priority = 2 := by decide
  have ho := o.tier_pos
  rw [rule_eq_ofOperator hfind hwindow, Operator.priority_ofOperator, hthird] at hle
  omega

/-- No other operator between two numbers binds tighter than the one that is used. -/
theorem waits_of_find? (hfind : find? ts = some r)
    (hwindow : r.window = [.number x, .operator o, .number y]) : Waits o.tier ts := by
  rintro w p z ⟨before, after, hts⟩
  have hts' : ts = before ++ ([.number w, .operator p, .number z] ++ after) := by simp [← hts]
  have hle := find?_priority hfind hts' (Rule.matches_ofOperator p w z)
  rw [rule_eq_ofOperator hfind hwindow, Operator.priority_ofOperator,
    Operator.priority_ofOperator] at hle
  exact Nat.le_of_add_le_add_right hle

/-- In front of what is rewritten, everything waits for a later tier. -/
theorem waits_front_of_find? (hfind : find? ts = some r)
    (hwindow : r.window = [.number x, .operator o, .number y]) :
    Waits (o.tier + 1) (ts.take (r.before.length + 1)) := by
  rintro w p z ⟨before, after, htake⟩
  have hts : ts = before ++ ([.number w, .operator p, .number z]
      ++ (after ++ ts.drop (r.before.length + 1))) := by
    rw [← List.append_assoc, ← List.append_assoc, htake, List.take_append_drop]
  have hle : o.tier ≤ p.tier :=
    waits_of_find? hfind hwindow w p z ⟨before, after ++ ts.drop (r.before.length + 1), by
      rw [List.append_assoc, ← hts]⟩
  have hlength := congrArg List.length htake
  simp only [List.length_append, List.length_cons, List.length_nil, List.length_take] at hlength
  by_cases hp : p = o
  · subst hp
    have hleft := find?_leftmost hfind hts
      (rule_eq_ofOperator hfind hwindow ▸ Rule.matches_ofOperator p w z)
    omega
  · exact Nat.lt_of_le_of_ne hle fun he => hp (Operator.tier_injective he).symm

/-- No operator is left between two numbers when a variable is looked up. -/
theorem apart_of_find? (hfind : find? ts = some r) (hrule : r.rule = Rule.substitution) :
    Apart ts := by
  rintro x o y ⟨before, after, hts⟩
  have hts' : ts = before ++ ([.number x, .operator o, .number y] ++ after) := by simp [← hts]
  have hle := find?_priority hfind hts' (Rule.matches_ofOperator o x y)
  have hlast : Rule.substitution.priority = 14 := by decide
  have ho : o.tier ≤ 6 := by cases o <;> decide
  rw [hrule, hlast, Operator.priority_ofOperator] at hle
  omega

end Redex

end Formula
