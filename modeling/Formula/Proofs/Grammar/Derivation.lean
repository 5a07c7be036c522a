import Formula.Bindings
import Formula.Token

/-! # The grammar of formulas

No rule says what a formula is. The grammar below is what the rules come to, and it leaves open where
a variable stands for a text: that is settled by the bindings (`Orderly`). -/

namespace Formula

/-- What a sequence of tokens can be derived from. -/
inductive Nonterminal where
  | formula
  | sum
  | factor
  | call
  | arguments
  | item
  deriving DecidableEq, Repr

/-- The sequences of tokens that are derived from a nonterminal. -/
inductive Derives : Nonterminal → List Token → Prop
  | text (s : String) : Derives .formula [.text s]
  | bool (b : Bool) : Derives .formula [.bool b]
  | sum {ts : List Token} (h : Derives .sum ts) : Derives .formula ts
  | factor {ts : List Token} (h : Derives .factor ts) : Derives .sum ts
  | operation {ts us : List Token} (h : Derives .sum ts) (o : Operator) (h' : Derives .factor us) :
    Derives .sum (ts ++ .operator o :: us)
  | number (x : Float) : Derives .factor [.number x]
  | name (x : String) : Derives .factor [.name x]
  | call {ts : List Token} (h : Derives .call ts) : Derives .factor ts
  | group {ts : List Token} (h : Derives .sum ts) :
    Derives .factor (.openParen :: (ts ++ [.closeParen]))
  | product {ts us : List Token} (h : Derives .factor ts) (h' : Derives .sum us) :
    Derives .factor (ts ++ .openParen :: (us ++ [.closeParen]))
  | callNothing (f : String) : Derives .call [.name f, .openParen, .closeParen]
  | callArguments (f : String) {ts : List Token} (h : Derives .arguments ts) :
    Derives .call (.name f :: .openParen :: (ts ++ [.closeParen]))
  | first {ts : List Token} (h : Derives .item ts) : Derives .arguments ts
  | next {ts us : List Token} (h : Derives .arguments ts) (h' : Derives .item us) :
    Derives .arguments (ts ++ .comma :: us)
  | formula {ts : List Token} (h : Derives .formula ts) : Derives .item ts
  | collected (vs : List Value) : Derives .item [.args vs]

/-! ## Balanced parentheses -/

/-- No parenthesis closes before it has been opened, and all are closed. -/
def Balanced (ts : List Token) : Prop :=
  (∀ front back, ts = front ++ back → front.count .closeParen ≤ front.count .openParen) ∧
    ts.count .closeParen = ts.count .openParen

theorem Balanced.append {ts us : List Token} (h : Balanced ts) (h' : Balanced us) :
    Balanced (ts ++ us) := by
  refine ⟨?_, ?_⟩
  · intro front back hsplit
    rcases List.append_eq_append_iff.mp hsplit with ⟨middle, rfl, hus⟩ | ⟨middle, hts, -⟩
    · have hmiddle := h'.1 middle back hus
      have hall := h.2
      rw [List.count_append, List.count_append]
      omega
    · exact h.1 front middle hts
  · rw [List.count_append, List.count_append, h.2, h'.2]

theorem Balanced.parens {ts : List Token} (h : Balanced ts) :
    Balanced (.openParen :: (ts ++ [.closeParen])) := by
  have hall := h.2
  refine ⟨?_, ?_⟩
  · intro front back hsplit
    cases front with
    | nil => exact Nat.le_refl _
    | cons t front =>
      obtain ⟨rfl, hrest⟩ := List.cons.inj hsplit
      rw [List.count_cons_self, List.count_cons_of_ne (by simp)]
      rcases List.append_eq_append_iff.mp hrest with ⟨middle, rfl, hclose⟩ | ⟨middle, hts, -⟩
      · have hmiddle : middle.count .closeParen ≤ 1 := by
          have hone := congrArg (List.count .closeParen) hclose
          rw [List.count_append] at hone
          simp only [List.count_singleton_self] at hone
          omega
        rw [List.count_append, List.count_append]
        omega
      · have hfront := h.1 front middle hts
        omega
  · simp [List.count_append, hall]

theorem balanced_singleton {t : Token} (hopen : t ≠ .openParen) (hclose : t ≠ .closeParen) :
    Balanced [t] := by
  refine ⟨?_, by simp [hopen, hclose]⟩
  intro front back hsplit
  have hnone : [t].count .closeParen = 0 := by simp [hclose]
  rw [hsplit, List.count_append] at hnone
  omega

theorem Derives.balanced {n : Nonterminal} {ts : List Token} (h : Derives n ts) : Balanced ts := by
  induction h with
  | text s => exact balanced_singleton (by simp) (by simp)
  | bool b => exact balanced_singleton (by simp) (by simp)
  | sum _ ih => exact ih
  | factor _ ih => exact ih
  | operation _ o _ ih ih' => exact ih.append ((balanced_singleton (by simp) (by simp)).append ih')
  | number x => exact balanced_singleton (by simp) (by simp)
  | name x => exact balanced_singleton (by simp) (by simp)
  | call _ ih => exact ih
  | group _ ih => exact ih.parens
  | product _ _ ih ih' => exact ih.append ih'.parens
  | callNothing f =>
    have hnothing : Balanced [] := ⟨fun front back h => by simp_all, rfl⟩
    exact (balanced_singleton (t := .name f) (by simp) (by simp)).append hnothing.parens
  | callArguments f _ ih =>
    exact (balanced_singleton (t := .name f) (by simp) (by simp)).append ih.parens
  | first _ ih => exact ih
  | next _ _ ih ih' => exact ih.append ((balanced_singleton (by simp) (by simp)).append ih')
  | formula _ ih => exact ih
  | collected vs => exact balanced_singleton (by simp) (by simp)

/-! ## What the grammar and the bindings rule out -/

def Token.isOperand : Token → Bool
  | .number _ | .text _ | .bool _ | .name _ | .args _ => true
  | _ => false

/-- A token can end the left operand of an operator. A name does if it is bound to a number. -/
def Bindings.EndsOperand (bindings : Bindings) : Token → Prop
  | .number _ | .closeParen => True
  | .name x => ∃ y, bindings.get? x = some (.number y)
  | _ => False

/-- Tokens can begin with the right operand of an operator. A name may also be that of a function
here, which is told by the token after it. -/
def Bindings.BeginsOperand (bindings : Bindings) : List Token → Prop
  | .number _ :: _ | .openParen :: _ => True
  | .name x :: rest => rest.head? = some .openParen ∨ ∃ y, bindings.get? x = some (.number y)
  | _ => False

/-- Parentheses match, operators have numbers for operands, operands do not follow each other, and
commas stand in the arguments of a call. -/
structure Orderly (bindings : Bindings) (ts : List Token) : Prop where
  balanced : Balanced ts
  left : ∀ before o after, ts = before ++ .operator o :: after →
    ∃ front t, before = front ++ [t] ∧ bindings.EndsOperand t
  right : ∀ before o after, ts = before ++ .operator o :: after → bindings.BeginsOperand after
  apart : ∀ before t u after, ts = before ++ t :: u :: after →
    (t.isOperand = true ∨ t = .closeParen) → u.isOperand = false
  comma : ∀ before after, ts = before ++ .comma :: after →
    ∃ front f inner, before = front ++ .name f :: .openParen :: inner ∧ Balanced inner

end Formula
