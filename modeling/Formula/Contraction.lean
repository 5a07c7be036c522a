import Formula.Rule

/-!
# Contractions

What the rules do to the windows that they match, without the table: `contracts_of_fits` says that
a window which fits a rule is contracted in one of ten ways, and that its rule never finds it
wanting.
-/

namespace Formula

namespace Token

theorem exists_name {t : Token} (h : t.kind = .name) : ∃ s, t = .name s := by
  cases t <;> simp_all

theorem exists_number {t : Token} (h : t.kind = .number) : ∃ x, t = .number x := by
  cases t <;> simp_all

theorem exists_args {t : Token} (h : t.kind = .args) : ∃ vs, t = .args vs := by
  cases t <;> simp_all

theorem eq_operator {t : Token} {o : Operator} (h : t.kind = .operator o) : t = .operator o := by
  cases t <;> simp_all

theorem eq_openParen {t : Token} (h : t.kind = .openParen) : t = .openParen := by
  cases t <;> simp_all

theorem eq_closeParen {t : Token} (h : t.kind = .closeParen) : t = .closeParen := by
  cases t <;> simp_all

theorem eq_comma {t : Token} (h : t.kind = .comma) : t = .comma := by
  cases t <;> simp_all

theorem exists_scalar {t : Token} (h : Slot.literal.accepts t.kind = true) :
    ∃ v, t.scalar? = some v := by
  cases t <;> simp_all [Slot.accepts, kind, scalar?]

end Token

/-- The tokens of a window fit the places of a pattern one by one. -/
def Fits : List Slot → List Token → Prop
  | [], [] => True
  | slot :: slots, t :: ts => slot.accepts t.kind = true ∧ Fits slots ts
  | _, _ => False

theorem Rule.matchSlots_eq_some {slots : List Slot} {ts window rest : List Token}
    (h : Rule.matchSlots slots ts = some (window, rest)) :
    ts = window ++ rest ∧ Fits slots window := by
  induction slots generalizing ts window with
  | nil =>
    simp only [Rule.matchSlots, Option.some.injEq, Prod.mk.injEq] at h
    obtain ⟨rfl, rfl⟩ := h
    exact ⟨rfl, trivial⟩
  | cons slot slots ih =>
    cases ts with
    | nil => simp [Rule.matchSlots] at h
    | cons t ts =>
      simp only [Rule.matchSlots] at h
      split at h
      · rename_i hslot
        obtain ⟨⟨w, r⟩, hm, he⟩ := Option.map_eq_some_iff.mp h
        simp only [Prod.mk.injEq] at he
        obtain ⟨rfl, rfl⟩ := he
        obtain ⟨hts, hfits⟩ := ih hm
        exact ⟨by rw [hts, List.cons_append], hslot, hfits⟩
      · simp at h

theorem Rule.window?_eq_some {rule : Rule} {ts window rest : List Token}
    (h : rule.window? ts = some (window, rest)) :
    ts = window ++ rest ∧ Fits rule.pattern window := by
  simp only [Rule.window?] at h
  split at h
  · rename_i hm
    split at h
    · simp at h
    · simp only [Option.some.injEq, Prod.mk.injEq] at h
      obtain ⟨rfl, rfl⟩ := h
      exact Rule.matchSlots_eq_some hm
  · simp at h

/-- The windows that the rules contract, each with what replaces it. -/
inductive Contracts : List Token → Replacement → Prop
  | wrapArgument (f : String) {t : Token} {v : Value} (h : t.scalar? = some v) :
    Contracts [.name f, .openParen, t, .closeParen]
      (.tokens [.name f, .openParen, .args [v], .closeParen])
  | multiply (x y : Float) :
    Contracts [.number x, .openParen, .number y, .closeParen]
      (.tokens [.number (Operator.mul.apply x y)])
  | unwrap (x : Float) :
    Contracts [.openParen, .number x, .closeParen] (.tokens [.number x])
  | operate (x : Float) (o : Operator) (y : Float) :
    Contracts [.number x, .operator o, .number y] (.tokens [.number (o.apply x y)])
  | pair {t u : Token} {v w : Value} (ht : t.scalar? = some v) (hu : u.scalar? = some w) :
    Contracts [t, .comma, u] (.tokens [.args [v, w]])
  | append (vs : List Value) {t : Token} {v : Value} (h : t.scalar? = some v) :
    Contracts [.args vs, .comma, t] (.tokens [.args (vs ++ [v])])
  | concatenate (vs ws : List Value) :
    Contracts [.args vs, .comma, .args ws] (.tokens [.args (vs ++ ws)])
  | wrapNothing (f : String) :
    Contracts [.name f, .openParen, .closeParen]
      (.tokens [.name f, .openParen, .args [], .closeParen])
  | call (f : String) (vs : List Value) :
    Contracts [.name f, .openParen, .args vs, .closeParen] (.result f vs)
  | substitute (x : String) : Contracts [.name x] (.binding x)

theorem contracts_of_fits_arithmetic {name : String} {o : Operator} {window : List Token}
    (hfits : Fits (Rule.arithmetic name o).pattern window) :
    ∃ r, (Rule.arithmetic name o).action.replacement window = .ok r ∧ Contracts window r := by
  match window, hfits with
  | [a, b, c], ⟨ha, hb, hc, _⟩ =>
    obtain ⟨x, rfl⟩ := Token.exists_number (of_decide_eq_true ha)
    obtain rfl := Token.eq_operator (of_decide_eq_true hb)
    obtain ⟨y, rfl⟩ := Token.exists_number (of_decide_eq_true hc)
    exact ⟨_, rfl, .operate x o y⟩

/-- **A window that fits a rule is contracted by it.** -/
theorem contracts_of_fits {rule : Rule} (hrule : rule ∈ Rule.table) {window : List Token}
    (hfits : Fits rule.pattern window) :
    ∃ r, rule.action.replacement window = .ok r ∧ Contracts window r := by
  simp only [Rule.table, List.mem_cons, List.not_mem_nil, or_false] at hrule
  rcases hrule with rfl | rfl | rfl | rfl | rfl | rfl | rfl | rfl | rfl | rfl | rfl | rfl | rfl
    | rfl | rfl
  · match window, hfits with
    | [a, b, c, d], ⟨ha, hb, hc, hd, _⟩ =>
      obtain ⟨f, rfl⟩ := Token.exists_name (of_decide_eq_true ha)
      obtain rfl := Token.eq_openParen (of_decide_eq_true hb)
      obtain ⟨v, hv⟩ := Token.exists_scalar hc
      obtain rfl := Token.eq_closeParen (of_decide_eq_true hd)
      refine ⟨_, ?_, .wrapArgument f hv⟩
      simp only [Action.replacement, Action.takeFour, Action.literalOf, hv]
      rfl
  · match window, hfits with
    | [a, b, c, d], ⟨ha, hb, hc, hd, _⟩ =>
      obtain ⟨x, rfl⟩ := Token.exists_number (of_decide_eq_true ha)
      obtain rfl := Token.eq_openParen (of_decide_eq_true hb)
      obtain ⟨y, rfl⟩ := Token.exists_number (of_decide_eq_true hc)
      obtain rfl := Token.eq_closeParen (of_decide_eq_true hd)
      exact ⟨_, rfl, .multiply x y⟩
  · match window, hfits with
    | [a, b, c], ⟨ha, hb, hc, _⟩ =>
      obtain rfl := Token.eq_openParen (of_decide_eq_true ha)
      obtain ⟨x, rfl⟩ := Token.exists_number (of_decide_eq_true hb)
      obtain rfl := Token.eq_closeParen (of_decide_eq_true hc)
      exact ⟨_, rfl, .unwrap x⟩
  · exact contracts_of_fits_arithmetic hfits
  · exact contracts_of_fits_arithmetic hfits
  · exact contracts_of_fits_arithmetic hfits
  · exact contracts_of_fits_arithmetic hfits
  · exact contracts_of_fits_arithmetic hfits
  · exact contracts_of_fits_arithmetic hfits
  · match window, hfits with
    | [a, b, c], ⟨ha, hb, hc, _⟩ =>
      obtain ⟨v, hv⟩ := Token.exists_scalar ha
      obtain rfl := Token.eq_comma (of_decide_eq_true hb)
      obtain ⟨w, hw⟩ := Token.exists_scalar hc
      refine ⟨_, ?_, .pair hv hw⟩
      simp only [Action.replacement, Action.takeThree, Action.literalOf, hv, hw]
      rfl
  · match window, hfits with
    | [a, b, c], ⟨ha, hb, hc, _⟩ =>
      obtain ⟨vs, rfl⟩ := Token.exists_args (of_decide_eq_true ha)
      obtain rfl := Token.eq_comma (of_decide_eq_true hb)
      obtain ⟨w, hw⟩ := Token.exists_scalar hc
      refine ⟨_, ?_, .append vs hw⟩
      simp only [Action.replacement, Action.takeThree, Action.argumentsOf, Action.literalOf, hw]
      rfl
  · match window, hfits with
    | [a, b, c], ⟨ha, hb, hc, _⟩ =>
      obtain ⟨vs, rfl⟩ := Token.exists_args (of_decide_eq_true ha)
      obtain rfl := Token.eq_comma (of_decide_eq_true hb)
      obtain ⟨ws, rfl⟩ := Token.exists_args (of_decide_eq_true hc)
      exact ⟨_, rfl, .concatenate vs ws⟩
  · match window, hfits with
    | [a, b, c], ⟨ha, hb, hc, _⟩ =>
      obtain ⟨f, rfl⟩ := Token.exists_name (of_decide_eq_true ha)
      obtain rfl := Token.eq_openParen (of_decide_eq_true hb)
      obtain rfl := Token.eq_closeParen (of_decide_eq_true hc)
      exact ⟨_, rfl, .wrapNothing f⟩
  · match window, hfits with
    | [a, b, c, d], ⟨ha, hb, hc, hd, _⟩ =>
      obtain ⟨f, rfl⟩ := Token.exists_name (of_decide_eq_true ha)
      obtain rfl := Token.eq_openParen (of_decide_eq_true hb)
      obtain ⟨vs, rfl⟩ := Token.exists_args (of_decide_eq_true hc)
      obtain rfl := Token.eq_closeParen (of_decide_eq_true hd)
      exact ⟨_, rfl, .call f vs⟩
  · match window, hfits with
    | [a], ⟨ha, _⟩ =>
      obtain ⟨x, rfl⟩ := Token.exists_name (of_decide_eq_true ha)
      exact ⟨_, rfl, .substitute x⟩

end Formula
