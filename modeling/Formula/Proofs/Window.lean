import Formula.Proofs.Redex

/-! # The windows of the rules

Which rule a window belongs to. No two rules fit the same window (`Rule.eq_of_fits`), so the tokens
of a window alone tell the rule that rewrites it. -/

namespace Formula

/-! ## No two rules fit the same window -/

/-- Some kind of token suits both places. -/
def Slot.meets : Slot → Slot → Bool
  | kind k, kind k' => k = k'
  | kind k, literal | literal, kind k => literal.accepts k
  | literal, literal => true

theorem Slot.meets_of_accepts {a b : Slot} {k : Token.Kind} (ha : a.accepts k = true)
    (hb : b.accepts k = true) : a.meets b = true := by
  cases a <;> cases b <;> simp_all [meets, accepts]

/-- Some window fits both patterns. -/
def Slot.meetAll : List Slot → List Slot → Bool
  | [], [] => true
  | a :: as, b :: bs => a.meets b && meetAll as bs
  | _, _ => false

theorem Slot.meetAll_of_fits {as bs : List Slot} {window : List Token} (ha : Fits as window)
    (hb : Fits bs window) : meetAll as bs = true := by
  induction as generalizing bs window with
  | nil =>
    cases window with
    | cons t ts => exact False.elim ha
    | nil =>
      cases bs with
      | nil => rfl
      | cons b bs => exact False.elim hb
  | cons a as ih =>
    cases window with
    | nil => exact False.elim ha
    | cons t ts =>
      cases bs with
      | nil => exact False.elim hb
      | cons b bs => simp [meetAll, meets_of_accepts ha.1 hb.1, ih ha.2 hb.2]

theorem Rule.eq_of_fits {rule rule' : Rule} (h : rule ∈ Rule.table) (h' : rule' ∈ Rule.table)
    {window : List Token} (hfits : Fits rule.pattern window) (hfits' : Fits rule'.pattern window) :
    rule = rule' := by
  have hall : ∀ r ∈ Rule.table, ∀ r' ∈ Rule.table,
      Slot.meetAll r.pattern r'.pattern = true → r = r' := by decide
  exact hall rule h rule' h' (Slot.meetAll_of_fits hfits hfits')

/-! ## The window of each rule -/

theorem Token.accepts_of_scalar? {t : Token} {v : Value} (h : t.scalar? = some v) :
    Slot.literal.accepts t.kind = true := by
  cases t <;> simp_all [Token.scalar?, Slot.accepts]

namespace Rule

variable {after : List Token} {t u : Token} {v w : Value}

theorem matches_singleArgument (f : String) (h : t.scalar? = some v) :
    singleArgument.Matches [.name f, .openParen, t, .closeParen] after :=
  ⟨⟨rfl, rfl, Token.accepts_of_scalar? h, rfl, trivial⟩, rfl⟩

theorem matches_implicitMultiplication (x y : Float) :
    implicitMultiplication.Matches [.number x, .openParen, .number y, .closeParen] after :=
  ⟨⟨rfl, rfl, rfl, rfl, trivial⟩, rfl⟩

theorem matches_redundantParentheses (x : Float) :
    redundantParentheses.Matches [.openParen, .number x, .closeParen] after :=
  ⟨⟨rfl, rfl, rfl, trivial⟩, rfl⟩

theorem matches_ofOperator (o : Operator) (x y : Float) :
    (ofOperator o).Matches [.number x, .operator o, .number y] after := by
  cases o <;> exact ⟨⟨rfl, rfl, rfl, trivial⟩, rfl⟩

theorem matches_argumentPair (ht : t.scalar? = some v) (hu : u.scalar? = some w) :
    argumentPair.Matches [t, .comma, u] after :=
  ⟨⟨Token.accepts_of_scalar? ht, rfl, Token.accepts_of_scalar? hu, trivial⟩, rfl⟩

theorem matches_appendArgument (vs : List Value) (h : t.scalar? = some v) :
    appendArgument.Matches [.args vs, .comma, t] after :=
  ⟨⟨rfl, rfl, Token.accepts_of_scalar? h, trivial⟩, rfl⟩

theorem matches_concatenateArguments (vs ws : List Value) :
    concatenateArguments.Matches [.args vs, .comma, .args ws] after :=
  ⟨⟨rfl, rfl, rfl, trivial⟩, rfl⟩

theorem matches_noArguments (f : String) :
    noArguments.Matches [.name f, .openParen, .closeParen] after :=
  ⟨⟨rfl, rfl, rfl, trivial⟩, rfl⟩

theorem matches_call (f : String) (vs : List Value) :
    call.Matches [.name f, .openParen, .args vs, .closeParen] after :=
  ⟨⟨rfl, rfl, rfl, rfl, trivial⟩, rfl⟩

theorem matches_substitution (x : String) (h : after.head? ≠ some .openParen) :
    substitution.Matches [.name x] after := by
  refine ⟨⟨rfl, trivial⟩, ?_⟩
  cases after with
  | nil => rfl
  | cons t ts =>
    have ht : t.kind ≠ .openParen := by
      intro hk
      exact h (by simp [Token.eq_openParen hk])
    simpa [blockedBy, substitution] using ht

theorem head?_ne_of_matches_substitution {window : List Token}
    (h : substitution.Matches window after) : after.head? ≠ some .openParen := by
  intro hhead
  cases after with
  | nil => cases hhead
  | cons t ts =>
    cases hhead
    cases h.clear

theorem ofOperator_mem (o : Operator) : ofOperator o ∈ table := by cases o <;> decide

end Rule

/-! ## Some rule matches -/

/-- Some rule matches somewhere. -/
def HasMatch (ts : List Token) : Prop :=
  ∃ rule ∈ Rule.table, ∃ before window after,
    ts = before ++ (window ++ after) ∧ rule.Matches window after

theorem HasMatch.front {rule : Rule} (hrule : rule ∈ Rule.table) {window after : List Token}
    (h : rule.Matches window after) : HasMatch (window ++ after) :=
  ⟨rule, hrule, [], window, after, rfl, h⟩

theorem HasMatch.cons {ts : List Token} (h : HasMatch ts) (t : Token) : HasMatch (t :: ts) := by
  obtain ⟨rule, hrule, before, window, after, rfl, hm⟩ := h
  exact ⟨rule, hrule, t :: before, window, after, rfl, hm⟩

theorem HasMatch.append {ts : List Token} (h : HasMatch ts) (front : List Token) :
    HasMatch (front ++ ts) := by
  induction front with
  | nil => exact h
  | cons t front ih => exact ih.cons t

theorem HasMatch.exists_find? {ts : List Token} (h : HasMatch ts) :
    ∃ r, Redex.find? ts = some r := by
  obtain ⟨rule, hrule, before, window, after, hts, hm⟩ := h
  cases hfind : Redex.find? ts with
  | some r => exact ⟨r, rfl⟩
  | none => exact absurd hfind (Redex.find?_ne_none hrule hts hm)

/-! ## What is rewritten -/

theorem Redex.exists_replacement {ts : List Token} {r : Redex} (h : find? ts = some r) :
    ∃ replacement, r.rule.action.replacement r.window = .ok replacement ∧
      Contracts r.window replacement := by
  obtain ⟨hrule, -, hfits⟩ := find?_eq_some h
  exact contracts_of_fits hrule hfits

theorem Action.rewrite_eq {σ : Type} {host : Host σ} {state : σ} {action : Action}
    {window : List Token} {replacement : Replacement}
    (h : action.replacement window = .ok replacement) :
    action.rewrite host state window = replacement.resolve host state := by
  rw [rewrite, h]

/-- What is rewritten is contracted in one of the ten ways, and the action does not fail before it
reaches the host. -/
theorem Redex.exists_contracts {ts : List Token} {r : Redex} (h : find? ts = some r) :
    ∃ replacement, Contracts r.window replacement ∧
      ∀ {σ : Type} (host : Host σ) (state : σ),
        r.rule.action.rewrite host state r.window = replacement.resolve host state := by
  obtain ⟨replacement, hreplacement, hcontracts⟩ := exists_replacement h
  exact ⟨replacement, hcontracts, fun _ _ => Action.rewrite_eq hreplacement⟩

theorem Redex.window_ne_nil {ts : List Token} {r : Redex} (h : find? ts = some r) :
    r.window ≠ [] := by
  obtain ⟨replacement, hcontracts, -⟩ := exists_contracts h
  intro hnil
  rw [hnil] at hcontracts
  cases hcontracts

/-- The rule of a window that is rewritten is the one that the window fits. -/
theorem Redex.rule_eq {ts : List Token} {r : Redex} (h : find? ts = some r) {rule : Rule}
    (hrule : rule ∈ Rule.table) (hfits : Fits rule.pattern r.window) : r.rule = rule := by
  obtain ⟨hmem, -, hfits'⟩ := find?_eq_some h
  exact Rule.eq_of_fits hmem hrule hfits' hfits

theorem Redex.rule_eq_substitution {ts : List Token} {r : Redex} {x : String}
    (h : find? ts = some r) (hwindow : r.window = [.name x]) : r.rule = Rule.substitution :=
  rule_eq h (by decide) (by rw [hwindow]; exact ⟨rfl, trivial⟩)

theorem Redex.rule_eq_redundantParentheses {ts : List Token} {r : Redex} {x : Float}
    (h : find? ts = some r) (hwindow : r.window = [.openParen, .number x, .closeParen]) :
    r.rule = Rule.redundantParentheses :=
  rule_eq h (by decide) (by rw [hwindow]; exact ⟨rfl, rfl, rfl, trivial⟩)

/-- A name that is looked up is not followed by an opening parenthesis. -/
theorem Redex.head?_after_ne_openParen {ts : List Token} {r : Redex} {x : String}
    (h : find? ts = some r) (hwindow : r.window = [.name x]) :
    r.after.head? ≠ some .openParen := by
  have hmatch := (find?_eq_some_iff.mp h).2.1
  rw [rule_eq_substitution h hwindow] at hmatch
  exact Rule.head?_ne_of_matches_substitution hmatch

/-- The parentheses of a call are not taken away: wrapping its argument comes first. -/
theorem Redex.getLast?_before_ne_name {ts : List Token} {r : Redex} {x : Float}
    (h : find? ts = some r) (hwindow : r.window = [.openParen, .number x, .closeParen])
    (f : String) : r.before.getLast? ≠ some (.name f) := by
  intro hlast
  obtain ⟨front, hbefore⟩ := List.getLast?_eq_some_iff.mp hlast
  have hts : ts = front ++ ([.name f, .openParen, .number x, .closeParen] ++ r.after) := by
    rw [(find?_eq_some h).2.1, program, hwindow, hbefore]
    simp
  have hle := find?_priority h hts (Rule.matches_singleArgument f rfl)
  rw [rule_eq_redundantParentheses h hwindow] at hle
  exact absurd hle (by decide)

end Formula
