import Formula.Proofs.Precedence.Part
import Formula.Proofs.Waiting

/-! # Whose turn it is

The rule that is used next and its place are chosen by the tokens of a formula alone. This tells about
the term behind them that all other operators wait for the same tier or a later one, so what is
rewritten is rewritten in its turn (`contraction_of_find?`). If it is no part of the term, an operator
has taken an operand that belongs to another one (`not_timely_of_find?`). -/

namespace Formula

namespace Term

/-! ## What the text of a term tells -/

theorem mem_tokens {t : Term} {u : Token} (h : u ∈ t.tokens) :
    (∃ x, u = .number x) ∨ (∃ o, u = .operator o) ∨ u = .openParen ∨ u = .closeParen := by
  induction t with
  | number x => exact .inl ⟨x, List.mem_singleton.mp h⟩
  | paren t ih =>
    rcases List.mem_cons.mp h with rfl | h
    · exact .inr (.inr (.inl rfl))
    · rcases List.mem_append.mp h with h | h
      · exact ih h
      · exact .inr (.inr (.inr (List.mem_singleton.mp h)))
  | operation l o r ihl ihr =>
    rcases List.mem_append.mp h with h | h
    · exact ihl h
    · rcases List.mem_cons.mp h with rfl | h
      · exact .inr (.inl ⟨o, rfl⟩)
      · exact ihr h

theorem tokens_ne_nil (t : Term) : t.tokens ≠ [] := by
  cases t with
  | number x => simp [tokens]
  | paren t => simp [tokens]
  | operation l o r => simp [tokens]

/-- Only an operator can come after a number in front of a term. -/
theorem eq_number_or_of_tokens_eq_cons {t : Term} {x : Float} {rest : List Token}
    (ht : t.tokens = .number x :: rest) :
    t.first = number x ∧ (t = number x ∨ ∃ o rest', rest = .operator o :: rest') := by
  induction t generalizing rest with
  | number y =>
    cases ht
    exact ⟨rfl, .inl rfl⟩
  | paren t _ => cases ht
  | operation l o r ihl _ =>
    rw [tokens] at ht
    cases hl : l.tokens with
    | nil => exact absurd hl l.tokens_ne_nil
    | cons u rest' =>
      rw [hl] at ht
      obtain ⟨rfl, rfl⟩ := List.cons.inj ht
      obtain ⟨hfirst, rfl | ⟨p, rest'', rfl⟩⟩ := ihl hl
      · cases hl
        exact ⟨rfl, .inr ⟨o, r.tokens, rfl⟩⟩
      · exact ⟨hfirst, .inr ⟨p, _, rfl⟩⟩

theorem last_of_tokens_eq_concat {t : Term} {x : Float} {front : List Token}
    (ht : t.tokens = front ++ [.number x]) : t.last = number x := by
  induction t generalizing front with
  | number y =>
    have hconcat : [] ++ [.number y] = front ++ [.number x] := ht
    obtain ⟨-, he⟩ := List.append_inj' hconcat rfl
    cases he
    rfl
  | paren t _ =>
    have hconcat : .openParen :: t.tokens ++ [.closeParen] = front ++ [.number x] := ht
    obtain ⟨-, he⟩ := List.append_inj' hconcat rfl
    cases he
  | operation l o r _ ihr =>
    rcases List.eq_nil_or_concat r.tokens with hr | ⟨front', u, hr⟩
    · exact absurd hr r.tokens_ne_nil
    · have hr' : r.tokens = front' ++ [u] := by rw [hr, List.concat_eq_append]
      rw [tokens, hr', ← List.cons_append, ← List.append_assoc] at ht
      obtain ⟨-, he⟩ := List.append_inj' ht rfl
      cases he
      exact ihr hr'

theorem exists_tokens_eq_first {t : Term} {x : Float} (h : t.first = number x) :
    ∃ rest, t.tokens = .number x :: rest := by
  induction t with
  | number y => cases h; exact ⟨[], rfl⟩
  | paren t _ => cases h
  | operation l o r ihl _ =>
    obtain ⟨rest, hl⟩ := ihl h
    exact ⟨rest ++ .operator o :: r.tokens, by rw [tokens, hl, List.cons_append]⟩

theorem exists_tokens_eq_last {t : Term} {x : Float} (h : t.last = number x) :
    ∃ front, t.tokens = front ++ [.number x] := by
  induction t with
  | number y => cases h; exact ⟨[], rfl⟩
  | paren t _ => cases h
  | operation l o r _ ihr =>
    obtain ⟨front, hr⟩ := ihr h
    exact ⟨l.tokens ++ .operator o :: front, by rw [tokens, hr, List.append_assoc, List.cons_append]⟩

/-- No number stands in front of a parenthesis. -/
theorem tokens_ne_number_openParen (t : Term) (before after : List Token) (x : Float) :
    t.tokens ≠ before ++ .number x :: .openParen :: after := by
  intro ht
  induction t generalizing before after with
  | number y => cases before <;> simp [tokens] at ht
  | paren t ih =>
    cases before with
    | nil => cases ht
    | cons u before =>
      obtain ⟨-, hrest⟩ := List.cons.inj ht
      rcases append_cons_split (by simp) hrest with ⟨middle, ht', hafter⟩ | ⟨middle, -, hnil⟩
      · cases middle with
        | nil => cases hafter
        | cons u middle =>
          obtain ⟨rfl, -⟩ := List.cons.inj hafter
          exact ih _ _ ht'
      · cases middle <;> cases hnil
  | operation l o r ihl ihr =>
    rcases append_cons_split (by simp) ht with ⟨middle, hl, hafter⟩ | ⟨middle, -, hr⟩
    · cases middle with
      | nil => cases hafter
      | cons u middle =>
        obtain ⟨rfl, -⟩ := List.cons.inj hafter
        exact ihl _ _ hl
    · exact ihr _ _ hr

/-- The windows that the text of a term can hold. -/
theorem exists_window {t : Term} {before window after : List Token} {replacement : Replacement}
    (ht : t.tokens = before ++ (window ++ after)) (h : Contracts window replacement) :
    ∃ k w, Window k w ∧ w.tokens = window ∧ replacement = .tokens [.number w.value] := by
  have hmem : ∀ u ∈ window, u ∈ t.tokens := by
    intro u hu
    simp [ht, hu]
  cases h with
  | unwrap x => exact ⟨0, _, .unwrap x, rfl, rfl⟩
  | operate x o y => exact ⟨o.tier, _, .operate x o y, rfl, rfl⟩
  | multiply x y => exact absurd ht (t.tokens_ne_number_openParen _ _ _)
  | wrapArgument f _ | wrapNothing f | call f _ | substitute f =>
    have hname := mem_tokens (hmem (.name f) (by simp))
    simp at hname
  | pair _ _ | append _ _ | concatenate _ _ =>
    have hcomma := mem_tokens (hmem .comma (by simp))
    simp at hcomma

/-! ## Waiting for a tier -/

theorem isInfix_last_tokens (t : Term) : t.last.tokens <:+: t.tokens := by
  induction t with
  | number x => exact List.infix_rfl
  | paren t _ => exact List.infix_rfl
  | operation l o r _ ihr => exact ihr.trans ⟨l.tokens ++ [.operator o], [], by simp [tokens]⟩

theorem isInfix_first_tokens (t : Term) : t.first.tokens <:+: t.tokens := by
  induction t with
  | number x => exact List.infix_rfl
  | paren t _ => exact List.infix_rfl
  | operation l o r ihl _ => exact ihl.trans ⟨[], .operator o :: r.tokens, by simp [tokens]⟩

theorem exists_number_of_rank_eq_zero {t : Term} (h : Unwrapped t.tokens) (ht : t.rank = 0) :
    ∃ x, t = number x := by
  induction t with
  | number x => exact ⟨x, rfl⟩
  | paren t ih =>
    obtain ⟨x, rfl⟩ := ih (h.of_isInfix ⟨[.openParen], [.closeParen], rfl⟩) ht
    exact absurd List.infix_rfl (h x)
  | operation l o r _ _ =>
    have ho := o.tier_pos
    rw [rank] at ht
    omega

theorem isInfix_left (l : Term) (o : Operator) (r : Term) :
    l.tokens <:+: (operation l o r).tokens := ⟨[], .operator o :: r.tokens, by simp [tokens]⟩

theorem isInfix_right (l : Term) (o : Operator) (r : Term) :
    r.tokens <:+: (operation l o r).tokens := ⟨l.tokens ++ [.operator o], [], by simp [tokens]⟩

theorem Quiet.last {k : Nat} {t : Term} (h : t.Quiet k) : t.last.Quiet k := by
  induction t with
  | number x => exact h
  | paren t _ => exact h
  | operation l o r _ ihr => exact ihr h.2.1

theorem Quiet.first {k : Nat} {t : Term} (h : t.Quiet k) : t.first.Quiet k := by
  induction t with
  | number x => exact h
  | paren t _ => exact h
  | operation l o r ihl _ => exact ihl h.1

/-- If all operators between numbers wait, then so does everything. -/
theorem quiet_of_waits {k : Nat} {t : Term} (hun : Unwrapped t.tokens) (h : Waits k t.tokens) :
    t.Quiet k := by
  induction t with
  | number x => trivial
  | paren t ih =>
    have hinner : t.tokens <:+: (paren t).tokens := ⟨[.openParen], [.closeParen], rfl⟩
    exact ih (hun.of_isInfix hinner) (h.of_isInfix hinner)
  | operation l o r ihl ihr =>
    have hl := ihl (hun.of_isInfix (isInfix_left l o r)) (h.of_isInfix (isInfix_left l o r))
    have hr := ihr (hun.of_isInfix (isInfix_right l o r)) (h.of_isInfix (isInfix_right l o r))
    refine ⟨hl, hr, ?_⟩
    by_cases hdue : l.last.rank < k ∧ r.first.rank < k
    · obtain ⟨x, hx⟩ := exists_number_of_rank_eq_zero
        (hun.of_isInfix (l.isInfix_last_tokens.trans (isInfix_left l o r)))
        (hl.last.rank_eq_zero hdue.1)
      obtain ⟨y, hy⟩ := exists_number_of_rank_eq_zero
        (hun.of_isInfix (r.isInfix_first_tokens.trans (isInfix_right l o r)))
        (hr.first.rank_eq_zero hdue.2)
      obtain ⟨front, hfront⟩ := exists_tokens_eq_last hx
      obtain ⟨rest, hrest⟩ := exists_tokens_eq_first hy
      have ho := h x o y ⟨front, rest, by simp [tokens, hfront, hrest]⟩
      exact Nat.le_trans ho (Nat.le_max_left _ _)
    · rw [due]
      omega

/-! ## Contractions in turn -/

theorem Replaces.contraction_zero {a t t' : Term} {j : Nat} {z : Float}
    (h : Replaces a (number z) j t t') (ha : Window 0 a) : Contraction 0 t t' := by
  induction h with
  | whole => exact .window ha z
  | paren _ ih => exact .paren ih
  | left _ o r ih => exact .left ih (r.quiet_one.mono (Nat.zero_le _)) (Nat.zero_le _)
  | right _ l o _ ih =>
    exact .right ih l.quiet_one fun _ => Nat.lt_of_lt_of_le o.tier_pos (Nat.le_max_left _ _)

theorem Replaces.contraction {a t t' : Term} {j k : Nat} {z : Float}
    (h : Replaces a (number z) j t t') (ha : Window k a) (hun : Unwrapped t.tokens)
    (hwaits : Waits k t.tokens) (hfront : Waits (k + 1) (t.tokens.take (j + 1))) :
    Contraction k t t' := by
  induction h with
  | whole => exact .window ha z
  | @paren j t t' _ ih =>
    have hinner : t.tokens <:+: (Term.paren t).tokens := ⟨[.openParen], [.closeParen], rfl⟩
    refine .paren (ih (hun.of_isInfix hinner) (hwaits.of_isInfix hinner) (hfront.of_isInfix ?_))
    refine ⟨[.openParen], [.closeParen].take (j + 1 - t.tokens.length), ?_⟩
    rw [tokens, List.take_succ_cons, List.take_append]
    rfl
  | @left j l l' _ o r ih =>
    obtain ⟨-, hr, hdue⟩ := quiet_of_waits hun hwaits
    refine .left (ih (hun.of_isInfix (isInfix_left l o r)) (hwaits.of_isInfix (isInfix_left l o r))
      (hfront.of_isInfix ⟨[], (.operator o :: r.tokens).take (j + 1 - l.tokens.length), ?_⟩)) hr hdue
    rw [tokens, List.take_append]
    rfl
  | @right j r r' _ l o i hi ih =>
    have htake : (operation l o r).tokens.take (i + 1)
        = l.tokens ++ .operator o :: r.tokens.take (j + 1) := by
      rw [hi, tokens, Nat.add_assoc, List.take_length_add_append, List.take_succ_cons]
    rw [htake] at hfront
    have hl : l.Quiet (k + 1) := quiet_of_waits (hun.of_isInfix (isInfix_left l o r))
      (hfront.of_isInfix ⟨[], .operator o :: r.tokens.take (j + 1), by simp⟩)
    refine .right (ih (hun.of_isInfix (isInfix_right l o r)) (hwaits.of_isInfix (isInfix_right l o r))
      (hfront.of_isInfix ⟨l.tokens ++ [.operator o], [], by simp⟩)) hl ?_
    intro hzero
    by_cases hlast : l.last.rank < k + 1
    · obtain ⟨x, hx⟩ := exists_number_of_rank_eq_zero
        (hun.of_isInfix (l.isInfix_last_tokens.trans (isInfix_left l o r)))
        (hl.last.rank_eq_zero hlast)
      obtain ⟨y, hy⟩ := exists_number_of_rank_eq_zero
        (hun.of_isInfix (r.isInfix_first_tokens.trans (isInfix_right l o r))) hzero
      obtain ⟨front, hfront'⟩ := exists_tokens_eq_last hx
      obtain ⟨rest, hrest⟩ := exists_tokens_eq_first hy
      have ho := hfront x o y ⟨front, rest.take j, by simp [hfront', hrest]⟩
      exact Nat.lt_of_lt_of_le ho (Nat.le_max_left _ _)
    · omega

/-! ## What is rewritten has its turn -/

section

variable {t t' : Term} {r : Redex}

/-- **A part of a term is rewritten in its turn.** -/
theorem contraction_of_find? {k : Nat} {w : Term} {z : Float}
    (hfind : Redex.find? t.tokens = some r) (hw : Window k w) (hwindow : w.tokens = r.window)
    (h : Replaces w (number z) r.before.length t t') : Contraction k t t' := by
  cases hw with
  | unwrap x => exact h.contraction_zero (.unwrap x)
  | operate x o y =>
    have hun := Redex.unwrapped_of_find? hfind hwindow.symm
    have hwaits := Redex.waits_of_find? hfind hwindow.symm
    exact h.contraction (.operate x o y) hun hwaits (Redex.waits_front_of_find? hfind hwindow.symm)

theorem Replaces.tokens_eq_of {a b : Term} {before after : List Token}
    (h : Replaces a b before.length t t') (ht : t.tokens = before ++ (a.tokens ++ after)) :
    t'.tokens = before ++ (b.tokens ++ after) := by
  obtain ⟨before', after', hlength, ht', hb⟩ := h.tokens_eq
  obtain ⟨rfl, hrest⟩ := List.append_inj (ht.symm.trans ht') hlength.symm
  rw [hb, List.append_cancel_left hrest]

theorem tokens_replaceAt {before after : List Token} {z : Float}
    (ht : t.tokens = before ++ .number z :: after) (new : Term) :
    (t.replaceAt before.length new).tokens = before ++ (new.tokens ++ after) :=
  (replaces_replaceAt ht new).tokens_eq_of ht

/-- An operator between two numbers, and the operation of a term that it belongs to. -/
theorem exists_operation_of_tokens_eq {before after : List Token} {x y : Float} {o : Operator}
    (ht : t.tokens = before ++ (.number x :: .operator o :: .number y :: after)) :
    ∃ l p front back middle rest, before = front ++ back ∧ after = middle ++ rest ∧
      l.tokens = back ++ [.number x] ∧ p.tokens = .number y :: middle ∧
        ∀ new, ∃ t', Replaces (operation l o p) new front.length t t' := by
  obtain ⟨l, p, front, rest, hl, hp, hreplaces⟩ :=
    exists_replaces_operation (t := t) (show t.tokens = (before ++ [.number x])
      ++ .operator o :: (.number y :: after) by simp [ht])
  rcases List.eq_nil_or_concat l.tokens with hnil | ⟨back, u, hback⟩
  · exact absurd hnil l.tokens_ne_nil
  · rw [List.concat_eq_append] at hback
    rw [hback, ← List.append_assoc] at hl
    obtain ⟨hbefore, he⟩ := List.append_inj' hl rfl
    cases he
    cases hmiddle : p.tokens with
    | nil => exact absurd hmiddle p.tokens_ne_nil
    | cons v middle =>
      rw [hmiddle] at hp
      obtain ⟨rfl, hafter⟩ := List.cons.inj hp
      exact ⟨l, p, front, back, middle, rest, hbefore, hafter, hback, hmiddle, hreplaces⟩

/-- What is left is the text of a term, whether or not the operation was a part of the one before. -/
theorem exists_tokens_eq {before after : List Token} {x y : Float} {o : Operator}
    (ht : t.tokens = before ++ (.number x :: .operator o :: .number y :: after)) (z : Float) :
    ∃ t' : Term, t'.tokens = before ++ .number z :: after := by
  obtain ⟨l, p, front, back, middle, rest, rfl, rfl, hl, hp, hreplaces⟩ :=
    exists_operation_of_tokens_eq ht
  have hp' : (p.replaceAt 0 (number z)).tokens = .number z :: middle :=
    @tokens_replaceAt p [] middle y hp (number z)
  have hl' := tokens_replaceAt hl (p.replaceAt 0 (number z))
  obtain ⟨t', h⟩ := hreplaces (l.replaceAt back.length (p.replaceAt 0 (number z)))
  have ht' : t.tokens = front ++ ((operation l o p).tokens ++ rest) := by
    simp [ht, tokens, hl, hp]
  refine ⟨t', ?_⟩
  rw [h.tokens_eq_of ht', hl', hp']
  simp

/-- **An operation that is no part of a term is performed only if the term is not timely.** -/
theorem not_timely_of_find? {x y z : Float} {o : Operator}
    (hfind : Redex.find? t.tokens = some r)
    (hwindow : r.window = [.number x, .operator o, .number y]) (hconventional : t.Conventional)
    (hpart : ∀ t', ¬ Replaces (operation (number x) o (number y)) (number z) r.before.length t t') :
    ¬ t.Timely := by
  intro htimely
  have hun := Redex.unwrapped_of_find? hfind hwindow
  have hwaits := Redex.waits_of_find? hfind hwindow
  have hfront := Redex.waits_front_of_find? hfind hwindow
  have ht : t.tokens = r.before ++ (.number x :: .operator o :: .number y :: r.after) := by
    rw [(Redex.find?_eq_some hfind).2.1, Redex.program, hwindow]
    rfl
  obtain ⟨l, p, front, back, middle, rest, hbefore, hafter, hl, hp, hreplaces⟩ :=
    exists_operation_of_tokens_eq ht
  obtain ⟨t', h⟩ := hreplaces (number z)
  obtain ⟨-, -, hlo, hpo⟩ := h.conventional_part hconventional
  obtain ⟨-, -, hdone, hdone'⟩ := h.timely_part htimely
  have hlast := last_of_tokens_eq_concat hl
  obtain ⟨hfirst, -⟩ := eq_number_or_of_tokens_eq_cons hp
  have htake : t.tokens.take (r.before.length + 1) = front ++ l.tokens := by
    rw [ht, List.take_length_add_append, hl, hbefore]
    simp
  have hlquiet : l.Quiet (o.tier + 1) := by
    have hinner : l.tokens <:+: t.tokens.take (r.before.length + 1) := ⟨front, [], by simp [htake]⟩
    exact quiet_of_waits (hun.of_isInfix (hinner.trans (List.take_prefix _ _).isInfix))
      (hfront.of_isInfix hinner)
  have hpquiet : p.Quiet o.tier := by
    have hinner : p.tokens <:+: t.tokens :=
      ⟨r.before ++ [.number x, .operator o], rest, by simp [ht, hp, hafter]⟩
    exact quiet_of_waits (hun.of_isInfix hinner) (hwaits.of_isInfix hinner)
  rw [hfirst, rank, Nat.max_zero] at hdone
  rw [hlast, rank, Nat.max_zero] at hdone'
  by_cases hx : l = number x
  · by_cases hy : p = number y
    · subst hx hy
      have hback : back = [] := by
        have hlength := congrArg List.length hl
        simpa [tokens] using hlength
      rw [hback, List.append_nil] at hbefore
      exact hpart t' (hbefore ▸ h)
    · exact not_doneBefore hpquiet hpo (h.conventional_part hconventional).2.1 hfirst hy hdone'
  · exact not_doneBy hlquiet hlo (h.conventional_part hconventional).1 hlast hx hdone

end

end Term

end Formula
