import Formula.Proofs.Grammar.Derivation
import Formula.Proofs.Reading

/-! # Scanning a formula

A machine that reads a formula from left to right with a stack of the parentheses that are open. It
knows the bindings, so it can tell where a name stands for a text that nothing can be done with. What
it has read at any time is the beginning of a derivation (`Viable`), and so what it accepts is derived
from the grammar (`derives_of_accepts`) and orderly (`orderly_of_accepts`). -/

namespace Formula

/-- What has opened a parenthesis. -/
inductive Bracket where
  | group
  | call
  deriving DecidableEq

/-- What has to come next. -/
inductive Place where
  /-- The first argument of a call, or its end. -/
  | first
  /-- A formula or an argument. -/
  | any
  /-- An operand. -/
  | operand
  deriving DecidableEq

inductive Scan where
  | expecting (p : Place) (brackets : List Bracket)
  /-- A name has been read, of a variable or of a function. -/
  | named (x : String) (p : Place) (brackets : List Bracket)
  /-- Something has been read that can be an operand, or only a whole argument or formula. -/
  | complete (operand : Bool) (brackets : List Bracket)

namespace Scan

section

variable (bindings : Bindings)

/-- What a variable is read as. -/
inductive Resolves (x : String) (p : Place) : Bool → Prop
  | number {y : Float} (h : bindings.get? x = some (.number y)) : Resolves x p true
  | scalar {v : Value} (h : bindings.get? x = some v) (hv : v.isScalar = true)
      (hp : p ≠ .operand) : Resolves x p false

/-- Reads one token. -/
inductive Next : Scan → Token → Scan → Prop
  | number (x : Float) {p : Place} {bs : List Bracket} :
    Next (expecting p bs) (.number x) (complete true bs)
  | literal {t : Token} {v : Value} (h : t.scalar? = some v) {p : Place} (hp : p ≠ .operand)
      {bs : List Bracket} : Next (expecting p bs) t (complete false bs)
  | args (vs : List Value) {p : Place} (hp : p ≠ .operand) {bs : List Bracket} :
    Next (expecting p (.call :: bs)) (.args vs) (complete false (.call :: bs))
  | name (x : String) {p : Place} {bs : List Bracket} :
    Next (expecting p bs) (.name x) (named x p bs)
  | openGroup {p : Place} {bs : List Bracket} :
    Next (expecting p bs) .openParen (expecting .operand (.group :: bs))
  | openCall {f : String} {p : Place} {bs : List Bracket} :
    Next (named f p bs) .openParen (expecting .first (.call :: bs))
  | openProduct {bs : List Bracket} :
    Next (complete true bs) .openParen (expecting .operand (.group :: bs))
  | lookup {x : String} {p : Place} {operand : Bool} (hx : Resolves bindings x p operand)
      {t : Token} (ht : t ≠ .openParen) {bs : List Bracket} {next : Scan}
      (h : Next (complete operand bs) t next) : Next (named x p bs) t next
  | operator (o : Operator) {bs : List Bracket} :
    Next (complete true bs) (.operator o) (expecting .operand bs)
  | comma {operand : Bool} {bs : List Bracket} :
    Next (complete operand (.call :: bs)) .comma (expecting .any (.call :: bs))
  | closeGroup {bs : List Bracket} :
    Next (complete true (.group :: bs)) .closeParen (complete true bs)
  | closeNothing {bs : List Bracket} :
    Next (expecting .first (.call :: bs)) .closeParen (complete true bs)
  | closeCall {operand : Bool} {bs : List Bracket} :
    Next (complete operand (.call :: bs)) .closeParen (complete true bs)

/-- A whole formula has been read. -/
inductive Done : Scan → Prop
  | complete (operand : Bool) : Done (complete operand [])
  | named {x : String} {p : Place} {operand : Bool} (hx : Resolves bindings x p operand) :
    Done (named x p [])

end

variable {bindings : Bindings} {a b c : Scan} {ts pre : List Token}

/-! ## What has been read begins a derivation -/

/-- The left operands of an operator, with the operator, if there are any. -/
def Lead (ts : List Token) : Prop := ts = [] ∨ ∃ us o, Derives .sum us ∧ ts = us ++ [.operator o]

theorem Lead.nil : Lead [] := .inl rfl

theorem Lead.sum {us : List Token} (h : Lead ts) (h' : Derives .factor us) :
    Derives .sum (ts ++ us) := by
  rcases h with rfl | ⟨vs, o, hvs, rfl⟩
  · exact .factor h'
  · rw [List.append_assoc]
    exact .operation hvs o h'

/-- The tokens up to the last parenthesis that is open, or to the last comma behind it. -/
inductive Opened : List Bracket → List Token → Prop
  | start : Opened [] []
  | group {bs : List Bracket} {pre s : List Token} (h : Opened bs pre) (hs : Lead s) :
    Opened (.group :: bs) (pre ++ (s ++ [.openParen]))
  | product {bs : List Bracket} {pre s m : List Token} (h : Opened bs pre) (hs : Lead s)
      (hm : Derives .factor m) : Opened (.group :: bs) (pre ++ (s ++ (m ++ [.openParen])))
  | call {bs : List Bracket} {pre s : List Token} (h : Opened bs pre) (hs : Lead s) (f : String) :
    Opened (.call :: bs) (pre ++ (s ++ [.name f, .openParen]))
  | argument {bs : List Bracket} {pre s us : List Token} (h : Opened bs pre) (hs : Lead s)
      (f : String) (hus : Derives .arguments us) :
    Opened (.call :: bs) (pre ++ (s ++ (.name f :: .openParen :: (us ++ [.comma]))))

/-- The tokens that have been read when a reading is reached. -/
inductive Viable : Scan → List Token → Prop
  | any {bs : List Bracket} {pre : List Token} (h : Opened bs pre) : Viable (expecting .any bs) pre
  | first {bs : List Bracket} {pre s : List Token} (h : Opened bs pre) (hs : Lead s) (f : String) :
    Viable (expecting .first (.call :: bs)) (pre ++ (s ++ [.name f, .openParen]))
  | operand {bs : List Bracket} {pre s : List Token} (h : Opened bs pre) (hs : Lead s) :
    Viable (expecting .operand bs) (pre ++ s)
  | named {bs : List Bracket} {pre s : List Token} (h : Opened bs pre) (hs : Lead s) (x : String)
      {p : Place} (hp : p ≠ .operand → s = []) : Viable (named x p bs) (pre ++ (s ++ [.name x]))
  | sum {bs : List Bracket} {pre s m : List Token} (h : Opened bs pre) (hs : Lead s)
      (hm : Derives .factor m) : Viable (complete true bs) (pre ++ (s ++ m))
  | formula {bs : List Bracket} {pre us : List Token} (h : Opened bs pre)
      (hus : Derives .formula us) : Viable (complete false bs) (pre ++ us)
  | item {bs : List Bracket} {pre us : List Token} (h : Opened (.call :: bs) pre)
      (hus : Derives .item us) : Viable (complete false (.call :: bs)) (pre ++ us)

theorem Viable.of_expecting {p : Place} {bs : List Bracket} (h : Viable (expecting p bs) ts) :
    ∃ pre s, ts = pre ++ s ∧ Opened bs pre ∧ Lead s ∧ (p ≠ .operand → s = []) := by
  cases h with
  | any h => exact ⟨ts, [], by simp, h, .nil, fun _ => rfl⟩
  | first h hs f => exact ⟨_, [], by simp, .call h hs f, .nil, fun _ => rfl⟩
  | operand h hs => exact ⟨_, _, rfl, h, hs, fun hp => absurd rfl hp⟩

theorem Viable.of_complete {operand : Bool} {bs : List Bracket}
    (h : Viable (complete operand bs) ts) :
    ∃ pre us, ts = pre ++ us ∧ Opened bs pre ∧ Derives .item us := by
  cases h with
  | sum h hs hm => exact ⟨_, _, rfl, h, .formula (.sum (hs.sum hm))⟩
  | formula h hus => exact ⟨_, _, rfl, h, .formula hus⟩
  | item h hus => exact ⟨_, _, rfl, h, hus⟩

/-- A variable is read as what it is bound to. -/
theorem Viable.lookup {x : String} {p : Place} {bs : List Bracket} {operand : Bool}
    (h : Viable (Scan.named x p bs) ts) (hx : Resolves bindings x p operand) :
    Viable (complete operand bs) ts := by
  cases h with
  | named h hs x hp =>
    cases hx with
    | number _ => exact .sum h hs (.name x)
    | scalar _ _ hoperand =>
      rw [hp hoperand]
      exact .formula h (.sum (.factor (.name x)))

/-- The arguments of a call that is open. -/
theorem Opened.exists_arguments {bs : List Bracket} {us : List Token}
    (h : Opened (.call :: bs) pre) (hus : Derives .item us) :
    ∃ pre' s f vs, pre ++ us = pre' ++ (s ++ (.name f :: .openParen :: vs)) ∧ Opened bs pre' ∧
      Lead s ∧ Derives .arguments vs := by
  cases h with
  | call h hs f => exact ⟨_, _, f, us, by simp, h, hs, .first hus⟩
  | argument h hs f hvs => exact ⟨_, _, f, _, by simp, h, hs, .next hvs hus⟩

theorem Viable.next {t : Token} (h : Viable a ts) (hstep : Next bindings a t b) :
    Viable b (ts ++ [t]) := by
  induction hstep with
  | number x =>
    obtain ⟨pre, s, rfl, hopened, hs, -⟩ := h.of_expecting
    rw [List.append_assoc]
    exact .sum hopened hs (.number x)
  | @literal t v ht p hp bs =>
    obtain ⟨pre, s, rfl, hopened, -, hnil⟩ := h.of_expecting
    rw [hnil hp, List.append_nil]
    refine .formula hopened ?_
    cases t with
    | number x => exact .sum (.factor (.number x))
    | text s => exact .text s
    | bool b => exact .bool b
    | name _ | operator _ | openParen | closeParen | comma | args _ => cases ht
  | args vs hp =>
    obtain ⟨pre, s, rfl, hopened, -, hnil⟩ := h.of_expecting
    rw [hnil hp, List.append_nil]
    exact .item hopened (.collected vs)
  | name x =>
    obtain ⟨pre, s, rfl, hopened, hs, hnil⟩ := h.of_expecting
    rw [List.append_assoc]
    exact .named hopened hs x hnil
  | openGroup =>
    obtain ⟨pre, s, rfl, hopened, hs, -⟩ := h.of_expecting
    have hviable := Viable.operand (Opened.group hopened hs) Lead.nil
    simpa using hviable
  | openCall =>
    cases h with
    | named hopened hs _ _ =>
      rw [List.append_assoc, List.append_assoc]
      exact .first hopened hs _
  | openProduct =>
    cases h with
    | sum hopened hs hm =>
      have hviable := Viable.operand (Opened.product hopened hs hm) Lead.nil
      simpa using hviable
  | lookup hx _ _ ih => exact ih (h.lookup hx)
  | operator o =>
    cases h with
    | sum hopened hs hm =>
      rw [List.append_assoc]
      exact .operand hopened (.inr ⟨_, o, hs.sum hm, rfl⟩)
  | comma =>
    obtain ⟨pre, us, rfl, hopened, hus⟩ := h.of_complete
    obtain ⟨pre', s, f, vs, he, hopened', hs, hvs⟩ := hopened.exists_arguments hus
    have hviable := Viable.any (Opened.argument hopened' hs f hvs)
    rw [he]
    simpa using hviable
  | closeGroup =>
    cases h with
    | sum hopened hs hm =>
      have hsum := hs.sum hm
      cases hopened with
      | group hopened' hs' =>
        have hviable := Viable.sum hopened' hs' (.group hsum)
        simpa using hviable
      | product hopened' hs' hm' =>
        have hviable := Viable.sum hopened' hs' (.product hm' hsum)
        simpa using hviable
  | closeNothing =>
    cases h with
    | first hopened hs f =>
      have hviable := Viable.sum hopened hs (.call (.callNothing f))
      simpa using hviable
  | closeCall =>
    obtain ⟨pre, us, rfl, hopened, hus⟩ := h.of_complete
    obtain ⟨pre', s, f, vs, he, hopened', hs, hvs⟩ := hopened.exists_arguments hus
    have hviable := Viable.sum hopened' hs (.call (.callArguments f hvs))
    rw [he]
    simpa using hviable

theorem Viable.reads (h : Viable a pre) (hreads : Reads (Next bindings) a ts b) :
    Viable b (pre ++ ts) := by
  induction hreads generalizing pre with
  | nil => rwa [List.append_nil]
  | cons hstep _ ih =>
    have hrest := ih (h.next hstep)
    rwa [List.append_assoc] at hrest

theorem viable_start : Viable (expecting .any []) [] := .any .start

/-- **What is accepted is a formula.** -/
theorem derives_of_accepts (h : Accepts (Next bindings) (Done bindings) (expecting .any []) ts) :
    Derives .formula ts := by
  obtain ⟨b, hreads, hdone⟩ := h
  have hviable : ∃ operand, Viable (complete operand []) ts := by
    have hend := viable_start.reads hreads
    cases hdone with
    | complete operand => exact ⟨operand, hend⟩
    | named hx => exact ⟨_, hend.lookup hx⟩
  obtain ⟨operand, hviable⟩ := hviable
  cases hviable with
  | sum hopened hs hm =>
    cases hopened
    exact .sum (hs.sum hm)
  | formula hopened hus =>
    cases hopened
    exact hus

/-! ## What has been read is orderly -/

theorem Next.of_named {t : Token} {x : String} {p : Place} {bs : List Bracket}
    (h : Next bindings a t (named x p bs)) : t = .name x := by
  generalize hb : named x p bs = b at h
  induction h with
  | name x => cases hb; rfl
  | lookup _ _ _ ih => exact ih hb
  | number | literal | args | openGroup | openCall | openProduct | operator | comma | closeGroup
    | closeNothing | closeCall => cases hb

theorem Next.of_complete_true {t : Token} {bs : List Bracket}
    (h : Next bindings a t (complete true bs)) : (∃ x, t = .number x) ∨ t = .closeParen := by
  generalize hb : complete true bs = b at h
  induction h with
  | number x => exact .inl ⟨x, rfl⟩
  | closeGroup | closeNothing | closeCall => exact .inr rfl
  | lookup _ _ _ ih => exact ih hb
  | literal | args | name | openGroup | openCall | openProduct | operator | comma => cases hb

/-- An operator needs a number, or a variable that is bound to one. -/
theorem Next.of_operator {o : Operator} (h : Next bindings a (.operator o) b) :
    (∃ bs, b = expecting .operand bs) ∧
      ((∃ bs, a = complete true bs) ∨
        ∃ x p bs y, a = named x p bs ∧ bindings.get? x = some (.number y)) := by
  cases h with
  | operator o => exact ⟨⟨_, rfl⟩, .inl ⟨_, rfl⟩⟩
  | literal h _ => cases h
  | lookup hx _ h =>
    cases h with
    | operator o =>
      cases hx with
      | number hx => exact ⟨⟨_, rfl⟩, .inr ⟨_, _, _, _, rfl, hx⟩⟩

theorem Next.ne_expecting {t : Token} (h : Next bindings a t b)
    (ht : t.isOperand = true ∨ t = .closeParen) (p : Place) (bs : List Bracket) :
    b ≠ expecting p bs := by
  induction h with
  | number | literal | args | name | closeGroup | closeNothing | closeCall => simp
  | lookup _ _ _ ih => exact ih ht
  | openGroup | openCall | openProduct | operator | comma => simp [Token.isOperand] at ht

theorem Next.of_isOperand {t : Token} (h : Next bindings a t b) (ht : t.isOperand = true) :
    ∃ p bs, a = expecting p bs := by
  cases h with
  | number | literal | args | name | openGroup | closeNothing => exact ⟨_, _, rfl⟩
  | openCall | openProduct | operator | comma | closeGroup | closeCall => cases ht
  | lookup _ _ h =>
    cases h with
    | openProduct | operator | comma | closeGroup | closeCall => cases ht

theorem endsOperand_of_reads {before : List Token} {o : Operator}
    (hreads : Reads (Next bindings) (expecting .any []) before a)
    (h : Next bindings a (.operator o) b) :
    ∃ front t, before = front ++ [t] ∧ bindings.EndsOperand t := by
  obtain ⟨-, ha⟩ := h.of_operator
  rcases hreads.last with ⟨-, rfl⟩ | ⟨front, t, a', rfl, -, hlast⟩
  · rcases ha with ⟨bs, he⟩ | ⟨x, p, bs, y, he, -⟩ <;> cases he
  · refine ⟨front, t, rfl, ?_⟩
    rcases ha with ⟨bs, rfl⟩ | ⟨x, p, bs, y, rfl, hx⟩
    · rcases hlast.of_complete_true with ⟨x, rfl⟩ | rfl <;> trivial
    · rw [hlast.of_named]
      exact ⟨y, hx⟩

theorem beginsOperand_of_accepts {bs : List Bracket}
    (h : Accepts (Next bindings) (Done bindings) (expecting .operand bs) ts) :
    bindings.BeginsOperand ts := by
  cases ts with
  | nil => cases h.done_of_nil
  | cons t rest =>
    obtain ⟨b, hstep, hrest⟩ := h.uncons
    cases hstep with
    | number x => trivial
    | openGroup => trivial
    | literal _ hp => exact absurd rfl hp
    | args _ hp => exact absurd rfl hp
    | name x =>
      cases rest with
      | nil =>
        cases hrest.done_of_nil with
        | named hx =>
          cases hx with
          | number hx => exact .inr ⟨_, hx⟩
          | scalar _ _ hp => exact absurd rfl hp
      | cons u rest =>
        obtain ⟨c, hstep', -⟩ := hrest.uncons
        cases hstep' with
        | openCall => exact .inl rfl
        | lookup hx _ _ =>
          cases hx with
          | number hx => exact .inr ⟨_, hx⟩
          | scalar _ _ hp => exact absurd rfl hp

theorem exists_call_of_comma (h : Viable a ts) (hstep : Next bindings a .comma b) :
    ∃ front f inner, ts = front ++ .name f :: .openParen :: inner ∧ Balanced inner := by
  have hcomplete : ∃ operand bs, Viable (complete operand (.call :: bs)) ts := by
    cases hstep with
    | comma => exact ⟨_, _, h⟩
    | literal h _ => cases h
    | lookup hx _ hstep =>
      cases hstep with
      | comma => exact ⟨_, _, h.lookup hx⟩
  obtain ⟨operand, bs, hcomplete⟩ := hcomplete
  obtain ⟨pre, us, rfl, hopened, hus⟩ := hcomplete.of_complete
  obtain ⟨pre', s, f, vs, he, -, -, hvs⟩ := hopened.exists_arguments hus
  exact ⟨pre' ++ s, f, vs, by rw [he, List.append_assoc], hvs.balanced⟩

theorem orderly_of_accepts
    (h : Accepts (Next bindings) (Done bindings) (expecting .any []) ts) :
    Orderly bindings ts where
  balanced := (derives_of_accepts h).balanced
  left := by
    rintro before o after rfl
    obtain ⟨a, hreads, hafter⟩ := h.split
    obtain ⟨b, hstep, -⟩ := hafter.uncons
    exact endsOperand_of_reads hreads hstep
  right := by
    rintro before o after rfl
    obtain ⟨a, -, hafter⟩ := h.split
    obtain ⟨b, hstep, hrest⟩ := hafter.uncons
    obtain ⟨⟨bs, rfl⟩, -⟩ := hstep.of_operator
    exact beginsOperand_of_accepts hrest
  apart := by
    rintro before t u after rfl ht
    obtain ⟨a, -, hafter⟩ := h.split
    obtain ⟨b, hstep, hrest⟩ := hafter.uncons
    obtain ⟨c, hstep', -⟩ := hrest.uncons
    by_cases hu : u.isOperand = true
    · obtain ⟨p, bs, rfl⟩ := hstep'.of_isOperand hu
      exact absurd rfl (hstep.ne_expecting ht p bs)
    · simpa using hu
  comma := by
    rintro before after rfl
    obtain ⟨a, hreads, hafter⟩ := h.split
    obtain ⟨b, hstep, -⟩ := hafter.uncons
    exact exists_call_of_comma (viable_start.reads hreads) hstep

end Scan

end Formula
