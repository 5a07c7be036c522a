import Formula.Proofs.Arguments.Shape
import Formula.Proofs.Yield

/-! # A call while its arguments are collected

The arguments of a call are pieces: some have a value already, others are variables or calls of
literals. A window never starts with a comma or a closing parenthesis, so it starts in one of these
places: at the call or at a call among its arguments, or at a piece of one of the two (`Spot`). -/

namespace Formula

/-- A literal token and its value. -/
structure Literal where
  token : Token
  value : Value
  scalar?_eq : token.scalar? = some value

/-- A literal, or arguments that have been collected. -/
inductive Part where
  | literal (l : Literal)
  | block (vs : List Value)

namespace Part

def token : Part → Token
  | literal l => l.token
  | block vs => .args vs

def values : Part → List Value
  | literal l => [l.value]
  | block vs => vs

def shape : Part → Shape
  | literal _ => .literal
  | block _ => .block

theorem values?_token (p : Part) : p.token.values? = some p.values := by
  cases p with
  | literal l => exact Token.values?_of_scalar? l.scalar?_eq
  | block vs => rfl

theorem token_ne {t : Token} (h : t.values? = none) (p : Part) : t ≠ p.token := by
  rintro rfl
  rw [p.values?_token] at h
  cases h

theorem eq_literal_of_scalar? {p : Part} {v : Value} (h : p.token.scalar? = some v) :
    ∃ l, p = literal l ∧ l.value = v := by
  cases p with
  | literal l => exact ⟨l, rfl, Option.some.inj (l.scalar?_eq.symm.trans h)⟩
  | block vs => cases h

theorem eq_block_of_args {p : Part} {vs : List Value} (h : .args vs = p.token) : p = block vs := by
  cases p with
  | literal l =>
    have hscalar := l.scalar?_eq
    rw [← show .args vs = l.token from h] at hscalar
    cases hscalar
  | block ws => cases h; rfl

end Part

/-- The tokens of a call whose arguments have the given tokens. -/
def callTokens (f : String) (cells : List (List Token)) : List Token :=
  .name f :: .openParen :: ([.comma].intercalate cells ++ [.closeParen])

/-- An argument of a call. The arguments of a call among them have values. -/
inductive Piece where
  | part (p : Part)
  | name (x : String)
  | call (g : String) (parts : List Part)

namespace Piece

def tokens : Piece → List Token
  | part p => [p.token]
  | name x => [.name x]
  | call g parts => callTokens g (parts.map fun p => [p.token])

def shape : Piece → Shape
  | part p => p.shape
  | name _ => .name
  | call _ _ => .call

theorem eq_literal_of_shape {p : Piece} (h : p.shape = .literal) :
    ∃ l, p = part (.literal l) := by
  cases p with
  | part p =>
    cases p with
    | literal l => exact ⟨l, rfl⟩
    | block vs => cases h
  | name x => cases h
  | call g parts => cases h

theorem exists_append_of_call_mem {ps : List Piece} (h : .call ∈ ps.map shape) :
    ∃ front g parts back, ps = front ++ call g parts :: back := by
  obtain ⟨p, hp, hshape⟩ := List.mem_map.mp h
  obtain ⟨front, back, rfl⟩ := List.append_of_mem hp
  cases p with
  | part p => cases p <;> cases hshape
  | name x => cases hshape
  | call g parts => exact ⟨front, g, parts, back, rfl⟩

theorem exists_append_of_name_mem {ps : List Piece} (h : .name ∈ ps.map shape) :
    ∃ front x back, ps = front ++ name x :: back := by
  obtain ⟨p, hp, hshape⟩ := List.mem_map.mp h
  obtain ⟨front, back, rfl⟩ := List.append_of_mem hp
  cases p with
  | part p => cases p <;> cases hshape
  | name x => exact ⟨front, x, back, rfl⟩
  | call g parts => cases hshape

/-- The whole call. -/
def program (f : String) (ps : List Piece) : List Token := callTokens f (ps.map tokens)

theorem tokens_call (g : String) (parts : List Part) :
    (call g parts).tokens = program g (parts.map part) := by
  simp [program, tokens, Function.comp_def]

/-! ## In front of a piece and behind it -/

/-- What comes behind the parenthesis that opens the arguments. -/
def inside (ps : List Piece) : List Token := [.comma].intercalate (ps.map tokens) ++ [.closeParen]

/-- What comes in front of a piece. -/
def lead (f : String) (front : List Piece) : List Token :=
  .name f :: .openParen :: front.flatMap fun p => p.tokens ++ [.comma]

/-- What comes behind a piece. -/
def trail (back : List Piece) : List Token :=
  (back.flatMap fun p => .comma :: p.tokens) ++ [.closeParen]

theorem program_eq_cons (f : String) (ps : List Piece) :
    program f ps = .name f :: .openParen :: inside ps := rfl

@[simp] theorem inside_nil : inside [] = [.closeParen] := rfl

@[simp] theorem inside_cons (p : Piece) (ps : List Piece) :
    inside (p :: ps) = p.tokens ++ trail ps := by
  induction ps generalizing p with
  | nil => simp [inside, trail]
  | cons q ps ih =>
    have hq := ih q
    simp only [inside, List.map_cons] at hq ⊢
    rw [List.intercalate_cons_cons, List.append_assoc, hq]
    simp [trail]

@[simp] theorem trail_nil : trail [] = [.closeParen] := rfl

@[simp] theorem trail_cons (p : Piece) (ps : List Piece) :
    trail (p :: ps) = .comma :: (p.tokens ++ trail ps) := by
  simp [trail]

theorem program_append (f : String) (front : List Piece) (p : Piece) (back : List Piece) :
    program f (front ++ p :: back) = lead f front ++ (p.tokens ++ trail back) := by
  rw [program_eq_cons, lead]
  congr 2
  induction front with
  | nil => simp
  | cons q front ih =>
    cases front with
    | nil => simp
    | cons q' front => simpa using ih

theorem length_lead_lt (f : String) (front : List Piece) (p : Piece) (back : List Piece) :
    (lead f front).length + p.tokens.length < (lead f (front ++ p :: back)).length := by
  simp [lead]
  omega

/-! ## The places where a window can start -/

/-- A token inside a call that is no comma and does not close it belongs to a piece. -/
theorem inside_eq_append_cons {ps : List Piece} {before rest : List Token} {t : Token}
    (h : inside ps = before ++ t :: rest) (hcomma : t ≠ .comma) (hclose : t ≠ .closeParen) :
    ∃ front p back cell cell', ps = front ++ p :: back ∧ p.tokens = cell ++ t :: cell' ∧
      before = (front.flatMap fun p => p.tokens ++ [.comma]) ++ cell ∧
        rest = cell' ++ trail back := by
  induction ps generalizing before with
  | nil => cases before <;> simp_all
  | cons p ps ih =>
    rw [inside_cons, List.append_eq_append_iff] at h
    rcases h with ⟨later, hbefore, htrail⟩ | ⟨cell', hp, hrest⟩
    · -- behind the first piece
      cases ps with
      | nil => cases later <;> simp_all
      | cons q ps =>
        cases later with
        | nil => simp_all
        | cons u later =>
          rw [trail_cons, List.cons_append, List.cons.injEq, ← inside_cons] at htrail
          obtain ⟨front, p', back, cell, cell', hps, hp', hlater, hrest⟩ := ih htrail.2
          refine ⟨p :: front, p', back, cell, cell', by rw [hps]; rfl, hp', ?_, hrest⟩
          rw [hbefore, hlater, ← htrail.1]
          simp
    · cases cell' with
      | nil => cases ps <;> simp_all
      | cons u cell' =>
        rw [List.cons_append, List.cons.injEq] at hrest
        obtain ⟨rfl, rfl⟩ := hrest
        exact ⟨[], p, ps, before, cell', rfl, hp, rfl, rfl⟩

/-- A call in the tokens of a call: this one, or one of its arguments. -/
inductive Site (f : String) (ps : List Piece) : List Token → String → List Piece → List Token → Prop
  | outer : Site f ps [] f ps []
  | inner (front : List Piece) (g : String) (parts : List Part) (back : List Piece)
    (h : ps = front ++ call g parts :: back) :
    Site f ps (lead f front) g (parts.map part) (trail back)

/-- The callee, the opening parenthesis, or one of its arguments that is no call. -/
inductive Spot (f : String) (ps : List Piece) : List Token → Token → List Token → Prop
  | callee : Spot f ps [] (.name f) (.openParen :: inside ps)
  | opening : Spot f ps [.name f] .openParen (inside ps)
  | part (front : List Piece) (p : Part) (back : List Piece) (h : ps = front ++ .part p :: back)
    {t : Token} (ht : t = p.token) : Spot f ps (lead f front) t (trail back)
  | name (front : List Piece) (x : String) (back : List Piece)
    (h : ps = front ++ .name x :: back) : Spot f ps (lead f front) (.name x) (trail back)

theorem spot_or_call {f : String} {ps : List Piece} {before rest : List Token} {t : Token}
    (h : program f ps = before ++ t :: rest) (hcomma : t ≠ .comma) (hclose : t ≠ .closeParen) :
    Spot f ps before t rest ∨
      ∃ front g parts back cell cell', ps = front ++ call g parts :: back ∧
        (call g parts).tokens = cell ++ t :: cell' ∧ before = lead f front ++ cell ∧
          rest = cell' ++ trail back := by
  rw [program_eq_cons] at h
  match before, h with
  | [], h =>
    cases h
    exact .inl .callee
  | [u], h =>
    cases h
    exact .inl .opening
  | u :: u' :: before, h =>
    simp only [List.cons_append, List.cons.injEq] at h
    obtain ⟨rfl, rfl, h⟩ := h
    obtain ⟨front, p, back, cell, cell', rfl, hp, rfl, rfl⟩ := inside_eq_append_cons h hcomma hclose
    cases p with
    | part p =>
      obtain ⟨rfl, ht⟩ | ⟨-, ht⟩ := List.append_eq_singleton_iff.mp hp.symm <;> cases ht
      exact .inl (by simpa [lead] using Spot.part front p back rfl rfl)
    | name x =>
      obtain ⟨rfl, ht⟩ | ⟨-, ht⟩ := List.append_eq_singleton_iff.mp hp.symm <;> cases ht
      exact .inl (by simpa [lead] using Spot.name front x back rfl)
    | call g parts => exact .inr ⟨front, g, parts, back, cell, cell', rfl, hp, rfl, rfl⟩

/-- **Where a window can start.** -/
theorem exists_spot {f : String} {ps : List Piece} {before rest : List Token} {t : Token}
    (h : program f ps = before ++ t :: rest) (hcomma : t ≠ .comma) (hclose : t ≠ .closeParen) :
    ∃ pre g qs post front back, Site f ps pre g qs post ∧ Spot g qs front t back ∧
      before = pre ++ front ∧ rest = back ++ post := by
  rcases spot_or_call h hcomma hclose with
    hspot | ⟨front, g, parts, back, cell, cell', rfl, hcall, rfl, rfl⟩
  · exact ⟨[], f, ps, [], before, rest, .outer, hspot, rfl, (List.append_nil rest).symm⟩
  · rw [tokens_call] at hcall
    rcases spot_or_call hcall hcomma hclose with hspot | ⟨_, _, _, _, _, _, hparts, -⟩
    · exact ⟨lead f front, g, parts.map part, trail back, cell, cell',
        .inner front g parts back rfl, hspot, rfl, rfl⟩
    · -- there is no call among the arguments of an inner call
      obtain ⟨_, _, -, -, hcalls⟩ := List.map_eq_append_iff.mp hparts
      obtain ⟨_, _, -, hpart, -⟩ := List.map_eq_cons_iff.mp hcalls
      cases hpart

/-! ## The windows themselves -/

section

variable {f x : String} {ps qs bk : List Piece} {before after post : List Token} {t u : Token}
  {vs ws : List Value}

theorem eq_part_of_head {p : Piece} {rest : List Token} (h : p.tokens ++ rest = t :: after)
    (ht : t.values? = some vs) : ∃ q, p = part q ∧ t = q.token ∧ rest = after := by
  cases p with
  | part q =>
    cases h
    exact ⟨q, rfl, rfl, rfl⟩
  | name x => cases h; cases ht
  | call g parts => cases h; cases ht

theorem eq_nil_of_inside_append (h : inside qs ++ post = .closeParen :: after) :
    qs = [] ∧ post = after := by
  cases qs with
  | nil => cases h; exact ⟨rfl, rfl⟩
  | cons p qs =>
    rw [inside_cons, List.append_assoc] at h
    cases p with
    | part p => exact absurd (List.cons.inj h).1.symm (p.token_ne rfl)
    | name x => cases h
    | call g parts => cases h

theorem eq_singleton_of_inside_append (h : inside qs ++ post = t :: .closeParen :: after)
    (ht : t.values? = some vs) : ∃ p, qs = [part p] ∧ t = p.token ∧ post = after := by
  cases qs with
  | nil => cases h; cases ht
  | cons p qs =>
    rw [inside_cons, List.append_assoc] at h
    obtain ⟨q, rfl, rfl, hrest⟩ := eq_part_of_head h ht
    cases qs with
    | nil => cases hrest; exact ⟨q, rfl, rfl, rfl⟩
    | cons p' qs => simp at hrest

theorem eq_cons_of_trail_append (h : trail bk ++ post = .comma :: u :: after)
    (hu : u.values? = some ws) : ∃ q bk', bk = part q :: bk' ∧ u = q.token ∧
      trail bk' ++ post = after := by
  cases bk with
  | nil => cases h
  | cons p bk =>
    rw [trail_cons, List.cons_append, List.cons.injEq, List.append_assoc] at h
    obtain ⟨q, rfl, rfl, hrest⟩ := eq_part_of_head h.2 hu
    exact ⟨q, bk, rfl, rfl, hrest⟩

theorem exists_site_of_part {rest : List Token} (h : program f ps = before ++ t :: rest)
    (ht : t.values? = some vs) : ∃ pre g fr p bk post, Site f ps pre g (fr ++ part p :: bk) post ∧
      t = p.token ∧ before = pre ++ lead g fr ∧ rest = trail bk ++ post := by
  obtain ⟨pre, g, qs, post, front, back, hsite, hspot, rfl, rfl⟩ :=
    exists_spot h (by rintro rfl; cases ht) (by rintro rfl; cases ht)
  cases hspot with
  | callee | opening | name => cases ht
  | part fr p bk hqs hp => exact ⟨pre, g, fr, p, bk, post, hqs ▸ hsite, hp, rfl, rfl⟩

/-- Two neighbours that are collected. -/
theorem exists_site_of_join (h : program f ps = before ++ ([t, .comma, u] ++ after))
    (ht : t.values? = some vs) (hu : u.values? = some ws) :
    ∃ pre g fr p q bk post, Site f ps pre g (fr ++ part p :: part q :: bk) post ∧ t = p.token ∧
      u = q.token ∧ before = pre ++ lead g fr ∧ after = trail bk ++ post := by
  obtain ⟨pre, g, fr, p, bk, post, hsite, rfl, rfl, hrest⟩ := exists_site_of_part h ht
  obtain ⟨q, bk, rfl, rfl, rfl⟩ := eq_cons_of_trail_append hrest.symm hu
  exact ⟨pre, g, fr, p, q, bk, post, hsite, rfl, rfl, rfl, rfl⟩

/-- A call with all that is behind its opening parenthesis. -/
theorem exists_site_of_callee {rest : List Token}
    (h : program f ps = before ++ .name x :: .openParen :: rest) :
    ∃ qs post, Site f ps before x qs post ∧ rest = inside qs ++ post := by
  obtain ⟨pre, g, qs, post, front, back, hsite, hspot, rfl, hrest⟩ :=
    exists_spot h (by simp) (by simp)
  cases hspot with
  | callee =>
    cases hrest
    exact ⟨qs, post, by simpa using hsite, rfl⟩
  | part fr p bk hqs hp => exact absurd hp (p.token_ne rfl)
  | name fr x bk hqs => cases bk <;> simp at hrest

theorem exists_eq_append_name (h : program f ps = before ++ .name x :: after)
    (hopen : after.head? ≠ some .openParen) : ∃ front back, ps = front ++ name x :: back ∧
      before = lead f front ∧ after = trail back := by
  obtain ⟨pre, g, qs, post, front, back, hsite, hspot, rfl, rfl⟩ :=
    exists_spot h (by simp) (by simp)
  cases hspot with
  | callee => exact absurd rfl hopen
  | part fr p bk hqs hp => exact absurd hp (p.token_ne rfl)
  | name fr x bk hqs =>
    cases hsite with
    | outer => exact ⟨fr, bk, hqs, rfl, List.append_nil _⟩
    | inner front g parts back hps =>
      -- there is no variable among the arguments of an inner call
      obtain ⟨_, _, -, -, hnames⟩ := List.map_eq_append_iff.mp hqs
      obtain ⟨_, _, -, hpart, -⟩ := List.map_eq_cons_iff.mp hnames
      cases hpart

theorem exists_getLast?_eq_name (h : program f ps = before ++ .openParen :: after) :
    ∃ g, before.getLast? = some (.name g) := by
  obtain ⟨pre, g, qs, post, front, back, hsite, hspot, rfl, rfl⟩ :=
    exists_spot h (by simp) (by simp)
  cases hspot with
  | opening => exact ⟨g, by simp⟩
  | part fr p bk hqs hp => exact absurd hp (p.token_ne rfl)

end

theorem Site.program_eq {f g : String} {ps qs : List Piece} {pre post : List Token}
    (h : Site f ps pre g qs post) : program f ps = pre ++ (program g qs ++ post) := by
  cases h with
  | outer => simp
  | inner front g parts back h => rw [h, program_append, tokens_call]

end Piece

end Formula
