import Formula.Proofs.Arguments.Layout
import Formula.Proofs.Requests

/-! # One rewriting in a call

While the arguments of a call are collected, a rewriting joins neighbours, makes one of the inner
calls or looks a variable up (`Evolves`). The values of the arguments stay in their order. When an
inner call is made or a variable is looked up, all that comes first has been done, and this decides
whether the first argument gets its value in time. -/

namespace Formula

namespace Piece

variable {σ : Type} {host : Host σ} {state : σ} {f : String} {ps qs : List Piece} {r : Redex}

/-! ## What a rewriting can do -/

/-- The values of an argument. -/
def values (host : Host σ) (state : σ) : Piece → List Value
  | part p => p.values
  | name x => (host.bindings.get? x).toList
  | call g parts => (host.functions.call g (parts.flatMap Part.values) state).1.toOption.toList

/-- An argument will have a scalar, and does not wait for it in vain. -/
def Known (host : Host σ) (state : σ) : Piece → Prop
  | part _ => True
  | name x => ∃ l : Literal, host.bindings.get? x = some l.value
  | call g parts =>
    (∃ l : Literal, (host.functions.call g (parts.flatMap Part.values) state).1 = .ok l.value) ∧
      ¬ Shape.Blocked (parts.map Part.shape)

/-- The call that an argument waits for. -/
def pending? : Piece → Option (String × List Value)
  | call g parts => some (g, parts.flatMap Part.values)
  | part _ | name _ => none

/-- Arguments are collected. Two literals are joined if there are no others in front of them. -/
inductive Joins : List Piece → List Piece → Prop
  | pair (front back : List Piece) (l l' : Literal)
    (h : Shape.Settled ((front ++ [part (.literal l)]).map shape)) :
    Joins (front ++ part (.literal l) :: part (.literal l') :: back)
      (front ++ part (.block [l.value, l'.value]) :: back)
  | extend (front back : List Piece) (vs : List Value) (p : Part) :
    Joins (front ++ part (.block vs) :: part p :: back)
      (front ++ part (.block (vs ++ p.values)) :: back)
  | wrapArgument (l : Literal) : Joins [part (.literal l)] [part (.block [l.value])]
  | wrapNothing : Joins [] [part (.block [])]

/-- A rewriting in a call, and the call that is made by it. -/
inductive Evolves (host : Host σ) (state : σ) :
    List Piece → Option (String × List Value) → List Piece → Prop
  | joined {ps qs : List Piece} (h : Joins ps qs) : Evolves host state ps none qs
  | inner (front : List Piece) (g : String) (parts parts' : List Part) (back : List Piece)
    (h : Joins (parts.map part) (parts'.map part)) :
    Evolves host state (front ++ call g parts :: back) none (front ++ call g parts' :: back)
  | called (front : List Piece) (g : String) (vs : List Value) (back : List Piece) (l : Literal)
    (h : (host.functions.call g vs state).1 = .ok l.value)
    (hsettled : Shape.Settled ((front ++ call g [.block vs] :: back).map shape))
    (hcall : .call ∉ front.map shape) :
    Evolves host state (front ++ call g [.block vs] :: back) (some (g, vs))
      (front ++ part (.literal l) :: back)
  | lookedUp (front : List Piece) (x : String) (back : List Piece) (l : Literal)
    (h : host.bindings.get? x = some l.value)
    (hsettled : Shape.Settled ((front ++ name x :: back).map shape))
    (hcall : .call ∉ (front ++ back).map shape) (hname : .name ∉ front.map shape) :
    Evolves host state (front ++ name x :: back) none (front ++ part (.literal l) :: back)

/-! ## What it keeps -/

theorem Joins.shifts {ps qs : List Piece} (h : Joins ps qs) :
    Shape.Shifts (ps.map shape) (qs.map shape) := by
  cases h with
  | pair front back l l' h =>
    rw [List.map_append] at h
    simpa [shape, Part.shape] using Shape.Shifts.pair _ (back.map shape) h
  | extend front back vs p =>
    have hp : p.shape = .literal ∨ p.shape = .block := by cases p <;> simp [Part.shape]
    simpa [shape, Part.shape] using Shape.Shifts.extend (front.map shape) (back.map shape) _ hp
  | wrapArgument l => exact .wrapArgument
  | wrapNothing => exact .wrapNothing

theorem Joins.values_eq {ps qs : List Piece} (h : Joins ps qs) (host : Host σ) (state : σ) :
    qs.flatMap (values host state) = ps.flatMap (values host state) := by
  cases h <;> simp [values, Part.values]

theorem flatMap_values_map_part (parts : List Part) :
    (parts.map part).flatMap (values host state) = parts.flatMap Part.values := by
  simp [List.flatMap_map, values]

theorem Joins.flatMap_values_eq {parts parts' : List Part}
    (h : Joins (parts.map part) (parts'.map part)) :
    parts'.flatMap Part.values = parts.flatMap Part.values := by
  simpa only [flatMap_values_map_part] using
    h.values_eq (⟨∅, Functions.none⟩ : Host Unit) ()

theorem map_shape_map_part (parts : List Part) :
    (parts.map part).map shape = parts.map Part.shape := by
  simp [shape, Function.comp_def]

theorem Evolves.shifts {call? : Option (String × List Value)} (h : Evolves host state ps call? qs) :
    Shape.Shifts (ps.map shape) (qs.map shape) := by
  cases h with
  | joined h => exact h.shifts
  | inner front g parts parts' back h => simpa [shape] using Shape.Shifts.same _
  | called front g vs back l h hsettled hcall =>
    simp only [List.map_append, List.map_cons] at hsettled ⊢
    exact .result _ _ hsettled hcall
  | lookedUp front x back l h hsettled hcall hname =>
    simp only [List.map_append, List.map_cons] at hsettled hcall ⊢
    exact .lookup _ _ hsettled hcall hname

theorem Evolves.values_eq {call? : Option (String × List Value)}
    (h : Evolves host state ps call? qs) :
    qs.flatMap (values host state) = ps.flatMap (values host state) := by
  cases h with
  | joined h => exact h.values_eq host state
  | inner front g parts parts' back h =>
    simp [values, h.flatMap_values_eq]
  | called front g vs back l h => simp [values, Part.values, h, Except.toOption]
  | lookedUp front x back l h => simp [values, Part.values, h]

theorem Evolves.known {call? : Option (String × List Value)} (h : Evolves host state ps call? qs)
    (hps : ∀ p ∈ ps, p.Known host state) : ∀ p ∈ qs, p.Known host state := by
  cases h with
  | joined h =>
    cases h with
    | pair | extend =>
      simp only [List.forall_mem_append, List.forall_mem_cons] at hps ⊢
      exact ⟨hps.1, trivial, hps.2.2.2⟩
    | wrapArgument | wrapNothing => simp [Known]
  | inner front g parts parts' back h =>
    simp only [List.forall_mem_append, List.forall_mem_cons] at hps ⊢
    refine ⟨hps.1, ?_, hps.2.2⟩
    have hblocked := h.shifts.blocked_iff
    rw [map_shape_map_part, map_shape_map_part] at hblocked
    rw [Known, h.flatMap_values_eq, hblocked]
    exact hps.2.1
  | called | lookedUp =>
    simp only [List.forall_mem_append, List.forall_mem_cons] at hps ⊢
    exact ⟨hps.1, trivial, hps.2.2⟩

theorem Evolves.pending_eq {call? : Option (String × List Value)}
    (h : Evolves host state ps call? qs) :
    ps.filterMap pending? = call?.toList ++ qs.filterMap pending? := by
  cases h with
  | joined h => cases h <;> simp [List.filterMap_cons, pending?]
  | inner front g parts parts' back h =>
    simp [pending?, h.flatMap_values_eq]
  | called front g vs back l h hsettled hcall =>
    have hfront : front.filterMap pending? = [] := by
      rw [List.filterMap_eq_nil_iff]
      intro p hp
      cases p with
      | part p => rfl
      | name x => rfl
      | call g parts => exact absurd (List.mem_map_of_mem hp) hcall
    simp [List.filterMap_cons, pending?, Part.values, hfront]
  | lookedUp front x back l h => simp [List.filterMap_cons, pending?]

/-! ## What is done first -/

theorem exists_pair_of_isInfix (h : [.literal, .literal] <:+: ps.map shape) : ∃ front l l' back,
    ps = front ++ part (.literal l) :: part (.literal l') :: back := by
  obtain ⟨front, back, h⟩ := h
  rw [List.append_assoc] at h
  obtain ⟨front, rest, rfl, -, hrest⟩ := List.map_eq_append_iff.mp h.symm
  obtain ⟨p, rest, rfl, hp, hrest⟩ := List.map_eq_cons_iff.mp hrest
  obtain ⟨q, back, rfl, hq, -⟩ := List.map_eq_cons_iff.mp hrest
  obtain ⟨l, rfl⟩ := eq_literal_of_shape hp
  obtain ⟨l', rfl⟩ := eq_literal_of_shape hq
  exact ⟨front, l, l', back, rfl⟩

theorem program_append_pair (f : String) (front : List Piece) (p q : Part) (back : List Piece) :
    program f (front ++ part p :: part q :: back)
      = lead f front ++ ([p.token, .comma, q.token] ++ trail back) := by
  simp [program_append, tokens]

/-- All literals have been joined when a later rule is used. -/
theorem settled_of_find? (hfind : Redex.find? (program f ps) = some r)
    (hrule : Rule.argumentPair.priority < r.rule.priority) : Shape.Settled (ps.map shape) := by
  intro hpair
  obtain ⟨front, l, l', back, rfl⟩ := exists_pair_of_isInfix hpair
  have hle := Redex.find?_priority hfind (program_append_pair ..)
    (Rule.matches_argumentPair l.scalar?_eq l'.scalar?_eq)
  omega

/-- In front of two literals that are joined, no others are left. -/
theorem Site.settled_front_of_find? {g : String} {pre post : List Token} {front back : List Piece}
    {l l' : Literal}
    (hsite : Site f ps pre g (front ++ part (.literal l) :: part (.literal l') :: back) post)
    (hfind : Redex.find? (program f ps) = some r) (hrule : r.rule = Rule.argumentPair)
    (hbefore : r.before = pre ++ lead g front) :
    Shape.Settled ((front ++ [part (.literal l)]).map shape) := by
  intro hpair
  obtain ⟨front', k, k', back', hsplit⟩ := exists_pair_of_isInfix hpair
  have hfront : front = front' ++ part (.literal k) :: (part (.literal k') :: back').dropLast := by
    simpa using congrArg List.dropLast hsplit
  have hprogram : program f ps = (pre ++ lead g front') ++ ([k.token, .comma, k'.token]
      ++ (trail (back' ++ part (.literal l') :: back) ++ post)) := by
    have hqs : front ++ part (.literal l) :: part (.literal l') :: back
        = front' ++ part (.literal k) :: part (.literal k')
          :: (back' ++ part (.literal l') :: back) := by
      simpa using congrArg (· ++ part (.literal l') :: back) hsplit
    rw [hsite.program_eq, hqs, program_append_pair]
    simp [Part.token]
  have hle := Redex.find?_leftmost hfind hprogram
    (hrule ▸ Rule.matches_argumentPair k.scalar?_eq k'.scalar?_eq)
  have hlt := length_lead_lt g front' (part (.literal k)) (part (.literal k') :: back').dropLast
  rw [← hfront] at hlt
  simp only [hbefore, List.length_append] at hle
  omega

/-- The arguments of a call have been collected, or some of them can be. -/
theorem exists_match (g : String) {parts : List Part}
    (h : ¬ Shape.Blocked (parts.map Part.shape)) :
    ∃ rule ∈ Rule.table, rule.priority ≤ Rule.call.priority ∧ ∃ before window after,
      program g (parts.map part) = before ++ (window ++ after) ∧ window ≠ [] ∧
        ∀ post, rule.Matches window post := by
  match parts, h with
  | [], _ =>
    exact ⟨Rule.noArguments, by decide, by decide, [], _, [], rfl, by simp,
      fun _ => Rule.matches_noArguments g⟩
  | [.literal l], _ =>
    exact ⟨Rule.singleArgument, by decide, by decide, [], _, [], rfl, by simp,
      fun _ => Rule.matches_singleArgument g l.scalar?_eq⟩
  | [.block vs], _ =>
    exact ⟨Rule.call, by decide, by decide, [], _, [], rfl, by simp,
      fun _ => Rule.matches_call g vs⟩
  | .literal l :: .literal l' :: parts, _ =>
    exact ⟨Rule.argumentPair, by decide, by decide, _, _, _, program_append_pair g [] _ _ _,
      by simp, fun _ => Rule.matches_argumentPair l.scalar?_eq l'.scalar?_eq⟩
  | .literal l :: .block vs :: parts, h => exact absurd rfl h
  | .block vs :: .literal l :: parts, _ =>
    exact ⟨Rule.appendArgument, by decide, by decide, _, _, _, program_append_pair g [] _ _ _,
      by simp, fun _ => Rule.matches_appendArgument vs l.scalar?_eq⟩
  | .block vs :: .block ws :: parts, _ =>
    exact ⟨Rule.concatenateArguments, by decide, by decide, _, _, _, program_append_pair g [] _ _ _,
      by simp, fun _ => Rule.matches_concatenateArguments vs ws⟩

theorem exists_match_call (f : String) (front : List Piece) {g : String} {parts : List Part}
    (back : List Piece) (h : ¬ Shape.Blocked (parts.map Part.shape)) :
    ∃ rule ∈ Rule.table, rule.priority ≤ Rule.call.priority ∧ ∃ before window after,
      program f (front ++ call g parts :: back) = before ++ (window ++ after) ∧
        rule.Matches window after ∧
          before.length < (lead f front).length + (call g parts).tokens.length := by
  obtain ⟨rule, htable, hle, before, window, after, htokens, hwindow, hmatches⟩ := exists_match g h
  refine ⟨rule, htable, hle, lead f front ++ before, window, after ++ trail back, ?_,
    hmatches _, ?_⟩
  · rw [program_append, tokens_call, htokens]
    simp
  · have hpos := List.length_pos_iff.mpr hwindow
    rw [tokens_call, htokens]
    simp only [List.length_append]
    omega

/-- No call among the arguments is passed over, by a later rule or by a call further right. -/
theorem call_not_mem_of_find? (hfind : Redex.find? (program f ps) = some r)
    (hps : ∀ p ∈ ps, p.Known host state) {front back : List Piece} (hfront : ps = front ++ back)
    (hrule : Rule.call.priority < r.rule.priority ∨
      r.rule = Rule.call ∧ (lead f front).length ≤ r.before.length) :
    .call ∉ front.map shape := by
  intro hcall
  obtain ⟨front₁, g, parts, front₂, rfl⟩ := exists_append_of_call_mem hcall
  have hknown := hps (call g parts) (by simp [hfront])
  obtain ⟨rule, htable, hle, before, window, after, hprogram, hmatches, hbefore⟩ :=
    exists_match_call f front₁ (front₂ ++ back) hknown.2
  rw [← List.cons_append, ← List.append_assoc, ← hfront] at hprogram
  have hpriority := Redex.find?_priority hfind hprogram hmatches
  rcases hrule with hlater | ⟨hrule, hlength⟩
  · omega
  · have hcalls : ∀ rule ∈ Rule.table, rule.priority = Rule.call.priority → rule = Rule.call := by
      decide
    obtain rfl := hcalls rule htable (Nat.le_antisymm hle (hrule ▸ hpriority))
    have hleast := Redex.find?_leftmost hfind hprogram (hrule ▸ hmatches)
    have hlead := length_lead_lt f front₁ (call g parts) front₂
    omega

theorem matches_name (x : String) (back : List Piece) :
    Rule.substitution.Matches [.name x] (trail back) :=
  Rule.matches_substitution x (by cases back <;> simp)

/-- The leftmost variable is looked up first. -/
theorem name_not_mem_of_find? (hfind : Redex.find? (program f ps) = some r)
    {front back : List Piece} (hfront : ps = front ++ back) (hrule : r.rule = Rule.substitution)
    (hbefore : r.before = lead f front) : .name ∉ front.map shape := by
  intro hname
  obtain ⟨front₁, x, front₂, rfl⟩ := exists_append_of_name_mem hname
  have hprogram : program f ps = lead f front₁ ++ ([.name x] ++ trail (front₂ ++ back)) := by
    rw [hfront, List.append_assoc, List.cons_append, program_append, tokens]
  have hleast := Redex.find?_leftmost hfind hprogram (hrule ▸ matches_name x _)
  have hlead := length_lead_lt f front₁ (name x) front₂
  rw [hbefore] at hleast
  omega

/-! ## The next rewriting -/

theorem exists_parts_iff : (∃ parts : List Part, ps = parts.map part) ↔
    ∀ p ∈ ps, ∃ q, p = part q := by
  constructor
  · rintro ⟨parts, rfl⟩ p hp
    obtain ⟨q, -, rfl⟩ := List.mem_map.mp hp
    exact ⟨q, rfl⟩
  · intro h
    induction ps with
    | nil => exact ⟨[], rfl⟩
    | cons p ps ih =>
      obtain ⟨hp, hps⟩ := List.forall_mem_cons.mp h
      obtain ⟨q, rfl⟩ := hp
      obtain ⟨parts, rfl⟩ := ih hps
      exact ⟨q :: parts, rfl⟩

theorem Joins.exists_parts {ps qs : List Piece} (h : Joins ps qs)
    (hps : ∃ parts : List Part, ps = parts.map part) :
    ∃ parts : List Part, qs = parts.map part := by
  rw [exists_parts_iff] at hps ⊢
  cases h with
  | pair | extend =>
    simp only [List.forall_mem_append, List.forall_mem_cons] at hps ⊢
    exact ⟨hps.1, ⟨_, rfl⟩, hps.2.2.2⟩
  | wrapArgument | wrapNothing => simp

/-- What is joined in a call is joined in the call around it. -/
theorem Site.exists_evolves {g : String} {pre post : List Token} {qs qs' : List Piece}
    (hsite : Site f ps pre g qs post) (h : Joins qs qs') (host : Host σ) (state : σ) :
    ∃ ps', Evolves host state ps none ps' ∧ pre ++ (program g qs' ++ post) = program f ps' := by
  cases hsite with
  | outer => exact ⟨qs', .joined h, by simp⟩
  | inner front g parts back hps =>
    obtain ⟨parts', rfl⟩ := h.exists_parts ⟨parts, rfl⟩
    refine ⟨front ++ call g parts' :: back, hps ▸ .inner front g parts parts' back h, ?_⟩
    rw [program_append, tokens_call]

theorem Site.exists_evolves_append {g : String} {pre post : List Token} {front back : List Piece}
    {b : Part} (hsite : Site f ps pre g qs post) (h : Joins qs (front ++ part b :: back))
    (host : Host σ) (state : σ) : ∃ ps', Evolves host state ps none ps' ∧
      pre ++ lead g front ++ ([b.token] ++ (trail back ++ post)) = program f ps' := by
  obtain ⟨ps', hevolves, hresult⟩ := hsite.exists_evolves h host state
  refine ⟨ps', hevolves, ?_⟩
  rw [← hresult, program_append, tokens]
  simp

/-- The call itself is made, or it is one of the inner calls. -/
theorem Site.call_cases {g : String} {pre post : List Token} {vs : List Value}
    (hdetermined : host.functions.ArgumentDetermined)
    (hsite : Site f ps pre g [part (.block vs)] post) (hps : ∀ p ∈ ps, p.Known host state)
    (hfind : Redex.find? (program f ps) = some r) (hrule : r.rule = Rule.call)
    (hbefore : r.before = pre) :
    (ps = [part (.block vs)] ∧ pre = [] ∧ post = [] ∧ g = f) ∨
      ∃ new qs, Evolves host state ps (some (g, vs)) qs ∧ pre ++ (new ++ post) = program f qs ∧
        ∀ state', ((Replacement.result g vs).resolve host state').1 = .ok new := by
  generalize hqs : [part (.block vs)] = qs at hsite
  cases hsite with
  | outer => exact .inl ⟨rfl, rfl, rfl, rfl⟩
  | inner front g parts back hsplit =>
    obtain ⟨_, parts, rfl, hblock, hnil⟩ := List.map_eq_cons_iff.mp hqs.symm
    cases hblock
    obtain rfl := List.map_eq_nil_iff.mp hnil
    obtain ⟨⟨l, hl⟩, -⟩ := hps (call g [.block vs]) (by simp [hsplit])
    have hvalue : (host.functions.call g vs state).1 = .ok l.value := by
      simpa [Part.values] using hl
    have hsettled : Shape.Settled (ps.map shape) :=
      settled_of_find? hfind (by rw [hrule]; decide)
    have hcall : .call ∉ front.map shape :=
      call_not_mem_of_find? hfind hps hsplit (.inr ⟨hrule, Nat.le_of_eq (by rw [hbefore])⟩)
    subst hsplit
    refine .inr ⟨[l.token], _, .called front g vs back l hvalue hsettled hcall, ?_, ?_⟩
    · rw [program_append]
      rfl
    · intro state'
      rw [Replacement.resolve_outcome_eq hdetermined _ state' state,
        Replacement.resolve_result hvalue (Token.scalar?_eq_some_iff.mp l.scalar?_eq)]

theorem exists_lookedUp {x : String} {front back : List Piece}
    (hsplit : ps = front ++ name x :: back) (hps : ∀ p ∈ ps, p.Known host state)
    (hfind : Redex.find? (program f ps) = some r) (hrule : r.rule = Rule.substitution)
    (hbefore : r.before = lead f front) :
    ∃ new qs, Evolves host state ps none qs ∧ lead f front ++ (new ++ trail back) = program f qs ∧
      ∀ state', ((Replacement.binding x).resolve host state').1 = .ok new := by
  obtain ⟨l, hl⟩ := hps (name x) (by simp [hsplit])
  have hsettled : Shape.Settled (ps.map shape) := settled_of_find? hfind (by rw [hrule]; decide)
  have hcall : .call ∉ ps.map shape :=
    call_not_mem_of_find? hfind hps (List.append_nil ps).symm (.inl (by rw [hrule]; decide))
  have hname : .name ∉ front.map shape := name_not_mem_of_find? hfind hsplit hrule hbefore
  subst hsplit
  refine ⟨[l.token], _, .lookedUp front x back l hl hsettled ?_ hname, ?_, ?_⟩
  · simpa [shape] using hcall
  · rw [program_append]
    rfl
  · intro state'
    rw [Replacement.resolve_binding hl (Token.scalar?_eq_some_iff.mp l.scalar?_eq)]

/-- **What the next rewriting in a call is.** Either the call itself is made, and nothing is around
it, or the arguments evolve. This succeeds whatever state the host is in. -/
theorem turn (hdetermined : host.functions.ArgumentDetermined)
    (hfind : Redex.find? (program f ps) = some r) (hps : ∀ p ∈ ps, p.Known host state) :
    ∃ replacement, r.rule.action.replacement r.window = .ok replacement ∧
      ((∃ vs, ps = [part (.block vs)] ∧ r.before = [] ∧ r.after = [] ∧
          replacement = .result f vs) ∨
        ∃ new qs, Evolves host state ps replacement.call? qs ∧ r.result new = program f qs ∧
          ∀ state', (replacement.resolve host state').1 = .ok new) := by
  obtain ⟨replacement, hreplacement, hcontracts⟩ := Redex.exists_replacement hfind
  refine ⟨replacement, hreplacement, ?_⟩
  have hprogram := (Redex.find?_eq_some hfind).2.1
  rw [Redex.program] at hprogram
  simp only [Redex.result]
  generalize hwindow : r.window = window at hcontracts hprogram
  generalize hbefore : r.before = before at hprogram ⊢
  generalize hafter : r.after = after at hprogram ⊢
  cases hcontracts with
  | wrapArgument g ht =>
    obtain ⟨qs, post, hsite, hrest⟩ := exists_site_of_callee hprogram
    obtain ⟨p, rfl, rfl, rfl⟩ :=
      eq_singleton_of_inside_append hrest.symm (Token.values?_of_scalar? ht)
    obtain ⟨l, rfl, rfl⟩ := Part.eq_literal_of_scalar? ht
    obtain ⟨ps', hevolves, hresult⟩ := hsite.exists_evolves (.wrapArgument l) host state
    exact .inr ⟨_, ps', hevolves, hresult, fun _ => rfl⟩
  | multiply x y =>
    obtain ⟨pre, g, front, p, back, post, -, -, -, hrest⟩ := exists_site_of_part hprogram rfl
    cases back <;> cases hrest
  | unwrap x =>
    obtain ⟨g, hlast⟩ := exists_getLast?_eq_name hprogram
    exact absurd (hbefore ▸ hlast) (Redex.getLast?_before_ne_name hfind hwindow g)
  | operate x o y =>
    obtain ⟨pre, g, front, p, back, post, -, -, -, hrest⟩ := exists_site_of_part hprogram rfl
    cases back <;> cases hrest
  | pair ht hu =>
    obtain ⟨pre, g, front, p, q, back, post, hsite, rfl, rfl, rfl, rfl⟩ :=
      exists_site_of_join hprogram (Token.values?_of_scalar? ht) (Token.values?_of_scalar? hu)
    obtain ⟨l, rfl, rfl⟩ := Part.eq_literal_of_scalar? ht
    obtain ⟨l', rfl, rfl⟩ := Part.eq_literal_of_scalar? hu
    have hmatches : Rule.argumentPair.Matches _ [] := Rule.matches_argumentPair ht hu
    have hrule : r.rule = Rule.argumentPair :=
      Redex.rule_eq hfind (by decide) (hwindow ▸ hmatches.fits)
    obtain ⟨ps', hevolves, hresult⟩ := hsite.exists_evolves_append
      (.pair front back l l' (hsite.settled_front_of_find? hfind hrule hbefore)) host state
    exact .inr ⟨_, ps', hevolves, hresult, fun _ => rfl⟩
  | append vs ht =>
    obtain ⟨pre, g, front, p, q, back, post, hsite, hp, rfl, rfl, rfl⟩ :=
      exists_site_of_join hprogram (Token.values?_args vs) (Token.values?_of_scalar? ht)
    obtain rfl := Part.eq_block_of_args hp
    obtain ⟨l, rfl, rfl⟩ := Part.eq_literal_of_scalar? ht
    obtain ⟨ps', hevolves, hresult⟩ :=
      hsite.exists_evolves_append (.extend front back vs (.literal l)) host state
    exact .inr ⟨_, ps', hevolves, hresult, fun _ => rfl⟩
  | concatenate vs ws =>
    obtain ⟨pre, g, front, p, q, back, post, hsite, hp, hq, rfl, rfl⟩ :=
      exists_site_of_join hprogram (Token.values?_args vs) (Token.values?_args ws)
    obtain rfl := Part.eq_block_of_args hp
    obtain rfl := Part.eq_block_of_args hq
    obtain ⟨ps', hevolves, hresult⟩ :=
      hsite.exists_evolves_append (.extend front back vs (.block ws)) host state
    exact .inr ⟨_, ps', hevolves, hresult, fun _ => rfl⟩
  | wrapNothing g =>
    obtain ⟨qs, post, hsite, hrest⟩ := exists_site_of_callee hprogram
    obtain ⟨rfl, rfl⟩ := eq_nil_of_inside_append hrest.symm
    obtain ⟨ps', hevolves, hresult⟩ := hsite.exists_evolves .wrapNothing host state
    exact .inr ⟨_, ps', hevolves, hresult, fun _ => rfl⟩
  | call g vs =>
    obtain ⟨qs, post, hsite, hrest⟩ := exists_site_of_callee hprogram
    obtain ⟨p, rfl, hp, rfl⟩ := eq_singleton_of_inside_append hrest.symm (Token.values?_args vs)
    obtain rfl := Part.eq_block_of_args hp
    have hmatches : Rule.call.Matches _ [] := Rule.matches_call g vs
    have hrule : r.rule = Rule.call := Redex.rule_eq hfind (by decide) (hwindow ▸ hmatches.fits)
    rcases hsite.call_cases hdetermined hps hfind hrule hbefore with ⟨rfl, rfl, rfl, rfl⟩ | hinner
    · exact .inl ⟨vs, rfl, rfl, rfl, rfl⟩
    · exact .inr hinner
  | substitute x =>
    have hopen := Redex.head?_after_ne_openParen hfind hwindow
    rw [hafter] at hopen
    obtain ⟨front, back, hsplit, rfl, rfl⟩ := exists_eq_append_name hprogram hopen
    have hrule := Redex.rule_eq_substitution hfind hwindow
    exact .inr (exists_lookedUp hsplit hps hfind hrule hbefore)

end Piece

end Formula
