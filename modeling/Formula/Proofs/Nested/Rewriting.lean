import Formula.Proofs.Nested.Reading
import Formula.Proofs.Run
import Formula.Proofs.Window

/-! # Rewriting what is read

What is read does not depend on how much of it has been rewritten (`accepts_result`), and as long as
more than one token is left, something can be rewritten (`hasMatch_of_accepts`). So whatever is read
with a value evaluates to it (`run_eq_ok_of_accepts`). -/

namespace Formula

namespace Nested

variable {σ : Type} {host : Host σ} {state : σ} {a b c : Reading} {ts us : List Token} {v : Value}

/-! ## Rewriting changes nothing of what is read -/

theorem Accepts.wrapArgument {f : String} {t : Token} {w : Value} (ht : t.scalar? = some w)
    (h : Accepts host state a (.name f :: .openParen :: t :: .closeParen :: ts) v) :
    Accepts host state a (.name f :: .openParen :: .args [w] :: .closeParen :: ts) v := by
  obtain ⟨long, frames, ha, hargs⟩ := h.openCall
  obtain ⟨_, hstep, hclose⟩ := hargs.uncons
  obtain ⟨_, he, rfl⟩ := hstep.of_scalar ht
  cases he
  rw [ha]
  exact .of_openCall long (ReadStep.firstArgs.accepts (hclose.closeCall rfl rfl))

theorem Accepts.wrapNothing {f : String}
    (h : Accepts host state a (.name f :: .openParen :: .closeParen :: ts) v) :
    Accepts host state a (.name f :: .openParen :: .args [] :: .closeParen :: ts) v := by
  obtain ⟨long, frames, ha, hclose⟩ := h.openCall
  rw [ha]
  exact .of_openCall long (ReadStep.firstArgs.accepts (hclose.closeCall rfl rfl))

/-- A number stands nowhere in front of a parenthesis. -/
theorem not_accepts_multiply {x : Float} :
    ¬ Accepts host state a (.number x :: .openParen :: ts) v := by
  intro h
  obtain ⟨_, hx, hafter⟩ := h.uncons
  obtain ⟨frames, rfl, rfl⟩ := hx.of_scalar rfl
  obtain ⟨_, hopen, _⟩ := hafter.uncons
  cases hopen

/-- Parentheses around a number go, unless they are those of a call. -/
theorem Accepts.unwrap {x : Float} (ha : ∀ f frames, a ≠ .named f frames)
    (h : Accepts host state a (.openParen :: .number x :: .closeParen :: ts) v) :
    Accepts host state a (.number x :: ts) v := by
  obtain ⟨_, hopen, hafter⟩ := h.uncons
  cases hopen with
  | literal h => cases h
  | openCall long => exact absurd rfl (ha _ _)
  | lookup _ _ ht _ => exact absurd rfl ht
  | openOperation =>
    obtain ⟨_, hx, hrest⟩ := hafter.uncons
    obtain ⟨_, he, rfl⟩ := hx.of_scalar rfl
    cases he
    obtain ⟨_, hclose, hts⟩ := hrest.uncons
    cases hclose with
    | closeNumber => exact (ReadStep.literal rfl).accepts hts.of_complete
    | closeCall hcall _ _ => cases hcall

theorem Accepts.operate {x y : Float} {o : Operator}
    (h : Accepts host state a (.number x :: .operator o :: .number y :: ts) v) :
    Accepts host state a (.number (o.apply x y) :: ts) v := by
  obtain ⟨_, hx, hafter⟩ := h.uncons
  obtain ⟨frames, rfl, rfl⟩ := hx.of_scalar rfl
  obtain ⟨_, ho, hright⟩ := hafter.uncons
  cases ho with
  | operator =>
    obtain ⟨_, hy, hrest⟩ := hright.uncons
    obtain ⟨_, he, rfl⟩ := hy.of_scalar rfl
    cases he
    refine (ReadStep.literal rfl).accepts ?_
    -- the operation has both operands, so its parenthesis closes now
    obtain ⟨t, ts, _, rfl, hclose, hts⟩ := hrest.exists_step (by simp)
    cases hclose with
    | closeOperation => exact ReadStep.closeNumber.accepts hts
    | closeCall hcall _ _ => cases hcall

/-- Two arguments that have been read may as well have been collected before. -/
theorem Accepts.collect_second {f : String} {w z : Value} {long literal : Bool}
    {frames : List Frame}
    (h : Accepts host state (.complete z literal (.second long f w :: frames)) ts v) :
    Accepts host state (.collected f [w, z] frames) ts v := by
  obtain ⟨t, ts, _, rfl, hstep, hts⟩ := h.exists_step (by simp)
  cases hstep with
  | commaSecond => exact ReadStep.commaCollected.accepts hts
  | closeCall hcall hv hscalar =>
    cases hcall
    exact (ReadStep.closeCall rfl hv hscalar).accepts hts

theorem Accepts.collect_later {f : String} {vs : List Value} {z : Value} {literal : Bool}
    {frames : List Frame}
    (h : Accepts host state (.complete z literal (.later f vs :: frames)) ts v) :
    Accepts host state (.collected f (vs ++ [z]) frames) ts v := by
  obtain ⟨t, ts, _, rfl, hstep, hts⟩ := h.exists_step (by simp)
  cases hstep with
  | commaLater => exact ReadStep.commaCollected.accepts hts
  | closeCall hcall hv hscalar =>
    cases hcall
    exact (ReadStep.closeCall rfl hv hscalar).accepts hts

theorem Accepts.pair {t u : Token} {w z : Value} (ht : t.scalar? = some w)
    (hu : u.scalar? = some z) (ha : ∀ f w frames, a ≠ .expecting (.second true f w :: frames))
    (h : Accepts host state a (t :: .comma :: u :: ts) v) :
    Accepts host state a (.args [w, z] :: ts) v := by
  obtain ⟨_, hstep, hafter⟩ := h.uncons
  obtain ⟨frames, rfl, rfl⟩ := hstep.of_scalar ht
  obtain ⟨_, hcomma, hright⟩ := hafter.uncons
  cases hcomma with
  | commaFirst _ =>
    obtain ⟨_, hstep', hts⟩ := hright.uncons
    obtain ⟨_, he, rfl⟩ := hstep'.of_scalar hu
    cases he
    exact ReadStep.firstArgs.accepts hts.collect_second
  | commaSecond => exact absurd rfl (ha _ _ _)
  | commaLater =>
    obtain ⟨_, hstep', hts⟩ := hright.uncons
    obtain ⟨_, he, rfl⟩ := hstep'.of_scalar hu
    cases he
    refine ReadStep.laterArgs.accepts ?_
    have hcollected := hts.collect_later
    rwa [List.append_assoc] at hcollected

theorem Accepts.append {vs : List Value} {t : Token} {w : Value} (ht : t.scalar? = some w)
    (h : Accepts host state a (.args vs :: .comma :: t :: ts) v) :
    Accepts host state a (.args (vs ++ [w]) :: ts) v := by
  obtain ⟨_, hargs, hafter⟩ := h.uncons
  obtain ⟨_, hcomma, hright⟩ := hafter.uncons
  obtain ⟨_, hstep, hts⟩ := hright.uncons
  rcases hargs.of_args with ⟨long, f, frames, rfl, rfl⟩ | ⟨f, us, frames, rfl, rfl⟩
  · cases hcomma with
    | commaCollected =>
      obtain ⟨_, he, rfl⟩ := hstep.of_scalar ht
      cases he
      exact ReadStep.firstArgs.accepts hts.collect_later
  · cases hcomma with
    | commaCollected =>
      obtain ⟨_, he, rfl⟩ := hstep.of_scalar ht
      cases he
      refine ReadStep.laterArgs.accepts ?_
      have hcollected := hts.collect_later
      rwa [List.append_assoc] at hcollected

theorem Accepts.concatenate {vs ws : List Value}
    (h : Accepts host state a (.args vs :: .comma :: .args ws :: ts) v) :
    Accepts host state a (.args (vs ++ ws) :: ts) v := by
  obtain ⟨_, hargs, hafter⟩ := h.uncons
  obtain ⟨_, hcomma, hright⟩ := hafter.uncons
  obtain ⟨_, hargs', hts⟩ := hright.uncons
  rcases hargs.of_args with ⟨long, f, frames, rfl, rfl⟩ | ⟨f, us, frames, rfl, rfl⟩
  · cases hcomma with
    | commaCollected =>
      rcases hargs'.of_args with ⟨_, _, _, he, rfl⟩ | ⟨_, _, _, he, rfl⟩
      · cases he
      · cases he
        exact ReadStep.firstArgs.accepts hts
  · cases hcomma with
    | commaCollected =>
      rcases hargs'.of_args with ⟨_, _, _, he, rfl⟩ | ⟨_, _, _, he, rfl⟩
      · cases he
      · cases he
        refine ReadStep.laterArgs.accepts ?_
        rwa [List.append_assoc] at hts

/-- A call returns the value that the reading has taken for it. -/
theorem Accepts.call {f : String} {vs : List Value}
    (h : Accepts host state a (.name f :: .openParen :: .args vs :: .closeParen :: ts) v) :
    ∃ w, (host.functions.call f vs state).1 = .ok w ∧ w.isScalar = true ∧
      ∀ t : Token, t.scalar? = some w → Accepts host state a (t :: ts) v := by
  obtain ⟨long, frames, ha, hargs⟩ := h.openCall
  obtain ⟨_, hstep, hclose⟩ := hargs.uncons
  rcases hstep.of_args with ⟨_, _, _, he, rfl⟩ | ⟨_, _, _, he, rfl⟩
  · cases he
    obtain ⟨_, hstep', hts⟩ := hclose.uncons
    cases hstep' with
    | closeCall hcall hv hscalar =>
      cases hcall
      refine ⟨_, hv, hscalar, ?_⟩
      intro t ht
      rw [ha]
      exact (ReadStep.literal ht).accepts hts.of_complete
  · cases he

theorem Accepts.substitute {x : String} (hts : ts.head? ≠ some .openParen)
    (h : Accepts host state a (.name x :: ts) v) :
    ∃ w, host.bindings.get? x = some w ∧ w.isScalar = true ∧
      ∀ t : Token, t.scalar? = some w → Accepts host state a (t :: ts) v := by
  obtain ⟨_, hname, hafter⟩ := h.uncons
  obtain ⟨frames, rfl, rfl⟩ := hname.of_name
  obtain ⟨u, ts, _, rfl, hstep, hrest⟩ := hafter.exists_step (by simp)
  cases hstep with
  | openCall _ => exact absurd rfl hts
  | closeCall hcall _ _ => cases hcall
  | lookup hv hscalar _ hstep =>
    refine ⟨_, hv, hscalar, ?_⟩
    intro t ht
    exact (ReadStep.literal ht).accepts (hstep.of_complete.accepts hrest)

/-! ## What the order of the rules adds

Two rewritings would spoil what is read: that of the parentheses of a call, and that of two
arguments to the right of a first one which is still alone. Both are overtaken. -/

theorem ReadStep.eq_name {t : Token} {f : String} {frames : List Frame}
    (h : ReadStep host state a t (.named f frames)) : t = .name f := by
  cases h with
  | name => rfl
  | lookup _ _ _ h => cases h

theorem ReadStep.scalar?_of_complete_true {t : Token} {w : Value} {frames : List Frame}
    (h : ReadStep host state a t (.complete w true frames)) : t.scalar? = some w := by
  cases h with
  | literal h => exact h
  | lookup _ _ _ h => cases h

theorem ReadStep.of_second {t : Token} {f : String} {w : Value} {frames : List Frame}
    (h : ReadStep host state a t (.expecting (.second true f w :: frames))) :
    t = .comma ∧ a = .complete w true (.first true f :: frames) := by
  cases h with
  | commaFirst h => exact ⟨rfl, by rw [h rfl]⟩
  | lookup _ _ _ h =>
    cases h with
    | commaFirst h => cases h rfl

theorem ne_named_of_unwrap {r : Redex} {x : Float} (hfind : Redex.find? ts = some r)
    (hwindow : r.window = [.openParen, .number x, .closeParen])
    (h : Reads (ReadStep host state) (.expecting []) r.before a) : ∀ f frames, a ≠ .named f frames := by
  rintro f frames rfl
  rcases h.last with ⟨-, he⟩ | ⟨front, t, b, hbefore, -, hstep⟩
  · cases he
  · refine Redex.getLast?_before_ne_name hfind hwindow f ?_
    rw [hbefore, hstep.eq_name, List.getLast?_concat]

theorem ne_second_of_pair {r : Redex} {t u : Token} {v w : Value}
    (hfind : Redex.find? ts = some r) (ht : t.scalar? = some v) (hu : u.scalar? = some w)
    (hwindow : r.window = [t, .comma, u]) (h : Reads (ReadStep host state) (.expecting []) r.before a) :
    ∀ f w frames, a ≠ .expecting (.second true f w :: frames) := by
  rintro f z frames rfl
  rcases h.last with ⟨-, he⟩ | ⟨front, _, b, hbefore, hfront, hstep⟩
  · cases he
  · obtain ⟨rfl, rfl⟩ := hstep.of_second
    rcases hfront.last with ⟨-, he⟩ | ⟨front', t', b', rfl, -, hstep'⟩
    · cases he
    · have hm : Rule.argumentPair.Matches r.window r.after :=
        hwindow ▸ Rule.matches_argumentPair ht hu
      have hrule : r.rule = Rule.argumentPair := Redex.rule_eq hfind (by decide) hm.fits
      have hts : ts = front' ++ ([t', .comma, t] ++ .comma :: u :: r.after) := by
        rw [(Redex.find?_eq_some hfind).2.1, Redex.program, hwindow, hbefore]
        simp
      have hle := Redex.find?_leftmost hfind hts
        (hrule ▸ Rule.matches_argumentPair hstep'.scalar?_of_complete_true ht)
      rw [hbefore, List.length_append, List.length_append] at hle
      simp only [List.length_cons, List.length_nil] at hle
      omega

/-- **A rewriting succeeds and changes nothing of the value that is read.** -/
theorem accepts_result {r : Redex} (hfind : Redex.find? ts = some r)
    (hdetermined : host.functions.ArgumentDetermined)
    (h : Accepts host state (.expecting []) ts v) (state' : σ) :
    ∃ new state'', r.rule.action.rewrite host state' r.window = (.ok new, state'') ∧
      Accepts host state (.expecting []) (r.result new) v := by
  obtain ⟨replacement, hcontracts, hrewrite⟩ := Redex.exists_contracts hfind
  rw [(Redex.find?_eq_some hfind).2.1, Redex.program] at h
  obtain ⟨a, hbefore, h⟩ := h.split
  rw [hrewrite]
  generalize hwindow : r.window = window at hcontracts h
  cases hcontracts with
  | wrapArgument f ht => exact ⟨_, state', rfl, hbefore.accepts (h.wrapArgument ht)⟩
  | multiply x y => exact absurd h not_accepts_multiply
  | unwrap x =>
    exact ⟨_, state', rfl, hbefore.accepts (h.unwrap (ne_named_of_unwrap hfind hwindow hbefore))⟩
  | operate x o y => exact ⟨_, state', rfl, hbefore.accepts h.operate⟩
  | pair ht hu =>
    refine ⟨_, state', rfl, hbefore.accepts ?_⟩
    exact h.pair ht hu (ne_second_of_pair hfind ht hu hwindow hbefore)
  | append vs ht => exact ⟨_, state', rfl, hbefore.accepts (h.append ht)⟩
  | concatenate vs ws => exact ⟨_, state', rfl, hbefore.accepts h.concatenate⟩
  | wrapNothing f => exact ⟨_, state', rfl, hbefore.accepts h.wrapNothing⟩
  | call f vs =>
    obtain ⟨w, hw, hscalar, hafter⟩ := h.call
    obtain ⟨t, ht, ht'⟩ := Token.exists_of_isScalar hscalar
    rw [hdetermined f vs state state'] at hw
    exact ⟨_, _, Replacement.resolve_result hw ht, hbefore.accepts (hafter t ht')⟩
  | substitute x =>
    obtain ⟨w, hw, hscalar, hafter⟩ := h.substitute (Redex.head?_after_ne_openParen hfind hwindow)
    obtain ⟨t, ht, ht'⟩ := Token.exists_of_isScalar hscalar
    exact ⟨_, _, Replacement.resolve_binding hw ht, hbefore.accepts (hafter t ht')⟩

/-! ## Something can be rewritten

In a formula that is read, some rule matches not far behind each parenthesis that opens: either the
tokens after it close it soon, or they open another one. -/

theorem Token.eq_number_of_scalar? {t : Token} {x : Float} (h : t.scalar? = some (.number x)) :
    t = .number x := by
  cases t <;> simp_all [Token.scalar?]

/-- Some rule matches behind each opening parenthesis from which `ts` is read on. -/
def MatchesBehindParen (host : Host σ) (state : σ) (v : Value) (ts : List Token) : Prop :=
  (∀ frames, Accepts host state (.expecting (.opened :: frames)) ts v →
    HasMatch (.openParen :: ts)) ∧
  ∀ long f frames, Accepts host state (.expecting (.first long f :: frames)) ts v →
    HasMatch (.name f :: .openParen :: ts)

/-- What can come where an operand or an argument is expected, if nothing matches yet. -/
theorem Accepts.next {frames : List Frame}
    (ih : ∀ us : List Token, us.length < ts.length → MatchesBehindParen host state v us)
    (h : Accepts host state (.expecting frames) ts v) :
    HasMatch ts ∨
      (∃ t w rest, ts = t :: rest ∧ t.scalar? = some w ∧
        Accepts host state (.complete w true frames) rest v) ∨
      (∃ vs rest b, ts = .args vs :: rest ∧
        ReadStep host state (.expecting frames) (.args vs) b ∧ Accepts host state b rest v) ∨
      ∃ rest, ts = .closeParen :: rest ∧ (Reading.expecting frames).call? ≠ none := by
  obtain ⟨t, ts, b, rfl, hstep, hts⟩ := h.exists_step (by simp)
  cases hstep with
  | literal ht => exact .inr (.inl ⟨t, _, ts, rfl, ht, hts⟩)
  | firstArgs => exact .inr (.inr (.inl ⟨_, ts, _, rfl, .firstArgs, hts⟩))
  | laterArgs => exact .inr (.inr (.inl ⟨_, ts, _, rfl, .laterArgs, hts⟩))
  | closeCall hcall _ _ => exact .inr (.inr (.inr ⟨ts, rfl, by simp [hcall]⟩))
  | openOperation => exact .inl ((ih ts (by simp)).1 _ hts)
  | @name x =>
    left
    obtain ⟨u, rest, _, rfl, hstep', hrest⟩ := hts.exists_step (by simp)
    by_cases hu : u = .openParen
    · subst hu
      cases hstep' with
      | openCall long =>
        have hless : rest.length < (Token.name x :: .openParen :: rest).length :=
          Nat.lt_succ_of_lt (Nat.lt_succ_self _)
        exact (ih rest hless).2 _ _ _ hrest
      | lookup _ _ ht _ => exact absurd rfl ht
    · exact .front (by decide) (Rule.matches_substitution x (by simpa using hu))

theorem Accepts.matches_of_opened {frames : List Frame}
    (ih : ∀ us : List Token, us.length < ts.length → MatchesBehindParen host state v us)
    (h : Accepts host state (.expecting (.opened :: frames)) ts v) :
    HasMatch (.openParen :: ts) := by
  rcases h.next ih with hm | ⟨t, w, rest, rfl, ht, hrest⟩ | ⟨vs, rest, b, rfl, hargs, -⟩
    | ⟨rest, rfl, hcall⟩
  · exact hm.cons _
  · obtain ⟨u, rest, _, rfl, hstep, hrest⟩ := hrest.exists_step (by simp)
    cases hstep with
    | closeCall hcall _ _ => cases hcall
    | closeNumber =>
      obtain rfl := Token.eq_number_of_scalar? ht
      exact .front (by decide)
        (Rule.matches_redundantParentheses _)
    | @operator x literal frames o =>
      obtain rfl := Token.eq_number_of_scalar? ht
      rcases hrest.next (fun us hus => ih us (by simp; omega)) with
        hm | ⟨t', y, rest, rfl, ht', hrest⟩ | ⟨vs, rest, b, rfl, hargs, -⟩ | ⟨rest, rfl, hcall⟩
      · exact hm.append [.openParen, .number x, .operator o]
      · obtain ⟨u, rest, _, rfl, hclose, -⟩ := hrest.exists_step (by simp)
        cases hclose with
        | closeCall hcall _ _ => cases hcall
        | closeOperation =>
          obtain rfl := Token.eq_number_of_scalar? ht'
          exact (HasMatch.front (Rule.ofOperator_mem o) (Rule.matches_ofOperator o x _)).cons _
      · rcases hargs.of_args with ⟨_, _, _, he, -⟩ | ⟨_, _, _, he, -⟩ <;> cases he
      · exact absurd rfl hcall
  · rcases hargs.of_args with ⟨_, _, _, he, -⟩ | ⟨_, _, _, he, -⟩ <;> cases he
  · exact absurd rfl hcall

theorem Accepts.matches_of_call {long : Bool} {f : String} {frames : List Frame}
    (ih : ∀ us : List Token, us.length < ts.length → MatchesBehindParen host state v us)
    (h : Accepts host state (.expecting (.first long f :: frames)) ts v) :
    HasMatch (.name f :: .openParen :: ts) := by
  rcases h.next ih with hm | ⟨t, w, rest, rfl, ht, hrest⟩ | ⟨vs, rest, b, rfl, hargs, hrest⟩
    | ⟨rest, rfl, -⟩
  · exact hm.append [.name f, .openParen]
  · obtain ⟨u, rest, _, rfl, hstep, hrest⟩ := hrest.exists_step (by simp)
    cases hstep with
    | closeCall _ _ _ => exact .front (by decide) (Rule.matches_singleArgument f ht)
    | commaFirst _ =>
      rcases hrest.next (fun us hus => ih us (by simp; omega)) with
        hm | ⟨t', y, rest, rfl, ht', -⟩ | ⟨vs, rest, b, rfl, hargs, -⟩ | ⟨rest, rfl, hcall⟩
      · exact hm.append [.name f, .openParen, t, .comma]
      · have hm : HasMatch ([t, .comma, t'] ++ rest) :=
          .front (by decide) (Rule.matches_argumentPair ht ht')
        exact hm.append [.name f, .openParen]
      · rcases hargs.of_args with ⟨_, _, _, he, -⟩ | ⟨_, _, _, he, -⟩ <;> cases he
      · exact absurd rfl hcall
  · rcases hargs.of_args with ⟨_, _, _, he, rfl⟩ | ⟨_, _, _, he, rfl⟩ <;> cases he
    obtain ⟨u, rest, _, rfl, hstep, hrest⟩ := hrest.exists_step (by simp)
    cases hstep with
    | closeCall _ _ _ => exact .front (by decide) (Rule.matches_call f vs)
    | commaCollected =>
      rcases hrest.next (fun us hus => ih us (by simp; omega)) with
        hm | ⟨t', y, rest, rfl, ht', -⟩ | ⟨ws, rest, b, rfl, -, -⟩ | ⟨rest, rfl, hcall⟩
      · exact hm.append [.name f, .openParen, .args vs, .comma]
      · have hm : HasMatch ([.args vs, .comma, t'] ++ rest) :=
          .front (by decide) (Rule.matches_appendArgument vs ht')
        exact hm.append [.name f, .openParen]
      · have hm : HasMatch ([.args vs, .comma, .args ws] ++ rest) :=
          .front (by decide) (Rule.matches_concatenateArguments vs ws)
        exact hm.append [.name f, .openParen]
      · exact absurd rfl hcall
  · exact .front (by decide) (Rule.matches_noArguments f)

theorem matchesBehindParen (ts : List Token) : MatchesBehindParen host state v ts := by
  induction hn : ts.length using Nat.strongRecOn generalizing ts with
  | ind n ih =>
    have hshorter : ∀ us : List Token, us.length < ts.length →
        MatchesBehindParen host state v us := fun us hus => ih us.length (hn ▸ hus) us rfl
    exact ⟨fun _ h => h.matches_of_opened hshorter, fun _ _ _ h => h.matches_of_call hshorter⟩

/-- **As long as more than one token is left, something can be rewritten.** -/
theorem hasMatch_of_accepts (h : Accepts host state (.expecting []) ts v)
    (hts : isReduced ts = false) : HasMatch ts := by
  rcases h.next (fun us _ => matchesBehindParen us) with hm | ⟨t, w, rest, rfl, ht, hrest⟩
    | ⟨vs, rest, b, rfl, hargs, -⟩ | ⟨rest, rfl, hcall⟩
  · exact hm
  · cases rest with
    | nil => cases hts
    | cons u rest =>
      obtain ⟨_, hstep, -⟩ := hrest.uncons
      cases hstep with
      | closeCall hcall _ _ => cases hcall
  · rcases hargs.of_args with ⟨_, _, _, he, -⟩ | ⟨_, _, _, he, -⟩ <;> cases he
  · exact absurd rfl hcall

theorem finish_of_accepts (h : Accepts host state (.expecting []) ts v)
    (hts : isReduced ts = true) : finish ts = .ok v := by
  cases ts with
  | nil =>
    obtain ⟨literal, hend⟩ := Formula.Accepts.done_of_nil h
    cases hend
  | cons t ts =>
    cases ts with
    | cons u ts => simp [isReduced] at hts
    | nil =>
      obtain ⟨b, hstep, hrest⟩ := h.uncons
      obtain ⟨literal, rfl⟩ := Formula.Accepts.done_of_nil hrest
      cases hstep with
      | literal ht => simp [finish, ht]
      | closeCall hcall _ _ => cases hcall

/-- A formula that is read has the value that is read. -/
theorem run_eq_ok_of_accepts (hdetermined : host.functions.ArgumentDetermined) {state' : σ}
    (h : Accepts host state (.expecting []) ts v) : (run host state' ts).outcome = .ok v := by
  have hstep : ∀ ts state', Accepts host state (.expecting []) ts v → isReduced ts = false →
      ∃ r new state'', Redex.find? ts = some r ∧
        r.rule.action.rewrite host state' r.window = (.ok new, state'') ∧
          Accepts host state (.expecting []) (r.result new) v := by
    intro ts state' h hts
    obtain ⟨r, hfind⟩ := (hasMatch_of_accepts h hts).exists_find?
    obtain ⟨new, state'', hnew, hresult⟩ := accepts_result hfind hdetermined h state'
    exact ⟨r, new, state'', hfind, hnew, hresult⟩
  obtain ⟨left, hleft, hreduced, houtcome⟩ := exists_finish_of_invariant hstep h
  rw [houtcome, finish_of_accepts hleft hreduced]

end Nested

end Formula
