import Formula.Proofs.Yield

/-! # How long a reduction takes

A rewriting need not make the tokens fewer: arguments are wrapped in place, and those of an empty
call even take a token more. But every rewriting uses up a name, an operator, a comma or a closing
parenthesis for good, so there are not more rewritings than these (`work`), and no rewriting makes a
new empty call. -/

namespace Formula

variable {σ : Type} {host : Host σ} {state state' : σ} {ts us new : List Token} {t : Token}

/-! ## The number of rewritings -/

/-- The names, operators, commas and closing parentheses among tokens. -/
def expense (ts : List Token) : Nat :=
  ts.countP (· matches .name _) + ts.countP (· matches .operator _) + ts.count .comma
    + ts.count .closeParen

theorem work_le_expense (afterArgs : Bool) (ts : List Token) : work afterArgs ts ≤ expense ts := by
  induction ts generalizing afterArgs with
  | nil => exact Nat.le_refl 0
  | cons t ts ih =>
    have hfalse := ih false
    have htrue := ih true
    unfold expense at hfalse htrue ⊢
    cases t <;> cases afterArgs <;> simp [work] <;> omega

theorem expense_le_length (ts : List Token) : expense ts ≤ ts.length := by
  induction ts with
  | nil => exact Nat.le_refl 0
  | cons t ts ih =>
    unfold expense at ih ⊢
    cases t <;> simp <;> omega

theorem length_steps_le_work (host : Host σ) (state : σ) (ts : List Token) :
    (run host state ts).steps.length ≤ work false ts := by
  induction state, ts using run_induction host with
  | reduced state ts hr => simp [run_of_isReduced hr]
  | stuck state ts hr hfind => simp [run_of_find?_eq_none hr hfind]
  | failed state ts r e state' hr hfind hnew => simp [run_of_rewrite_eq_error hr hfind hnew]
  | rewritten state ts r new state' hr hfind hnew ih =>
    have hless : work false (r.result new) < work false ts :=
      Redex.work_rewrite_lt hfind (by rw [hnew])
    rw [run_of_rewrite_eq_ok hr hfind hnew, List.length_cons]
    exact Nat.lt_of_le_of_lt ih hless

/-! ## The number of tokens -/

/-- The places where a name is followed by an opening and at once by a closing parenthesis. -/
def emptyCalls : List Token → Nat
  | .name _ :: .openParen :: .closeParen :: ts => emptyCalls ts + 1
  | _ :: ts => emptyCalls ts
  | [] => 0

theorem emptyCalls_le_cons (t : Token) (ts : List Token) :
    emptyCalls ts ≤ emptyCalls (t :: ts) := by
  by_cases h : ∃ f us, t = .name f ∧ ts = .openParen :: .closeParen :: us
  · obtain ⟨f, us, rfl, rfl⟩ := h
    simp [emptyCalls]
  · have hcons : emptyCalls (t :: ts) = emptyCalls ts := by
      rw [emptyCalls]
      intro f us ht hts
      exact h ⟨f, us, ht, hts⟩
    exact Nat.le_of_eq hcons.symm

theorem emptyCalls_add_le (ts us : List Token) :
    emptyCalls ts + emptyCalls us ≤ emptyCalls (ts ++ us) := by
  fun_induction emptyCalls ts with
  | case1 f ts ih =>
    simp only [List.cons_append, emptyCalls]
    omega
  | case2 t ts _ ih => exact Nat.le_trans ih (emptyCalls_le_cons t (ts ++ us))
  | case3 => simp

/-- No place of an empty call reaches over a token that is no parenthesis. -/
theorem emptyCalls_append_cons (ts : List Token) (hopen : t ≠ .openParen) (hclose : t ≠ .closeParen)
    (us : List Token) : emptyCalls (ts ++ t :: us) = emptyCalls ts + emptyCalls (t :: us) := by
  fun_induction emptyCalls ts with
  | case1 f ts ih =>
    simp only [List.cons_append, emptyCalls]
    omega
  | case2 u ts hnot ih =>
    rw [List.cons_append, emptyCalls, ih]
    intro f vs hu hvs
    match ts, hvs, hnot with
    | [], hvs, _ => exact hopen (List.cons.inj hvs).1
    | [_], hvs, _ => exact hclose (List.cons.inj (List.cons.inj hvs).2).1
    | _ :: _ :: ts, hvs, hnot =>
      simp only [List.cons_append, List.cons.injEq] at hvs
      obtain ⟨rfl, rfl, -⟩ := hvs
      exact hnot f ts hu rfl
  | case3 => simp

theorem emptyCalls_leaves {window : List Token} (h : Leaves window new) (before after : List Token) :
    emptyCalls (before ++ (new ++ after)) = emptyCalls before + emptyCalls after := by
  cases h with
  | @values _ t vs ht =>
    have hname : emptyCalls (t :: after) = emptyCalls after := by
      cases t <;> simp [emptyCalls, Token.values?, Token.scalar?] at ht ⊢
    have hopen : t ≠ .openParen := by rintro rfl; cases ht
    have hclose : t ≠ .closeParen := by rintro rfl; cases ht
    rw [List.singleton_append, emptyCalls_append_cons before hopen hclose, hname]
  | wrapped f inner vs =>
    rw [List.cons_append, emptyCalls_append_cons before (by simp) (by simp)]
    simp [emptyCalls]

theorem length_le_of_leaves {window : List Token} (h : Leaves window new) (hwindow : window ≠ []) :
    new.length ≤ window.length + emptyCalls window := by
  cases h with
  | values _ =>
    have hpos := List.length_pos_iff.mpr hwindow
    simp only [List.length_singleton]
    omega
  | wrapped f inner vs =>
    cases inner with
    | nil => simp [emptyCalls]
    | cons t inner => simp; omega

/-- A token that a rewriting adds is paid for with an empty call. -/
theorem length_result_add_emptyCalls_le {r : Redex} (hfind : Redex.find? ts = some r)
    (hnew : r.rule.action.rewrite host state r.window = (.ok new, state')) :
    (r.result new).length + emptyCalls (r.result new) ≤ ts.length + emptyCalls ts := by
  have hleaves := Redex.leaves hfind hnew
  have hwindow : r.window ≠ [] := Redex.window_ne_nil hfind
  have hlength := length_le_of_leaves hleaves hwindow
  have hsplit := emptyCalls_add_le r.before (r.window ++ r.after)
  have hsplit' := emptyCalls_add_le r.window r.after
  rw [(Redex.find?_eq_some hfind).2.1, Redex.program, Redex.result, emptyCalls_leaves hleaves]
  simp only [List.length_append]
  omega

/-- **A reduction ends after a number of rewritings that is linear in its tokens**, and on the way
there are never more tokens than there were, together with the empty calls among them. -/
theorem length_steps_le_expense (host : Host σ) (state : σ) (ts : List Token) :
    (run host state ts).steps.length ≤ expense ts ∧ expense ts ≤ ts.length ∧
      ∀ us ∈ programs host state ts, us.length ≤ ts.length + emptyCalls ts := by
  refine ⟨?_, expense_le_length ts, ?_⟩
  · exact Nat.le_trans (length_steps_le_work host state ts) (work_le_expense false ts)
  · intro us hus
    have hkept : us.length + emptyCalls us ≤ ts.length + emptyCalls ts :=
      forall_mem_programs (I := fun us => us.length + emptyCalls us ≤ ts.length + emptyCalls ts)
        (fun _ _ _ _ _ hfind hnew h => Nat.le_trans (length_result_add_emptyCalls_le hfind hnew) h)
        state ts (Nat.le_refl _) us hus
    omega

/-- A call without arguments takes a token more on the way, and both its name and its closing
parenthesis are used up. -/
theorem length_steps_le_expense_join :
    [.name "join", .openParen, .args [], .closeParen]
        ∈ programs { bindings := Bindings.empty, functions := Functions.none } ()
          [.name "join", .openParen, .closeParen] ∧
      [Token.name "join", .openParen, .args [], .closeParen].length
        ≤ [Token.name "join", .openParen, .closeParen].length + 1 := by
  have hmem : [.name "join", .openParen, .args [], .closeParen]
      ∈ programs { bindings := Bindings.empty, functions := Functions.none } ()
        [.name "join", .openParen, .closeParen] := by decide +kernel
  exact ⟨hmem, (length_steps_le_expense _ () _).2.2 _ hmem⟩

end Formula
