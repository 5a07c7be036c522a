import Formula.Proofs.Names

/-! # What an evaluation depends on

Two hosts that answer alike about the names of a formula, each name in the use that is made of it,
lead to the same run. The rewriting of a window asks about one of the names at most, and the names
that are left after it were there before, with the same use (`Redex.namesFor_eq`). So what is bound to
a name that is only called, or what a variable's name would call, is never asked for. -/

namespace Formula

variable {σ τ : Type} {host : Host σ} {host' : Host τ} {ts us : List Token} {r : Redex}

/-- The hosts give the same answers about the names of a formula, whatever their states are. -/
structure Host.AgreeOn (host : Host σ) (host' : Host τ) (ts : List Token) : Prop where
  lookup : ∀ x ∈ namesFor .lookup ts, host.bindings.get? x = host'.bindings.get? x
  call : ∀ f ∈ namesFor .call ts, ∀ args state state',
    (host.functions.call f args state).1 = (host'.functions.call f args state').1

theorem Host.AgreeOn.mono (h : host.AgreeOn host' ts)
    (hnames : ∀ use, namesFor use us ≤ namesFor use ts) : host.AgreeOn host' us where
  lookup x hx := h.lookup x (Multiset.mem_of_le (hnames .lookup) hx)
  call f hf := h.call f (Multiset.mem_of_le (hnames .call) hf)

/-- Tables with the same functions behind the called names answer alike. -/
theorem Functions.call_eq_of_eq {functions functions' : Functions σ} {f : String}
    (hdetermined : functions.ArgumentDetermined) (h : functions f = functions' f)
    (args : List Value) (state state' : σ) :
    (functions.call f args state).1 = (functions'.call f args state').1 := by
  have hresolve : functions'.resolve? f = functions.resolve? f := by
    unfold resolve?
    rw [h]
  have hcall : functions'.call f args state' = functions.call f args state' := by
    unfold Functions.call
    rw [hresolve]
  rw [hcall]
  exact hdetermined f args state state'

/-! ## One rewriting -/

theorem Replacement.resolve_eq_of_agree {replacement : Replacement}
    (hlookup : ∀ x ∈ replacement.nameFor .lookup, host.bindings.get? x = host'.bindings.get? x)
    (hcall : ∀ f ∈ replacement.nameFor .call, ∀ args state state',
      (host.functions.call f args state).1 = (host'.functions.call f args state').1)
    (state : σ) (state' : τ) :
    (replacement.resolve host state).1 = (replacement.resolve host' state').1 := by
  cases replacement with
  | tokens ts => rfl
  | binding x =>
    have hx := hlookup x (Multiset.mem_singleton_self x)
    rw [resolve, resolve, hx]
    split <;> rfl
  | result f vs =>
    have hf := hcall f (Multiset.mem_singleton_self f) vs state state'
    rw [resolve, resolve]
    split <;> rename_i h <;> split <;> rename_i h' <;> rw [h, h'] at hf <;> cases hf <;> rfl

/-- **Hosts that agree rewrite alike.** -/
theorem Host.AgreeOn.rewrite_eq (h : host.AgreeOn host' ts) (hfind : Redex.find? ts = some r)
    (state : σ) (state' : τ) :
    (r.rule.action.rewrite host state r.window).1
      = (r.rule.action.rewrite host' state' r.window).1 := by
  obtain ⟨replacement, hcontracts, hrewrite⟩ := Redex.exists_contracts hfind
  have hasked : ∀ use, replacement.nameFor use ≤ namesFor use ts := by
    intro use
    rw [Redex.namesFor_program hfind, hcontracts.namesFor_eq]
    exact (Multiset.le_add_right _ _).trans
      ((Multiset.le_add_right _ _).trans (Multiset.le_add_left _ _))
  rw [hrewrite, hrewrite]
  exact Replacement.resolve_eq_of_agree
    (fun x hx => h.lookup x (Multiset.mem_of_le (hasked .lookup) hx))
    (fun f hf => h.call f (Multiset.mem_of_le (hasked .call) hf)) state state'

/-- Hosts that agree on what is rewritten agree on what it becomes. -/
theorem Host.AgreeOn.result {state state' : σ} {new : List Token} (h : host.AgreeOn host' ts)
    (hfind : Redex.find? ts = some r)
    (hnew : r.rule.action.rewrite host state r.window = (.ok new, state')) :
    host.AgreeOn host' (r.result new) := by
  obtain ⟨replacement, hreplacement, hcontracts⟩ := Redex.exists_replacement hfind
  refine h.mono ?_
  intro use
  rw [Redex.namesFor_eq hfind hreplacement hcontracts hnew]
  exact Multiset.le_add_left _ _

/-! ## Whole runs -/

/-- Two runs take the same steps to the same outcome. They may leave their hosts in other states. -/
def Run.Alike (run : Run σ) (run' : Run τ) : Prop :=
  run.outcome = run'.outcome ∧ run.steps = run'.steps

/-- **Hosts that agree on the names of a formula evaluate it alike.** -/
theorem Host.AgreeOn.alike (h : host.AgreeOn host' ts) (state : σ) (state' : τ) :
    (run host state ts).Alike (run host' state' ts) := by
  induction state, ts using run_induction host generalizing state' with
  | reduced state ts hr =>
    rw [run_of_isReduced hr, run_of_isReduced hr]
    exact ⟨rfl, rfl⟩
  | stuck state ts hr hfind =>
    rw [run_of_find?_eq_none hr hfind, run_of_find?_eq_none hr hfind]
    exact ⟨rfl, rfl⟩
  | failed state ts r e later hr hfind hnew =>
    have hnew' : r.rule.action.rewrite host' state' r.window = (.error e, _) :=
      Prod.ext (by rw [← h.rewrite_eq hfind state state', hnew]) rfl
    rw [run_of_rewrite_eq_error hr hfind hnew, run_of_rewrite_eq_error hr hfind hnew']
    exact ⟨rfl, rfl⟩
  | rewritten state ts r new later hr hfind hnew ih =>
    have hnew' : r.rule.action.rewrite host' state' r.window = (.ok new, _) :=
      Prod.ext (by rw [← h.rewrite_eq hfind state state', hnew]) rfl
    rw [run_of_rewrite_eq_ok hr hfind hnew, run_of_rewrite_eq_ok hr hfind hnew']
    obtain ⟨houtcome, hsteps⟩ := ih (h.result hfind hnew) _
    exact ⟨houtcome, congrArg (r.step new :: ·) hsteps⟩

/-! ## Names in the other use -/

/-- The host with a variable more. -/
def Host.bind (host : Host σ) (x : String) (v : Value) : Host σ :=
  { host with bindings := host.bindings.insert x v }

/-- The host with a function more, in place of any other of that name. -/
def Host.offer (host : Host σ) (f : String) (function : Function σ) : Host σ :=
  { host with functions := fun g => if g = f then some function else host.functions g }

theorem Host.agreeOn_of_eq {host host' : Host σ} (hdetermined : host.functions.ArgumentDetermined)
    (hlookup : ∀ x ∈ namesFor .lookup ts, host.bindings.get? x = host'.bindings.get? x)
    (hcall : ∀ f ∈ namesFor .call ts, host.functions f = host'.functions f) :
    host.AgreeOn host' ts :=
  ⟨hlookup, fun f hf => Functions.call_eq_of_eq hdetermined (hcall f hf)⟩

theorem Host.agreeOn_bind (hdetermined : host.functions.ArgumentDetermined) {x : String}
    (hx : x ∉ namesFor .lookup ts) (v : Value) : host.AgreeOn (host.bind x v) ts := by
  refine agreeOn_of_eq hdetermined ?_ fun _ _ => rfl
  intro y hy
  have hne : y ≠ x := fun he => hx (he ▸ hy)
  rw [bind, Bindings.get?_insert, if_neg hne]

theorem Host.agreeOn_offer (hdetermined : host.functions.ArgumentDetermined) {f : String}
    (hf : f ∉ namesFor .call ts) (function : Function σ) :
    host.AgreeOn (host.offer f function) ts := by
  refine agreeOn_of_eq hdetermined (fun _ _ => rfl) ?_
  intro g hg
  have hne : g ≠ f := fun he => hf (he ▸ hg)
  exact (if_neg hne).symm

/-- **An evaluation depends on the names of its formula only, each in the use that is made of it.**
Where the variables have the same values and the called names the same functions, the outcome is the
same and so is every step to it. In particular nothing changes if a value is bound to a name that is
no variable, or if there is a function behind a name that is not called. -/
theorem run_alike_of_same_names :
    (∀ (σ : Type) (host host' : Host σ) (state state' : σ) (ts : List Token),
      host.functions.ArgumentDetermined →
      (∀ x ∈ namesFor .lookup ts, host.bindings.get? x = host'.bindings.get? x) →
      (∀ f ∈ namesFor .call ts, host.functions f = host'.functions f) →
        (run host state ts).Alike (run host' state' ts)) ∧
    (∀ (σ : Type) (host : Host σ) (state : σ) (ts : List Token) (x : String) (v : Value)
      (function : Function σ), host.functions.ArgumentDetermined →
        (x ∉ namesFor .lookup ts → (run host state ts).Alike (run (host.bind x v) state ts)) ∧
          (x ∉ namesFor .call ts →
            (run host state ts).Alike (run (host.offer x function) state ts))) := by
  refine ⟨?_, ?_⟩
  · intro σ host host' state state' ts hdetermined hlookup hcall
    exact (Host.agreeOn_of_eq hdetermined hlookup hcall).alike state state'
  · intro σ host state ts x v function hdetermined
    exact ⟨fun hx => (Host.agreeOn_bind hdetermined hx v).alike state state,
      fun hx => (Host.agreeOn_offer hdetermined hx function).alike state state⟩

/-- In `mean(if, 3)` the first name is that of a function and the second one that of a variable: a
variable `mean` and a function `if` make no difference. -/
theorem run_alike_of_same_names_mean :
    ∃ (host : Host Unit) (function : Function Unit) (ts : List Token),
      host = ⟨Bindings.empty.insert "if" (.number 1), Functions.none⟩ ∧
      function = Function.pure (fun _ => .error "never called") ∧
      ts = [.name "mean", .openParen, .name "if", .comma, .number 3, .closeParen] ∧
      (run host () ts).outcome = .ok (.number 2) ∧
      (run host () ts).Alike (run ((host.bind "mean" .empty).offer "if" function) () ts) ∧
      (run host () ts).Alike (run (host.bind "mean" .empty) () ts) ∧
      (run host () ts).Alike (run (host.offer "if" function) () ts) := by
  refine ⟨_, _, _, rfl, rfl, rfl, by decide +kernel, ?_, ?_, ?_⟩
  · refine run_alike_of_same_names.1 _ _ _ _ _ _ Functions.none_argumentDetermined (by decide) ?_
    intro f hf
    obtain rfl : f = "mean" := Multiset.mem_singleton.mp hf
    rfl
  · exact (run_alike_of_same_names.2 _ _ _ _ _ _ (Function.pure fun _ => .error "never called")
      Functions.none_argumentDetermined).1 (by decide)
  · exact (run_alike_of_same_names.2 _ _ _ _ _ .empty _ Functions.none_argumentDetermined).2
      (by decide)

end Formula
