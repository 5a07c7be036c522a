import Formula.Proofs.Nested.Rewriting

/-! # The value of a formula with all its parentheses

The text of a tree is read with the value of the tree (`reads_tokens`), so this is what the formula
evaluates to, although no tree is ever built. -/

namespace Formula

namespace Nested

variable {σ : Type} {host : Host σ} {state : σ} {a b c : Reading} {ts us : List Token} {v : Value}

/-- The reading `b` stands behind the text of `t`, with the value `v`. A name may still turn out to
be that of a function, so it is only looked up at the next token. -/
structure Stands (host : Host σ) (state : σ) (t : Nested) (v : Value) (frames : List Frame)
    (b : Reading) : Prop where
  goesOn : ∀ u c, u ≠ .openParen → ReadStep host state (.complete v t.isLiteral frames) u c →
    ReadStep host state b u c
  complete : (∀ x, t ≠ .name x) → b = .complete v t.isLiteral frames

theorem Stands.refl {t : Nested} {frames : List Frame} :
    Stands host state t v frames (.complete v t.isLiteral frames) :=
  ⟨fun _ _ _ h => h, fun _ => rfl⟩

/-- A closing parenthesis calls `f` with the arguments that have been read. -/
def Closes (host : Host σ) (state : σ) (f : String) (vs : List Value) (frames : List Frame)
    (b : Reading) : Prop :=
  ∀ v, (host.functions.call f vs state).1 = .ok v → v.isScalar = true →
    ReadStep host state b .closeParen (.complete v false frames)

/-- The same, and the arguments need no partner any more when another one comes. -/
structure Gathers (host : Host σ) (state : σ) (f : String) (vs : List Value) (frames : List Frame)
    (b : Reading) : Prop where
  closes : Closes host state f vs frames b
  comma : ReadStep host state b .comma (.expecting (.later f vs :: frames))

theorem Stands.closes {t : Nested} {frame : Frame} {frames : List Frame} {f : String}
    {vs : List Value} (h : Stands host state t v (frame :: frames) b)
    (hcall : (Reading.complete v t.isLiteral (frame :: frames)).call? = some (f, vs, frames)) :
    Closes host state f vs frames b := fun _ hw hscalar =>
  h.goesOn _ _ (by simp) (.closeCall hcall hw hscalar)

theorem Stands.gathers {t : Nested} {frames : List Frame} {f : String} {vs : List Value}
    (h : Stands host state t v (.later f vs :: frames) b) :
    Gathers host state f (vs ++ [v]) frames b :=
  ⟨h.closes rfl, h.goesOn _ _ (by simp) .commaLater⟩

theorem values?_cons_eq_some {t : Nested} {rest : List Nested} {vs : List Value}
    (h : values? host state (t :: rest) = some vs) :
    ∃ w ws, t.value? host state = some w ∧ values? host state rest = some ws ∧ vs = w :: ws := by
  rw [values?] at h
  split at h
  · rename_i w ws hw hws
    cases h
    exact ⟨w, ws, hw, hws, rfl⟩
  · cases h

mutual

theorem reads_tokens : ∀ (t : Nested) {v : Value} (frames : List Frame), t.Regular →
    t.value? host state = some v →
      ∃ b, Reads (ReadStep host state) (.expecting frames) t.tokens b ∧ Stands host state t v frames b
  | .number x, _, _, _, hv => by
    cases hv
    exact ⟨_, .cons (.literal rfl) .nil, .refl⟩
  | .text s, _, _, _, hv => by
    cases hv
    exact ⟨_, .cons (.literal rfl) .nil, .refl⟩
  | .bool b, _, _, _, hv => by
    cases hv
    exact ⟨_, .cons (.literal rfl) .nil, .refl⟩
  | .name x, v, frames, _, hv => by
    obtain ⟨hget, hscalar⟩ := Option.filter_eq_some_iff.mp hv
    exact ⟨_, .cons .name .nil, fun u c hu h => .lookup hget hscalar hu h, fun hx => absurd rfl (hx x)⟩
  | .operation l o r, v, frames, hregular, hv => by
    rw [value?] at hv
    split at hv
    · rename_i x y hl hr
      cases hv
      obtain ⟨b, hreadsl, hstandsl⟩ := reads_tokens l (.opened :: frames) hregular.1 hl
      obtain ⟨c, hreadsr, hstandsr⟩ := reads_tokens r (.operated x o :: frames) hregular.2 hr
      refine ⟨_, .cons .openOperation (hreadsl.append (.cons ?_ (hreadsr.snoc ?_))), .refl⟩
      · exact hstandsl.goesOn _ _ (by simp) .operator
      · exact hstandsr.goesOn _ _ (by simp) .closeOperation
    · cases hv
  | .call f args, v, frames, hregular, hv => by
    rw [value?] at hv
    split at hv
    · rename_i vs hvs
      obtain ⟨hcall, hscalar⟩ := Option.filter_eq_some_iff.mp hv
      obtain ⟨long, b, hreads, hcloses⟩ := reads_firstTokens args f frames hregular.1 hregular.2 hvs
      have hok : (host.functions.call f vs state).1 = .ok v := by
        cases hresult : (host.functions.call f vs state).1 with
        | error e => rw [hresult] at hcall; cases hcall
        | ok w => rw [hresult] at hcall; cases hcall; rfl
      exact ⟨_, .cons .name (.cons (.openCall long) (hreads.snoc (hcloses v hok hscalar))), .refl⟩
    · cases hv

theorem reads_firstTokens : ∀ (args : List Nested) {vs : List Value} (f : String)
    (frames : List Frame), (args.length ≤ 2 ∨ (args.head?.any isLiteral) = true) →
      RegularAll args → values? host state args = some vs →
        ∃ long b, Reads (ReadStep host state) (.expecting (.first long f :: frames)) (firstTokens args) b ∧
          Closes host state f vs frames b
  | [], _, _, _, _, _, hvs => by
    cases hvs
    exact ⟨false, _, .nil, fun _ h hscalar => .closeCall rfl h hscalar⟩
  | [t], vs, f, frames, _, hregular, hvs => by
    obtain ⟨w, ws, hw, hws, rfl⟩ := values?_cons_eq_some hvs
    cases hws
    obtain ⟨b, hreads, hstands⟩ := reads_tokens t (.first false f :: frames) hregular.1 hw
    exact ⟨false, b, hreads.append .nil, hstands.closes rfl⟩
  | t :: u :: rest, vs, f, frames, hlong, hregular, hvs => by
    obtain ⟨w, ws, hw, hws, rfl⟩ := values?_cons_eq_some hvs
    obtain ⟨z, zs, hz, hzs, rfl⟩ := values?_cons_eq_some hws
    -- a first argument that is no literal has one partner at most
    obtain ⟨b, hreads, hstands⟩ := reads_tokens t (.first t.isLiteral f :: frames) hregular.1 hw
    obtain ⟨c, hreads', hstands'⟩ :=
      reads_tokens u (.second t.isLiteral f w :: frames) hregular.2.1 hz
    have hcomma := hstands.goesOn .comma _ (by simp) (.commaFirst fun h => h)
    have hboth := hreads.append (.cons hcomma hreads')
    cases hliteral : t.isLiteral with
    | false =>
      obtain rfl : rest = [] := by
        cases rest with
        | nil => rfl
        | cons _ _ => simp [hliteral] at hlong
      cases hzs
      rw [hliteral] at hboth hstands'
      exact ⟨false, c, by simpa [firstTokens, laterTokens] using hboth, hstands'.closes rfl⟩
    | true =>
      rw [hliteral] at hboth hstands'
      have hgathers : Gathers host state f [w, z] frames c :=
        ⟨hstands'.closes rfl, hstands'.goesOn .comma _ (by simp) .commaSecond⟩
      obtain ⟨d, hreads'', hgathers'⟩ := reads_laterTokens rest hgathers hregular.2.2 hzs
      refine ⟨true, d, ?_, hgathers'.closes⟩
      simpa [firstTokens, laterTokens] using hboth.append hreads''

/-- Arguments behind others that need no partner. -/
theorem reads_laterTokens : ∀ (ts : List Nested) {vs us : List Value} {f : String}
    {frames : List Frame} {b : Reading}, Gathers host state f us frames b → RegularAll ts →
      values? host state ts = some vs →
        ∃ c, Reads (ReadStep host state) b (laterTokens ts) c ∧ Gathers host state f (us ++ vs) frames c
  | [], _, _, _, _, _, hgathers, _, hvs => by
    cases hvs
    exact ⟨_, .nil, by rwa [List.append_nil]⟩
  | t :: rest, _, us, f, frames, b, hgathers, hregular, hvs => by
    obtain ⟨w, ws, hw, hws, rfl⟩ := values?_cons_eq_some hvs
    obtain ⟨c, hreads, hstands⟩ := reads_tokens t (.later f us :: frames) hregular.1 hw
    obtain ⟨d, hreads', hgathers'⟩ := reads_laterTokens rest hstands.gathers hregular.2 hws
    rw [List.append_assoc] at hgathers'
    exact ⟨d, .cons hgathers.comma (hreads.append hreads'), hgathers'⟩

end

/-- **A formula with all its parentheses evaluates to the value of its tree**, whatever the order in
which its parts are rewritten. -/
theorem run_tokens_eq_value (host : Host σ) (state : σ)
    (hdetermined : host.functions.ArgumentDetermined) (t : Nested) (hregular : t.Regular)
    (hname : ∀ x, t ≠ .name x) (v : Value) (hv : t.value? host state = some v) :
    (run host state t.tokens).outcome = .ok v := by
  obtain ⟨b, hreads, hstands⟩ := reads_tokens t [] hregular hv
  rw [hstands.complete hname] at hreads
  exact run_eq_ok_of_accepts hdetermined ⟨_, hreads, t.isLiteral, rfl⟩

theorem run_tokens_eq_value_mean :
    (run { bindings := Bindings.empty.insert "x" (.number 3), functions := Functions.none } ()
      (operation (number 2) .mul
        (call "mean" [operation (number 1) .add (name "x"), number 6])).tokens).outcome
      = .ok (.number 10) :=
  run_tokens_eq_value _ () Functions.none_argumentDetermined _ (by simp [Regular, RegularAll])
    (by simp) _ (by decide +kernel)

end Nested

end Formula
