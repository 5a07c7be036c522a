import Formula.Stored.Reader

/-! # What a reader returns

A property of all that a reader returns, whatever the text is. Readers are put together from a few
loops, and a property goes through each of them by one rule. So what holds of each token
that is told by its kind and payload holds of all tokens of a stored formula
(`exists_tokens_of_load?`). -/

namespace Formula

theorem exists_of_map_eq_ok {ε α β : Type} {f : α → β} {x : Except ε α} {y : β}
    (h : x.map f = .ok y) : ∃ a, x = .ok a ∧ f a = y := by
  cases x with
  | error e => cases h
  | ok a => exact ⟨a, rfl, Except.ok.inj h⟩

/-- All results of a reader have a property. -/
def Json.Reader.Ensures {ε α : Type} (P : α → Prop) (reader : Json.Reader ε α) : Prop :=
  ∀ cs x rest, reader cs = .ok (x, rest) → P x

namespace Json

variable {ε α β : Type} {P : α → Prop} {Q : β → Prop} {lift : Fault → ε}

/-! ## Rules for the loops -/

theorem Reader.Ensures.andThen {first : Reader ε α} {second : α → Reader ε β}
    (hfirst : first.Ensures P) (hsecond : ∀ x, P x → (second x).Ensures Q) :
    (first.andThen second).Ensures Q := by
  intro cs y rest h
  unfold Reader.andThen at h
  split at h
  · cases h
  · rename_i x start hx
    split at h
    · cases h
    · rename_i hy
      cases h
      exact hsecond x (hfirst _ _ _ hx) _ _ _ hy

theorem Reader.ensures_byFirst {atEnd : ε}
    {next : Char → (rest : List Char) → Except ε (α × Rest (rest.length + 1))}
    (h : ∀ c rest x after, next c rest = .ok (x, after) → P x) :
    (byFirst atEnd next).Ensures P := by
  intro cs x rest hx
  unfold byFirst at hx
  split at hx
  · cases hx
  · split at hx
    · cases hx
    · rename_i hnext
      cases hx
      exact h _ _ _ _ hnext

theorem forall_mem_of_readEntries {entry : Reader ε α} (hentry : entry.Ensures P) {isFirst : Bool}
    {cs : List Char} {xs : List α} {rest : Rest (cs.length + 1)}
    (h : readEntries lift entry isFirst cs = .ok (xs, rest)) : ∀ x ∈ xs, P x := by
  fun_induction readEntries lift entry isFirst cs generalizing xs with
  | case1 | case3 | case4 => cases h
  | case2 => cases h; simp
  | case5 isFirst cs start hnext x after hx ys rest' hys ih =>
    cases h
    exact List.forall_mem_cons.mpr ⟨hentry _ _ _ hx, ih hys⟩

theorem Reader.Ensures.readList {entry : Reader ε α} (h : entry.Ensures P) :
    (readList lift entry).Ensures (fun xs => ∀ x ∈ xs, P x) := by
  intro cs xs rest hxs
  unfold Json.readList at hxs
  split at hxs
  · cases hxs
  · rename_i hentries
    split at hxs
    · cases hxs
    · cases hxs
      exact forall_mem_of_readEntries h hentries

theorem of_readFields {field : α → String → Reader ε α}
    (hfield : ∀ x name, P x → (field x name).Ensures P) {sofar : α} (hsofar : P sofar)
    {isFirst : Bool} {cs : List Char} {y : α} {rest : Rest (cs.length + 1)}
    (h : readFields lift field sofar isFirst cs = .ok (y, rest)) : P y := by
  fun_induction readFields lift field sofar isFirst cs generalizing y with
  | case1 | case3 | case4 => cases h
  | case2 => cases h; exact hsofar
  | case5 sofar isFirst cs name start hnext x after hx z rest' hz ih =>
    cases h
    exact ih (hfield _ _ hsofar _ _ _ hx) hz

theorem Reader.ensures_readObject {field : α → String → Reader ε α} {start : α}
    {finish : α → Except ε β} (hfield : ∀ x name, P x → (field x name).Ensures P) (hstart : P start)
    (hfinish : ∀ x y, P x → finish x = .ok y → Q y) :
    (readObject lift field start finish).Ensures Q := by
  intro cs y rest h
  unfold readObject at h
  split at h
  · cases h
  · rename_i x after hx
    split at h
    · cases h
    · rename_i hy
      split at h
      · cases h
      · cases h
        exact hfinish x _ (of_readFields hfield hstart hx) hy

theorem Reader.Ensures.readMember {value : Reader ε α} (h : value.Ensures P) :
    (readMember lift value).Ensures P := by
  intro cs x rest hx
  unfold Json.readMember at hx
  split at hx
  · cases hx
  · split at hx
    · cases hx
    · rename_i hvalue
      cases hx
      exact h _ _ _ hvalue

end Json

namespace Stored

open Json (Reader Rest)

variable {α β : Type} {P : α → Prop} {Q : β → Prop} {wanted : Wanted} {depth : Nat}

/-! ## Rules for records and their fields -/

theorem ensures_readRecord {ofList ofObject : Nat → StoredReader α}
    (hlist : ∀ depth, (ofList depth).Ensures P) (hobject : ∀ depth, (ofObject depth).Ensures P) :
    (readRecord wanted depth ofList ofObject).Ensures P := by
  refine Reader.ensures_byFirst fun c rest x after h => ?_
  split at h
  · split at h
    · cases h
    · obtain ⟨⟨y, inner⟩, hy, he⟩ := exists_of_map_eq_ok h
      cases he
      split at hy
      · exact hlist _ _ _ _ hy
      · exact hobject _ _ _ _ hy
  · cases h

theorem ensures_readListed {isFirst : Bool} {missing : Fault} {value : StoredReader α}
    (h : value.Ensures P) : (readListed isFirst missing value).Ensures P := by
  intro cs x rest hx
  unfold readListed at hx
  split at hx
  · cases hx
  · cases hx
  · obtain ⟨⟨y, inner⟩, hy, he⟩ := exists_of_map_eq_ok hx
    cases he
    exact h _ _ _ hy

theorem ensures_closeListed {x : α} (h : P x) : (closeListed x).Ensures P := by
  intro cs y rest hy
  unfold closeListed at hy
  split at hy
  · cases hy
  · cases hy
    exact h

theorem ensures_skipMember {sofar : α} (h : P sofar) : (skipMember sofar).Ensures P := by
  intro cs x rest hx
  unfold skipMember at hx
  split at hx
  · cases hx
  · split at hx
    · cases hx
    · cases hx
      exact h

theorem ensures_readOnce {name : String} {earlier : Option β} {value : StoredReader β}
    {set : β → α} (hvalue : value.Ensures Q) (hset : ∀ y, Q y → P (set y)) :
    (readOnce name earlier value set).Ensures P := by
  intro cs x rest hx
  unfold readOnce at hx
  split at hx
  · cases hx
  · obtain ⟨⟨y, inner⟩, hy, he⟩ := exists_of_map_eq_ok hx
    cases he
    exact hset y (hvalue.readMember _ _ _ hy)

theorem require_eq_ok {name : String} {field : Option β} {y : β} (h : require name field = .ok y) :
    field = some y := by
  cases field with
  | none => cases h
  | some z => rw [Except.ok.inj h]

theorem of_load_eq_ok {reader : Nat → StoredReader α} (h : ∀ depth, (reader depth).Ensures P)
    {text : String} {x : α} (hload : load reader text = .ok x) : P x := by
  unfold load at hload
  split at hload
  · cases hload
  · rename_i y rest hlt hy
    split at hload
    · cases hload
      exact h _ _ _ _ hy
    · cases hload

/-! ## Stored expressions -/

section

variable {P : Token → Prop} (h : ∀ k v t, Token.ofPayload k v = .ok t → P t)

include h

theorem ensures_readToken : (readToken depth).Ensures P := by
  intro cs t rest ht
  unfold readToken at ht
  split at ht
  · cases ht
  · obtain ⟨t', hpayload, he⟩ := exists_of_map_eq_ok ht
    cases he
    exact h _ _ _ hpayload

theorem ensures_readTokens : (readTokens depth).Ensures (fun ts => ∀ t ∈ ts, P t) := by
  refine Reader.ensures_byFirst fun c rest ts after hts => ?_
  split at hts
  · split at hts
    · cases hts
    · obtain ⟨⟨us, inner⟩, hus, he⟩ := exists_of_map_eq_ok hts
      cases he
      exact (ensures_readToken h).readList _ _ _ hus
  · cases hts

theorem ensures_readListedTokens : (readListedTokens depth).Ensures (fun ts => ∀ t ∈ ts, P t) :=
  (ensures_readListed (ensures_readTokens h)).andThen fun _ hts =>
    ensures_closeListed (P := fun ts => ∀ t ∈ ts, P t) hts

theorem ensures_readNamedTokens : (readNamedTokens depth).Ensures (fun ts => ∀ t ∈ ts, P t) := by
  -- what has been read so far are no tokens or good ones
  refine Reader.ensures_readObject (P := fun tokens? => ∀ ts, tokens? = some ts → ∀ t ∈ ts, P t)
    ?_ (by simp) ?_
  · intro tokens? name htokens
    split
    · refine ensures_readOnce (ensures_readTokens h) fun ts hts us hus => ?_
      rwa [← Option.some.inj hus]
    · exact ensures_skipMember htokens
  · intro tokens? ts htokens hrequire
    exact htokens ts (require_eq_ok hrequire)

/-- **A stored expression is made of tokens that have been told by kind and payload.** -/
theorem exists_tokens_of_load? {text : String} {e : Expression}
    (hload : Expression.load? text = .ok e) : ∃ ts, e = .ofTokens ts ∧ ∀ t ∈ ts, P t := by
  refine of_load_eq_ok (P := fun e => ∃ ts, e = .ofTokens ts ∧ ∀ t ∈ ts, P t) ?_ hload
  intro depth cs e rest he
  obtain ⟨⟨ts, inner⟩, hts, hpair⟩ := exists_of_map_eq_ok he
  cases hpair
  exact ⟨ts, rfl, ensures_readRecord (fun _ => ensures_readListedTokens h)
    (fun _ => ensures_readNamedTokens h) _ _ _ hts⟩

end

end Stored

end Formula
