import Formula.Proofs.Json.Skipping
import Formula.Proofs.Lists
import Formula.Proofs.Scalars
import Formula.Proofs.Stored.Values

/-! # Stored formulas read back

What is read back for a token can be computed from what is read back for its payload
(`Stored.takes_readToken`), and an expression is read token by token. The payload of a token that JSON
can hold is read back as itself. That of any other token is read back as something that does not
belong to its kind, or not at all (`Token.storable_of_reread?`). So no formula is read back as another
one. -/

namespace Formula

/-- What is read back for a value where so many levels may be opened. -/
def Value.reread? (depth : Nat) (v : Value) : Option Value :=
  if v.depth ≤ depth then ofJson? v.toJson else none

/-- What is read back for a token whose payload may open so many levels. -/
def Token.reread? (depth : Nat) (t : Token) : Option Token :=
  (t.payload.reread? depth).bind fun v => (Token.ofPayload t.kind v).toOption

namespace Stored

open Json (taken Reader)

theorem takes_readValue (v : Value) (depth : Nat)
    (h : ∀ x ∈ v.numbers, x.isFinite = true → ReadsBack x) :
    (readValue depth).Takes v.toJson.compact (v.reread? depth) := by
  intro rest hrest
  rw [taken_readValue, v.takes_compact depth h rest hrest, Value.reread?]
  split <;> rfl

/-! ## Fields and records -/

theorem ofWord?_word (k : Token.Kind) : Token.Kind.ofWord? k.word = some k := by
  cases k with
  | operator o => cases o <;> rfl
  | _ => rfl

theorem takes_readKind (depth : Nat) (k : Token.Kind) :
    (readKind depth).Takes k.toJson.compact (some k) := by
  intro rest _
  have htext : k.toJson.compact ++ rest = Json.quoteChars k.word.toList ++ rest := rfl
  have hkind : kindOfWord k.word = .ok k := by rw [kindOfWord, ofWord?_word]
  obtain ⟨hlt, hword⟩ := Json.exists_of_taken (Json.taken_readText k.word rest)
  rw [htext, readKind, Json.taken_byFirst (Json.skipSpace_quoteChars _ rest), if_pos rfl]
  simp only [hword, hkind]
  rfl

section

variable {α β : Type} {written : List Char}

theorem takes_readOnce (name : String) {value : StoredReader β} {outcome : Option β} (set : β → α)
    (h : value.Takes written outcome) :
    (readOnce name none value set).Takes (':' :: written) (outcome.map set) := by
  intro rest hrest
  unfold readOnce
  rw [if_neg (by simp), Json.taken_map set fun _ _ => ⟨rfl, rfl⟩, List.cons_append,
    Json.taken_readMember, h rest hrest]
  cases outcome <;> rfl

theorem takes_skipMember (sofar : α)
    (h : ∀ rest, Json.left (Json.skipValue (written ++ rest)) = some rest) :
    (skipMember sofar).Takes (':' :: written) (some sofar) := by
  intro rest _
  obtain ⟨hlt, hcolon⟩ := Json.exists_of_taken (Json.taken_readColon (written ++ rest))
  unfold skipMember
  rw [List.cons_append, hcolon]
  simp only
  cases hskip : Json.skipValue (written ++ rest) with
  | error fault =>
    have hleft := h rest
    rw [hskip] at hleft
    cases hleft
  | ok after =>
    have hleft := h rest
    rw [hskip] at hleft
    exact congrArg (fun rest => some (sofar, rest)) (Option.some.inj hleft)

theorem takes_readRecord (wanted : Wanted) (ofList : Nat → StoredReader α) {depth : Nat}
    {ofObject : Nat → StoredReader α} {outcome : Option α}
    (h : (ofObject depth).Takes written outcome) :
    (readRecord wanted (depth + 1) ofList ofObject).Takes ('\x7b' :: written) outcome := by
  intro rest hrest
  rw [List.cons_append, readRecord, Json.taken_byFirst (Json.skipSpace_cons rfl _)]
  exact (Json.taken_map_self fun _ _ => ⟨rfl, rfl⟩).trans (h rest hrest)

end

/-! ## Tokens -/

theorem taken_readToken (depth : Nat) (cs : List Char) :
    taken (readToken depth cs)
      = (taken (readRecord .token depth readListedToken readNamedToken cs)).bind
          fun (payload, rest) =>
            (Token.ofPayload payload.1 payload.2).toOption.map fun t => (t, rest) := by
  unfold readToken
  cases readRecord .token depth readListedToken readNamedToken cs with
  | error fault => rfl
  | ok pair =>
    obtain ⟨⟨k, v⟩, rest⟩ := pair
    simp only [Json.taken_ok, Option.bind_some]
    cases Token.ofPayload k v <;> rfl

theorem takes_readNamedToken (t : Token) (depth : Nat)
    (h : ∀ x ∈ t.payload.numbers, x.isFinite = true → ReadsBack x) :
    (readNamedToken depth).Takes (Json.commaSeparated
        [Json.quoteChars "type".toList ++ ':' :: t.kind.toJson.compact,
          Json.quoteChars "value".toList ++ ':' :: t.payload.toJson.compact] ++ ['\x7d'])
      ((t.payload.reread? depth).map fun v => (t.kind, v)) := by
  have hkind : (readTokenField depth ⟨none, none⟩ "type").Takes (':' :: t.kind.toJson.compact)
      (some ⟨some t.kind, none⟩) := by
    rw [readTokenField, if_pos rfl]
    exact takes_readOnce "type" _ (takes_readKind depth t.kind)
  have hpayload : (readTokenField depth ⟨some t.kind, none⟩ "value").Takes
      (':' :: t.payload.toJson.compact)
      ((t.payload.reread? depth).map fun v => ⟨some t.kind, some v⟩) := by
    rw [readTokenField, if_neg (by decide), if_pos rfl]
    exact takes_readOnce "value" _ (takes_readValue t.payload depth h)
  have houtcome : ((some (TokenFields.mk (some t.kind) none)).bind fun _ =>
        (t.payload.reread? depth).map fun v => TokenFields.mk (some t.kind) (some v)).bind
      (fun fields => fields.finish.toOption)
        = (t.payload.reread? depth).map fun v => (t.kind, v) := by
    cases t.payload.reread? depth <;> rfl
  rw [← houtcome]
  refine Json.Reader.Takes.readObject_pair Fault.json hkind ?_
  rintro _ ⟨⟩
  exact hpayload

theorem takes_readToken (t : Token) (depth : Nat)
    (h : ∀ x ∈ t.payload.numbers, x.isFinite = true → ReadsBack x) :
    (readToken (depth + 1)).Takes t.toJson.compact (t.reread? depth) := by
  intro rest hrest
  have htext : t.toJson.compact = '\x7b' :: (Json.commaSeparated
      [Json.quoteChars "type".toList ++ ':' :: t.kind.toJson.compact,
        Json.quoteChars "value".toList ++ ':' :: t.payload.toJson.compact] ++ ['\x7d']) := rfl
  have hrecord := takes_readRecord .token readListedToken
    (takes_readNamedToken t depth h) rest hrest
  rw [← htext] at hrecord
  rw [taken_readToken, hrecord, Token.reread?]
  cases t.payload.reread? depth with
  | none => rfl
  | some v => rfl

/-! ## Expressions -/

theorem takes_readTokens (ts : List Token) (depth : Nat)
    (h : ∀ t ∈ ts, ∀ x ∈ t.payload.numbers, x.isFinite = true → ReadsBack x) :
    (readTokens (depth + 2)).Takes (Json.array (ts.map Token.toJson)).compact
      (ts.mapM (Token.reread? depth)) := by
  intro rest hrest
  have htext : (Json.array (ts.map Token.toJson)).compact ++ rest
      = '[' :: (Json.commaSeparated (ts.map fun t => t.toJson.compact) ++ [']'] ++ rest) := by
    simp [Json.compact, Json.compactEntries_eq_map, Function.comp_def]
  have hstart : ∀ t : Token, Json.StartsEntry t.toJson.compact :=
    fun t => ⟨'\x7b', _, rfl, rfl, by decide⟩
  have hlist := Json.Reader.Takes.readList Fault.json (fun t _ => hstart t)
    (fun t ht => takes_readToken t depth (h t ht)) rest hrest
  rw [htext, readTokens, Json.taken_byFirst (Json.skipSpace_cons rfl _), if_pos rfl, ← hlist]
  exact Json.taken_map_self fun _ _ => ⟨rfl, rfl⟩

/-- The names of an expression are not read. -/
theorem takes_readNamedTokens (e : Expression) (depth : Nat)
    (h : ∀ t ∈ e.tokens, ∀ x ∈ t.payload.numbers, x.isFinite = true → ReadsBack x) :
    (readNamedTokens (depth + 2)).Takes (Json.commaSeparated
        [Json.quoteChars "tokens".toList ++ ':' :: (Json.array (e.tokens.map Token.toJson)).compact,
          Json.quoteChars "vars".toList ++ ':' :: (Json.array (e.names.map .text)).compact]
        ++ ['\x7d'])
      (e.tokens.mapM (Token.reread? depth)) := by
  have hvars : ∀ rest, Json.left (Json.skipValue
      ((Json.array (e.names.map .text)).compact ++ rest)) = some rest := by
    intro rest
    have htext : (Json.array (e.names.map .text)).compact ++ rest = '[' ::
        (Json.commaSeparated ((e.names.map String.toList).map Json.quoteChars) ++ ']' :: rest) := by
      simp [Json.compact, Json.compactEntries_eq_map, Function.comp_def]
    rw [htext]
    exact Json.left_skipValue_texts _ rest
  have houtcome : (((e.tokens.mapM (Token.reread? depth)).map some).bind some).bind
      (fun tokens? => (require "tokens" tokens?).toOption)
        = e.tokens.mapM (Token.reread? depth) := by
    cases e.tokens.mapM (Token.reread? depth) <;> rfl
  rw [← houtcome]
  refine Json.Reader.Takes.readObject_pair Fault.json ?_ ?_
  · simp only
    exact takes_readOnce "tokens" some (takes_readTokens e.tokens depth h)
  · intro tokens? _
    rw [if_neg (by decide)]
    exact takes_skipMember tokens? hvars

theorem takes_readExpression (e : Expression) (depth : Nat)
    (h : ∀ t ∈ e.tokens, ∀ x ∈ t.payload.numbers, x.isFinite = true → ReadsBack x) :
    (readExpression (depth + 3)).Takes e.toJson.compact
      ((e.tokens.mapM (Token.reread? depth)).map Expression.ofTokens) := by
  intro rest hrest
  have htext : e.toJson.compact = '\x7b' :: (Json.commaSeparated
      [Json.quoteChars "tokens".toList ++ ':' :: (Json.array (e.tokens.map Token.toJson)).compact,
        Json.quoteChars "vars".toList ++ ':' :: (Json.array (e.names.map .text)).compact]
      ++ ['\x7d']) := rfl
  have hrecord := takes_readRecord .expression readListedTokens
    (takes_readNamedTokens e depth h) rest hrest
  rw [← htext] at hrecord
  rw [readExpression, Json.taken_map Expression.ofTokens fun _ _ => ⟨rfl, rfl⟩, hrecord]
  cases e.tokens.mapM (Token.reread? depth) <;> rfl

end Stored

/-! ## What is read back -/

namespace Value

theorem ofJson?_toJson_number (x : Float) :
    ofJson? (number x).toJson = some (if x.isFinite then .number x else .empty) := by
  rw [toJson]
  split <;> rfl

theorem ofJson?_toJson_list (vs : List Value) :
    ofJson? (list vs).toJson = (vs.mapM fun v => ofJson? v.toJson).map .list := by
  rw [toJson, ofJson?, ofJsonAll?_eq_mapM, toJsonAll_eq_map, List.mapM_map]
  rfl

theorem ofJson?_toJson_of_isScalar {v : Value} (h : v.isScalar = true)
    (hfinite : ∀ x ∈ v.numbers, x.isFinite = true) : ofJson? v.toJson = some v := by
  cases v with
  | number x => rw [ofJson?_toJson_number, if_pos (hfinite x (List.mem_singleton_self x))]
  | text | bool => rfl
  | list | empty => cases h

/-- Only a scalar with a finite number is read back as a scalar. -/
theorem of_ofJson?_toJson_isScalar {v w : Value} (h : ofJson? v.toJson = some w)
    (hw : w.isScalar = true) : v.isScalar = true ∧ ∀ x ∈ v.numbers, x.isFinite = true := by
  cases v with
  | number x =>
    rw [ofJson?_toJson_number] at h
    refine ⟨rfl, fun y hy => ?_⟩
    obtain rfl := List.mem_singleton.mp hy
    by_contra hinfinite
    rw [if_neg hinfinite] at h
    cases h
    cases hw
  | text | bool => exact ⟨rfl, by simp [numbers]⟩
  | list vs =>
    rw [ofJson?_toJson_list] at h
    obtain ⟨ws, -, rfl⟩ := Option.map_eq_some_iff.mp h
    cases hw
  | empty =>
    cases h
    cases hw

end Value

/-- Tokens that JSON can hold: all numbers in them are finite, and arguments are scalars. -/
structure Token.Storable (t : Token) : Prop where
  finite : ∀ x ∈ t.payload.numbers, x.isFinite = true
  scalars : t.HoldsScalars

namespace Token

instance : DecidablePred HoldsScalars
  | .args vs => inferInstanceAs (Decidable (∀ v ∈ vs, v.isScalar = true))
  | .number _ | .text _ | .bool _ | .name _ | .operator _ | .openParen | .closeParen | .comma =>
    isTrue trivial

instance : DecidablePred Storable := fun t =>
  decidable_of_iff ((∀ x ∈ t.payload.numbers, x.isFinite = true) ∧ t.HoldsScalars)
    ⟨fun h => ⟨h.1, h.2⟩, fun h => ⟨h.finite, h.scalars⟩⟩

theorem Storable.reread?_args {vs : List Value} (h : (args vs).Storable) (depth : Nat) :
    (Token.args vs).reread? (depth + 1) = some (.args vs) := by
  have hfinite : ∀ v ∈ vs, ∀ x ∈ v.numbers, x.isFinite = true := by
    intro v hv x hx
    refine h.finite x ?_
    rw [payload, Value.numbers, Value.numbersAll_eq_flatMap]
    exact List.mem_flatMap.mpr ⟨v, hv, hx⟩
  have hdepth : (Value.list vs).depth ≤ depth + 1 := by
    rw [Value.depth, Nat.add_le_add_iff_right, Value.depthAll_le_iff]
    intro v hv
    have hscalar := h.scalars v hv
    cases v <;> first | exact Nat.zero_le depth | cases hscalar
  have hread : (vs.mapM fun v => Value.ofJson? v.toJson) = some vs :=
    mapM_eq_some_self fun v hv => Value.ofJson?_toJson_of_isScalar (h.scalars v hv) (hfinite v hv)
  have hpayload : ofPayload .args (.list vs) = .ok (.args vs) :=
    if_pos (List.all_eq_true.mpr h.scalars)
  rw [reread?, payload, Value.reread?, if_pos hdepth, Value.ofJson?_toJson_list, hread]
  exact congrArg Except.toOption hpayload

theorem Storable.reread? {t : Token} (h : t.Storable) (depth : Nat) :
    t.reread? (depth + 1) = some t := by
  cases t with
  | number x =>
    have hx := h.finite x (List.mem_singleton_self x)
    simp [Token.reread?, payload, Value.reread?, Value.depth, Value.ofJson?_toJson_number, hx,
      ofPayload, Except.toOption]
  | args vs => exact h.reread?_args depth
  | text | name | bool | operator | openParen | closeParen | comma =>
    simp [Token.reread?, payload, Value.reread?, Value.depth, Value.toJson, Value.ofJson?,
      ofPayload, Except.toOption]

/-- Arguments that are read back as arguments are scalars with finite numbers. -/
theorem storable_of_reread?_args {vs : List Value} {u : Token} {depth : Nat}
    (h : (args vs).reread? depth = some u) : (args vs).Storable := by
  obtain ⟨v, hv, hu⟩ := Option.bind_eq_some_iff.mp h
  rw [Value.reread?] at hv
  split at hv
  · rw [payload, Value.ofJson?_toJson_list] at hv
    obtain ⟨ws, hws, rfl⟩ := Option.map_eq_some_iff.mp hv
    have hall : ws.all Value.isScalar = true := by
      by_contra hnone
      have hpayload : ofPayload .args (.list ws) = .error (.wrongPayload .args .list) :=
        if_neg hnone
      rw [kind_args, hpayload] at hu
      cases hu
    have hvs : ∀ v ∈ vs, v.isScalar = true ∧ ∀ x ∈ v.numbers, x.isFinite = true := by
      intro v hv
      obtain ⟨w, hw, hread⟩ := forall_of_mapM_eq_some hws v hv
      exact Value.of_ofJson?_toJson_isScalar hread (List.all_eq_true.mp hall w hw)
    refine ⟨fun x hx => ?_, fun v hv => (hvs v hv).1⟩
    rw [payload, Value.numbers, Value.numbersAll_eq_flatMap] at hx
    obtain ⟨v, hv, hx⟩ := List.mem_flatMap.mp hx
    exact (hvs v hv).2 x hx
  · cases hv

/-- An infinite number is written as nothing, which is not read back as a number. -/
theorem isFinite_of_reread?_number {x : Float} {u : Token} {depth : Nat}
    (h : (number x).reread? depth = some u) : x.isFinite = true := by
  obtain ⟨v, hv, hu⟩ := Option.bind_eq_some_iff.mp h
  rw [Value.reread?] at hv
  split at hv
  · by_contra hinfinite
    rw [payload, Value.ofJson?_toJson_number, if_neg hinfinite] at hv
    cases hv
    cases hu
  · cases hv

/-- Only what JSON can hold is read back. -/
theorem storable_of_reread? {t u : Token} {depth : Nat} (h : t.reread? depth = some u) :
    t.Storable := by
  cases t with
  | number x =>
    refine ⟨?_, trivial⟩
    intro y hy
    obtain rfl := List.mem_singleton.mp hy
    exact isFinite_of_reread?_number h
  | args vs => exact storable_of_reread?_args h
  | text | name | bool | operator | openParen | closeParen | comma =>
    exact ⟨by simp [payload, Value.numbers], trivial⟩

end Token

namespace Expression

variable {ts : List Token}

/-- A stored expression is read token by token. Names that are stored with the tokens are not read. -/
theorem taken_readExpression_store
    (hreads : ∀ t ∈ ts, ∀ x ∈ t.payload.numbers, x.isFinite = true → Stored.ReadsBack x)
    (listed : List String) :
    Json.taken (Stored.readExpression Json.maxDepth (store ⟨ts, listed⟩).toList)
      = ((ts.mapM (Token.reread? 124)).map ofTokens).map (·, []) := by
  have htakes := Stored.takes_readExpression ⟨ts, listed⟩ 124 hreads [] (avoids_nil _)
  rwa [List.append_nil, ← String.toList_ofList (l := (toJson ⟨ts, listed⟩).compact)] at htakes

theorem load?_store_listed (h : ∀ t ∈ ts, t.Storable)
    (hreads : ∀ t ∈ ts, ∀ x ∈ t.payload.numbers, x.isFinite = true → Stored.ReadsBack x)
    (listed : List String) : load? (store ⟨ts, listed⟩) = .ok (ofTokens ts) := by
  refine Stored.load_eq_ok ?_
  rw [taken_readExpression_store hreads, mapM_eq_some_self fun t ht => (h t ht).reread? 123]
  rfl

/-- Tokens that JSON cannot hold are an error when they are read back. -/
theorem exists_load?_store_eq_error (h : ¬ ∀ t ∈ ts, t.Storable)
    (hreads : ∀ t ∈ ts, ∀ x ∈ t.payload.numbers, x.isFinite = true → Stored.ReadsBack x)
    (listed : List String) : ∃ fault, load? (store ⟨ts, listed⟩) = .error fault := by
  refine Stored.load_eq_error ?_
  rw [taken_readExpression_store hreads]
  cases hread : ts.mapM (Token.reread? 124) with
  | none => rfl
  | some us =>
    refine absurd (fun t ht => ?_) h
    obtain ⟨u, -, hu⟩ := forall_of_mapM_eq_some hread t ht
    exact Token.storable_of_reread? hu

end Expression

/-- **A stored formula is read back as itself or not at all.** It is read back if all its numbers are
finite, those among collected arguments too, and all collected arguments are scalars. All that is
assumed is that the numerals of its finite numbers read back. -/
theorem Expression.load?_store (ts : List Token)
    (h : ∀ t ∈ ts, ∀ x ∈ t.payload.numbers, x.isFinite = true → Stored.ReadsBack x) :
    ((∀ t ∈ ts, t.Storable) → load? (ofTokens ts).store = .ok (ofTokens ts)) ∧
    ((¬ ∀ t ∈ ts, t.Storable) → ∃ fault, load? (ofTokens ts).store = .error fault) ∧
    ∀ e, load? (ofTokens ts).store = .ok e → e = ofTokens ts := by
  refine ⟨fun hstorable => load?_store_listed hstorable h _,
    fun hnone => exists_load?_store_eq_error hnone h _, fun e he => ?_⟩
  by_cases hstorable : ∀ t ∈ ts, t.Storable
  · have hok := load?_store_listed hstorable h (ofTokens ts).names
    exact Except.ok.inj (he.symm.trans hok)
  · obtain ⟨fault, hfault⟩ := exists_load?_store_eq_error hstorable h (ofTokens ts).names
    cases he.symm.trans hfault

/-- A text with quotes and a line break and arguments that have been collected are read back. An
infinity and a list among the arguments are not. -/
theorem Expression.load?_store_args :
    ∃ ts : List Token,
      ts = [.name "mean", .args [.number (-1.5), .text "say \"hi\"\n", .bool true], .operator .add,
        .openParen, .number 0.1, .comma, .closeParen, .text "\u00e9\\"] ∧
      load? (ofTokens ts).store = .ok (ofTokens ts) ∧
      (∃ fault, load? (ofTokens [.number Binary64.infinity]).store = .error fault) ∧
      ∃ fault, load? (ofTokens [.number 2, .args [.list [.number 1]]]).store = .error fault := by
  refine ⟨_, rfl, ?_, ?_, ?_⟩
  · exact (load?_store _ (by decide +kernel)).1 (by decide +kernel)
  · exact (load?_store _ (by decide +kernel)).2.1 (by decide +kernel)
  · exact (load?_store _ (by decide +kernel)).2.1 (by decide +kernel)

end Formula
