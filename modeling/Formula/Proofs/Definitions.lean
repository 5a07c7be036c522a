import Formula.Proofs.Arguments.Evaluation
import Formula.Proofs.Lexing.Joining
import Formula.Proofs.Lexing.Spelling
import Formula.Proofs.Replay

/-! # A name from its definition to its deletion

A call is read as it is written, whatever texts are quoted in its arguments (`parse_callText`), and
a line that consists of one has the answer of this call and does to its session what the call does
(`Session.evaluate_callText`). So the line after a definition finds the name bound, the line after a
deletion finds it unbound, and no other variable is touched (`Session.define_use_delete`). -/

namespace Formula

variable {f x text : String} {texts : List String} {cells : List (List Token)}
  {rest : List Char} {v : Value} {s : Session}

/-! ## The text of a call -/

/-- A call as it is written, with a blank after every comma. -/
def callText (f : String) (texts : List String) : String :=
  f ++ "(" ++ ", ".intercalate texts ++ ")"

/-- What comes behind an argument begins with a comma or closes the call. -/
def EndsArgument (rest : List Char) : Prop := ∀ c ∈ rest.head?, c = ',' ∨ c = ')'

theorem endsArgument_cons {c : Char} (h : c = ',' ∨ c = ')') (cs : List Char) :
    EndsArgument (c :: cs) := by
  intro d hd
  cases hd
  exact h

theorem EndsArgument.avoids {p : Char → Bool} (h : EndsArgument rest) (hcomma : p ',' = false)
    (hclose : p ')' = false) : Avoids p rest := by
  intro c hc
  rcases h c hc with rfl | rfl
  · exact hcomma
  · exact hclose

/-- A text is read as the given tokens where an argument ends. -/
def ReadsAs (text : String) (cell : List Token) : Prop :=
  ∀ rest, EndsArgument rest → LexesTo text.toList cell rest

theorem readsAs_name (h : IsName x.toList) : ReadsAs x [.name x] := by
  intro rest hrest
  have hname := lexesTo_name h (hrest.avoids (p := Lexeme.isLetter) (by decide) (by decide))
  rwa [String.ofList_toList] at hname

theorem readsAs_quote (s : String) : ReadsAs (Json.quote s) [.text s] := by
  intro rest _
  have hquoted := lexesTo_quoteChars s.toList rest
  rw [String.ofList_toList] at hquoted
  rwa [Json.quote, String.toList_ofList]

theorem readsAs_bool (b : Bool) : ReadsAs (if b then "true" else "false") [.bool b] := by
  intro rest _
  rw [apply_ite String.toList]
  exact lexesTo_bool b rest

theorem lexesTo_arguments (h : List.Forall₂ ReadsAs texts cells) (rest : List Char) :
    LexesTo (", ".intercalate texts ++ ")").toList ([.comma].intercalate cells ++ [.closeParen])
      rest := by
  have hclose : LexesTo [')'] [.closeParen] rest := lexesTo_sign rfl rest
  induction h with
  | nil => exact hclose
  | @cons text cell texts cells htext htexts ih =>
    cases htexts with
    | nil =>
      rw [String.intercalate_singleton, String.toList_append, List.intercalate_singleton]
      exact (htext _ (endsArgument_cons (.inr rfl) _)).append hclose
    | @cons text' cell' texts cells =>
      rw [String.intercalate_cons_cons, String.append_assoc, String.append_assoc,
        String.toList_append, String.toList_append, List.intercalate_cons_cons, List.append_assoc,
        List.append_assoc]
      exact (htext _ (endsArgument_cons (.inl rfl) _)).append ((lexesTo_comma _).append ih)

theorem parse_callText (hf : IsName f.toList) (h : List.Forall₂ ReadsAs texts cells) :
    Expression.parse (callText f texts) = .ok (.ofTokens (callTokens f cells)) := by
  have hopen := (lexesTo_sign (c := '(') (t := .openParen) rfl _).append (lexesTo_arguments h [])
  have hcall := (lexesTo_name hf (avoids_cons (by decide) _)).append hopen
  have hlex := hcall.eq_ok_iff.mpr ⟨[], lex_nil, rfl⟩
  refine Expression.parse_eq_ok_iff.mpr ⟨_, ?_, rfl⟩
  simpa [callText, callTokens] using hlex

/-! ## The texts of literals -/

/-- A literal as it is written, and its value. -/
inductive LiteralText : String → Value → Prop
  | number {whole fraction : List Char} (h : Decimal.IsNumeral whole fraction) :
    LiteralText (String.ofList (Decimal.written whole fraction))
      (.number (Decimal.ofDigits whole fraction).toFloat)
  | bool (b : Bool) : LiteralText (if b then "true" else "false") (.bool b)
  | quoted (s : String) : LiteralText (Json.quote s) (.text s)

theorem LiteralText.exists_literal (h : LiteralText text v) :
    ∃ l : Literal, l.value = v ∧ ReadsAs text [l.token] := by
  cases h with
  | number h =>
    refine ⟨⟨.number _, _, rfl⟩, rfl, ?_⟩
    intro rest hrest
    rw [String.toList_ofList]
    exact lexesTo_written h (hrest.avoids (by decide) (by decide))
      (hrest.avoids (by decide) (by decide))
  | bool b => exact ⟨⟨.bool b, _, rfl⟩, rfl, readsAs_bool b⟩
  | quoted s => exact ⟨⟨.text s, _, rfl⟩, rfl, readsAs_quote s⟩

theorem LiteralText.isScalar (h : LiteralText text v) : v.isScalar = true := by
  cases h <;> rfl

namespace Session

/-! ## One line -/

theorem answers_argumentDetermined : answers.ArgumentDetermined := fun _ _ _ _ => rfl

theorem evaluate_of_parse {line : String} {ts : List Token} (s : Session)
    (h : Expression.parse line = .ok (.ofTokens ts)) :
    s.evaluate line = ((run s.stateless () ts).outcome.mapError .eval,
      (calls s.stateless () ts).foldl after s) := by
  rw [evaluate_eq, Formula.evaluate, callsIn, h]
  rfl

/-- **A line that is a call does what its calls do**, and has the answer of the outer one. -/
theorem evaluate_callText (s : Session) (ps : List Piece) (vs : List Value)
    (hf : IsName f.toList) (hread : List.Forall₂ ReadsAs texts (ps.map Piece.tokens))
    (hps : ∀ p ∈ ps, p.Known s.stateless ()) (hvs : ps.flatMap (Piece.values s.stateless ()) = vs)
    (hblocked : ¬ Shape.Blocked (ps.map Piece.shape)) :
    s.evaluate (callText f texts) = ((answers.answer f vs ()).mapError .eval,
      (ps.filterMap Piece.pending? ++ [(f, vs)]).foldl after s) := by
  obtain ⟨houtcome, hcalls⟩ :=
    (Piece.run_program s.stateless answers_argumentDetermined () f ps hps ()).2 hblocked
  rw [hvs] at houtcome hcalls
  rw [s.evaluate_of_parse (parse_callText hf hread)]
  show (_, (calls s.stateless () (Piece.program f ps)).foldl after s) = _
  rw [hcalls]
  exact congrArg (fun outcome => (outcome.mapError Error.eval, _)) houtcome

/-! ## Defining, reading and deleting -/

theorem after_define (s : Session) (x : String) (v : Value) :
    s.after ("define", [.text x, v]) = { s with bindings := s.bindings.insert x v } :=
  (congrArg Prod.snd (define_eq [.text x, v] s)).symm

theorem after_delete (s : Session) (x : String) :
    s.after ("delete", [.text x]) = { s with bindings := s.bindings.erase x } :=
  (congrArg Prod.snd (delete_eq [.text x] s)).symm

theorem evaluate_define (s : Session) (x : String) (h : LiteralText text v) :
    s.evaluate (callText "define" [Json.quote x, text])
      = (.ok (.bool true), { s with bindings := s.bindings.insert x v }) := by
  obtain ⟨l, rfl, hl⟩ := h.exists_literal
  have hname : IsName "define".toList :=
    ⟨by decide, List.all_eq_true.mp rfl, by decide, by decide⟩
  have hread : List.Forall₂ ReadsAs [Json.quote x, text] [[.text x], [l.token]] :=
    .cons (readsAs_quote x) (.cons hl .nil)
  rw [← after_define]
  exact s.evaluate_callText [.part (.literal ⟨.text x, .text x, rfl⟩), .part (.literal l)]
    [.text x, l.value] hname hread (by simp [Piece.Known]) rfl
    (by simp [Shape.Blocked, Piece.shape, Part.shape])

theorem evaluate_delete (s : Session) (x : String) :
    s.evaluate (callText "delete" [Json.quote x])
      = (.ok (.bool true), { s with bindings := s.bindings.erase x }) := by
  have hname : IsName "delete".toList :=
    ⟨by decide, List.all_eq_true.mp rfl, by decide, by decide⟩
  rw [← after_delete]
  exact s.evaluate_callText [.part (.literal ⟨.text x, .text x, rfl⟩)] [.text x]
    hname (.cons (readsAs_quote x) .nil) (by simp [Piece.Known]) rfl
    (by simp [Shape.Blocked, Piece.shape, Part.shape])

theorem isName_if : IsName "if".toList := ⟨by decide, List.all_eq_true.mp rfl, by decide, by decide⟩

theorem forall₂_readsAs_if (hx : IsName x.toList) :
    List.Forall₂ ReadsAs ["true", x, x] [[.bool true], [.name x], [.name x]] :=
  .cons (readsAs_bool true) (.cons (readsAs_name hx) (.cons (readsAs_name hx) .nil))

theorem evaluate_if_of_bound (hx : IsName x.toList) (hbound : s.bindings.get? x = some v)
    (hv : v.isScalar = true) : s.evaluate (callText "if" ["true", x, x]) = (.ok v, s) := by
  obtain ⟨t, -, ht⟩ := Token.exists_of_isScalar hv
  have hx' : (Piece.name x).Known s.stateless () := ⟨⟨t, v, ht⟩, hbound⟩
  have hvalue : (Piece.name x).values s.stateless () = [v] := congrArg Option.toList hbound
  have hvalues : [Piece.part (.literal ⟨.bool true, .bool true, rfl⟩), .name x, .name x].flatMap
      (Piece.values s.stateless ()) = [.bool true, v, v] := by
    rw [List.flatMap_cons, List.flatMap_cons, List.flatMap_singleton, hvalue]
    rfl
  have hline := s.evaluate_callText _ _ isName_if (forall₂_readsAs_if hx)
    (by simpa using ⟨trivial, hx'⟩) hvalues (by simp [Shape.Blocked, Piece.shape, Part.shape])
  have hanswer : answers.answer "if" [.bool true, v, v] () = .ok v := if_pos hv
  have hafter : s.after ("if", [.bool true, v, v]) = s :=
    s.after_eq_self (by simp) (by simp) (by simp)
  rw [hline, hanswer]
  exact congrArg (Except.ok v, ·) hafter

theorem evaluate_if_of_unbound (hx : IsName x.toList) (hunbound : s.bindings.get? x = none) :
    s.evaluate (callText "if" ["true", x, x]) = (.error (.eval (.badVariable x none)), s) := by
  -- no rule but the last one applies, and its leftmost window is the first of the two names
  obtain ⟨r, hfind, hreplacement⟩ : ∃ r,
      Redex.find? (callTokens "if" [[.bool true], [.name x], [.name x]]) = some r ∧
        r.rule.action.replacement r.window = .ok (.binding x) := ⟨_, rfl, rfl⟩
  have hlookup : s.stateless.bindings.get? x = none := hunbound
  have hnew : r.rule.action.rewrite s.stateless () r.window
      = (.error (.badVariable x none), ()) := by
    rw [Action.rewrite_eq hreplacement, Replacement.resolve, hlookup]
  rw [s.evaluate_of_parse (parse_callText isName_if (forall₂_readsAs_if hx)),
    run_of_rewrite_eq_error rfl hfind hnew, calls,
    requests_of_rewrite_eq_error rfl hfind hreplacement hnew]
  rfl

/-- **A name from its definition to its deletion.** Any text can be defined as a name, with any
literal as its value, and deleted again. In between, a formula that has the name finds the value,
and after the deletion it fails. All other variables stay as they are, and the session goes on. -/
theorem define_use_delete (s : Session) (x text : String) (v : Value) (h : LiteralText text v) :
    ∃ s₁ s₂ : Session,
      s.evaluate (callText "define" [Json.quote x, text]) = (.ok (.bool true), s₁) ∧
      s₁.bindings.get? x = some v ∧
      (∀ y, y ≠ x → s₁.bindings.get? y = s.bindings.get? y) ∧
      s₁.finished = s.finished ∧
      (IsName x.toList → s₁.evaluate (callText "if" ["true", x, x]) = (.ok v, s₁)) ∧
      s₁.evaluate (callText "delete" [Json.quote x]) = (.ok (.bool true), s₂) ∧
      s₂.bindings.get? x = none ∧
      (∀ y, y ≠ x → s₂.bindings.get? y = s₁.bindings.get? y) ∧
      s₂.finished = s₁.finished ∧
      (IsName x.toList → s₂.evaluate (callText "if" ["true", x, x])
        = (.error (.eval (.badVariable x none)), s₂)) := by
  have hbound : (s.bindings.insert x v).get? x = some v := by
    rw [Bindings.get?_insert, if_pos rfl]
  have hunbound : ((s.bindings.insert x v).erase x).get? x = none := by
    rw [Bindings.get?_erase, if_pos rfl]
  refine ⟨_, _, s.evaluate_define x h, hbound, ?_, rfl, ?_, evaluate_delete _ x, hunbound, ?_, rfl,
    ?_⟩
  · intro y hy
    exact (Bindings.get?_insert s.bindings x y v).trans (if_neg hy)
  · intro hx
    exact evaluate_if_of_bound hx hbound h.isScalar
  · intro y hy
    exact (Bindings.get?_erase _ x y).trans (if_neg hy)
  · intro hx
    exact evaluate_if_of_unbound hx hunbound

/-- The name of a function that is called in the same line, and a number with more digits than it
needs. -/
theorem define_use_delete_if :
    LiteralText "07.50" (.number 7.5) ∧ IsName "if".toList ∧
    ∃ s₁ s₂ : Session,
      (Session.start ∅).evaluate "define(\"if\", 07.50)" = (.ok (.bool true), s₁) ∧
      s₁.bindings.get? "if" = some (.number 7.5) ∧
      s₁.evaluate "if(true, if, if)" = (.ok (.number 7.5), s₁) ∧
      s₁.evaluate "delete(\"if\")" = (.ok (.bool true), s₂) ∧
      s₂.bindings.get? "if" = none ∧
      s₂.evaluate "if(true, if, if)" = (.error (.eval (.badVariable "if" none)), s₂) := by
  have htext : LiteralText "07.50" (.number 7.5) := by
    have hnumeral : Decimal.IsNumeral ['0', '7'] ['5', '0'] :=
      ⟨by decide, List.all_eq_true.mp rfl⟩
    have hvalue : (Decimal.ofDigits ['0', '7'] ['5', '0']).toFloat = 7.5 := by decide +kernel
    exact hvalue ▸ .number hnumeral
  obtain ⟨s₁, s₂, hdefine, hbound, -, -, huse, hdelete, hunbound, -, -, hfail⟩ :=
    define_use_delete (Session.start ∅) "if" "07.50" _ htext
  exact ⟨htext, isName_if, s₁, s₂, hdefine, hbound, huse isName_if, hdelete, hunbound,
    hfail isName_if⟩

end Session

end Formula
