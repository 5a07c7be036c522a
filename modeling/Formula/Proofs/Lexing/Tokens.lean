import Formula.Lexeme
import Formula.Proofs.Decimal.Text
import Formula.Proofs.Lists

/-! # The tokens of a text

A text is read lexeme by lexeme, and the first lexeme alone tells its token (`lex_induction`). So
the tokens that can be read are those of single lexemes: `Token.Readable`. -/

namespace Formula

variable {c : Char} {cs : List Char} {lexeme : Lexeme} {t : Token} {ts us : List Token}
  {e : ParseError}

/-! ## One lexeme and the rest -/

theorem lex_nil : lex [] = .ok [] := by rw [lex]

theorem lex_cons_of_first_eq_ok (h : Lexeme.first c cs = .ok lexeme) :
    lex (c :: cs) = match lex lexeme.rest with
      | .error e => .error (e.after (Text.byteLength lexeme.text))
      | .ok ts => .ok (lexeme.token?.toList ++ ts) := by
  rw [lex]
  split
  · rename_i hfirst
    rw [h] at hfirst
    cases hfirst
  · rename_i hfirst
    rw [h] at hfirst
    cases hfirst
    rfl

theorem lex_cons_of_first_eq_error {cause : ParseError.Cause}
    (h : Lexeme.first c cs = .error cause) :
    lex (c :: cs) = .error { offset := 0, cause } := by
  rw [lex]
  split
  · rename_i hfirst
    rw [h] at hfirst
    cases hfirst
    rfl
  · rename_i hfirst
    rw [h] at hfirst
    cases hfirst

theorem lex_cons_eq_ok_iff : lex (c :: cs) = .ok ts ↔
    ∃ lexeme us, Lexeme.first c cs = .ok lexeme ∧ lex lexeme.rest = .ok us ∧
      ts = lexeme.token?.toList ++ us := by
  cases hfirst : Lexeme.first c cs with
  | error cause => simp [lex_cons_of_first_eq_error hfirst]
  | ok lexeme =>
    rw [lex_cons_of_first_eq_ok hfirst]
    cases hrest : lex lexeme.rest <;> simp [hrest, eq_comm]

/-- A text that can be read is empty, or it is a lexeme in front of a text that can be read. -/
@[elab_as_elim]
theorem lex_induction {motive : List Char → List Token → Prop} (nil : motive [] [])
    (cons : ∀ c cs lexeme ts, Lexeme.first c cs = .ok lexeme → lex lexeme.rest = .ok ts →
      motive lexeme.rest ts → motive (c :: cs) (lexeme.token?.toList ++ ts))
    (h : lex cs = .ok ts) : motive cs ts := by
  induction hn : cs.length using Nat.strongRecOn generalizing cs ts with
  | ind n ih =>
    cases cs with
    | nil =>
      rw [lex_nil] at h
      cases h
      exact nil
    | cons c cs =>
      obtain ⟨lexeme, us, hfirst, hrest, rfl⟩ := lex_cons_eq_ok_iff.mp h
      exact cons c cs lexeme us hfirst hrest
        (ih _ (hn ▸ Lexeme.length_rest_lt hfirst) hrest rfl)

/-! ## The tokens that can be read -/

/-- A run of letters that is read as one name: it does not begin with a truth value. -/
structure IsName (cs : List Char) : Prop where
  ne_nil : cs ≠ []
  letters : ∀ c ∈ cs, Lexeme.isLetter c = true
  not_true : ¬ "true".toList <+: cs
  not_false : ¬ "false".toList <+: cs

/-- The tokens of single lexemes. -/
inductive Token.Readable : Token → Prop
  | number {whole fraction : List Char} (h : Decimal.IsNumeral whole fraction) :
    Readable (.number (Decimal.ofDigits whole fraction).toFloat)
  | text (s : String) : Readable (.text s)
  | bool (b : Bool) : Readable (.bool b)
  | name {letters : List Char} (h : IsName letters) : Readable (.name (String.ofList letters))
  | operator (o : Operator) : Readable (.operator o)
  | openParen : Readable .openParen
  | closeParen : Readable .closeParen
  | comma : Readable .comma

namespace Lexeme

/-- What the first character makes of the front of a text. -/
inductive Cut (c : Char) (cs : List Char) : Lexeme → Prop
  | number (h : c.isDigit = true) :
    Cut c cs (numberAfter (c :: cs.takeWhile Char.isDigit) (cs.dropWhile Char.isDigit))
  | quoted {lexeme : Lexeme} (h : c = '"') (hquoted : quoted cs = .ok lexeme) : Cut c cs lexeme
  | word (h : isLetter c = true) : Cut c cs (word (c :: cs))
  | blanks (h : Text.isBlank c = true) :
    Cut c cs { token? := none
               text := c :: cs.takeWhile Text.isBlank
               rest := cs.dropWhile Text.isBlank }
  | sign {t : Token} (h : sign? c = some t) : Cut c cs { token? := some t, text := [c], rest := cs }

theorem cut_of_first (h : first c cs = .ok lexeme) : Cut c cs lexeme := by
  unfold first at h
  split at h
  · rename_i hc
    cases h
    exact .number hc
  · split at h
    · rename_i hc
      exact .quoted hc h
    · split at h
      · rename_i hc
        cases h
        exact .word hc
      · split at h
        · rename_i hc
          cases h
          exact .blanks hc
        · split at h
          · rename_i hsign
            cases h
            exact .sign hsign
          · cases h

theorem exists_number_of_numberAfter {whole : List Char} (rest : List Char) (hne : whole ≠ [])
    (hwhole : ∀ c ∈ whole, c.isDigit = true) :
    ∃ fraction, Decimal.IsNumeral whole fraction ∧
      (numberAfter whole rest).token? = some (.number (Decimal.ofDigits whole fraction).toFloat) ∧
      (numberAfter whole rest).text = Decimal.written whole fraction := by
  unfold numberAfter
  split
  · rename_i digits after hfraction
    unfold fraction? at hfraction
    split at hfraction
    · simp only [Option.ite_none_left_eq_some, Option.some.injEq, Prod.mk.injEq] at hfraction
      obtain ⟨hempty, rfl, -⟩ := hfraction
      refine ⟨_, ⟨hne, fun c hc => ?_⟩, rfl, by simp [Decimal.written, Decimal.pointed, hempty]⟩
      rcases List.mem_append.mp hc with hc | hc
      · exact hwhole c hc
      · exact List.all_eq_true.mp List.all_takeWhile c hc
    · cases hfraction
  · exact ⟨[], ⟨hne, by simpa using hwhole⟩, rfl, by simp [Decimal.written, Decimal.pointed]⟩

theorem exists_text_of_quoted (h : quoted cs = .ok lexeme) :
    ∃ s, lexeme.token? = some (.text s) := by
  unfold quoted at h
  split at h
  · cases h
  · dsimp only at h
    split at h
    · cases h
      exact ⟨_, rfl⟩
    · cases h

/-- A word is a truth value or all of its letters. -/
theorem word_cases (hc : isLetter c = true) (cs : List Char) :
    (∃ b, (word (c :: cs)).token? = some (.bool b) ∧
        (word (c :: cs)).text = if b then "true".toList else "false".toList) ∨
      IsName ((c :: cs).takeWhile isLetter) ∧
        word (c :: cs) = { token? := some (.name (String.ofList ((c :: cs).takeWhile isLetter)))
                           text := (c :: cs).takeWhile isLetter
                           rest := (c :: cs).dropWhile isLetter } := by
  unfold word
  split
  · exact .inl ⟨true, rfl, rfl⟩
  · rename_i htrue
    split
    · exact .inl ⟨false, rfl, rfl⟩
    · rename_i hfalse
      refine .inr ⟨⟨?_, ?_, not_prefix_takeWhile_of_isPrefixOf htrue,
        not_prefix_takeWhile_of_isPrefixOf hfalse⟩, rfl⟩
      · rw [List.takeWhile_cons_of_pos hc]
        exact List.cons_ne_nil _ _
      · exact fun c hc => List.all_eq_true.mp List.all_takeWhile c hc

theorem readable_of_sign? (h : sign? c = some t) : t.Readable := by
  unfold sign? at h
  split at h
  · cases h; exact .openParen
  · cases h; exact .closeParen
  · cases h; exact .comma
  · obtain ⟨o, -, rfl⟩ := Option.map_eq_some_iff.mp h
    exact .operator o

theorem isDigit_of_mem_cons_takeWhile (hc : c.isDigit = true) (cs : List Char) :
    ∀ d ∈ c :: cs.takeWhile Char.isDigit, d.isDigit = true :=
  List.forall_mem_cons.mpr ⟨hc, List.all_eq_true.mp List.all_takeWhile⟩

theorem Cut.readable (h : Cut c cs lexeme) (ht : lexeme.token? = some t) : t.Readable := by
  cases h with
  | number hc =>
    obtain ⟨fraction, hnumeral, htoken, -⟩ := exists_number_of_numberAfter
      (cs.dropWhile Char.isDigit) (List.cons_ne_nil _ _) (isDigit_of_mem_cons_takeWhile hc cs)
    rw [htoken] at ht
    cases ht
    exact .number hnumeral
  | quoted hc hquoted =>
    obtain ⟨s, hs⟩ := exists_text_of_quoted hquoted
    rw [hs] at ht
    cases ht
    exact .text s
  | word hc =>
    rcases word_cases hc cs with ⟨b, hb, -⟩ | ⟨hname, hword⟩
    · rw [hb] at ht
      cases ht
      exact .bool b
    · rw [hword] at ht
      cases ht
      exact .name hname
  | blanks hc => cases ht
  | sign hsign =>
    cases ht
    exact readable_of_sign? hsign

end Lexeme

/-- **What is read from a text consists of readable tokens.** -/
theorem readable_of_lex (h : lex cs = .ok ts) : ∀ t ∈ ts, t.Readable := by
  refine lex_induction (motive := fun _ ts => ∀ t ∈ ts, t.Readable) (by simp) ?_ h
  intro c cs lexeme ts hfirst _ ih t ht
  rcases List.mem_append.mp ht with ht | ht
  · exact (Lexeme.cut_of_first hfirst).readable (Option.mem_toList.mp ht)
  · exact ih t ht

end Formula
