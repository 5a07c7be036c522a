import Formula.Proofs.Lexing.Joining
import Formula.Proofs.Lexing.Pattern

/-! # Where reading stops

A text is read up to the first place that cannot be read. What stands before this place has been cut
into lexemes with the rest of the text in view: a number takes all its digits, a name all its
letters, and a quoted text ends with a quote that is found far ahead. Without the rest it is cut the
same (`Cuts.lex_before`). So an error points at the end of a text that can be read, and at a
character that cannot go on (`parse_eq_error_place`). -/

namespace Formula

variable {c : Char} {before cs more rest : List Char} {ts : List Token} {lexeme : Lexeme}
  {cause : ParseError.Cause} {e : ParseError}

/-! ## The place that has been reached -/

/-- A text is cut into lexemes up to a place: what stands before it, the tokens of this, and what is
left of the text. -/
inductive Cuts : List Char → List Token → List Char → Prop
  | start (rest : List Char) : Cuts [] [] rest
  | lexeme {c : Char} {before cs rest : List Char} {ts : List Token} {lexeme : Lexeme}
    (hfirst : Lexeme.first c cs = .ok lexeme) (hrest : lexeme.rest = before ++ rest)
    (hbefore : Cuts before ts rest) : Cuts (lexeme.text ++ before) (lexeme.token?.toList ++ ts) rest

theorem lexesTo_of_first_eq_ok (h : Lexeme.first c cs = .ok lexeme) :
    LexesTo lexeme.text lexeme.token?.toList lexeme.rest := by
  unfold LexesTo
  rw [(Lexeme.first_eq_ok h).1, lex_cons_of_first_eq_ok h]
  cases lex lexeme.rest <;> rfl

/-- What is cut off is a piece of the text. -/
theorem Cuts.lexesTo (h : Cuts before ts rest) : LexesTo before ts rest := by
  induction h with
  | start rest => exact lexesTo_blanks (by simp) rest
  | lexeme hfirst hrest hbefore ih =>
    have hlexeme := lexesTo_of_first_eq_ok hfirst
    rw [hrest] at hlexeme
    exact hlexeme.append ih

/-- A text that cannot be read is cut up to a place where no lexeme can be read. -/
theorem exists_cuts_of_lex_eq_error (h : lex cs = .error e) :
    ∃ before ts c rest, cs = before ++ c :: rest ∧ Cuts before ts (c :: rest) ∧
      Lexeme.first c rest = .error e.cause ∧ Text.byteLength before = e.offset := by
  fun_induction lex cs generalizing e with
  | case1 => cases h
  | case2 c cs cause hfirst =>
    cases h
    exact ⟨[], [], c, cs, rfl, .start _, hfirst, rfl⟩
  | case3 c cs lexeme hfirst hshorter e' hlater ih =>
    cases h
    obtain ⟨before, ts, d, rest, hrest, hcuts, hfault, hoffset⟩ := ih hlater
    refine ⟨lexeme.text ++ before, _, d, rest, ?_, .lexeme hfirst hrest hcuts, hfault, ?_⟩
    · rw [← (Lexeme.first_eq_ok hfirst).1, hrest, List.append_assoc]
    · rw [Text.byteLength_append, hoffset]
      rfl
  | case4 => cases h

/-! ## The text before it -/

/-- A text that is shortened does not begin with another character. -/
theorem Avoids.of_append {p : Char → Bool} (h : Avoids p (cs ++ rest)) : Avoids p cs := by
  cases cs with
  | nil => exact avoids_nil p
  | cons c cs => exact h

/-- **What has been cut off is read by itself**, without the text that follows it. -/
theorem Cuts.lex_before (h : Cuts before ts rest) : lex before = .ok ts := by
  induction h with
  | start rest => exact lex_nil
  | @lexeme c before cs rest ts lexeme hfirst hrest hbefore ih =>
    have hlexes : LexesTo lexeme.text lexeme.token?.toList before := by
      refine (Lexeme.cut_of_first hfirst).lexesTo ?_ ?_ (avoids_point_of_lex ih)
      · intro hdigit
        exact Avoids.of_append (hrest ▸ hdigit)
      · intro hletter
        exact Avoids.of_append (hrest ▸ hletter)
    exact hlexes.eq_ok_iff.mpr ⟨ts, ih, rfl⟩

/-! ## The character at it -/

/-- The characters that no lexeme begins with. A quote begins one if there is another quote. -/
structure OutOfPlace (c : Char) (rest : List Char) : Prop where
  not_digit : c.isDigit = false
  not_letter : Lexeme.isLetter c = false
  not_operator : ∀ o : Operator, c ≠ o.symbol
  not_punctuation : c ∉ ['(', ')', ',']
  not_blank : Text.isBlank c = false
  unclosed : c = '"' → '"' ∉ rest

namespace Lexeme

theorem sign?_symbol (o : Operator) : sign? o.symbol = some (.operator o) := by
  cases o <;> rfl

theorem not_sign_of_sign?_eq_none (h : sign? c = none) :
    (∀ o : Operator, c ≠ o.symbol) ∧ c ∉ ['(', ')', ','] := by
  constructor
  · intro o hc
    rw [hc, sign?_symbol] at h
    cases h
  · intro hc
    simp only [List.mem_cons, List.not_mem_nil, or_false] at hc
    obtain rfl | rfl | rfl := hc <;> cases h

/-- A quoted text cannot be read for want of a closing quote, or because it cannot be decoded. -/
theorem quoted_eq_error (h : quoted cs = .error cause) :
    ('"' ∉ cs ∧ cause = .unexpectedCharacter '"') ∨
      '"' ∈ cs ∧ ∃ fault position, cause = .invalidText fault position := by
  unfold quoted at h
  split at h
  · rename_i hclosing
    cases h
    rw [splitAtClosingQuote?_eq_or, Option.or_eq_none_iff,
      splitAtLastQuote?_eq_none_iff] at hclosing
    exact .inl ⟨hclosing.2, rfl⟩
  · rename_i body rest hclosing
    have hmem : '"' ∈ cs := by
      by_contra hmem
      rw [splitAtClosingQuote?_of_not_mem hmem] at hclosing
      cases hclosing
    dsimp only at h
    split at h
    · cases h
    · cases h
      exact .inr ⟨hmem, _, _, rfl⟩

theorem first_eq_error (h : first c cs = .error cause) :
    (c = '"' ∧ '"' ∈ cs ∧ ∃ fault position, cause = .invalidText fault position) ∨
      cause = .unexpectedCharacter c ∧ OutOfPlace c cs := by
  unfold first at h
  split at h
  · cases h
  · rename_i hdigit
    split at h
    · rename_i hquote
      subst hquote
      obtain ⟨hmem, rfl⟩ | ⟨hmem, hcause⟩ := quoted_eq_error h
      · refine .inr ⟨rfl, ?_⟩
        exact ⟨rfl, rfl, fun o => by cases o <;> decide, by decide, by decide, fun _ => hmem⟩
      · exact .inl ⟨rfl, hmem, hcause⟩
    · rename_i hquote
      split at h
      · cases h
      · rename_i hletter
        split at h
        · cases h
        · rename_i hblank
          split at h
          · cases h
          · rename_i hsign
            cases h
            obtain ⟨hoperator, hpunctuation⟩ := not_sign_of_sign?_eq_none hsign
            refine .inr ⟨rfl, ?_⟩
            exact ⟨by simpa using hdigit, by simpa using hletter, hoperator, hpunctuation,
              by simpa using hblank, fun hc => absurd hc hquote⟩

end Lexeme

/-- **An error points at the first place that cannot be read.** The place lies between two
characters of the text and not at its end, and what stands before it can be read by itself. Either a
quoted text begins there which is closed but cannot be decoded, or the character there, which is the
one that is reported, begins no lexeme. -/
theorem parse_eq_error_place (text : String) (e : ParseError)
    (h : Expression.parse text = .error e) :
    e.offset < text.utf8ByteSize ∧ (String.Pos.Raw.mk e.offset).IsValid text ∧
      ∃ (before after : String) (c : Char), text = before ++ String.singleton c ++ after ∧
        before.utf8ByteSize = e.offset ∧ (∃ x, Expression.parse before = .ok x) ∧
        ((c = '"' ∧ '"' ∈ after.toList ∧ ∃ fault position, e.cause = .invalidText fault position) ∨
          e.cause = .unexpectedCharacter c ∧ OutOfPlace c after.toList) := by
  obtain ⟨before, ts, c, after, htext, hcuts, hfirst, hoffset⟩ :=
    exists_cuts_of_lex_eq_error (Expression.parse_eq_error_iff.mp h)
  have hsplit : text = String.ofList before ++ String.singleton c ++ String.ofList after := by
    apply String.toList_inj.mp
    simp [htext]
  have hbytes : (String.ofList before).utf8ByteSize = e.offset := by
    rw [← Text.byteLength_toList, String.toList_ofList, hoffset]
  refine ⟨?_, ?_, String.ofList before, String.ofList after, c, hsplit, hbytes, ?_, ?_⟩
  · rw [hsplit, String.utf8ByteSize_append, String.utf8ByteSize_append, hbytes,
      String.utf8ByteSize_singleton]
    have := c.utf8Size_pos
    omega
  · rw [String.Pos.Raw.isValid_iff_exists_append]
    refine ⟨String.ofList before, String.singleton c ++ String.ofList after, ?_, ?_⟩
    · rw [hsplit, String.append_assoc]
    · rw [← hbytes]
      rfl
  · refine ⟨.ofTokens ts, Expression.parse_eq_ok_iff.mpr ⟨ts, ?_, rfl⟩⟩
    rw [String.toList_ofList]
    exact hcuts.lex_before
  · rw [String.toList_ofList]
    exact Lexeme.first_eq_error hfirst

/-- A point without digits behind it stops the lexer behind the number. In the second text the only
quote behind the third one is escaped, so the text that the third quote opens is reported where it
begins. -/
theorem parse_eq_error_place_point :
    Expression.parse "x + \"é\" * 2." = .error ⟨12, .unexpectedCharacter '.'⟩ ∧
      (∃ before after : String, "x + \"é\" * 2." = before ++ "." ++ after ∧
        before.utf8ByteSize = 12 ∧ (∃ x, Expression.parse before = .ok x) ∧
        OutOfPlace '.' after.toList) ∧
      Expression.parse "\"é\" \"\\\" 1" = .error ⟨5, .invalidText .endOfText ⟨1, 3⟩⟩ ∧
      ∃ before after : String, "\"é\" \"\\\" 1" = before ++ "\"" ++ after ∧
        before.utf8ByteSize = 5 ∧ (∃ x, Expression.parse before = .ok x) ∧ '"' ∈ after.toList := by
  have hpoint : Expression.parse "x + \"é\" * 2." = .error ⟨12, .unexpectedCharacter '.'⟩ := by
    decide +kernel
  have htext : Expression.parse "\"é\" \"\\\" 1" = .error ⟨5, .invalidText .endOfText ⟨1, 3⟩⟩ := by
    decide +kernel
  refine ⟨hpoint, ?_, htext, ?_⟩
  · obtain ⟨-, -, before, after, c, hsplit, hbytes, hbefore, hcharacter⟩ :=
      parse_eq_error_place _ _ hpoint
    obtain ⟨-, -, fault, position, hcause⟩ | ⟨hcause, hplace⟩ := hcharacter
    · cases hcause
    · cases hcause
      exact ⟨before, after, hsplit, hbytes, hbefore, hplace⟩
  · obtain ⟨-, -, before, after, c, hsplit, hbytes, hbefore, hcharacter⟩ :=
      parse_eq_error_place _ _ htext
    obtain ⟨rfl, hmem, -⟩ | ⟨hcause, -⟩ := hcharacter
    · exact ⟨before, after, hsplit, hbytes, hbefore, hmem⟩
    · cases hcause

end Formula
