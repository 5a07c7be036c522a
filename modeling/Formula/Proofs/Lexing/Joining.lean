import Formula.Expression
import Formula.Proofs.Lexing.Closing
import Formula.Proofs.Lexing.Pieces
import Formula.Proofs.Lists

/-! # Texts joined by blanks

A blank ends every lexeme. So a text that can be read is a piece in front of any text that begins
with a blank (`lexesTo_of_lex`): its tokens come first, and an error in the text behind it is found at
the same place of that text (`parse_append_blanks`). -/

namespace Formula

variable {c : Char} {cs ds rest : List Char} {ts us : List Token} {lexeme : Lexeme}

/-! ## Blanks end every lexeme -/

/-- A text is empty or begins with a blank. -/
def StartsBlank (cs : List Char) : Prop := ∀ c ∈ cs.head?, Text.isBlank c = true

theorem startsBlank_append (h : ∀ c ∈ cs, Text.isBlank c = true) (hne : cs ≠ []) (rest : List Char) :
    StartsBlank (cs ++ rest) := by
  intro c hc
  cases cs with
  | nil => exact absurd rfl hne
  | cons d cs =>
    obtain rfl : d = c := Option.some.inj hc
    exact h d List.mem_cons_self

/-- Blanks behind a text do not make it begin with another kind of character. -/
theorem Avoids.append_blank {p : Char → Bool} (h : Avoids p cs)
    (hp : ∀ c, Text.isBlank c = true → p c = false) (hrest : StartsBlank rest) :
    Avoids p (cs ++ rest) :=
  h.append fun c hc => hp c (hrest c hc)

theorem Text.ne_point_of_isBlank (h : isBlank c = true) : decide (c = '.') = false := by
  by_cases hc : c = '.'
  · subst hc
    cases h
  · exact decide_eq_false hc

theorem lexesTo_blanks (h : ∀ c ∈ cs, Text.isBlank c = true) (rest : List Char) :
    LexesTo cs [] rest := by
  induction cs with
  | nil =>
    unfold LexesTo
    cases hrest : lex rest <;> simp [behind, ParseError.after, hrest]
  | cons c cs ih =>
    obtain ⟨hc, hcs⟩ := List.forall_mem_cons.mp h
    exact (lexesTo_blank hc (cs ++ rest)).append (ih hcs)

/-- A quoted text that has been read is read by itself, whatever follows it. -/
theorem lexesTo_of_quoted (h : Lexeme.quoted cs = .ok lexeme) (rest : List Char) :
    LexesTo lexeme.text lexeme.token?.toList rest := by
  obtain ⟨body, htext, hquoted⟩ := Lexeme.exists_quoted_append h
  rw [htext]
  refine lexesTo_of_first lexeme.token? ?_
  rw [Lexeme.first_quote, hquoted, ← htext]

/-- The lexeme at the front of a text stays the same if other text stands behind it, unless this goes
on with digits, letters or a point. -/
theorem Lexeme.Cut.lexesTo (h : Cut c cs lexeme)
    (hdigit : Avoids Char.isDigit lexeme.rest → Avoids Char.isDigit rest)
    (hletter : Avoids isLetter lexeme.rest → Avoids isLetter rest)
    (hpoint : Avoids (· = '.') rest) : LexesTo lexeme.text lexeme.token?.toList rest := by
  cases h with
  | number hc =>
    obtain ⟨fraction, hnumeral, htoken, htext⟩ := exists_number_of_numberAfter
      (cs.dropWhile Char.isDigit) (List.cons_ne_nil _ _) (isDigit_of_mem_cons_takeWhile hc cs)
    have hrest : Avoids Char.isDigit (Lexeme.numberAfter (c :: cs.takeWhile Char.isDigit)
        (cs.dropWhile Char.isDigit)).rest := avoids_rest_numberAfter (avoids_dropWhile _ cs)
    rw [htoken, htext]
    exact lexesTo_written hnumeral (hdigit hrest) hpoint
  | quoted hc hquoted => exact lexesTo_of_quoted hquoted rest
  | word hc =>
    rcases word_cases hc cs with ⟨b, htoken, htext⟩ | ⟨hname, hword⟩
    · rw [htoken, htext]
      exact lexesTo_bool b _
    · rw [hword] at hletter ⊢
      exact lexesTo_name hname (hletter (avoids_dropWhile isLetter (c :: cs)))
  | blanks hc =>
    refine lexesTo_blanks (List.forall_mem_cons.mpr ⟨hc, ?_⟩) _
    exact fun d hd => List.all_eq_true.mp List.all_takeWhile d hd
  | sign hsign => exact lexesTo_sign hsign _

/-- **A text that can be read is a piece in front of a blank.** -/
theorem lexesTo_of_lex (h : lex cs = .ok ts) (hrest : StartsBlank rest) : LexesTo cs ts rest := by
  refine lex_induction (motive := fun cs ts => LexesTo cs ts rest) ?_ ?_ h
  · exact lexesTo_blanks (by simp) rest
  · intro c cs lexeme ts hfirst hlex ih
    rw [← (Lexeme.first_eq_ok hfirst).1]
    have hpoint := (avoids_point_of_lex hlex).append_blank (fun _ => Text.ne_point_of_isBlank) hrest
    refine ((Lexeme.cut_of_first hfirst).lexesTo ?_ ?_ hpoint).append ih
    · intro hdigit
      exact hdigit.append_blank (fun _ => Text.isDigit_eq_false_of_isBlank) hrest
    · intro hletter
      exact hletter.append_blank (fun _ => Text.isLetter_eq_false_of_isBlank) hrest

theorem lexesTo_append_blanks (h : lex cs = .ok ts) (hds : ∀ c ∈ ds, Text.isBlank c = true)
    (hne : ds ≠ []) (rest : List Char) : LexesTo (cs ++ ds) ts rest := by
  have hblank := startsBlank_append hds hne rest
  have happend := (lexesTo_of_lex h hblank).append (lexesTo_blanks hds rest)
  rwa [List.append_nil] at happend

/-! ## Joined texts -/

theorem Expression.ofTokens_append (ts us : List Token) :
    ofTokens (ts ++ us)
      = { tokens := ts ++ us, names := ((ofTokens ts).names ++ (ofTokens us).names).eraseDups } := by
  simp only [ofTokens, List.filterMap_append, eraseDups_append_eraseDups]

theorem Text.byteLength_toList (s : String) : byteLength s.toList = s.utf8ByteSize := by
  have hlength : ∀ cs : List Char, byteLength cs = String.utf8Len cs := by
    intro cs
    induction cs with
    | nil => rfl
    | cons c cs ih => rw [byteLength_cons, String.utf8Len_cons, ih, Nat.add_comm]
  rw [hlength, ← String.utf8ByteSize_ofList, String.ofList_toList]

theorem Expression.parse_eq_ok_iff {text : String} {e : Expression} :
    parse text = .ok e ↔ ∃ ts, lex text.toList = .ok ts ∧ e = ofTokens ts := by
  unfold parse
  cases lex text.toList <;> simp [Except.map, eq_comm]

theorem Expression.parse_eq_error_iff {text : String} {e : ParseError} :
    parse text = .error e ↔ lex text.toList = .error e := by
  unfold parse
  cases lex text.toList <;> simp [Except.map]

/-- **Texts that are joined by blanks are read one after the other.** If the second one cannot be
read, the error is that of the second one, moved by the bytes in front of it. -/
theorem parse_append_blanks (first blanks second : String) (e : Expression)
    (hfirst : Expression.parse first = .ok e) (hne : blanks ≠ "")
    (hblanks : ∀ c ∈ blanks.toList, Text.isBlank c = true) :
    (∀ e', Expression.parse second = .ok e' →
      Expression.parse (first ++ blanks ++ second)
        = .ok { tokens := e.tokens ++ e'.tokens, names := (e.names ++ e'.names).eraseDups }) ∧
      ∀ fault, Expression.parse second = .error fault →
        Expression.parse (first ++ blanks ++ second)
          = .error { offset := first.utf8ByteSize + blanks.utf8ByteSize + fault.offset
                     cause := fault.cause } := by
  obtain ⟨ts, hlex, rfl⟩ := Expression.parse_eq_ok_iff.mp hfirst
  have hjoined : lex (first ++ blanks ++ second).toList
      = behind (first.toList ++ blanks.toList) ts (lex second.toList) := by
    rw [String.toList_append, String.toList_append]
    exact lexesTo_append_blanks hlex hblanks (by simpa using hne) second.toList
  constructor
  · intro e' hsecond
    obtain ⟨us, hus, rfl⟩ := Expression.parse_eq_ok_iff.mp hsecond
    rw [hus] at hjoined
    exact Expression.parse_eq_ok_iff.mpr ⟨ts ++ us, hjoined, (Expression.ofTokens_append ts us).symm⟩
  · intro fault hsecond
    rw [Expression.parse_eq_error_iff.mp hsecond] at hjoined
    rw [Expression.parse_eq_error_iff, hjoined, behind, Text.byteLength_append,
      Text.byteLength_toList, Text.byteLength_toList]
    rfl

/-- The first text ends within a call and has a letter of two bytes, and the blank has three, so that
17 bytes stand before the second text. Of its names one is there already. A text with a wrong escape
fails at the same place with the same cause. -/
theorem parse_append_blanks_call :
    Expression.parse "join(\"é\\\"\", x"
        = .ok ⟨[.name "join", .openParen, .text "é\"", .comma, .name "x"], ["join", "x"]⟩ ∧
      Expression.parse "y ^x)"
        = .ok ⟨[.name "y", .operator .pow, .name "x", .closeParen], ["y", "x"]⟩ ∧
      Expression.parse ("join(\"é\\\"\", x" ++ "\u2003" ++ "y ^x)")
        = .ok ⟨[.name "join", .openParen, .text "é\"", .comma, .name "x", .name "y",
            .operator .pow, .name "x", .closeParen], ["join", "x", "y"]⟩ ∧
      Expression.parse "y \"\\q\"" = .error ⟨2, .invalidText .invalidEscape ⟨1, 3⟩⟩ ∧
      Expression.parse ("join(\"é\\\"\", x" ++ "\u2003" ++ "y \"\\q\"")
        = .error ⟨19, .invalidText .invalidEscape ⟨1, 3⟩⟩ := by
  have hfirst : Expression.parse "join(\"é\\\"\", x"
      = .ok ⟨[.name "join", .openParen, .text "é\"", .comma, .name "x"], ["join", "x"]⟩ := by
    decide +kernel
  have hsecond : Expression.parse "y ^x)"
      = .ok ⟨[.name "y", .operator .pow, .name "x", .closeParen], ["y", "x"]⟩ := by
    decide +kernel
  have hfault : Expression.parse "y \"\\q\"" = .error ⟨2, .invalidText .invalidEscape ⟨1, 3⟩⟩ := by
    decide +kernel
  have hblank : ∀ c ∈ "\u2003".toList, Text.isBlank c = true := by
    intro c hc
    obtain rfl : c = '\u2003' := by simpa using hc
    decide +kernel
  obtain ⟨hjoined, -⟩ := parse_append_blanks _ "\u2003" "y ^x)" _ hfirst (by decide) hblank
  obtain ⟨-, hmoved⟩ := parse_append_blanks _ "\u2003" "y \"\\q\"" _ hfirst (by decide) hblank
  refine ⟨hfirst, hsecond, ?_, hfault, ?_⟩
  · rw [hjoined _ hsecond]
    decide
  · rw [hmoved _ hfault]
    decide

end Formula
