import Formula.Expression
import Formula.Proofs.Lexing.Joining
import Formula.Proofs.Lexing.Spelling
import Formula.Proofs.Run

/-! # Rendering and reading again

Rendered tokens stand side by side, and only operators and commas bring their own blanks. A name
takes up the letters that follow it and a number the digits, and an infinite number is written with
letters. Everything else is read as it was. So tokens come back from their text exactly if no number
is infinite and no two of them run into each other (`parse_render_iff_separate`). A quoted text runs
into nothing, so it can be put in front of any text (`parse_quoted_append`). -/

namespace Formula

variable {c : Char} {cs rest : List Char} {t u : Token} {ts us : List Token}

/-! ## Tokens that run into each other -/

/-- A token takes up what begins like this. -/
def Token.absorbs : Token → Front → Bool
  | .number _, .digit | .name _, .letter => true
  | _, _ => false

/-- The second of two tokens becomes a part of the first one. -/
def Token.runsInto : Token → Token → Bool
  | .number _, .number _ | .name _, .name _ | .name _, .bool _ => true
  | _, _ => false

theorem Token.absorbs_front (hfinite : u.IsFinite) : t.absorbs u.front = t.runsInto u := by
  cases u with
  | number x =>
    rw [front_number hfinite]
    cases t <;> rfl
  | text | bool | name | operator | openParen | closeParen | comma | args => cases t <;> rfl

theorem Token.clearOf_nil (t : Token) : t.ClearOf [] := by
  cases t <;> simp [ClearOf, Avoids]

theorem Token.Readable.clearOf_iff (h : u.Readable) :
    t.ClearOf (u.chars ++ rest) ↔ t.absorbs u.front = false := by
  obtain ⟨c, cs, hchars, hfront, hpoint⟩ := h.exists_front
  rw [hchars, ← hfront]
  have hdigit := Front.of_eq_digit_iff (c := c)
  have hletter := Front.of_eq_letter_iff (c := c)
  cases t with
  | number x =>
    simp only [ClearOf, Avoids, List.cons_append, List.head?_cons, Option.mem_def,
      Option.some.injEq, forall_eq', hpoint, decide_false, and_true]
    rw [Bool.eq_false_iff, ne_eq, ← hdigit]
    cases Front.of c <;> simp [absorbs]
  | name s =>
    simp only [ClearOf, Avoids, List.cons_append, List.head?_cons, Option.mem_def,
      Option.some.injEq, forall_eq']
    rw [Bool.eq_false_iff, ne_eq, ← hletter]
    cases Front.of c <;> simp [absorbs]
  | text | bool | operator | openParen | closeParen | comma | args => simp [ClearOf, absorbs]

/-! ## Words that are read again -/

/-- A word is read at once, with all letters that there are. -/
theorem exists_of_lex_letter (hc : Lexeme.isLetter c = true) (h : lex (c :: cs) = .ok ts) :
    ∃ us, (∃ b, ts = .bool b :: us) ∨
      ts = .name (String.ofList ((c :: cs).takeWhile Lexeme.isLetter)) :: us := by
  obtain ⟨lexeme, us, hfirst, -, rfl⟩ := lex_cons_eq_ok_iff.mp h
  rw [Lexeme.first_of_isLetter hc] at hfirst
  cases hfirst
  refine ⟨us, ?_⟩
  rcases Lexeme.word_cases hc cs with ⟨b, hb, -⟩ | ⟨-, hword⟩
  · exact .inl ⟨b, by rw [hb]; rfl⟩
  · exact .inr (by rw [hword]; rfl)

/-- An infinite number is not read again: its text is a word. -/
theorem Token.Readable.isFinite_of_lex (h : t.Readable)
    (hlex : lex (t.chars ++ rest) = .ok (t :: us)) : t.IsFinite := by
  cases t with
  | number x =>
    rcases h.chars_number with ⟨hfinite, -⟩ | ⟨-, hchars⟩
    · exact hfinite
    · rw [hchars] at hlex
      obtain ⟨vs, ⟨b, hb⟩ | hname⟩ := exists_of_lex_letter rfl hlex
      · cases hb
      · cases hname
  | text | bool | name | operator | openParen | closeParen | comma | args => trivial

theorem avoids_of_lex_name {s : String} (h : (Token.name s).Readable)
    (hlex : lex ((Token.name s).chars ++ rest) = .ok (.name s :: us)) :
    Avoids Lexeme.isLetter rest := by
  have hname := h.isName
  refine avoids_of_takeWhile_append hname.letters ?_
  rw [Token.chars_name] at hlex
  cases hs : s.toList with
  | nil => exact absurd hs hname.ne_nil
  | cons c cs =>
    rw [hs, List.cons_append] at hlex
    obtain ⟨vs, ⟨b, hb⟩ | hall⟩ := exists_of_lex_letter (hname.letters c (by simp [hs])) hlex
    · cases hb
    · simp only [List.cons.injEq, Token.name.injEq] at hall
      rw [List.cons_append, ← String.toList_ofList (l := List.takeWhile _ _), ← hall.1, hs]

/-! ## Numbers that are read again -/

/-- The characters of a finite number. -/
def isNumeric (c : Char) : Bool := c.isDigit || c = '.'

theorem isNumeric_of_mem_written {whole fraction : List Char}
    (h : Decimal.IsNumeral whole fraction) :
    ∀ c ∈ Decimal.written whole fraction, isNumeric c = true := by
  intro c hc
  have hdigit := h.digits c
  unfold Decimal.written Decimal.pointed at hc
  split at hc <;> grind [isNumeric]

theorem Token.Readable.isNumeric_of_front (h : t.Readable) (hfront : t.front = .digit) :
    ∀ c ∈ t.chars, isNumeric c = true := by
  cases t with
  | number x =>
    rcases h.chars_number with ⟨-, whole, fraction, hnumeral, -, hchars⟩ | ⟨hinfinite, -⟩
    · rw [hchars]
      exact isNumeric_of_mem_written hnumeral
    · simp [front, hinfinite] at hfront
  | text | bool | name | operator | openParen | closeParen | comma | args => cases hfront

/-- A number is read with all digits that there are, and no point is left after it. -/
theorem exists_of_lex_digit (hc : c.isDigit = true) (h : lex (c :: cs) = .ok ts) :
    ∃ x us, ts = .number x :: us ∧ lex ((c :: cs).dropWhile isNumeric) = .ok us := by
  obtain ⟨lexeme, us, hfirst, hrest, rfl⟩ := lex_cons_eq_ok_iff.mp h
  have happend := (Lexeme.first_eq_ok hfirst).1
  have hdigit : Avoids Char.isDigit lexeme.rest := by
    rw [Lexeme.first_of_isDigit hc] at hfirst
    cases hfirst
    exact avoids_rest_numberAfter (avoids_dropWhile _ _)
  have hnumeric : Avoids isNumeric lexeme.rest := fun d hd => by
    simp [isNumeric, hdigit d hd, avoids_point_of_lex hrest d hd]
  rw [Lexeme.first_of_isDigit hc] at hfirst
  obtain ⟨fraction, hnumeral, htoken, htext⟩ := Lexeme.exists_number_of_numberAfter
    (cs.dropWhile Char.isDigit) (List.cons_ne_nil _ _)
    (Lexeme.isDigit_of_mem_cons_takeWhile hc cs)
  rw [Except.ok.inj hfirst] at htoken htext
  refine ⟨_, us, by rw [htoken]; rfl, ?_⟩
  have htext : ∀ d ∈ lexeme.text, isNumeric d = true := by
    rw [htext]
    exact isNumeric_of_mem_written hnumeral
  rw [← happend, dropWhile_append_of_avoids htext hnumeric]
  exact hrest

theorem Token.Readable.ne_number_of_lex (h : t.Readable) (hfront : t.front ≠ .digit)
    (hlex : lex (t.chars ++ rest) = .ok us) (x : Float) : us.head? ≠ some (.number x) := by
  by_cases hletter : t.front = .letter
  · obtain ⟨c, cs, hchars, hc, -⟩ := h.exists_front
    rw [hchars, List.cons_append] at hlex
    obtain ⟨vs, ⟨b, rfl⟩ | rfl⟩ :=
      exists_of_lex_letter (Front.of_eq_letter_iff.mp (hc.trans hletter)) hlex
    · simp
    · simp
  · have hnumber : ∀ y, t ≠ .number y := by
      rintro y rfl
      unfold front at hfront hletter
      split at hfront <;> simp_all
    have hself : t.IsFinite ∧ t.ClearOf rest := by
      cases t with
      | number y => exact absurd rfl (hnumber y)
      | name s => exact absurd rfl hletter
      | text | bool | operator | openParen | closeParen | comma | args => exact ⟨trivial, trivial⟩
    obtain ⟨vs, -, rfl⟩ := (h.lexesTo hself.1 hself.2).eq_ok_iff.mp hlex
    simpa using hnumber x

/-- Behind the numbers at the front of a text that is rendered, another token is read. -/
theorem ne_number_of_lex_dropWhile (hts : ∀ t ∈ ts, t.Readable)
    (h : lex ((ts.flatMap Token.chars).dropWhile isNumeric) = .ok us) (x : Float) :
    us.head? ≠ some (.number x) := by
  induction ts with
  | nil =>
    rw [List.flatMap_nil, List.dropWhile_nil, lex_nil] at h
    cases h
    simp
  | cons t ts ih =>
    have ht := hts t List.mem_cons_self
    rw [List.flatMap_cons] at h
    by_cases hfront : t.front = .digit
    · have hnumeric : ∀ c ∈ t.chars, isNumeric c = true := ht.isNumeric_of_front hfront
      rw [List.dropWhile_append_of_pos hnumeric] at h
      exact ih (fun u hu => hts u (List.mem_cons_of_mem t hu)) h
    · obtain ⟨c, cs, hchars, hc, hpoint⟩ := ht.exists_front
      have hnot : ¬ isNumeric c = true := by
        have := Front.of_eq_digit_iff (c := c)
        simp_all [isNumeric]
      rw [hchars, List.cons_append, List.dropWhile_cons_of_neg hnot, ← List.cons_append,
        ← hchars] at h
      exact ht.ne_number_of_lex hfront h x

theorem Token.front_ne_digit (h : ∀ x, t ≠ .number x) : t.front ≠ .digit := by
  cases t with
  | number x => exact absurd rfl (h x)
  | text | bool | name | operator | openParen | closeParen | comma | args => simp [front]

theorem clearOf_of_lex_number {x : Float} (h : (Token.number x).Readable)
    (hts : ∀ u ∈ ts, u.Readable)
    (hlex : lex ((Token.number x).chars ++ ts.flatMap Token.chars) = .ok (.number x :: ts)) :
    (Token.number x).ClearOf (ts.flatMap Token.chars) := by
  have hfront := Token.front_number (h.isFinite_of_lex hlex)
  have hrest : lex ((ts.flatMap Token.chars).dropWhile isNumeric) = .ok ts := by
    obtain ⟨c, cs, hchars, hc, -⟩ := h.exists_front
    rw [← List.dropWhile_append_of_pos (h.isNumeric_of_front hfront)]
    rw [hchars, List.cons_append] at hlex ⊢
    obtain ⟨y, us, hus, hrest⟩ :=
      exists_of_lex_digit (Front.of_eq_digit_iff.mp (hc.trans hfront)) hlex
    cases hus
    exact hrest
  cases ts with
  | nil => exact Token.clearOf_nil _
  | cons u us =>
    have hu : u.front ≠ .digit := Token.front_ne_digit fun y => by
      simpa using ne_number_of_lex_dropWhile hts hrest y
    rw [List.flatMap_cons, (hts u List.mem_cons_self).clearOf_iff]
    cases hfront : u.front <;> simp_all [Token.absorbs]

/-! ## Reading what has been rendered -/

theorem toList_render (ts : List Token) : (render ts).toList = ts.flatMap Token.chars := by
  rw [render, String.toList_join, List.flatMap_map]
  rfl

/-- **What follows a token that is read again does not lengthen it.** -/
theorem Token.Readable.clearOf_of_lex (h : t.Readable) (hts : ∀ u ∈ ts, u.Readable)
    (hlex : lex (t.chars ++ ts.flatMap Token.chars) = .ok (t :: ts)) :
    t.ClearOf (ts.flatMap Token.chars) := by
  cases t with
  | number x => exact clearOf_of_lex_number h hts hlex
  | name s => exact avoids_of_lex_name h hlex
  | text | bool | operator | openParen | closeParen | comma | args => trivial

/-- The first of two tokens that stand side by side is clear of the second one, unless this one is a
part of it then. -/
theorem clearOf_flatMap_cons_iff (hu : u.Readable) (hfinite : u.IsFinite) :
    t.ClearOf ((u :: ts).flatMap Token.chars) ↔ ¬ t.runsInto u = true := by
  rw [List.flatMap_cons, hu.clearOf_iff, Token.absorbs_front hfinite, Bool.not_eq_true]

/-- No number is infinite, and no token runs into the next one. -/
structure Separate (ts : List Token) : Prop where
  finite : ∀ t ∈ ts, t.IsFinite
  chain : ts.IsChain (fun t u => ¬ t.runsInto u = true)

instance (ts : List Token) : Decidable (Separate ts) :=
  decidable_of_iff ((∀ t ∈ ts, t.IsFinite) ∧ ts.IsChain (fun t u => ¬ t.runsInto u = true))
    ⟨fun h => ⟨h.1, h.2⟩, fun h => ⟨h.finite, h.chain⟩⟩

theorem lex_flatMap_of_separate (hts : ∀ t ∈ ts, t.Readable) (h : Separate ts) :
    lex (ts.flatMap Token.chars) = .ok ts := by
  induction ts with
  | nil => exact lex_nil
  | cons t ts ih =>
    obtain ⟨ht, hts⟩ := List.forall_mem_cons.mp hts
    obtain ⟨hfinite, hfinites⟩ := List.forall_mem_cons.mp h.finite
    have hclear : t.ClearOf (ts.flatMap Token.chars) := by
      cases ts with
      | nil => exact t.clearOf_nil
      | cons u ts =>
        rw [clearOf_flatMap_cons_iff (hts u List.mem_cons_self) (hfinites u List.mem_cons_self)]
        exact (List.isChain_cons_cons.mp h.chain).1
    have hrest := ih hts ⟨hfinites, h.chain.tail⟩
    exact (ht.lexesTo hfinite hclear).eq_ok_iff.mpr ⟨ts, hrest, rfl⟩

theorem separate_of_lex_flatMap (hts : ∀ t ∈ ts, t.Readable)
    (h : lex (ts.flatMap Token.chars) = .ok ts) : Separate ts := by
  induction ts with
  | nil => exact ⟨by simp, List.isChain_nil⟩
  | cons t ts ih =>
    obtain ⟨ht, hts⟩ := List.forall_mem_cons.mp hts
    rw [List.flatMap_cons] at h
    have hfinite := ht.isFinite_of_lex h
    have hclear := ht.clearOf_of_lex hts h
    obtain ⟨us, hrest, hus⟩ := (ht.lexesTo hfinite hclear).eq_ok_iff.mp h
    obtain rfl : ts = us := List.tail_eq_of_cons_eq hus
    have hseparate := ih hts hrest
    refine ⟨List.forall_mem_cons.mpr ⟨hfinite, hseparate.finite⟩, ?_⟩
    cases ts with
    | nil => exact List.isChain_singleton t
    | cons u ts =>
      rw [clearOf_flatMap_cons_iff (hts u List.mem_cons_self)
        (hseparate.finite u List.mem_cons_self)] at hclear
      exact List.isChain_cons_cons.mpr ⟨hclear, hseparate.chain⟩

/-- **Tokens come back from their text exactly if no number is infinite and no token runs into the
next one.** -/
theorem parse_render_iff_separate {text : String} {e : Expression}
    (h : Expression.parse text = .ok e) :
    (Expression.parse (render e.tokens)).map Expression.tokens = .ok e.tokens ↔
      Separate e.tokens := by
  have hts : ∀ t ∈ e.tokens, t.Readable := by
    cases hlex : lex text.toList with
    | error cause =>
      rw [Expression.parse, hlex] at h
      cases h
    | ok ts =>
      rw [Expression.parse, hlex] at h
      cases h
      exact readable_of_lex hlex
  have hparse : (Expression.parse (render e.tokens)).map Expression.tokens
      = lex (e.tokens.flatMap Token.chars) := by
    rw [Expression.parse, toList_render]
    cases lex (e.tokens.flatMap Token.chars) <;> rfl
  rw [hparse]
  exact ⟨separate_of_lex_flatMap hts, lex_flatMap_of_separate hts⟩

/-- Blanks that a text does not need come back as they are written, and the blank between two
numbers is lost. -/
theorem parse_render_iff_separate_blanks :
    (∃ e, Expression.parse "mean ( 1,x ^2.50)" = .ok e ∧ render e.tokens = "mean(1, x^2.5)" ∧
      (Expression.parse (render e.tokens)).map Expression.tokens = .ok e.tokens) ∧
    ∃ e, Expression.parse "mean(1 2)" = .ok e ∧ render e.tokens = "mean(12)" ∧
      (Expression.parse (render e.tokens)).map Expression.tokens ≠ .ok e.tokens := by
  have hblanks : (Expression.parse "mean ( 1,x ^2.50)").toOption.map Expression.tokens
      = some [.name "mean", .openParen, .number 1, .comma, .name "x", .operator .pow, .number 2.5,
        .closeParen] := by decide +kernel
  have hnumbers : (Expression.parse "mean(1 2)").toOption.map Expression.tokens
      = some [.name "mean", .openParen, .number 1, .number 2, .closeParen] := by decide +kernel
  constructor
  · obtain ⟨e, he, htokens⟩ := Option.map_eq_some_iff.mp hblanks
    have hparse := eq_ok_of_toOption_eq_some he
    refine ⟨e, hparse, by rw [htokens]; decide +kernel, (parse_render_iff_separate hparse).mpr ?_⟩
    rw [htokens]
    decide +kernel
  · obtain ⟨e, he, htokens⟩ := Option.map_eq_some_iff.mp hnumbers
    have hparse := eq_ok_of_toOption_eq_some he
    refine ⟨e, hparse, by rw [htokens]; decide +kernel, ?_⟩
    rw [ne_eq, parse_render_iff_separate hparse, htokens]
    decide +kernel

/-! ## A quoted text in front of any other text -/

/-- **A quoted text is read back, whatever follows it.** Its closing quote is the one that has been
written, also if there are other quotes behind it, and an error behind it stays the same but for the
bytes in front of it. -/
theorem parse_quoted_append (s rest : String) :
    (∀ e, Expression.parse rest = .ok e →
      Expression.parse (render [.text s] ++ rest)
        = .ok { tokens := .text s :: e.tokens, names := e.names }) ∧
      ∀ fault, Expression.parse rest = .error fault →
        Expression.parse (render [.text s] ++ rest)
          = .error { offset := (render [.text s]).utf8ByteSize + fault.offset
                     cause := fault.cause } := by
  have hquoted : lex (render [.text s] ++ rest).toList
      = behind (render [.text s]).toList [.text s] (lex rest.toList) := by
    rw [String.toList_append, toList_render, List.flatMap_singleton]
    exact (Token.Readable.text s).lexesTo trivial trivial
  constructor
  · intro e hrest
    obtain ⟨us, hus, rfl⟩ := Expression.parse_eq_ok_iff.mp hrest
    rw [hus] at hquoted
    exact Expression.parse_eq_ok_iff.mpr ⟨.text s :: us, hquoted, rfl⟩
  · intro fault hrest
    rw [Expression.parse_eq_error_iff.mp hrest] at hquoted
    rw [Expression.parse_eq_error_iff, hquoted, behind, ← Text.byteLength_toList]
    rfl

/-- A text that ends with a backslash and a quote, in front of a text with quotes of its own. A control
character takes six bytes and `é` two, so that 13 bytes stand before the text that fails. -/
theorem parse_quoted_append_escaped :
    render [.text "\\\""] = "\"\\\\\\\"\"" ∧
      Expression.parse "\"\\\"\" + x"
        = .ok ⟨[.text "\"", .operator .add, .name "x"], ["x"]⟩ ∧
      Expression.parse (render [.text "\\\""] ++ "\"\\\"\" + x")
        = .ok ⟨[.text "\\\"", .text "\"", .operator .add, .name "x"], ["x"]⟩ ∧
      render [.text "\u0001é\n"] = "\"\\u0001é\\n\"" ∧
      Expression.parse "x\"\\q\"" = .error ⟨1, .invalidText .invalidEscape ⟨1, 3⟩⟩ ∧
      Expression.parse (render [.text "\u0001é\n"] ++ "x\"\\q\"")
        = .error ⟨13, .invalidText .invalidEscape ⟨1, 3⟩⟩ := by
  have hrest : Expression.parse "\"\\\"\" + x"
      = .ok ⟨[.text "\"", .operator .add, .name "x"], ["x"]⟩ := by
    decide +kernel
  have hfault : Expression.parse "x\"\\q\"" = .error ⟨1, .invalidText .invalidEscape ⟨1, 3⟩⟩ := by
    decide +kernel
  refine ⟨by decide +kernel, hrest, (parse_quoted_append _ _).1 _ hrest, by decide +kernel, hfault, ?_⟩
  rw [(parse_quoted_append _ _).2 _ hfault]
  decide +kernel

end Formula
