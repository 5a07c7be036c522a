import Formula.Proofs.Lexing.Quoted
import Formula.Proofs.Lexing.Tokens

/-! # Pieces of a text

A piece in front of a text is read by itself if its last lexeme ends where the piece ends
(`LexesTo`). Then the tokens of the piece come first, and an error in the rest is found where the
rest begins. Signs, blanks, quoted texts and truth values are read whatever follows them. A name
needs that no letter follows, and a number that it does not go on. -/

namespace Formula

variable {c : Char} {cs ds rest : List Char} {t : Token} {ts us : List Token}

/-! ## First characters -/

/-- A text does not begin with a character of the given kind. -/
def Avoids (p : Char → Bool) (cs : List Char) : Prop := ∀ c ∈ cs.head?, p c = false

theorem avoids_nil (p : Char → Bool) : Avoids p [] := by simp [Avoids]

theorem avoids_cons {p : Char → Bool} (h : p c = false) (cs : List Char) : Avoids p (c :: cs) := by
  simpa [Avoids] using h

namespace Avoids

variable {p : Char → Bool}

theorem append (hcs : Avoids p cs) (hrest : Avoids p rest) : Avoids p (cs ++ rest) := by
  cases cs with
  | nil => exact hrest
  | cons c cs => exact hcs

theorem takeWhile_eq_nil (h : Avoids p rest) : rest.takeWhile p = [] := by
  cases rest with
  | nil => rfl
  | cons c rest => exact List.takeWhile_cons_of_neg (by simp [h c rfl])

theorem dropWhile_eq_self (h : Avoids p rest) : rest.dropWhile p = rest := by
  cases rest with
  | nil => rfl
  | cons c rest => exact List.dropWhile_cons_of_neg (by simp [h c rfl])

theorem takeWhile_append (h : Avoids p rest) (cs : List Char) :
    (cs ++ rest).takeWhile p = cs.takeWhile p := by
  induction cs with
  | nil => exact h.takeWhile_eq_nil
  | cons c cs ih => simp only [List.cons_append, List.takeWhile_cons, ih]

theorem dropWhile_append (h : Avoids p rest) (cs : List Char) :
    (cs ++ rest).dropWhile p = cs.dropWhile p ++ rest := by
  induction cs with
  | nil => exact h.dropWhile_eq_self
  | cons c cs ih =>
    simp only [List.cons_append, List.dropWhile_cons, ih]
    split <;> rfl

end Avoids

theorem takeWhile_append_of_avoids {p : Char → Bool} (hcs : ∀ c ∈ cs, p c = true)
    (hrest : Avoids p rest) : (cs ++ rest).takeWhile p = cs := by
  rw [List.takeWhile_append_of_pos hcs, hrest.takeWhile_eq_nil, List.append_nil]

theorem dropWhile_append_of_avoids {p : Char → Bool} (hcs : ∀ c ∈ cs, p c = true)
    (hrest : Avoids p rest) : (cs ++ rest).dropWhile p = rest := by
  rw [List.dropWhile_append_of_pos hcs, hrest.dropWhile_eq_self]

theorem avoids_dropWhile (p : Char → Bool) (cs : List Char) : Avoids p (cs.dropWhile p) := by
  intro c hc
  have hnot := List.head?_dropWhile_not p cs
  rw [Option.mem_def.mp hc] at hnot
  exact hnot

theorem avoids_of_takeWhile_append {p : Char → Bool} (hcs : ∀ c ∈ cs, p c = true)
    (h : (cs ++ rest).takeWhile p = cs) : Avoids p rest := by
  rw [List.takeWhile_append_of_pos hcs, List.append_right_eq_self] at h
  rintro c hc
  obtain ⟨rest, rfl⟩ := List.head?_eq_some_iff.mp hc
  by_contra hp
  rw [List.takeWhile_cons_of_pos (by simpa using hp)] at h
  cases h

theorem Lexeme.isLetter_iff (c : Char) : isLetter c = true ↔
    97 ≤ c.toNat ∧ c.toNat ≤ 122 ∨ 65 ≤ c.toNat ∧ c.toNat ≤ 90 := by
  simp [isLetter, Char.le_def, UInt32.le_iff_toNat_le]

theorem Lexeme.isDigit_eq_false_of_isLetter (h : isLetter c = true) : c.isDigit = false := by
  rw [isLetter_iff] at h
  simp only [Bool.eq_false_iff, ne_eq, Char.isDigit_iff_toNat, Char.reduceToNat]
  omega

theorem Text.toNat_of_isBlank (h : isBlank c = true) : c.toNat ≤ 32 ∨ 127 < c.toNat := by
  simp only [isBlank, blankRanges, Ranges.contains, List.any_cons, List.any_nil, Bool.or_false,
    Bool.or_eq_true, Bool.and_eq_true, decide_eq_true_eq] at h
  omega

theorem Text.isDigit_eq_false_of_isBlank (h : isBlank c = true) : c.isDigit = false := by
  have := toNat_of_isBlank h
  simp only [Bool.eq_false_iff, ne_eq, Char.isDigit_iff_toNat, Char.reduceToNat]
  omega

theorem Text.isLetter_eq_false_of_isBlank (h : isBlank c = true) : Lexeme.isLetter c = false := by
  have := toNat_of_isBlank h
  rw [Bool.eq_false_iff, ne_eq, Lexeme.isLetter_iff]
  omega

namespace Lexeme

/-! ## First lexemes -/

theorem first_of_isDigit (h : c.isDigit = true) (cs : List Char) :
    first c cs
      = .ok (numberAfter (c :: cs.takeWhile Char.isDigit) (cs.dropWhile Char.isDigit)) := by
  rw [first, if_pos h]

theorem first_quote (cs : List Char) : first '"' cs = quoted cs := by
  rw [first, if_neg (by decide), if_pos rfl]

theorem first_of_isLetter (h : isLetter c = true) (cs : List Char) :
    first c cs = .ok (word (c :: cs)) := by
  have hquote : c ≠ '"' := by
    rintro rfl
    cases h
  simp [first, isDigit_eq_false_of_isLetter h, hquote, h]

theorem first_of_isBlank (h : Text.isBlank c = true) (cs : List Char) :
    first c cs = .ok { token? := none
                       text := c :: cs.takeWhile Text.isBlank
                       rest := cs.dropWhile Text.isBlank } := by
  have hquote : c ≠ '"' := by
    rintro rfl
    cases h
  simp [first, Text.isDigit_eq_false_of_isBlank h, hquote, Text.isLetter_eq_false_of_isBlank h, h]

theorem exists_symbol_of_sign? (h : sign? c = some t) :
    c ∈ ['(', ')', ','] ∨ ∃ o : Operator, c = o.symbol := by
  unfold sign? at h
  split at h
  · simp
  · simp
  · simp
  · obtain ⟨o, ho, -⟩ := Option.map_eq_some_iff.mp h
    unfold Operator.ofSymbol? at ho
    have hsymbol := List.find?_some ho
    exact .inr ⟨o, (of_decide_eq_true hsymbol).symm⟩

theorem first_of_sign? (h : sign? c = some t) (cs : List Char) :
    first c cs = .ok { token? := some t, text := [c], rest := cs } := by
  have hall : c.isDigit = false ∧ c ≠ '"' ∧ isLetter c = false ∧ Text.isBlank c = false := by
    rcases exists_symbol_of_sign? h with hc | ⟨o, rfl⟩
    · clear h
      simp only [List.mem_cons, List.not_mem_nil, or_false] at hc
      rcases hc with rfl | rfl | rfl <;> decide
    · cases o <;> decide
  obtain ⟨hdigit, hquote, hletter, hblank⟩ := hall
  simp [first, hdigit, hquote, hletter, hblank, h]

end Lexeme

/-! ## What is left after a lexeme -/

theorem avoids_rest_numberAfter {whole : List Char} (hrest : Avoids Char.isDigit rest) :
    Avoids Char.isDigit (Lexeme.numberAfter whole rest).rest := by
  unfold Lexeme.numberAfter
  split
  · rename_i digits after hfraction
    unfold Lexeme.fraction? at hfraction
    split at hfraction
    · simp only [Option.ite_none_left_eq_some, Option.some.injEq, Prod.mk.injEq] at hfraction
      obtain ⟨-, -, rfl⟩ := hfraction
      exact avoids_dropWhile _ _
    · cases hfraction
  · exact hrest

theorem avoids_point_of_lex (h : lex cs = .ok ts) : Avoids (· = '.') cs := by
  intro c hc
  by_contra hpoint
  obtain rfl : c = '.' := by simpa using hpoint
  obtain ⟨cs, rfl⟩ := List.head?_eq_some_iff.mp hc
  obtain ⟨lexeme, us, hfirst, -⟩ := lex_cons_eq_ok_iff.mp h
  cases hfirst

/-! ## Reading a piece -/

/-- What a text with a piece in front of it is read as, by what it is read as itself. -/
def behind (cs : List Char) (ts : List Token) :
    Except ParseError (List Token) → Except ParseError (List Token)
  | .error e => .error (e.after (Text.byteLength cs))
  | .ok us => .ok (ts ++ us)

/-- A piece in front of a text is read as tokens of its own. -/
def LexesTo (cs : List Char) (ts : List Token) (rest : List Char) : Prop :=
  lex (cs ++ rest) = behind cs ts (lex rest)

theorem LexesTo.eq_ok_iff (h : LexesTo cs ts rest) :
    lex (cs ++ rest) = .ok us ↔ ∃ vs, lex rest = .ok vs ∧ us = ts ++ vs := by
  rw [h]
  cases lex rest <;> simp [behind, eq_comm]

theorem LexesTo.append (h : LexesTo cs ts (ds ++ rest)) (hds : LexesTo ds us rest) :
    LexesTo (cs ++ ds) (ts ++ us) rest := by
  unfold LexesTo at *
  rw [List.append_assoc, h, hds]
  cases lex rest <;> simp [behind, ParseError.after, Nat.add_assoc]

theorem lexesTo_of_first (token? : Option Token)
    (h : Lexeme.first c (cs ++ rest) = .ok { token?, text := c :: cs, rest }) :
    LexesTo (c :: cs) token?.toList rest := by
  unfold LexesTo
  rw [List.cons_append, lex_cons_of_first_eq_ok h]
  cases lex rest <;> rfl

/-- A blank is read alone or with the blanks after it, which makes no difference. -/
theorem lexesTo_blank (h : Text.isBlank c = true) (rest : List Char) : LexesTo [c] [] rest := by
  unfold LexesTo
  rw [List.singleton_append, lex_cons_of_first_eq_ok (Lexeme.first_of_isBlank h rest)]
  dsimp only
  cases rest with
  | nil => simp [lex_nil, behind]
  | cons d rest =>
    by_cases hd : Text.isBlank d = true
    · rw [lex_cons_of_first_eq_ok (Lexeme.first_of_isBlank hd rest),
        List.dropWhile_cons_of_pos hd, List.takeWhile_cons_of_pos hd]
      dsimp only
      cases lex (rest.dropWhile Text.isBlank) <;> simp [behind, ParseError.after, Nat.add_assoc]
    · rw [List.dropWhile_cons_of_neg hd, List.takeWhile_cons_of_neg hd]
      cases lex (d :: rest) <;> rfl

theorem lexesTo_sign (h : Lexeme.sign? c = some t) (rest : List Char) : LexesTo [c] [t] rest :=
  lexesTo_of_first (some t) (Lexeme.first_of_sign? h rest)

theorem lexesTo_quoteChars (cs rest : List Char) :
    LexesTo (Json.quoteChars cs) [.text (String.ofList cs)] rest := by
  have hfirst : Lexeme.first '"' ((cs.flatMap Json.encodeChar ++ ['"']) ++ rest)
      = .ok { token? := some (.text (String.ofList cs)), text := Json.quoteChars cs, rest } := by
    rw [List.append_assoc, Lexeme.first_quote]
    exact Lexeme.quoted_encoded cs rest
  exact lexesTo_of_first _ hfirst

theorem lexesTo_bool (b : Bool) (rest : List Char) :
    LexesTo (if b then "true".toList else "false".toList) [.bool b] rest := by
  cases b with
  | true => exact lexesTo_of_first (some (.bool true)) (Lexeme.first_of_isLetter rfl _)
  | false => exact lexesTo_of_first (some (.bool false)) (Lexeme.first_of_isLetter rfl _)

/-- A word at the front of a text does not reach beyond the letters there. -/
theorem isPrefix_of_isPrefixOf {word : List Char} (hword : ∀ c ∈ word, Lexeme.isLetter c = true)
    (hrest : Avoids Lexeme.isLetter rest) (h : word.isPrefixOf (cs ++ rest) = true) :
    word <+: cs := by
  obtain ⟨after, hafter⟩ := List.isPrefixOf_iff_prefix.mp h
  rcases List.append_eq_append_iff.mp hafter with ⟨more, hcs, -⟩ | ⟨more, hmore, hrest'⟩
  · exact ⟨more, hcs.symm⟩
  · cases more with
    | nil => rw [hmore, List.append_nil]
    | cons c more =>
      have hc := hword c (by simp [hmore])
      rw [hrest c (by simp [hrest'])] at hc
      cases hc

theorem lexesTo_name (h : IsName cs) (hrest : Avoids Lexeme.isLetter rest) :
    LexesTo cs [.name (String.ofList cs)] rest := by
  have htrue : ¬ "true".toList.isPrefixOf (cs ++ rest) = true :=
    fun hprefix => h.not_true (isPrefix_of_isPrefixOf (List.all_eq_true.mp rfl) hrest hprefix)
  have hfalse : ¬ "false".toList.isPrefixOf (cs ++ rest) = true :=
    fun hprefix => h.not_false (isPrefix_of_isPrefixOf (List.all_eq_true.mp rfl) hrest hprefix)
  have hword : Lexeme.word (cs ++ rest)
      = { token? := some (.name (String.ofList cs)), text := cs, rest } := by
    rw [Lexeme.word, if_neg htrue, if_neg hfalse, takeWhile_append_of_avoids h.letters hrest,
      dropWhile_append_of_avoids h.letters hrest]
  cases cs with
  | nil => exact absurd rfl h.ne_nil
  | cons c cs =>
    refine lexesTo_of_first (some (.name (String.ofList (c :: cs)))) ?_
    rw [Lexeme.first_of_isLetter (h.letters c List.mem_cons_self)]
    exact congrArg _ hword

theorem fraction?_eq_none (hpoint : Avoids (· = '.') rest) : Lexeme.fraction? rest = none := by
  unfold Lexeme.fraction?
  split
  · exact absurd (hpoint '.' rfl) (by decide)
  · rfl

theorem numberAfter_pointed {whole fraction : List Char} (h : Decimal.IsNumeral whole fraction)
    (hdigit : Avoids Char.isDigit rest) (hpoint : Avoids (· = '.') rest) :
    Lexeme.numberAfter whole (Decimal.pointed fraction ++ rest)
      = { token? := some (.number (Decimal.ofDigits whole fraction).toFloat)
          text := Decimal.written whole fraction
          rest } := by
  cases fraction with
  | nil => simp [Lexeme.numberAfter, fraction?_eq_none hpoint, Decimal.written, Decimal.pointed]
  | cons d fraction =>
    have hdigits : ∀ c ∈ d :: fraction, c.isDigit = true :=
      fun c hc => h.digits c (List.mem_append_right _ hc)
    have htake := takeWhile_append_of_avoids hdigits hdigit
    have hdrop := dropWhile_append_of_avoids hdigits hdigit
    rw [List.cons_append] at htake hdrop
    simp [Lexeme.numberAfter, Lexeme.fraction?, htake, hdrop, Decimal.written, Decimal.pointed]

theorem lexesTo_written {whole fraction : List Char} (h : Decimal.IsNumeral whole fraction)
    (hdigit : Avoids Char.isDigit rest) (hpoint : Avoids (· = '.') rest) :
    LexesTo (Decimal.written whole fraction)
      [.number (Decimal.ofDigits whole fraction).toFloat] rest := by
  have hafter : Avoids Char.isDigit (Decimal.pointed fraction ++ rest) := by
    unfold Decimal.pointed
    split
    · exact hdigit
    · rintro c ⟨⟩
      rfl
  have hnumber := numberAfter_pointed h hdigit hpoint
  have hdigits : ∀ c ∈ whole, c.isDigit = true :=
    fun c hc => h.digits c (List.mem_append_left _ hc)
  cases whole with
  | nil => exact absurd rfl h.ne_nil
  | cons c whole =>
    have hwhole := fun d hd => hdigits d (List.mem_cons_of_mem c hd)
    rw [Decimal.written, List.cons_append] at hnumber ⊢
    refine lexesTo_of_first (some (.number (Decimal.ofDigits (c :: whole) fraction).toFloat)) ?_
    rw [Lexeme.first_of_isDigit (hdigits c List.mem_cons_self), List.append_assoc,
      takeWhile_append_of_avoids hwhole hafter, dropWhile_append_of_avoids hwhole hafter]
    exact congrArg _ hnumber

end Formula
