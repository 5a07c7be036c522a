import Formula.Error
import Formula.Json.Quoted
import Formula.Text.Blank

/-!
# Lexemes

The text of a formula is cut into lexemes from the left. The first character of a lexeme tells what
it is: a number, a quoted text, a word, a run of blanks, or a sign of one character. Errors carry
their offset from where reading began, and `ParseError.after` moves them along with the text in
front, so what a text reads as does not depend on what stands before it.
-/

namespace Formula

/-- A lexeme at the front of a text, and what is left of the text. Blanks make no token. -/
structure Lexeme where
  token? : Option Token
  text : List Char
  rest : List Char
  deriving Repr

namespace Lexeme

/-! ## Numbers -/

/-- The point and the digits of a fraction. A point that no digit follows is none. -/
def fraction? (cs : List Char) : Option (List Char × List Char) :=
  match cs with
  | '.' :: tail =>
    let digits := tail.takeWhile Char.isDigit
    if digits.isEmpty then none else some (digits, tail.dropWhile Char.isDigit)
  | _ => none

/-- The number whose digits before the point are `whole`. -/
def numberAfter (whole rest : List Char) : Lexeme :=
  match fraction? rest with
  | some (digits, rest) =>
    { token? := some (.number (Decimal.ofDigits whole digits).toFloat)
      text := whole ++ '.' :: digits
      rest }
  | none =>
    { token? := some (.number (Decimal.ofDigits whole []).toFloat)
      text := whole
      rest }

/-! ## Quoted texts -/

/-- Splits after the first quote that no backslash escapes. -/
def splitAtFreeQuote? : List Char → Option (List Char × List Char)
  | [] => none
  | '"' :: cs => some (['"'], cs)
  | '\\' :: c :: cs =>
    (splitAtFreeQuote? cs).map fun (body, rest) => ('\\' :: c :: body, rest)
  | c :: cs => (splitAtFreeQuote? cs).map fun (body, rest) => (c :: body, rest)

/-- Splits after the last quote of all. -/
def splitAtLastQuote? : List Char → Option (List Char × List Char)
  | [] => none
  | c :: cs =>
    match splitAtLastQuote? cs with
    | some (body, rest) => some (c :: body, rest)
    | none => if c = '"' then some (['"'], cs) else none

/-- Splits after the quote that closes a literal whose opening quote has been read: the first free
quote, or if all quotes are escaped the last one. -/
def splitAtClosingQuote? (cs : List Char) : Option (List Char × List Char) :=
  match splitAtFreeQuote? cs with
  | some split => some split
  | none => splitAtLastQuote? cs

/-- A quoted text after its opening quote, which is out of place without a closing one. -/
def quoted (cs : List Char) : Except ParseError.Cause Lexeme :=
  match splitAtClosingQuote? cs with
  | none => .error (.unexpectedCharacter '"')
  | some (body, rest) =>
    let literal := '"' :: body
    match Json.unquote literal with
    | .ok s => .ok { token? := some (.text (String.ofList s)), text := literal, rest }
    | .error stop => .error (.invalidText stop.fault (Text.positionAt literal stop.consumed))

/-! ## Words and signs -/

def isLetter (c : Char) : Bool := ('a' ≤ c && c ≤ 'z') || ('A' ≤ c && c ≤ 'Z')

/-- A truth value, which may be the beginning of a longer run of letters, or otherwise a name. -/
def word (cs : List Char) : Lexeme :=
  if "true".toList.isPrefixOf cs then
    { token? := some (.bool true), text := "true".toList, rest := cs.drop 4 }
  else if "false".toList.isPrefixOf cs then
    { token? := some (.bool false), text := "false".toList, rest := cs.drop 5 }
  else
    let letters := cs.takeWhile isLetter
    { token? := some (.name (String.ofList letters))
      text := letters
      rest := cs.dropWhile isLetter }

/-- The token that is written with a single character. -/
def sign? : Char → Option Token
  | '(' => some .openParen
  | ')' => some .closeParen
  | ',' => some .comma
  | c => (Operator.ofSymbol? c).map .operator

/-- The lexeme at the front of the text `c :: cs`. -/
def first (c : Char) (cs : List Char) : Except ParseError.Cause Lexeme :=
  if c.isDigit then
    .ok (numberAfter (c :: cs.takeWhile Char.isDigit) (cs.dropWhile Char.isDigit))
  else if c = '"' then quoted cs
  else if isLetter c then .ok (word (c :: cs))
  else if Text.isBlank c then
    .ok { token? := none
          text := c :: cs.takeWhile Text.isBlank
          rest := cs.dropWhile Text.isBlank }
  else
    match sign? c with
    | some t => .ok { token? := some t, text := [c], rest := cs }
    | none => .error (.unexpectedCharacter c)

/-! ## Every lexeme takes a character at least -/

theorem fraction?_eq_some {cs digits rest : List Char} (h : fraction? cs = some (digits, rest)) :
    cs = '.' :: digits ++ rest := by
  unfold fraction? at h
  split at h
  · simp only [Option.ite_none_left_eq_some, Option.some.injEq, Prod.mk.injEq] at h
    obtain ⟨_, rfl, rfl⟩ := h
    simp
  · simp at h

theorem numberAfter_text_append_rest (whole rest : List Char) :
    (numberAfter whole rest).text ++ (numberAfter whole rest).rest = whole ++ rest := by
  unfold numberAfter
  split
  · rename_i h
    simp [fraction?_eq_some h]
  · rfl

theorem numberAfter_text_ne_nil {whole : List Char} (h : whole ≠ []) (rest : List Char) :
    (numberAfter whole rest).text ≠ [] := by
  unfold numberAfter
  split <;> simp [h]

theorem splitAtFreeQuote?_eq_some {cs body rest : List Char}
    (h : splitAtFreeQuote? cs = some (body, rest)) : body ++ rest = cs := by
  fun_induction splitAtFreeQuote? cs generalizing body with
  | case1 => simp at h
  | case2 cs =>
    simp only [Option.some.injEq, Prod.mk.injEq] at h
    obtain ⟨rfl, rfl⟩ := h
    rfl
  | case3 c cs ih =>
    obtain ⟨⟨b, r⟩, hs, he⟩ := Option.map_eq_some_iff.mp h
    simp only [Prod.mk.injEq] at he
    obtain ⟨rfl, rfl⟩ := he
    simp [ih hs]
  | case4 c cs _ _ ih =>
    obtain ⟨⟨b, r⟩, hs, he⟩ := Option.map_eq_some_iff.mp h
    simp only [Prod.mk.injEq] at he
    obtain ⟨rfl, rfl⟩ := he
    simp [ih hs]

theorem splitAtLastQuote?_eq_some {cs body rest : List Char}
    (h : splitAtLastQuote? cs = some (body, rest)) : body ++ rest = cs := by
  induction cs generalizing body with
  | nil => simp [splitAtLastQuote?] at h
  | cons c cs ih =>
    simp only [splitAtLastQuote?] at h
    split at h
    · rename_i hs
      simp only [Option.some.injEq, Prod.mk.injEq] at h
      obtain ⟨rfl, rfl⟩ := h
      simp [ih hs]
    · split at h
      · rename_i hc
        simp only [Option.some.injEq, Prod.mk.injEq] at h
        obtain ⟨rfl, rfl⟩ := h
        simp [hc]
      · simp at h

theorem splitAtClosingQuote?_eq_some {cs body rest : List Char}
    (h : splitAtClosingQuote? cs = some (body, rest)) : body ++ rest = cs := by
  unfold splitAtClosingQuote? at h
  split at h
  · rename_i split hs
    obtain rfl := Option.some.inj h
    exact splitAtFreeQuote?_eq_some hs
  · exact splitAtLastQuote?_eq_some h

theorem quoted_eq_ok {cs : List Char} {lexeme : Lexeme} (h : quoted cs = .ok lexeme) :
    lexeme.text ++ lexeme.rest = '"' :: cs ∧ lexeme.text ≠ [] := by
  unfold quoted at h
  split at h
  · simp at h
  · rename_i body rest hs
    simp only at h
    split at h
    · obtain rfl := Except.ok.inj h
      simp [splitAtClosingQuote?_eq_some hs]
    · simp at h

theorem word_text_append_rest (cs : List Char) : (word cs).text ++ (word cs).rest = cs := by
  unfold word
  split
  · rename_i h
    exact List.prefix_iff_eq_append.mp (List.isPrefixOf_iff_prefix.mp h)
  · split
    · rename_i h
      exact List.prefix_iff_eq_append.mp (List.isPrefixOf_iff_prefix.mp h)
    · simp

theorem word_text_ne_nil {c : Char} (h : isLetter c = true) (cs : List Char) :
    (word (c :: cs)).text ≠ [] := by
  unfold word
  split
  · simp
  · split
    · simp
    · simp [h]

theorem first_eq_ok {c : Char} {cs : List Char} {lexeme : Lexeme} (h : first c cs = .ok lexeme) :
    lexeme.text ++ lexeme.rest = c :: cs ∧ lexeme.text ≠ [] := by
  unfold first at h
  split at h
  · obtain rfl := Except.ok.inj h
    refine ⟨?_, numberAfter_text_ne_nil (by simp) _⟩
    rw [numberAfter_text_append_rest]
    simp
  · split at h
    · rename_i hc
      exact hc ▸ quoted_eq_ok h
    · split at h
      · rename_i hc
        obtain rfl := Except.ok.inj h
        exact ⟨word_text_append_rest _, word_text_ne_nil hc cs⟩
      · split at h
        · obtain rfl := Except.ok.inj h
          simp
        · split at h
          · obtain rfl := Except.ok.inj h
            simp
          · simp at h

theorem length_rest_lt {c : Char} {cs : List Char} {lexeme : Lexeme}
    (h : first c cs = .ok lexeme) : lexeme.rest.length < (c :: cs).length := by
  obtain ⟨happend, hne⟩ := first_eq_ok h
  have := List.length_pos_iff.mpr hne
  rw [← happend, List.length_append]
  omega

end Lexeme

/-- The tokens of a text. -/
def lex : List Char → Except ParseError (List Token)
  | [] => .ok []
  | c :: cs =>
    match h : Lexeme.first c cs with
    | .error cause => .error { offset := 0, cause }
    | .ok lexeme =>
      have := Lexeme.length_rest_lt h
      match lex lexeme.rest with
      | .error e => .error (e.after (Text.byteLength lexeme.text))
      | .ok ts => .ok (lexeme.token?.toList ++ ts)
termination_by cs => cs.length
decreasing_by exact this

end Formula
