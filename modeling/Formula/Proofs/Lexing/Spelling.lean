import Formula.Rendering
import Formula.Proofs.Lexing.Pieces

/-! # The text of a token

Each token has a text of its own, and its first character is a digit, a letter or something else
(`Token.Readable.exists_front`). Put in front of another text, it is read as the token again if this
text does not lengthen it (`Token.Readable.lexesTo`). -/

namespace Formula

variable {c : Char} {cs rest : List Char} {t : Token}

/-- The text of a token. -/
def Token.chars (t : Token) : List Char := t.render.toList

namespace Token

theorem chars_text (s : String) : (text s).chars = Json.quoteChars s.toList := String.toList_ofList

theorem chars_bool (b : Bool) :
    (bool b).chars = if b then "true".toList else "false".toList := by
  cases b <;> rfl

theorem chars_name (s : String) : (name s).chars = s.toList := rfl

theorem Readable.isName {s : String} (h : (Token.name s).Readable) : IsName s.toList := by
  cases h with
  | name h => rwa [String.toList_ofList]

end Token

/-- A number that is read is finite and written with digits, or it is infinite. -/
theorem Token.Readable.chars_number {x : Float} (h : (Token.number x).Readable) :
    (x.isFinite = true ∧ ∃ whole fraction, Decimal.IsNumeral whole fraction ∧
        (Decimal.ofDigits whole fraction).toFloat = x ∧
        (Token.number x).chars = Decimal.written whole fraction) ∨
      x.isFinite = false ∧ (Token.number x).chars = ['i', 'n', 'f'] := by
  cases h with
  | @number whole fraction h =>
    have hle := Binary64.nearestBits_le (Decimal.ofDigits whole fraction).value
    unfold Decimal.toFloat Binary64.nearest
    generalize Binary64.nearestBits (Decimal.ofDigits whole fraction).value = bits at hle
    rcases Nat.lt_or_eq_of_le hle with hlt | rfl
    · refine .inl ⟨?_, exists_written_eq_showNumber hlt⟩
      rw [Binary64.isFinite_eq_true_iff, Binary64.magnitudeBits_ofMagnitudeBits hle]
      exact hlt
    · exact .inr (by decide +kernel)

/-! ## What a text begins with -/

/-- Kinds of characters. -/
inductive Front where
  | digit
  | letter
  | other
  deriving DecidableEq

namespace Front

def of (c : Char) : Front :=
  if c.isDigit then digit
  else if Lexeme.isLetter c then letter
  else other

theorem of_eq_digit_iff : of c = digit ↔ c.isDigit = true := by
  unfold of
  split
  · simp_all
  · split <;> simp_all

theorem of_eq_letter_iff : of c = letter ↔ Lexeme.isLetter c = true := by
  refine ⟨?_, fun h => by simp [of, h, Lexeme.isDigit_eq_false_of_isLetter h]⟩
  unfold of
  split
  · simp
  · split <;> simp_all

end Front

/-- What the text of a token begins with. -/
def Token.front : Token → Front
  | .number x => if x.isFinite then .digit else .letter
  | .bool _ | .name _ => .letter
  | .text _ | .operator _ | .openParen | .closeParen | .comma | .args _ => .other

theorem exists_eq_cons_of_isNumeral {whole fraction : List Char}
    (h : Decimal.IsNumeral whole fraction) :
    ∃ c cs, Decimal.written whole fraction = c :: cs ∧ c.isDigit = true := by
  cases whole with
  | nil => exact absurd rfl h.ne_nil
  | cons c cs => exact ⟨c, _, rfl, h.digits c (by simp)⟩

theorem Token.Readable.exists_front (h : t.Readable) :
    ∃ c cs, t.chars = c :: cs ∧ Front.of c = t.front ∧ c ≠ '.' := by
  cases t with
  | number x =>
    rcases h.chars_number with ⟨hfinite, whole, fraction, hnumeral, -, hchars⟩ | ⟨hinfinite, hchars⟩
    · obtain ⟨c, cs, hwritten, hc⟩ := exists_eq_cons_of_isNumeral hnumeral
      refine ⟨c, cs, hchars.trans hwritten, ?_, by rintro rfl; cases hc⟩
      rw [Front.of_eq_digit_iff.mpr hc, front, if_pos hfinite]
    · refine ⟨'i', ['n', 'f'], hchars, ?_, by decide⟩
      rw [Front.of_eq_letter_iff.mpr rfl, front, if_neg (by simp [hinfinite])]
  | text s => exact ⟨_, _, chars_text s, rfl, by decide⟩
  | bool b => cases b <;> exact ⟨_, _, rfl, rfl, by decide⟩
  | name s =>
    have hname := h.isName
    rw [chars_name]
    cases hs : s.toList with
    | nil => exact absurd hs hname.ne_nil
    | cons c cs =>
      have hc := hname.letters c (by simp [hs])
      exact ⟨c, cs, rfl, Front.of_eq_letter_iff.mpr hc, by rintro rfl; cases hc⟩
  | operator o => cases o <;> exact ⟨_, _, rfl, rfl, by decide⟩
  | openParen | closeParen | comma => exact ⟨_, _, rfl, rfl, by decide⟩
  | args vs => cases h

/-! ## Tokens that are read as they were -/

/-- The token is no infinite number. -/
def Token.IsFinite : Token → Prop
  | .number x => x.isFinite = true
  | _ => True

instance (t : Token) : Decidable t.IsFinite :=
  match t with
  | .number x => inferInstanceAs (Decidable (x.isFinite = true))
  | .text _ | .bool _ | .name _ | .operator _ | .openParen | .closeParen | .comma | .args _ =>
    isTrue trivial

theorem Token.front_number {x : Float} (h : (Token.number x).IsFinite) :
    (Token.number x).front = .digit := if_pos h

/-- What follows a token does not lengthen it. -/
def Token.ClearOf (rest : List Char) : Token → Prop
  | .number _ => Avoids Char.isDigit rest ∧ Avoids (· = '.') rest
  | .name _ => Avoids Lexeme.isLetter rest
  | _ => True

theorem lexesTo_operator (o : Operator) (rest : List Char) :
    LexesTo (Token.operator o).chars [.operator o] rest := by
  have hblank : ∀ rest, LexesTo [' '] [] rest := fun rest => lexesTo_blank (by decide) rest
  cases o with
  | pow => exact lexesTo_sign rfl rest
  | add | sub | mul | div | rem =>
    exact ((hblank _).append (lexesTo_sign rfl _)).append (hblank rest)

theorem lexesTo_comma (rest : List Char) : LexesTo Token.comma.chars [.comma] rest := by
  have hcomma : LexesTo [','] [.comma] ([' '] ++ rest) := lexesTo_sign rfl _
  exact hcomma.append (lexesTo_blank (by decide) rest)

/-- A finite token is read as it was, if what follows it does not lengthen it. -/
theorem Token.Readable.lexesTo (h : t.Readable) (hfinite : t.IsFinite) (hclear : t.ClearOf rest) :
    LexesTo t.chars [t] rest := by
  cases t with
  | number x =>
    rcases h.chars_number with ⟨-, whole, fraction, hnumeral, hx, hchars⟩ | ⟨hinfinite, -⟩
    · rw [hchars, ← hx]
      exact lexesTo_written hnumeral hclear.1 hclear.2
    · rw [hfinite] at hinfinite
      cases hinfinite
  | text s =>
    have hquoted := lexesTo_quoteChars s.toList rest
    rwa [String.ofList_toList, ← chars_text] at hquoted
  | bool b =>
    rw [chars_bool]
    exact lexesTo_bool b rest
  | name s =>
    have hname := lexesTo_name h.isName hclear
    rwa [String.ofList_toList] at hname
  | operator o => exact lexesTo_operator o rest
  | openParen | closeParen => exact lexesTo_sign rfl rest
  | comma => exact lexesTo_comma rest
  | args vs => cases h

end Formula
