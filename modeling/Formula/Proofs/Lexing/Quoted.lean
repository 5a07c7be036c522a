import Formula.Lexeme

/-! # Quoted texts read back

A character is written between the quotes in one of three ways (`encoded_encodeChar`). None of them
leaves a free quote, and the decoder takes each one for the character. So whatever a text contains,
its quoted form ends at its own closing quote, whatever follows (`quoted_encoded`). -/

namespace Formula

namespace Json

variable {c : Char} {cs code text rest : List Char}

/-- How a character is written: with an escape of one letter, with the number of a control
character, or as it is. -/
inductive Encoded (c : Char) : List Char → Prop
  | short {d : Char} (h : shortEscape? d = some c) : Encoded c ['\\', d]
  | unit (h : c.toNat < 0x20) :
    Encoded c ['\\', 'u', '0', '0', Nat.digitChar (c.toNat / 16), Nat.digitChar (c.toNat % 16)]
  | plain (hquote : c ≠ '"') (hbackslash : c ≠ '\\') (h : 0x20 ≤ c.toNat) : Encoded c [c]

theorem encoded_encodeChar (c : Char) : Encoded c (encodeChar c) := by
  unfold encodeChar
  split
  · exact .short rfl
  · exact .short rfl
  · exact .short rfl
  · exact .short rfl
  · exact .short rfl
  · exact .short rfl
  · exact .short rfl
  · rename_i hquote hbackslash _ _ _ _ _
    split
    · rename_i h
      exact .unit h
    · rename_i h
      exact .plain hquote hbackslash (Nat.le_of_not_lt h)

/-! ## Decoding -/

theorem escape_short {d : Char} (h : shortEscape? d = some c) (cs : List Char) :
    escape (d :: cs) = .ok (c, 1) := by
  unfold escape
  split
  · rename_i heq
    cases heq
  · rename_i heq
    cases heq
    cases h
  · rename_i heq
    cases heq
    rw [h]

theorem hexDigits?_control : ∀ n < 0x20,
    hexDigits? ['0', '0', Nat.digitChar (n / 16), Nat.digitChar (n % 16)] = some n := by
  decide

theorem escape_unit (h : c.toNat < 0x20) (cs : List Char) :
    escape ('u' :: '0' :: '0' :: Nat.digitChar (c.toNat / 16) :: Nat.digitChar (c.toNat % 16) :: cs)
      = .ok (c, 5) := by
  have hlow : isLowSurrogate c.toNat = false := by simp [isLowSurrogate]; omega
  have hhigh : isHighSurrogate c.toNat = false := by simp [isHighSurrogate]; omega
  simp [escape, hexUnit, hexDigits?_control _ h, hlow, hhigh]

theorem decode_encoded (h : Encoded c code) (hcs : decode cs = .ok (text, rest)) :
    decode (code ++ cs) = .ok (c :: text, rest) := by
  cases h with
  | short h =>
    rw [List.cons_append, List.singleton_append, decode]
    simp [escape_short h, hcs]
  | unit h =>
    simp only [List.cons_append, List.nil_append]
    rw [decode]
    simp [escape_unit h, hcs]
  | plain hquote hbackslash h =>
    rw [List.singleton_append, decode]
    simp [hquote, hbackslash, Nat.not_lt.mpr h, hcs]

/-- **The decoder takes back what the encoder has written.** -/
theorem decode_flatMap_encodeChar (cs rest : List Char) :
    decode (cs.flatMap encodeChar ++ '"' :: rest) = .ok (cs, rest) := by
  induction cs with
  | nil => rw [List.flatMap_nil, List.nil_append, decode, if_pos rfl]
  | cons c cs ih =>
    rw [List.flatMap_cons, List.append_assoc]
    exact decode_encoded (encoded_encodeChar c) ih

theorem unquote_quoteChars (cs : List Char) : unquote (quoteChars cs) = .ok cs := by
  simp [quoteChars, unquote, decode_flatMap_encodeChar]

end Json

namespace Lexeme

open Json (Encoded encodeChar)

variable {c : Char} {cs code body rest : List Char}

theorem splitAtFreeQuote?_cons (hquote : c ≠ '"') (hbackslash : c ≠ '\\') (cs : List Char) :
    splitAtFreeQuote? (c :: cs)
      = (splitAtFreeQuote? cs).map fun (body, rest) => (c :: body, rest) := by
  rw [splitAtFreeQuote?.eq_def]
  split <;> simp_all

theorem digitChar_ne_quote : ∀ n < 16, Nat.digitChar n ≠ '"' ∧ Nat.digitChar n ≠ '\\' := by
  decide

theorem splitAtFreeQuote?_encoded (h : Encoded c code)
    (hcs : splitAtFreeQuote? cs = some (body, rest)) :
    splitAtFreeQuote? (code ++ cs) = some (code ++ body, rest) := by
  cases h with
  | short h => simp [splitAtFreeQuote?, hcs]
  | unit h =>
    obtain ⟨hhigh, hhigh'⟩ := digitChar_ne_quote (c.toNat / 16) (by omega)
    obtain ⟨hlow, hlow'⟩ := digitChar_ne_quote (c.toNat % 16) (by omega)
    simp [splitAtFreeQuote?, splitAtFreeQuote?_cons hhigh hhigh', splitAtFreeQuote?_cons hlow hlow',
      hcs]
  | plain hquote hbackslash h => simp [splitAtFreeQuote?_cons hquote hbackslash, hcs]

theorem splitAtFreeQuote?_flatMap_encodeChar (cs rest : List Char) :
    splitAtFreeQuote? (cs.flatMap encodeChar ++ '"' :: rest)
      = some (cs.flatMap encodeChar ++ ['"'], rest) := by
  induction cs with
  | nil => simp [splitAtFreeQuote?]
  | cons c cs ih =>
    rw [List.flatMap_cons, List.append_assoc, List.append_assoc]
    exact splitAtFreeQuote?_encoded (Json.encoded_encodeChar c) ih

/-- **A quoted text ends at its own closing quote.** -/
theorem quoted_encoded (cs rest : List Char) :
    quoted (cs.flatMap encodeChar ++ '"' :: rest)
      = .ok { token? := some (.text (String.ofList cs)), text := Json.quoteChars cs, rest } := by
  have hunquote : Json.unquote ('"' :: (cs.flatMap encodeChar ++ ['"'])) = .ok cs :=
    Json.unquote_quoteChars cs
  simp only [quoted, splitAtClosingQuote?, splitAtFreeQuote?_flatMap_encodeChar, hunquote]
  rfl

end Lexeme

end Formula
