import Formula.Proofs.Lexing.Joining
import Formula.Proofs.Lexing.Spelling

/-! # Which tokens can be written

Every readable token has a text that is read as this token in front of a blank
(`Token.Readable.exists_spelling`). So any sequence of readable tokens is that of some text, with a
blank after each token, and there are no others (`exists_parse_iff_readable`). -/

namespace Formula

variable {cs rest : List Char} {t : Token} {ts : List Token} {whole fraction : List Char}

/-! ## Numbers -/

namespace Decimal

theorem takeWhile_isDigit_written (h : IsNumeral whole fraction) :
    (written whole fraction).takeWhile Char.isDigit = whole ∧
      (written whole fraction).dropWhile Char.isDigit = pointed fraction := by
  have hwhole : ∀ c ∈ whole, c.isDigit = true :=
    fun c hc => h.digits c (List.mem_append_left _ hc)
  have hpointed : Avoids Char.isDigit (pointed fraction) := by
    unfold pointed
    split
    · simp [Avoids]
    · rintro c ⟨⟩
      rfl
  exact ⟨takeWhile_append_of_avoids hwhole hpointed, dropWhile_append_of_avoids hwhole hpointed⟩

theorem read?_written (h : IsNumeral whole fraction) :
    read? (written whole fraction) = some (ofDigits whole fraction) := by
  obtain ⟨htake, hdrop⟩ := takeWhile_isDigit_written h
  have hfraction : ∀ c ∈ fraction, c.isDigit = true :=
    fun c hc => h.digits c (List.mem_append_right _ hc)
  unfold read?
  rw [htake, hdrop]
  cases fraction with
  | nil => simp [pointed, h.ne_nil]
  | cons d fraction =>
    have htail := List.takeWhile_eq_self_iff.mpr hfraction
    have hrest := List.dropWhile_eq_nil_iff.mpr hfraction
    simp only [pointed, List.isEmpty_cons, Bool.false_eq_true, if_false, htail, hrest]
    simp

end Decimal

theorem toLower_of_isDigit {c : Char} (h : c.isDigit = true) : c.toLower = c := by
  rw [Char.isDigit_iff_toNat] at h
  unfold Char.toLower
  rw [dif_neg]
  simp only [ge_iff_le, UInt32.le_iff_toNat_le, not_and]
  simp at h ⊢
  omega

/-- A text that begins with a digit has no sign and is none of the words. -/
theorem readNumber?_cons {c : Char} (h : c.isDigit = true) (cs : List Char) :
    readNumber? (String.ofList (c :: cs)) = (Decimal.read? (c :: cs)).map Decimal.toFloat := by
  have hsign : c ≠ '-' ∧ c ≠ '+' := by
    constructor <;> rintro rfl <;> cases h
  have hword : c ≠ 'i' ∧ c ≠ 'n' := by
    constructor <;> rintro rfl <;> cases h
  unfold readNumber?
  rw [String.toList_ofList]
  split
  · rename_i heq
    exact absurd (List.cons.inj heq).1 hsign.1
  · rename_i heq
    exact absurd (List.cons.inj heq).1 hsign.2
  · simp [readMagnitude?, toLower_of_isDigit h, hword]

theorem readNumber?_written (h : Decimal.IsNumeral whole fraction) :
    readNumber? (String.ofList (Decimal.written whole fraction))
      = some (Decimal.ofDigits whole fraction).toFloat := by
  obtain ⟨c, cs, hcs, hc⟩ := exists_eq_cons_of_isNumeral h
  rw [hcs, readNumber?_cons hc, ← hcs, Decimal.read?_written h]
  rfl

namespace Token

/-- The numbers that can be written are those that digits denote, with or without a point. -/
theorem readable_number_iff {x : Float} : (number x).Readable ↔
    ∃ whole fraction, Decimal.IsNumeral whole fraction ∧
      readNumber? (String.ofList (Decimal.written whole fraction)) = some x := by
  constructor
  · intro h
    cases h with
    | number h => exact ⟨_, _, h, readNumber?_written h⟩
  · rintro ⟨whole, fraction, h, hx⟩
    rw [readNumber?_written h] at hx
    cases hx
    exact .number h

theorem Readable.isNaN_and_isNegative_eq_false {x : Float} (h : (Token.number x).Readable) :
    x.isNaN = false ∧ Binary64.isNegative x = false := by
  cases h with
  | @number whole fraction h =>
    have hle := Binary64.nearestBits_le (Decimal.ofDigits whole fraction).value
    refine ⟨?_, Binary64.isNegative_ofMagnitudeBits hle⟩
    rw [Bool.eq_false_iff, ne_eq, Binary64.isNaN_eq_true_iff, Decimal.toFloat, Binary64.nearest,
      Binary64.magnitudeBits_ofMagnitudeBits hle]
    exact Nat.not_lt.mpr hle

/-! ## Texts of tokens -/

theorem clearOf_blank (t : Token) (rest : List Char) : t.ClearOf (' ' :: rest) := by
  cases t <;> simp [ClearOf, Avoids, Lexeme.isLetter]

/-- A readable token has a text that is read as this token in front of a blank. -/
theorem Readable.exists_spelling (h : t.Readable) :
    ∃ cs, ∀ rest, LexesTo cs [t] (' ' :: rest) := by
  cases t with
  | number x =>
    cases h with
    | number hnumeral =>
      -- the text of an infinite number is a word, so the digits are taken that it has been read from
      have hclear : ∀ rest, Avoids Char.isDigit (' ' :: rest) ∧ Avoids (· = '.') (' ' :: rest) :=
        fun rest => clearOf_blank (.number 0) rest
      exact ⟨_, fun rest => lexesTo_written hnumeral (hclear rest).1 (hclear rest).2⟩
  | text | bool | name | operator | openParen | closeParen | comma =>
    exact ⟨_, fun rest => h.lexesTo trivial (clearOf_blank _ rest)⟩
  | args vs => cases h

end Token

/-- Readable tokens can be written one after another, in any order. -/
theorem exists_lex_eq_ok (h : ∀ t ∈ ts, t.Readable) : ∃ cs, lex cs = .ok ts := by
  induction ts with
  | nil => exact ⟨[], lex_nil⟩
  | cons t ts ih =>
    obtain ⟨ht, hts⟩ := List.forall_mem_cons.mp h
    obtain ⟨cs, hcs⟩ := ih hts
    obtain ⟨spelling, hspelling⟩ := ht.exists_spelling
    have hblank : LexesTo [' '] [] cs := lexesTo_blank (by decide) cs
    have hpiece := (hspelling cs).append hblank
    exact ⟨_, hpiece.eq_ok_iff.mpr ⟨ts, hcs, rfl⟩⟩

/-- **What texts are read as: all sequences of readable tokens.** These are the operators,
parentheses, commas, truth values and texts, the names, and the numbers that digits denote. So no
arguments are read, and no number that is negative or none. -/
theorem exists_parse_iff_readable :
    (∀ ts, (∃ text e, Expression.parse text = .ok e ∧ e.tokens = ts) ↔ ∀ t ∈ ts, t.Readable) ∧
      (∀ x, (Token.number x).Readable ↔
        ∃ whole fraction, Decimal.IsNumeral whole fraction ∧
          readNumber? (String.ofList (Decimal.written whole fraction)) = some x) ∧
      (∀ x, (Token.number x).Readable → x.isNaN = false ∧ Binary64.isNegative x = false) ∧
      ∀ vs, ¬ (Token.args vs).Readable := by
  refine ⟨?_, ?_, ?_, ?_⟩
  · intro ts
    constructor
    · rintro ⟨text, e, hparse, rfl⟩
      obtain ⟨ts, hlex, rfl⟩ := Expression.parse_eq_ok_iff.mp hparse
      exact readable_of_lex hlex
    · intro hts
      obtain ⟨cs, hcs⟩ := exists_lex_eq_ok hts
      refine ⟨String.ofList cs, .ofTokens ts, Expression.parse_eq_ok_iff.mpr ⟨ts, ?_, rfl⟩, rfl⟩
      rw [String.toList_ofList]
      exact hcs
  · intro x
    exact Token.readable_number_iff
  · intro x h
    exact h.isNaN_and_isNegative_eq_false
  · intro vs h
    cases h

/-- Numbers side by side, one of them beyond the largest one, names that run into each other and into a
truth value, and a text that has to be quoted; and a name that cannot be written. -/
theorem exists_parse_iff_readable_row :
    (∃ text e, Expression.parse text = .ok e ∧
      e.tokens = [.number 1, .number Binary64.infinity, .name "ab", .bool true, .name "if",
        .text "\"\\\n\u0000", .closeParen, .operator .sub]) ∧
      ¬ ∃ text e, Expression.parse text = .ok e ∧ e.tokens = [.name "truex"] := by
  have hone : (Token.number 1).Readable :=
    (exists_parse_iff_readable.2.1 1).mpr
      ⟨['1'], [], ⟨by decide, List.all_eq_true.mp rfl⟩, by decide +kernel⟩
  have hinfinity : (Token.number Binary64.infinity).Readable := by
    have hnumeral : ∀ n, Decimal.IsNumeral (List.replicate (n + 1) '9') [] := by
      intro n
      refine ⟨by simp [List.replicate_succ], ?_⟩
      intro c hc
      rw [List.append_nil] at hc
      rw [List.eq_of_mem_replicate hc]
      rfl
    have hvalue : (Decimal.ofDigits (List.replicate 309 '9') []).toFloat = Binary64.infinity := by
      decide +kernel
    rw [← hvalue]
    exact .number (hnumeral 308)
  have hname : ∀ s : String, IsName s.toList → (Token.name s).Readable := by
    intro s hs
    have hreadable := Token.Readable.name hs
    rwa [String.ofList_toList] at hreadable
  have hab : IsName "ab".toList := ⟨by decide, List.all_eq_true.mp rfl, by decide, by decide⟩
  have hif : IsName "if".toList := ⟨by decide, List.all_eq_true.mp rfl, by decide, by decide⟩
  refine ⟨(exists_parse_iff_readable.1 _).mpr ?_, ?_⟩
  · simp only [List.forall_mem_cons]
    exact ⟨hone, hinfinity, hname _ hab, .bool true, hname _ hif, .text _, .closeParen,
      .operator .sub, by simp⟩
  · rw [exists_parse_iff_readable.1]
    intro h
    exact (h (.name "truex") List.mem_cons_self).isName.not_true (by decide)

end Formula
