import Formula.Proofs.Lexing.Quoted

/-! # Where a quoted text ends

The decoder never takes a free quote for a part of the text (`afterFreeQuote?_of_decode`). So a
literal that can be decoded ends at its first free quote, and never at the last quote of all, which
closes a literal without a free one. What stands behind such a literal cannot change it
(`exists_quoted_append`). -/

namespace Formula

variable {c d : Char} {cs body rest text : List Char} {n count : Nat} {lexeme : Lexeme}

/-! ## Escapes -/

namespace Json

theorem ne_of_hexDigit? (h : hexDigit? c = some n) : c ≠ '"' ∧ c ≠ '\\' := by
  constructor
  · rintro rfl
    cases h
  · rintro rfl
    cases h

/-- A unit is spelled with four characters, none of which is a quote or a backslash. -/
theorem exists_of_hexUnit (h : hexUnit cs = .ok n) :
    ∃ digits rest, cs = digits ++ rest ∧ digits.length = 4 ∧
      ∀ c ∈ digits, c ≠ '"' ∧ c ≠ '\\' := by
  unfold hexUnit at h
  split at h
  · rename_i m hm
    refine ⟨cs.take 4, cs.drop 4, (List.take_append_drop 4 cs).symm, ?_⟩
    unfold hexDigits? at hm
    split at hm
    · rename_i htake
      simp only [Option.bind_eq_bind, Option.bind_eq_some_iff] at hm
      obtain ⟨_, ha, _, hb, _, hc, _, hd, -⟩ := hm
      rw [htake]
      refine ⟨rfl, ?_⟩
      simp [ne_of_hexDigit? ha, ne_of_hexDigit? hb, ne_of_hexDigit? hc, ne_of_hexDigit? hd]
    · cases hm
  · split at h <;> cases h

/-- A low surrogate is spelled with an escape of its own. -/
theorem exists_of_lowSurrogate (h : lowSurrogate cs = .ok n) :
    ∃ tail m, cs = '\\' :: 'u' :: tail ∧ hexUnit tail = .ok m := by
  unfold lowSurrogate at h
  split at h
  · cases h
  · cases h
  · rename_i tail
    split at h
    · cases h
    · rename_i m hm
      exact ⟨tail, m, rfl, hm⟩
  · cases h
  · cases h

end Json

namespace Lexeme

open Json (hexUnit lowSurrogate escape decode)

/-! ## What comes after the first free quote -/

/-- What comes after the first quote that no backslash escapes. -/
def afterFreeQuote? (cs : List Char) : Option (List Char) := (splitAtFreeQuote? cs).map Prod.snd

theorem afterFreeQuote?_quote (cs : List Char) : afterFreeQuote? ('"' :: cs) = some cs := by
  simp [afterFreeQuote?, splitAtFreeQuote?]

theorem afterFreeQuote?_backslash (c : Char) (cs : List Char) :
    afterFreeQuote? ('\\' :: c :: cs) = afterFreeQuote? cs := by
  simp only [afterFreeQuote?, splitAtFreeQuote?, Option.map_map]
  rfl

theorem afterFreeQuote?_cons (hquote : c ≠ '"') (hbackslash : c ≠ '\\') (cs : List Char) :
    afterFreeQuote? (c :: cs) = afterFreeQuote? cs := by
  rw [afterFreeQuote?, splitAtFreeQuote?_cons hquote hbackslash, Option.map_map]
  rfl

theorem afterFreeQuote?_append (h : ∀ c ∈ cs, c ≠ '"' ∧ c ≠ '\\') (rest : List Char) :
    afterFreeQuote? (cs ++ rest) = afterFreeQuote? rest := by
  induction cs with
  | nil => rfl
  | cons c cs ih =>
    obtain ⟨hc, hcs⟩ := List.forall_mem_cons.mp h
    rw [List.cons_append, afterFreeQuote?_cons hc.1 hc.2, ih hcs]

theorem afterFreeQuote?_hexUnit (h : hexUnit cs = .ok n) :
    afterFreeQuote? cs = afterFreeQuote? (cs.drop 4) := by
  obtain ⟨digits, rest, rfl, hlength, hplain⟩ := Json.exists_of_hexUnit h
  rw [afterFreeQuote?_append hplain, ← hlength, List.drop_left]

/-- There is no free quote in an escape. -/
theorem afterFreeQuote?_escape (h : escape cs = .ok (d, count)) :
    afterFreeQuote? ('\\' :: cs) = afterFreeQuote? (cs.drop count) := by
  unfold escape at h
  split at h
  · cases h
  · rename_i tail
    rw [afterFreeQuote?_backslash]
    split at h
    · cases h
    · rename_i n hn
      rw [afterFreeQuote?_hexUnit hn]
      split at h
      · cases h
      · split at h
        · split at h
          · cases h
          · rename_i low hlow
            obtain rfl : 11 = count := congrArg Prod.snd (Except.ok.inj h)
            obtain ⟨rest, m, hdrop, hm⟩ := Json.exists_of_lowSurrogate hlow
            have hrest : ('u' :: tail).drop 11 = rest.drop 4 := by
              rw [show ('u' :: tail).drop 11 = (tail.drop 4).drop 6 by simp, hdrop]
              simp
            rw [hdrop, hrest, afterFreeQuote?_backslash, afterFreeQuote?_hexUnit hm]
        · obtain rfl : 5 = count := congrArg Prod.snd (Except.ok.inj h)
          rfl
  · split at h
    · cases h
      rw [afterFreeQuote?_backslash]
      rfl
    · cases h

/-- **The decoder stops at the first free quote.** -/
theorem afterFreeQuote?_of_decode (h : decode cs = .ok (text, rest)) :
    afterFreeQuote? cs = some rest := by
  fun_induction decode cs generalizing text with
  | case1 | case3 | case4 | case6 | case7 => cases h
  | case2 =>
    cases h
    exact afterFreeQuote?_quote _
  | case5 cs d count hescape text' rest' htail hne ih =>
    cases h
    rw [afterFreeQuote?_escape hescape, ih htail]
  | case8 c cs hquote hbackslash hcontrol text' rest' htail ih =>
    cases h
    rw [afterFreeQuote?_cons hquote hbackslash, ih htail]

/-! ## Literals that have been read -/

theorem splitAtFreeQuote?_append (h : splitAtFreeQuote? cs = some (body, rest))
    (more : List Char) : splitAtFreeQuote? (cs ++ more) = some (body, rest ++ more) := by
  fun_induction splitAtFreeQuote? cs generalizing body with
  | case1 => cases h
  | case2 cs =>
    cases h
    simp [splitAtFreeQuote?]
  | case3 c cs ih =>
    obtain ⟨⟨b, r⟩, hs, he⟩ := Option.map_eq_some_iff.mp h
    cases he
    simp [splitAtFreeQuote?, ih hs]
  | case4 c cs hquote hbackslash ih =>
    obtain ⟨⟨b, r⟩, hs, he⟩ := Option.map_eq_some_iff.mp h
    cases he
    have hne : c ≠ '\\' := by
      rintro rfl
      cases cs with
      | nil => cases hs
      | cons d cs => exact hbackslash d cs rfl rfl
    rw [List.cons_append, splitAtFreeQuote?_cons hquote hne, ih hs]
    rfl

/-- A literal that can be decoded is closed by its first free quote. -/
theorem splitAtFreeQuote?_of_decode (h : decode body = .ok (text, [])) :
    splitAtFreeQuote? body = some (body, []) := by
  obtain ⟨⟨b, r⟩, hsplit, hr⟩ := Option.map_eq_some_iff.mp (afterFreeQuote?_of_decode h)
  obtain rfl : r = [] := hr
  have happend := splitAtFreeQuote?_eq_some hsplit
  rw [List.append_nil] at happend
  rw [hsplit, happend]

theorem decode_of_unquote (h : Json.unquote ('"' :: body) = .ok text) :
    decode body = .ok (text, []) := by
  rw [Json.unquote] at h
  split at h
  · cases h
  · rename_i hdecode
    cases h
    exact hdecode
  · cases h

/-- **A quoted text that has been read is read the same in front of any other text.** -/
theorem exists_quoted_append (h : quoted cs = .ok lexeme) :
    ∃ body, lexeme.text = '"' :: body ∧
      ∀ rest, quoted (body ++ rest) = .ok { lexeme with rest } := by
  unfold quoted at h
  split at h
  · cases h
  · rename_i body rest hclosing
    dsimp only at h
    split at h
    · rename_i s hs
      cases h
      refine ⟨body, rfl, fun rest => ?_⟩
      have hfree := splitAtFreeQuote?_append
        (splitAtFreeQuote?_of_decode (decode_of_unquote hs)) rest
      simp only [quoted, splitAtClosingQuote?, hfree, hs]
      rfl
    · cases h

end Lexeme

end Formula
