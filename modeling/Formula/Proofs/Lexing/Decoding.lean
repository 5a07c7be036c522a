import Formula.Proofs.Lexing.Faults

/-! # The pattern and the decoder of a quoted text

The pattern ends a quoted text at a quote that it finds by backtracking, and the decoder reads it by
rules of its own: it takes up to eleven characters behind a backslash, where the pattern takes one.
They do not disagree on the end (`Pattern.unquote_literal`). A text that can be decoded has a free
quote, so the pattern has not backed off, and the decoder stops at this quote too. Where the pattern
has backed off there is no free quote, and the decoder runs out of text. -/

namespace Formula

variable {c : Char} {cs body literal rest : List Char} {u : List Char}
  {us vs : List (List Char)}

/-! ## Why decoding stops -/

namespace Json

variable {stop : Stop}

theorem Stop.fault_after (stop : Stop) (count : Nat) : (stop.after count).fault = stop.fault := rfl

theorem fault_hexUnit_ne (h : hexUnit cs = .error stop) : stop.fault ≠ .trailingCharacters := by
  unfold hexUnit at h
  split at h
  · cases h
  · split at h
    · cases h
      intro hfault
      cases hfault
    · cases h
      intro hfault
      cases hfault

theorem fault_lowSurrogate_ne (h : lowSurrogate cs = .error stop) :
    stop.fault ≠ .trailingCharacters := by
  unfold lowSurrogate at h
  split at h
  · cases h
    intro hfault
    cases hfault
  · cases h
    intro hfault
    cases hfault
  · split at h
    · rename_i hunit
      cases h
      rw [Stop.fault_after]
      exact fault_hexUnit_ne hunit
    · split at h
      · cases h
      · cases h
        intro hfault
        cases hfault
  · cases h
    intro hfault
    cases hfault
  · cases h
    intro hfault
    cases hfault

theorem fault_escape_ne (h : escape cs = .error stop) : stop.fault ≠ .trailingCharacters := by
  unfold escape at h
  split at h
  · cases h
    intro hfault
    cases hfault
  · split at h
    · rename_i hunit
      cases h
      rw [Stop.fault_after]
      exact fault_hexUnit_ne hunit
    · split at h
      · cases h
        intro hfault
        cases hfault
      · split at h
        · split at h
          · rename_i hlow
            cases h
            rw [Stop.fault_after]
            exact fault_lowSurrogate_ne hlow
          · cases h
        · cases h
  · split at h
    · cases h
    · cases h
      intro hfault
      cases hfault

/-- What is left behind a closing quote is no concern of the decoder. -/
theorem fault_decode_ne (h : decode cs = .error stop) : stop.fault ≠ .trailingCharacters := by
  fun_induction decode cs generalizing stop with
  | case1 =>
    cases h
    intro hfault
    cases hfault
  | case2 => cases h
  | case3 cs stop' hescape =>
    cases h
    rw [Stop.fault_after]
    exact fault_escape_ne hescape
  | case4 cs d count hescape stop' htail hne ih =>
    cases h
    rw [Stop.fault_after]
    exact ih htail
  | case5 => cases h
  | case6 =>
    cases h
    intro hfault
    cases hfault
  | case7 c cs hquote hbackslash hcontrol stop' htail ih =>
    cases h
    rw [Stop.fault_after]
    exact ih htail
  | case8 => cases h

end Json

namespace Lexeme

/-! ## Units in front of a quote -/

theorem units_backslash_lineFeed (cs : List Char) :
    units ('\\' :: '\n' :: cs) = ['\\'] :: ['\n'] :: units cs := by
  rw [units, if_pos rfl]
  rfl

theorem units_escape (hc : c ≠ '\n') (cs : List Char) :
    units ('\\' :: c :: cs) = ['\\', c] :: units cs := by
  rw [units, if_neg hc]

theorem units_cons (hc : c ≠ '\\') (cs : List Char) : units (c :: cs) = [c] :: units cs := by
  rw [units.eq_def]
  split <;> simp_all

/-- What the first unit is, and the text behind it. -/
theorem units_eq_cons (h : units cs = u :: us) :
    (∃ c rest, cs = c :: rest ∧ c ≠ '\\' ∧ u = [c] ∧ us = units rest) ∨
      (∃ c rest, cs = '\\' :: c :: rest ∧ c ≠ '\n' ∧ u = ['\\', c] ∧ us = units rest) ∨
      (∃ rest, cs = '\\' :: '\n' :: rest ∧ u = ['\\'] ∧ us = ['\n'] :: units rest) ∨
      cs = ['\\'] ∧ u = ['\\'] ∧ us = [] := by
  match cs with
  | [] => cases h
  | [c] =>
    by_cases hc : c = '\\'
    · subst hc
      cases h
      exact .inr (.inr (.inr ⟨rfl, rfl, rfl⟩))
    · rw [units_cons hc] at h
      cases h
      exact .inl ⟨c, [], rfl, hc, rfl, rfl⟩
  | c :: d :: rest =>
    by_cases hc : c = '\\'
    · subst hc
      by_cases hd : d = '\n'
      · subst hd
        rw [units_backslash_lineFeed] at h
        cases h
        exact .inr (.inr (.inl ⟨rest, rfl, rfl, rfl⟩))
      · rw [units_escape hd] at h
        cases h
        exact .inr (.inl ⟨d, rest, rfl, hd, rfl, rfl⟩)
    · rw [units_cons hc] at h
      cases h
      exact .inl ⟨c, d :: rest, rfl, hc, rfl, rfl⟩

/-- What follows a free quote has no part in the units before it. -/
theorem units_append_quote (h : units cs = us ++ ['"'] :: vs) :
    units (us.flatten ++ ['"']) = us ++ [['"']] := by
  induction us generalizing cs with
  | nil => rfl
  | cons u us ih =>
    obtain ⟨c, rest, -, hc, rfl, hus⟩ | ⟨c, rest, -, hc, rfl, hus⟩ | ⟨rest, -, rfl, hus⟩ |
      ⟨-, -, hus⟩ := units_eq_cons h
    · simp only [List.flatten_cons, List.cons_append, List.nil_append]
      rw [units_cons hc, ih hus.symm]
    · simp only [List.flatten_cons, List.cons_append, List.nil_append]
      rw [units_escape hc, ih hus.symm]
    · -- the line feed is a unit of its own, so it is the next one
      have hnext : units (us.flatten ++ ['"']) = us ++ [['"']] :=
        ih ((units_cons (by decide) rest).trans hus.symm)
      cases us with
      | nil => cases hus
      | cons v us =>
        obtain rfl : v = ['\n'] := (List.cons.inj hus).1
        simp only [List.flatten_cons, List.cons_append, List.nil_append] at hnext ⊢
        rw [units_cons (by decide)] at hnext
        rw [units_backslash_lineFeed, (List.cons.inj hnext).2]
    · simp at hus

/-- A text that ends with a quote ends with a free quote or with an escaped one. -/
theorem getLast?_units (hunits : units cs = us) (h : cs.getLast? = some '"') :
    us.getLast? = some ['"'] ∨ us.getLast? = some ['\\', '"'] := by
  induction us generalizing cs with
  | nil =>
    rw [← flatten_units cs, hunits] at h
    cases h
  | cons u us ih =>
    obtain ⟨c, rest, rfl, -, rfl, rfl⟩ | ⟨c, rest, rfl, -, rfl, rfl⟩ | ⟨rest, rfl, rfl, rfl⟩ |
      ⟨rfl, -, -⟩ := units_eq_cons hunits
    · cases rest with
      | nil =>
        cases h
        exact .inl rfl
      | cons d rest =>
        rw [List.getLast?_cons]
        obtain hlast | hlast := ih rfl (by simpa using h) <;> simp [hlast]
    · cases rest with
      | nil =>
        cases h
        exact .inr rfl
      | cons d rest =>
        rw [List.getLast?_cons]
        obtain hlast | hlast := ih rfl (by simpa using h) <;> simp [hlast]
    · rw [List.getLast?_cons]
      obtain hlast | hlast := ih (units_cons (by decide) rest) (by simpa using h) <;> simp [hlast]
    · cases h

/-! ## The end of a literal -/

theorem getLast?_of_splitAtLastQuote? (h : splitAtLastQuote? cs = some (body, rest)) :
    body.getLast? = some '"' := by
  induction cs generalizing body with
  | nil => cases h
  | cons c cs ih =>
    rw [splitAtLastQuote?] at h
    split at h
    · rename_i tail rest' htail
      cases h
      rw [List.getLast?_cons, ih htail]
      rfl
    · split at h
      · cases h
        rfl
      · cases h

theorem splitAtFreeQuote?_eq_none_iff : splitAtFreeQuote? cs = none ↔ ['"'] ∉ units cs := by
  constructor
  · intro h hmem
    obtain ⟨us, vs, hunits, hus⟩ := List.eq_append_cons_of_mem hmem
    rw [splitAtFreeQuote?_of_units_eq_append hunits hus] at h
    cases h
  · exact splitAtFreeQuote?_eq_none

/-- A literal that has a free quote in it ends with its first one. -/
theorem exists_units_of_closing (h : splitAtClosingQuote? cs = some (body, rest))
    (hmem : ['"'] ∈ units cs) :
    ∃ us vs, units cs = us ++ ['"'] :: vs ∧ ['"'] ∉ us ∧ body = us.flatten ++ ['"'] ∧
      rest = vs.flatten := by
  obtain ⟨us, vs, hunits, hus⟩ := List.eq_append_cons_of_mem hmem
  rw [splitAtClosingQuote?_eq_or, splitAtFreeQuote?_of_units_eq_append hunits hus] at h
  cases h
  exact ⟨us, vs, hunits, hus, rfl, rfl⟩

/-- The pattern has backed off exactly if the quote that it ends with is escaped. -/
theorem getLast?_units_of_closing (h : splitAtClosingQuote? cs = some (body, rest)) :
    (units body).getLast? = some ['\\', '"'] ↔ ['"'] ∉ units cs := by
  constructor
  · intro hlast hmem
    obtain ⟨us, vs, hunits, -, rfl, -⟩ := exists_units_of_closing h hmem
    rw [units_append_quote hunits, List.getLast?_concat] at hlast
    cases hlast
  · intro hnot
    have hnone := splitAtFreeQuote?_eq_none_iff.mpr hnot
    have happend := splitAtClosingQuote?_eq_some h
    rw [splitAtClosingQuote?_eq_or, hnone, Option.none_or] at h
    obtain hlast | hlast := getLast?_units rfl (getLast?_of_splitAtLastQuote? h)
    · -- a free quote of the literal is one of the whole text
      exfalso
      have hmem : ['"'] ∈ units body := List.mem_of_getLast? hlast
      cases hfree : splitAtFreeQuote? body with
      | none => exact splitAtFreeQuote?_eq_none_iff.mp hfree hmem
      | some split =>
        have hmore := splitAtFreeQuote?_append hfree rest
        rw [happend, hnone] at hmore
        cases hmore
    · exact hlast

/-- The decoder comes to an end at the quote that closes the literal, or to none. -/
theorem eq_nil_of_decode (h : splitAtClosingQuote? cs = some (body, rest)) {s more : List Char}
    (hdecode : Json.decode body = .ok (s, more)) : more = [] ∧ ['"'] ∈ units cs := by
  obtain ⟨⟨front, back⟩, hfree, rfl⟩ :=
    Option.map_eq_some_iff.mp (afterFreeQuote?_of_decode hdecode)
  have hwhole := splitAtFreeQuote?_append hfree rest
  rw [splitAtClosingQuote?_eq_some h] at hwhole
  rw [splitAtClosingQuote?_eq_or, hwhole, Option.some_or] at h
  constructor
  · have hback := congrArg Prod.snd (Option.some.inj h)
    simpa using hback
  · by_contra hnot
    rw [splitAtFreeQuote?_eq_none hnot] at hwhole
    cases hwhole

/-- A literal is decoded to its end, or it is not decoded for what is inside it. -/
theorem unquote_of_closing (h : splitAtClosingQuote? cs = some (body, rest)) :
    (∃ s, Json.unquote ('"' :: body) = .ok s ∧ Json.decode body = .ok (s, []) ∧ ['"'] ∈ units cs) ∨
      ∃ stop, Json.unquote ('"' :: body) = .error stop ∧ stop.fault ≠ .trailingCharacters := by
  cases hdecode : Json.decode body with
  | error stop =>
    refine .inr ⟨stop.after 1, ?_, ?_⟩
    · rw [Json.unquote, hdecode]
    · rw [Json.Stop.fault_after]
      exact Json.fault_decode_ne hdecode
  | ok result =>
    obtain ⟨s, more⟩ := result
    obtain ⟨rfl, hmem⟩ := eq_nil_of_decode h hdecode
    exact .inl ⟨s, by rw [Json.unquote, hdecode], rfl, hmem⟩

end Lexeme

namespace Pattern

open Lexeme

theorem exists_closing_of_preferred?
    (h : Pattern.literal.preferred? ('"' :: cs) = some (literal, rest)) :
    ∃ body, literal = '"' :: body ∧ splitAtClosingQuote? cs = some (body, rest) := by
  rw [preferred?_literal_quote, preferred?_closing] at h
  obtain ⟨⟨body, rest⟩, hclosing, hsplit⟩ := Option.map_eq_some_iff.mp h
  cases hsplit
  exact ⟨body, rfl, hclosing⟩

/-- **The pattern and the decoder agree on the end of a quoted text.** If what the pattern matches
can be decoded, it ends with the first free quote, and the decoder has taken all of it. If it ends
with an escaped quote, which it does exactly if the pattern has found no free one, it cannot be
decoded, and the text in which the lexer has come to it is refused at the opening quote. What is
behind a closing quote is never the reason. -/
theorem unquote_literal (cs literal rest : List Char)
    (h : Pattern.literal.preferred? ('"' :: cs) = some (literal, rest)) :
    (∀ s, Json.unquote literal = .ok s →
      ∃ us vs, units cs = us ++ ['"'] :: vs ∧ ['"'] ∉ us ∧ literal = '"' :: us.flatten ++ ['"'] ∧
        rest = vs.flatten ∧ Json.decode literal.tail = .ok (s, [])) ∧
    ((units literal.tail).getLast? = some ['\\', '"'] ↔ ['"'] ∉ units cs) ∧
    ((units literal.tail).getLast? = some ['\\', '"'] →
      ∃ stop, Json.unquote literal = .error stop ∧
        ∀ (text : String) (before : List Char) (ts : List Token),
          text.toList = before ++ '"' :: cs → Cuts before ts ('"' :: cs) →
            Expression.parse text
              = .error { offset := Text.byteLength before
                         cause := .invalidText stop.fault (Text.positionAt literal stop.consumed) }) ∧
    ∀ stop, Json.unquote literal = .error stop → stop.fault ≠ .trailingCharacters := by
  obtain ⟨body, rfl, hclosing⟩ := exists_closing_of_preferred? h
  have hlast := getLast?_units_of_closing hclosing
  have hunquote := unquote_of_closing hclosing
  refine ⟨?_, hlast, ?_, ?_⟩
  · intro s hs
    obtain ⟨s', hs', hdecode, hmem⟩ | ⟨stop, hstop, -⟩ := hunquote
    · rw [hs'] at hs
      cases hs
      obtain ⟨us, vs, hunits, hus, rfl, rfl⟩ := exists_units_of_closing hclosing hmem
      exact ⟨us, vs, hunits, hus, rfl, rfl, hdecode⟩
    · rw [hstop] at hs
      cases hs
  · intro hescaped
    obtain ⟨s', hs', -, hmem⟩ | ⟨stop, hstop, -⟩ := hunquote
    · exact absurd hmem (hlast.mp hescaped)
    · refine ⟨stop, hstop, ?_⟩
      intro text before ts htext hcuts
      have hfirst : first '"' cs
          = .error (.invalidText stop.fault (Text.positionAt ('"' :: body) stop.consumed)) := by
        simp only [first_quote, quoted, hclosing, hstop]
      have hlex := hcuts.lexesTo
      rw [LexesTo, lex_cons_of_first_eq_error hfirst] at hlex
      rw [Expression.parse_eq_error_iff, htext, hlex]
      rfl
  · intro stop hstop
    obtain ⟨s', hs', -, -⟩ | ⟨stop', hstop', hfault⟩ := hunquote
    · rw [hs'] at hstop
      cases hstop
    · rw [hstop'] at hstop
      cases hstop
      exact hfault

/-- Two backslashes leave the quote behind them free, and there is more text and another quote
behind it. In the text `("\"c` the only quote that can close the literal is escaped, so the decoder
runs out of text. -/
theorem unquote_literal_backslashes :
    (∃ us vs, units ['a', '\\', '\\', '"', 'b', '"'] = us ++ ['"'] :: vs ∧ ['"'] ∉ us ∧
      us.flatten = ['a', '\\', '\\'] ∧ vs.flatten = ['b', '"'] ∧
      Json.decode ['a', '\\', '\\', '"'] = .ok (['a', '\\'], [])) ∧
    ['"'] ∉ units ['\\', '"', 'c'] ∧
    ∃ stop, Json.unquote ['"', '\\', '"'] = .error stop ∧ stop.fault ≠ .trailingCharacters ∧
      Expression.parse "(\"\\\"c"
        = .error ⟨1, .invalidText stop.fault (Text.positionAt ['"', '\\', '"'] stop.consumed)⟩ := by
  have hpreferred : ∀ cs, Pattern.literal.preferred? ('"' :: cs)
      = (splitAtClosingQuote? cs).map (Split.behind ['"']) := by
    intro cs
    rw [preferred?_literal_quote, preferred?_closing]
  have hfree := unquote_literal ['a', '\\', '\\', '"', 'b', '"'] ['"', 'a', '\\', '\\', '"']
    ['b', '"'] (hpreferred _)
  have hescaped := unquote_literal ['\\', '"', 'c'] ['"', '\\', '"'] ['c'] (hpreferred _)
  refine ⟨?_, hescaped.2.1.mp rfl, ?_⟩
  · obtain ⟨us, vs, hunits, hus, hliteral, hrest, hdecode⟩ :=
      hfree.1 ['a', '\\'] (by decide +kernel)
    have happend : ['a', '\\', '\\'] ++ ['"'] = us.flatten ++ ['"'] := (List.cons.inj hliteral).2
    exact ⟨us, vs, hunits, hus, (List.append_cancel_right happend).symm, hrest.symm, hdecode⟩
  · obtain ⟨stop, hstop, hparse⟩ := hescaped.2.2.1 rfl
    refine ⟨stop, hstop, hescaped.2.2.2 stop hstop, ?_⟩
    have hcuts : Cuts ['('] [.openParen] ['"', '\\', '"', 'c'] :=
      .lexeme (Lexeme.first_of_sign? rfl _) rfl (.start _)
    exact hparse "(\"\\\"c" ['('] [.openParen] rfl hcuts

end Pattern

end Formula
