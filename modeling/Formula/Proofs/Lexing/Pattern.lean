import Formula.Proofs.Lexing.Quoted
import Mathlib.Data.List.Basic

/-! # The pattern of a quoted text

A pattern is matched by backtracking: of two alternatives the first one is tried first, and a
repetition makes another round before it stops. `Pattern.splits` lists all ways to match in the order
in which they are tried, and the first of them is the match that is preferred. For a quoted text
there are exponentially many ways, since a backslash can be read by both alternatives of the pattern.
Still the preferred one can be told at once (`Pattern.preferred?_literal`): it ends with the first
free quote, or if there is none with the last quote of all. -/

namespace Formula

variable {c : Char} {cs body rest : List Char} {u : List Char} {us vs : List (List Char)}

/-- The front of a text that is matched, and the rest. -/
abbrev Split := List Char × List Char

/-- A split of the rest as one of the whole text. -/
def Split.behind (text : List Char) (s : Split) : Split := (text ++ s.1, s.2)

theorem Split.behind_nil : Split.behind [] = id := rfl

theorem Split.behind_comp (text more : List Char) :
    Split.behind text ∘ Split.behind more = Split.behind (text ++ more) :=
  funext fun s => by simp [behind]

/-! ## Matching by backtracking -/

/-- What a text can be matched with. -/
inductive Pattern where
  /-- A single character. -/
  | char (p : Char → Bool)
  | seq (first second : Pattern)
  | alt (first second : Pattern)
  /-- As many rounds as there can be, or fewer. -/
  | star (body : Pattern)

namespace Pattern

/-- The splits of a repetition. A round that takes nothing is not made. -/
def rounds (body : List Char → List Split) (cs : List Char) : List Split :=
  ((body cs).flatMap fun s =>
    if s.2.length < cs.length then (rounds body s.2).map (Split.behind s.1) else []) ++ [([], cs)]
termination_by cs.length

/-- All ways to match the front of a text, in the order in which they are tried. -/
def splits : Pattern → List Char → List Split
  | char _, [] => []
  | char p, c :: cs => if p c then [([c], cs)] else []
  | seq first second, cs =>
    (first.splits cs).flatMap fun s => (second.splits s.2).map (Split.behind s.1)
  | alt first second, cs => first.splits cs ++ second.splits cs
  | star body, cs => rounds body.splits cs

/-- The match that backtracking finds. -/
def preferred? (p : Pattern) (cs : List Char) : Option Split := (p.splits cs).head?

/-- What follows a repetition is tried after another round has been. -/
theorem splits_star_seq (body second : Pattern) (cs : List Char) :
    ((star body).seq second).splits cs
      = ((body.splits cs).flatMap fun s =>
          if s.2.length < cs.length then
            (((star body).seq second).splits s.2).map (Split.behind s.1)
          else []) ++ second.splits cs := by
  simp only [splits]
  rw [rounds, List.flatMap_append, List.flatMap_singleton, Split.behind_nil, List.map_id,
    List.flatMap_assoc]
  congr 1
  refine List.flatMap_congr fun s _ => ?_
  by_cases hshorter : s.2.length < cs.length
  · simp only [if_pos hshorter, List.flatMap_map, List.map_flatMap, List.map_map,
      Split.behind_comp]
    rfl
  · simp only [if_neg hshorter, List.flatMap_nil]

/-! ## The pattern of a quoted text -/

/-- A backslash with the character after it, or any character but a quote. -/
def letter : Pattern := alt (seq (char (· = '\\')) (char (· ≠ '\n'))) (char (· ≠ '"'))

/-- The pattern behind the opening quote. -/
def closing : Pattern := seq (star letter) (char (· = '"'))

/-- The pattern `"(\\.|[^"])*"`. -/
def literal : Pattern := seq (char (· = '"')) closing

theorem preferred?_literal_quote (cs : List Char) :
    literal.preferred? ('"' :: cs) = (closing.preferred? cs).map (Split.behind ['"']) := by
  simp [preferred?, literal, splits]

theorem preferred?_closing_nil : closing.preferred? [] = none := by
  simp [preferred?, closing, splits_star_seq, letter, splits]

theorem preferred?_closing_quote (cs : List Char) :
    closing.preferred? ('"' :: cs) = some (['"'], cs) := by
  simp [preferred?, closing, splits_star_seq, letter, splits]

/-- A backslash is first read with the character after it, and if this comes to nothing alone. -/
theorem preferred?_closing_escape (hc : c ≠ '\n') (cs : List Char) :
    closing.preferred? ('\\' :: c :: cs)
      = ((closing.preferred? cs).map (Split.behind ['\\', c])).or
          ((closing.preferred? (c :: cs)).map (Split.behind ['\\'])) := by
  have hletter : letter.splits ('\\' :: c :: cs) = [(['\\', c], cs), (['\\'], c :: cs)] := by
    simp [letter, splits, hc, Split.behind]
  have hshorter : cs.length < ('\\' :: c :: cs).length := by
    simp only [List.length_cons]
    omega
  rw [preferred?, closing, splits_star_seq, hletter, ← closing, List.flatMap_cons,
    if_pos hshorter]
  simp [preferred?, splits]

/-- Any other character is read alone. -/
theorem preferred?_closing_cons (hquote : c ≠ '"')
    (hescape : c = '\\' → ∀ d ∈ cs.head?, d = '\n') :
    closing.preferred? (c :: cs) = (closing.preferred? cs).map (Split.behind [c]) := by
  have hletter : letter.splits (c :: cs) = [([c], cs)] := by
    by_cases hc : c = '\\'
    · cases cs with
      | nil => simp [letter, splits, hquote]
      | cons d cs => simp [letter, splits, hquote, hescape hc d rfl]
    · simp [letter, splits, hquote, hc]
  rw [preferred?, closing, splits_star_seq, hletter, ← closing]
  simp [preferred?, splits, hquote]

end Pattern

namespace Lexeme

/-! ## Units of a quoted text -/

/-- A text in units: a backslash with the character after it, unless this is a line feed, or a single
character. -/
def units : List Char → List (List Char)
  | [] => []
  | '\\' :: c :: cs => if c = '\n' then ['\\'] :: units (c :: cs) else ['\\', c] :: units cs
  | c :: cs => [c] :: units cs

theorem flatten_units (cs : List Char) : (units cs).flatten = cs := by
  fun_induction units cs with
  | case1 => rfl
  | case2 cs ih => simp [ih]
  | case3 c cs hc ih => simp [ih]
  | case4 c cs hescape ih => simp [ih]

theorem splitAtFreeQuote?_escape (c : Char) (cs : List Char) :
    splitAtFreeQuote? ('\\' :: c :: cs)
      = (splitAtFreeQuote? cs).map (Split.behind ['\\', c]) := by
  rw [splitAtFreeQuote?]
  rfl

/-- A backslash in front of a line feed may be taken for a character of its own, since the line feed
is no quote. -/
theorem splitAtFreeQuote?_unescaped (hquote : c ≠ '"')
    (hescape : c = '\\' → ∀ d ∈ cs.head?, d = '\n') :
    splitAtFreeQuote? (c :: cs) = (splitAtFreeQuote? cs).map (Split.behind [c]) := by
  by_cases hc : c = '\\'
  · subst hc
    cases cs with
    | nil => rfl
    | cons d cs =>
      obtain rfl : d = '\n' := hescape rfl d rfl
      rw [splitAtFreeQuote?_escape, splitAtFreeQuote?_cons (by decide) (by decide), Option.map_map]
      rfl
  · exact splitAtFreeQuote?_cons hquote hc cs

/-- The first unit is the free quote, or it stands before the free quote. -/
theorem splitAtFreeQuote?_of_units (h : units cs = u :: us) :
    ∃ rest, units rest = us ∧
      splitAtFreeQuote? cs
        = if u = ['"'] then some (['"'], rest)
          else (splitAtFreeQuote? rest).map (Split.behind u) := by
  unfold units at h
  split at h
  · cases h
  · rename_i c cs
    split at h
    · rename_i hc
      cases h
      refine ⟨c :: cs, rfl, ?_⟩
      rw [splitAtFreeQuote?_unescaped (by decide) (by simpa using hc), if_neg (by decide)]
    · cases h
      exact ⟨cs, rfl, by rw [splitAtFreeQuote?_escape, if_neg (by simp)]⟩
  · rename_i c cs hescape
    cases h
    refine ⟨cs, rfl, ?_⟩
    by_cases hc : c = '"'
    · subst hc
      rfl
    · rw [if_neg (by simpa using hc), splitAtFreeQuote?_unescaped hc]
      intro hc
      cases cs with
      | nil => simp
      | cons d cs => exact absurd rfl (hescape d cs hc)

theorem splitAtFreeQuote?_of_units_eq_append (h : units cs = us ++ ['"'] :: vs)
    (hus : ['"'] ∉ us) : splitAtFreeQuote? cs = some (us.flatten ++ ['"'], vs.flatten) := by
  induction us generalizing cs with
  | nil =>
    obtain ⟨rest, rfl, hfree⟩ := splitAtFreeQuote?_of_units h
    rw [hfree, if_pos rfl, flatten_units]
    rfl
  | cons u us ih =>
    obtain ⟨hu, hus⟩ := not_or.mp (mt List.mem_cons.mpr hus)
    obtain ⟨rest, hrest, hfree⟩ := splitAtFreeQuote?_of_units h
    rw [hfree, if_neg (Ne.symm hu), ih hrest hus]
    simp [Split.behind]

theorem splitAtFreeQuote?_eq_none (h : ['"'] ∉ units cs) : splitAtFreeQuote? cs = none := by
  generalize hus : units cs = us at h
  induction us generalizing cs with
  | nil =>
    have hnil := flatten_units cs
    rw [hus] at hnil
    rw [← hnil]
    rfl
  | cons u us ih =>
    obtain ⟨hu, hus'⟩ := not_or.mp (mt List.mem_cons.mpr h)
    obtain ⟨rest, hrest, hfree⟩ := splitAtFreeQuote?_of_units hus
    rw [hfree, if_neg (Ne.symm hu), ih hrest hus']
    rfl

/-! ## The closing quote -/

theorem splitAtFreeQuote?_of_not_mem (h : '"' ∉ cs) : splitAtFreeQuote? cs = none := by
  refine splitAtFreeQuote?_eq_none fun hmem => h ?_
  rw [← flatten_units cs]
  exact List.mem_flatten.mpr ⟨_, hmem, List.mem_singleton_self _⟩

theorem splitAtLastQuote?_cons (hquote : c ≠ '"') (cs : List Char) :
    splitAtLastQuote? (c :: cs) = (splitAtLastQuote? cs).map (Split.behind [c]) := by
  cases hcs : splitAtLastQuote? cs <;> simp [splitAtLastQuote?, hcs, hquote, Split.behind]

theorem splitAtLastQuote?_cons_of_eq_some {s : Split} (h : splitAtLastQuote? cs = some s)
    (c : Char) : splitAtLastQuote? (c :: cs) = some (s.behind [c]) := by
  simp [splitAtLastQuote?, h, Split.behind]

theorem splitAtLastQuote?_eq_none_iff : splitAtLastQuote? cs = none ↔ '"' ∉ cs := by
  induction cs with
  | nil => simp [splitAtLastQuote?]
  | cons c cs ih =>
    by_cases hc : c = '"'
    · subst hc
      cases hcs : splitAtLastQuote? cs <;> simp [splitAtLastQuote?, hcs]
    · rw [splitAtLastQuote?_cons hc, Option.map_eq_none_iff, ih, List.mem_cons, not_or]
      exact ⟨fun h => ⟨Ne.symm hc, h⟩, And.right⟩

theorem splitAtLastQuote?_append (h : '"' ∉ rest) (body : List Char) :
    splitAtLastQuote? (body ++ '"' :: rest) = some (body ++ ['"'], rest) := by
  induction body with
  | nil => simp [splitAtLastQuote?, splitAtLastQuote?_eq_none_iff.mpr h]
  | cons c body ih => simp [splitAtLastQuote?, ih]

theorem splitAtClosingQuote?_eq_or (cs : List Char) :
    splitAtClosingQuote? cs = (splitAtFreeQuote? cs).or (splitAtLastQuote? cs) := by
  unfold splitAtClosingQuote?
  cases splitAtFreeQuote? cs <;> rfl

theorem splitAtClosingQuote?_of_not_mem (h : '"' ∉ cs) : splitAtClosingQuote? cs = none := by
  rw [splitAtClosingQuote?_eq_or, splitAtFreeQuote?_of_not_mem h, splitAtLastQuote?_eq_none_iff.mpr h]
  rfl

theorem splitAtClosingQuote?_unescaped (hquote : c ≠ '"')
    (hescape : c = '\\' → ∀ d ∈ cs.head?, d = '\n') :
    splitAtClosingQuote? (c :: cs) = (splitAtClosingQuote? cs).map (Split.behind [c]) := by
  simp only [splitAtClosingQuote?_eq_or, splitAtFreeQuote?_unescaped hquote hescape,
    splitAtLastQuote?_cons hquote, Option.map_or]

/-- An escaped quote closes a literal only if there is no other quote behind it. -/
theorem splitAtClosingQuote?_escape (c : Char) (cs : List Char) :
    splitAtClosingQuote? ('\\' :: c :: cs)
      = ((splitAtClosingQuote? cs).map (Split.behind ['\\', c])).or
          ((splitAtClosingQuote? (c :: cs)).map (Split.behind ['\\'])) := by
  simp only [splitAtClosingQuote?_eq_or, splitAtFreeQuote?_escape]
  cases hfree : splitAtFreeQuote? cs with
  | some s => simp
  | none =>
    cases hlast : splitAtLastQuote? cs with
    | some s =>
      have hlast' := splitAtLastQuote?_cons_of_eq_some (splitAtLastQuote?_cons_of_eq_some hlast c) '\\'
      simp [hlast', Split.behind]
    | none =>
      rw [splitAtLastQuote?_cons (by decide)]
      by_cases hc : c = '"'
      · subst hc
        simp [splitAtFreeQuote?, splitAtLastQuote?, hlast]
      · have hmem : '"' ∉ c :: cs := by
          simpa [Ne.symm hc] using splitAtLastQuote?_eq_none_iff.mp hlast
        simp [splitAtFreeQuote?_of_not_mem hmem]

end Lexeme

namespace Pattern

open Lexeme

/-- **Backtracking ends a literal where the lexer does.** -/
theorem preferred?_closing (cs : List Char) : closing.preferred? cs = splitAtClosingQuote? cs := by
  induction hn : cs.length using Nat.strongRecOn generalizing cs with
  | ind n ih =>
    match cs, hn with
    | [], _ => exact preferred?_closing_nil
    | c :: cs, hn =>
      rw [List.length_cons] at hn
      by_cases hquote : c = '"'
      · subst hquote
        exact preferred?_closing_quote cs
      by_cases hescape : c = '\\' → ∀ d ∈ cs.head?, d = '\n'
      · rw [preferred?_closing_cons hquote hescape, splitAtClosingQuote?_unescaped hquote hescape,
          ih cs.length (by omega) cs rfl]
      · obtain ⟨rfl, d, hd, hne⟩ : c = '\\' ∧ ∃ d ∈ cs.head?, d ≠ '\n' := by
          simpa using hescape
        obtain ⟨cs, rfl⟩ := List.head?_eq_some_iff.mp hd
        rw [List.length_cons] at hn
        rw [preferred?_closing_escape hne, splitAtClosingQuote?_escape,
          ih cs.length (by omega) cs rfl, ih (d :: cs).length (by simp; omega) (d :: cs) rfl]

/-- **Where a quoted text ends.** The preferred match of its pattern ends with the first quote that is
a unit of its own. If there is none, it ends with the last quote of all, and if there is no other
quote than the opening one, nothing matches. So the lexer takes the text that backtracking finds. -/
theorem preferred?_literal (cs : List Char) :
    (∀ us vs, units cs = us ++ ['"'] :: vs → ['"'] ∉ us →
      literal.preferred? ('"' :: cs) = some ('"' :: us.flatten ++ ['"'], vs.flatten)) ∧
    (['"'] ∉ units cs → ∀ body rest, cs = body ++ '"' :: rest → '"' ∉ rest →
      literal.preferred? ('"' :: cs) = some ('"' :: body ++ ['"'], rest)) ∧
    ('"' ∉ cs → literal.preferred? ('"' :: cs) = none) ∧
    literal.preferred? ('"' :: cs)
      = (splitAtClosingQuote? cs).map fun (body, rest) => ('"' :: body, rest) := by
  have hliteral : literal.preferred? ('"' :: cs)
      = (splitAtClosingQuote? cs).map (Split.behind ['"']) := by
    rw [preferred?_literal_quote, preferred?_closing]
  refine ⟨?_, ?_, ?_, hliteral⟩
  · intro us vs hunits hus
    rw [hliteral, splitAtClosingQuote?_eq_or, splitAtFreeQuote?_of_units_eq_append hunits hus]
    rfl
  · rintro hunits body rest rfl hrest
    rw [hliteral, splitAtClosingQuote?_eq_or, splitAtFreeQuote?_eq_none hunits,
      splitAtLastQuote?_append hrest]
    rfl
  · intro hmem
    rw [hliteral, splitAtClosingQuote?_of_not_mem hmem]
    rfl

/-- Two backslashes are a unit and leave the quote behind them free. A backslash in front of a line
feed is one alone. Where all quotes are escaped, a backslash that has been read with the quote behind
it is read alone in the end. -/
theorem preferred?_literal_escaped :
    literal.preferred? ['"', 'a', '\\', '\\', '"', 'b', '"']
        = some (['"', 'a', '\\', '\\', '"'], ['b', '"']) ∧
      literal.preferred? ['"', '\\', '\n', '"', '"'] = some (['"', '\\', '\n', '"'], ['"']) ∧
      literal.preferred? ['"', '\\', '"', '\\', '\\', '\\', '"', 'c']
        = some (['"', '\\', '"', '\\', '\\', '\\', '"'], ['c']) ∧
      literal.preferred? ['"', 'a', '\\'] = none := by
  refine ⟨?_, ?_, ?_, ?_⟩
  · exact (preferred?_literal _).1 [['a'], ['\\', '\\']] [['b'], ['"']] (by decide) (by decide)
  · exact (preferred?_literal _).1 [['\\'], ['\n']] [['"']] (by decide) (by decide)
  · exact (preferred?_literal _).2.1 (by decide) ['\\', '"', '\\', '\\', '\\'] ['c'] (by decide)
      (by decide)
  · exact (preferred?_literal _).2.2.1 (by decide)

end Pattern

end Formula
