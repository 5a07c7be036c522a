import Formula.Proofs.Lexing.Joining
import Formula.Proofs.Lists
import Formula.Proofs.Stored.Postconditions
import Formula.Proofs.Stored.RoundTrip

/-! # Occurrences of names

An expression lists the names among its tokens, each of them once and in the order in which they occur
first (`Collects`). It does so however it has come about: made from tokens, read from the text of a
formula or read from a stored text, whatever names that text lists itself. -/

namespace Formula

/-! ## The names of tokens -/

/-- The names are those that occur among the tokens, each of them once, and a name that occurs first
at an earlier place comes before one that occurs first at a later place. -/
structure Collects (names : List String) (ts : List Token) : Prop where
  nodup : names.Nodup
  mem_iff : ∀ x, x ∈ names ↔ .name x ∈ ts
  order : ∀ x ∈ names, ∀ y ∈ names,
    (names.idxOf x < names.idxOf y ↔ ts.idxOf (.name x) < ts.idxOf (.name y))

theorem Token.name?_eq_some_iff {t : Token} {x : String} : t.name? = some x ↔ t = .name x := by
  cases t <;> simp [name?]

theorem Expression.collects_ofTokens (ts : List Token) : Collects (ofTokens ts).names ts where
  nodup := nodup_eraseDups _
  mem_iff x := by simp [ofTokens, List.mem_eraseDups, Token.name?_eq_some_iff]
  order x _ y _ := by
    rw [ofTokens, idxOf_eraseDups_lt_iff]
    exact idxOf_filterMap_lt_iff (fun _ => Token.name?_eq_some_iff)
      (fun _ => Token.name?_eq_some_iff) ts

/-! ## Wherever the tokens come from -/

/-- **The names of an expression are collected once, completely and in order**, from the tokens that
the expression has, wherever these come from. A stored text may list any names beside its tokens. -/
theorem Expression.names_collected :
    (∀ ts, Collects (ofTokens ts).names ts) ∧
    (∀ text e, parse text = .ok e →
      lex text.toList = .ok e.tokens ∧ e.names = (ofTokens e.tokens).names) ∧
    (∀ text e, load? text = .ok e → e.names = (ofTokens e.tokens).names) ∧
    ∀ ts listed, (∀ t ∈ ts, t.Storable) →
      (∀ t ∈ ts, ∀ x ∈ t.payload.numbers, x.isFinite = true → Stored.ReadsBack x) →
        load? (store { tokens := ts, names := listed }) = .ok (ofTokens ts) := by
  refine ⟨collects_ofTokens, ?_, ?_, ?_⟩
  · intro text e hparse
    obtain ⟨ts, hlex, rfl⟩ := parse_eq_ok_iff.mp hparse
    exact ⟨hlex, rfl⟩
  · intro text e hload
    obtain ⟨ts, rfl, -⟩ := Stored.exists_tokens_of_load? (P := fun _ => True)
      (fun _ _ _ _ => trivial) hload
    rfl
  · intro ts listed hstorable hreads
    exact load?_store_listed hstorable hreads listed

/-- `b * 0.5 + f(a, b)` has three names, and it has no others when it is stored with other ones. -/
theorem Expression.names_collected_listed :
    ∃ ts : List Token,
      ts = [.name "b", .operator .mul, .number 0.5, .operator .add, .name "f", .openParen,
        .name "a", .comma, .name "b", .closeParen] ∧
      Collects ["b", "f", "a"] ts ∧
      (∃ e, parse "b * 0.5 + f(a, b)" = .ok e ∧ e.names = ["b", "f", "a"]) ∧
      ∃ e, load? (store { tokens := ts, names := ["zzz", "a", "zzz"] }) = .ok e ∧
        e.names = ["b", "f", "a"] := by
  have hnames : (ofTokens [.name "b", .operator .mul, .number 0.5, .operator .add, .name "f",
      .openParen, .name "a", .comma, .name "b", .closeParen]).names = ["b", "f", "a"] := by decide
  have hparse : parse "b * 0.5 + f(a, b)" = .ok (ofTokens [.name "b", .operator .mul, .number 0.5,
      .operator .add, .name "f", .openParen, .name "a", .comma, .name "b", .closeParen]) := by
    decide +kernel
  have hload := names_collected.2.2.2 [.name "b", .operator .mul, .number 0.5, .operator .add,
    .name "f", .openParen, .name "a", .comma, .name "b", .closeParen] ["zzz", "a", "zzz"]
    (by decide +kernel) (by decide +kernel)
  refine ⟨_, rfl, hnames ▸ names_collected.1 _, ⟨_, hparse, ?_⟩, _, hload, ?_⟩
  · exact (names_collected.2.1 _ _ hparse).2.trans hnames
  · exact (names_collected.2.2.1 _ _ hload).trans hnames

end Formula
