import Formula.CommandLine
import Formula.Proofs.Lexing.Image

/-! # Names on the command line

The command line binds any run of letters (`readBinding_eq_ok_iff`). In a formula a run of letters is
a name only if it does not begin with a truth value, which is cut off first. So every name of a
formula can be bound, but a binding of `true` or of `falsehood` is accepted and can never be used
(`parse_bound_name`). -/

namespace Formula

variable {cs name value : List Char}

namespace CommandLine

/-! ## Names that can be bound -/

theorem splitAtEquals?_append (h : '=' ∉ name) (value : List Char) :
    splitAtEquals? (name ++ '=' :: value) = some (name, value) := by
  have hname : ∀ c ∈ name, decide (c ≠ '=') = true := fun c hc => by
    simpa using fun he : c = '=' => h (he ▸ hc)
  have hvalue : Avoids (fun c => decide (c ≠ '=')) ('=' :: value) := avoids_cons rfl value
  unfold splitAtEquals?
  rw [dropWhile_append_of_avoids hname hvalue, takeWhile_append_of_avoids hname hvalue]

theorem eq_append_of_splitAtEquals? (h : splitAtEquals? cs = some (name, value)) :
    cs = name ++ '=' :: value := by
  have happend := List.takeWhile_append_dropWhile (p := fun c => decide (c ≠ '=')) (l := cs)
  have havoids := avoids_dropWhile (fun c => decide (c ≠ '=')) cs
  unfold splitAtEquals? at h
  split at h
  · cases h
  · rename_i c tail hdrop
    cases h
    rw [hdrop] at happend havoids
    obtain rfl : c = '=' := by simpa using havoids c rfl
    exact happend.symm

/-- **The names that can be bound are the runs of letters**, whatever their values are. -/
theorem readBinding_eq_ok_iff {text name : String} {v : Value} :
    readBinding text = .ok (name, v) ↔
      ∃ value, text = name ++ "=" ++ value ∧ v = readBound value ∧
        name.toList ≠ [] ∧ ∀ c ∈ name.toList, Lexeme.isLetter c = true := by
  constructor
  · intro h
    unfold readBinding at h
    split at h
    · cases h
    · rename_i letters value hsplit
      split at h
      · cases h
      · rename_i hletters
        cases h
        refine ⟨String.ofList value, String.toList_inj.mp ?_, rfl, by simpa using hletters⟩
        simpa using eq_append_of_splitAtEquals? hsplit
  · rintro ⟨value, rfl, rfl, hne, hletters⟩
    have hequals : '=' ∉ name.toList := fun h => absurd (hletters '=' h) (by decide)
    have hsplit : splitAtEquals? (name ++ "=" ++ value).toList = some (name.toList, value.toList) := by
      simpa using splitAtEquals?_append hequals value.toList
    have hletters : (name.toList.isEmpty || !name.toList.all Lexeme.isLetter) = false := by
      simpa [hne] using hletters
    simp only [readBinding, hsplit, hletters]
    simp

end CommandLine

/-! ## Names of formulas -/

/-- A run of letters that begins like this is not read as one name. -/
def BeginsWithTruthValue (name : String) : Prop :=
  "true".toList <+: name.toList ∨ "false".toList <+: name.toList

instance (name : String) : Decidable (BeginsWithTruthValue name) :=
  inferInstanceAs (Decidable ("true".toList <+: name.toList ∨ "false".toList <+: name.toList))

theorem isName_toList_iff {name : String} : IsName name.toList ↔
    name.toList ≠ [] ∧ (∀ c ∈ name.toList, Lexeme.isLetter c = true) ∧
      ¬ BeginsWithTruthValue name := by
  constructor
  · intro h
    exact ⟨h.ne_nil, h.letters, not_or.mpr ⟨h.not_true, h.not_false⟩⟩
  · rintro ⟨hne, hletters, hbegins⟩
    exact ⟨hne, hletters, fun h => hbegins (.inl h), fun h => hbegins (.inr h)⟩

theorem isName_of_mem_tokens {formula name : String} {e : Expression}
    (hparse : Expression.parse formula = .ok e) (hname : .name name ∈ e.tokens) :
    IsName name.toList := by
  obtain ⟨ts, hlex, rfl⟩ := Expression.parse_eq_ok_iff.mp hparse
  exact (readable_of_lex hlex _ hname).isName

theorem parse_of_isName {name : String} (h : IsName name.toList) :
    Expression.parse name = .ok { tokens := [.name name], names := [name] } := by
  have hlexes := lexesTo_name h (avoids_nil Lexeme.isLetter)
  have hlex := hlexes.eq_ok_iff.mpr ⟨[], lex_nil, rfl⟩
  rw [String.ofList_toList, List.append_nil] at hlex
  exact Expression.parse_eq_ok_iff.mpr ⟨_, hlex, rfl⟩

/-- **A bound name is a name of formulas unless it begins with a truth value.** Then no formula has it,
so the binding is never looked up. The other way round all names of formulas can be bound, to every
value. -/
theorem parse_bound_name (name : String) :
    (∀ text v, CommandLine.readBinding text = .ok (name, v) →
      (Expression.parse name = .ok { tokens := [.name name], names := [name] } ↔
        ¬ BeginsWithTruthValue name)) ∧
    (BeginsWithTruthValue name →
      ∀ formula e, Expression.parse formula = .ok e → .name name ∉ e.tokens) ∧
    ∀ formula e, Expression.parse formula = .ok e → .name name ∈ e.tokens →
      ∀ value, CommandLine.readBinding (name ++ "=" ++ value)
        = .ok (name, CommandLine.readBound value) := by
  have hbegins : ∀ {formula e}, Expression.parse formula = .ok e → .name name ∈ e.tokens →
      ¬ BeginsWithTruthValue name :=
    fun hparse hname => (isName_toList_iff.mp (isName_of_mem_tokens hparse hname)).2.2
  refine ⟨?_, ?_, ?_⟩
  · intro text v h
    obtain ⟨value, -, -, hne, hletters⟩ := CommandLine.readBinding_eq_ok_iff.mp h
    constructor
    · intro hparse
      exact hbegins hparse List.mem_cons_self
    · intro hnot
      exact parse_of_isName (isName_toList_iff.mpr ⟨hne, hletters, hnot⟩)
  · intro hname formula e hparse hmem
    exact hbegins hparse hmem hname
  · intro formula e hparse hname value
    obtain ⟨hne, hletters, -⟩ := isName_toList_iff.mp (isName_of_mem_tokens hparse hname)
    exact CommandLine.readBinding_eq_ok_iff.mpr ⟨value, rfl, rfl, hne, hletters⟩

/-- The names `tru` and `falsehood`, and those of `if(x, falx, 1)` with a value that has an equals sign
itself. -/
theorem parse_bound_name_if :
    (∃ v, CommandLine.readBinding "tru=false" = .ok ("tru", v) ∧
      Expression.parse "tru" = .ok { tokens := [.name "tru"], names := ["tru"] }) ∧
    (∃ v, CommandLine.readBinding "falsehood=1" = .ok ("falsehood", v) ∧
      ∀ formula e, Expression.parse formula = .ok e → .name "falsehood" ∉ e.tokens) ∧
    ∃ e, Expression.parse "if(x, falx, 1)" = .ok e ∧
      CommandLine.readBinding ("if" ++ "=" ++ "a=b") = .ok ("if", .text "a=b") ∧
      CommandLine.readBinding ("falx" ++ "=" ++ "") = .ok ("falx", .text "") := by
  have htru : CommandLine.readBinding "tru=false" = .ok ("tru", .bool false) := by decide +kernel
  have hfalsehood : CommandLine.readBinding "falsehood=1" = .ok ("falsehood", .number 1) := by
    decide +kernel
  have hparse : Expression.parse "if(x, falx, 1)"
      = .ok ⟨[.name "if", .openParen, .name "x", .comma, .name "falx", .comma, .number 1,
          .closeParen], ["if", "x", "falx"]⟩ := by
    decide +kernel
  refine ⟨⟨_, htru, ((parse_bound_name _).1 _ _ htru).mpr (by decide)⟩,
    ⟨_, hfalsehood, (parse_bound_name _).2.1 (by decide)⟩, _, hparse, ?_, ?_⟩
  · rw [(parse_bound_name _).2.2 _ _ hparse (by decide)]
    decide +kernel
  · rw [(parse_bound_name _).2.2 _ _ hparse (by decide)]
    decide +kernel

/-- The binding of a truth value is accepted, though the text of its name is no name. -/
theorem parse_bound_name_true :
    ∃ v, CommandLine.readBinding "true=1" = .ok ("true", v) ∧
      ¬ ∃ e, Expression.parse "true" = .ok e ∧ e.tokens = [.name "true"] := by
  have hparse : Expression.parse "true" = .ok ⟨[.bool true], []⟩ := by decide +kernel
  refine ⟨.number 1, by decide +kernel, ?_⟩
  rintro ⟨e, he, htokens⟩
  rw [hparse] at he
  cases he
  cases htokens

end Formula
