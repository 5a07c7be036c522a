import Formula.Proofs.Decimal.Text
import Formula.Proofs.Json.Taken

/-! # Numerals in a text

A numeral that can be read alone is read in the same way in front of any text that does not go on it
(`Numeral.scan_append`). The written form of a number is such a numeral: it has no blanks, and since
it has a point or an exponent it is never taken for a whole number. -/

namespace Formula.Json

variable {cs rest after digits whole fraction : List Char} {missing : Fault} {numeral : Numeral}

/-- The marks of an exponent. -/
def isExponentMark (c : Char) : Bool := c = 'e' || c = 'E'

theorem Numeral.continues_eq_false_iff {c : Char} : continues c = false ↔
    c.isDigit = false ∧ c ≠ '.' ∧ isExponentMark c = false := by
  simp [continues, isExponentMark]
  tauto

theorem Numeral.avoids_digit (h : Avoids continues after) : Avoids Char.isDigit after :=
  fun c hc => (continues_eq_false_iff.mp (h c hc)).1

theorem Numeral.avoids_point (h : Avoids continues after) : Avoids (· = '.') after :=
  fun c hc => by simpa using (continues_eq_false_iff.mp (h c hc)).2.1

theorem Numeral.avoids_mark (h : Avoids continues after) : Avoids isExponentMark after :=
  fun c hc => (continues_eq_false_iff.mp (h c hc)).2.2

/-! ## The parts of a numeral -/

theorem scanDigits_append (h : scanDigits missing cs = .ok (digits, rest))
    (hafter : Avoids Char.isDigit after) :
    scanDigits missing (cs ++ after) = .ok (digits, rest ++ after) := by
  cases cs with
  | nil => cases h
  | cons c tail =>
    rw [scanDigits] at h
    split at h
    · rename_i hc
      cases h
      simp [scanDigits, hc, hafter.takeWhile_append, hafter.dropWhile_append]
    · cases h

theorem scanWhole_append (h : scanWhole missing cs = .ok (whole, rest))
    (hafter : Avoids Char.isDigit after) :
    scanWhole missing (cs ++ after) = .ok (whole, rest ++ after) := by
  unfold scanWhole at h ⊢
  split at h
  · cases h
  · rename_i hdigits
    rw [scanDigits_append hdigits hafter]
    simp only
    split at h
    · cases h
    · rename_i hzero
      cases h
      rw [if_neg hzero]

theorem scanFraction_of_avoids (h : Avoids (· = '.') cs) :
    scanFraction missing cs = .ok ([], cs) := by
  unfold scanFraction
  split
  · exact absurd (h '.' rfl) (by decide)
  · rfl

theorem scanFraction_append (h : scanFraction missing cs = .ok (fraction, rest))
    (hafter : Avoids Numeral.continues after) :
    scanFraction missing (cs ++ after) = .ok (fraction, rest ++ after) := by
  by_cases hpoint : ∃ tail, cs = '.' :: tail
  · obtain ⟨tail, rfl⟩ := hpoint
    exact scanDigits_append h (Numeral.avoids_digit hafter)
  · have hcs : Avoids (· = '.') cs := by
      intro c hc
      obtain ⟨tail, rfl⟩ := List.head?_eq_some_iff.mp hc
      simpa using hpoint
    rw [scanFraction_of_avoids hcs] at h
    cases h
    exact scanFraction_of_avoids (hcs.append (Numeral.avoids_point hafter))

/-- The sign of an exponent, and its digits. -/
def exponentSign : List Char → Bool × List Char
  | '+' :: digits => (false, digits)
  | '-' :: digits => (true, digits)
  | digits => (false, digits)

theorem exponentSign_append (h : cs ≠ []) :
    exponentSign (cs ++ after) = ((exponentSign cs).1, (exponentSign cs).2 ++ after) := by
  obtain ⟨c, tail, rfl⟩ := List.exists_cons_of_ne_nil h
  unfold exponentSign
  split <;> simp_all

theorem scanExponent_of_avoids (h : Avoids isExponentMark cs) :
    scanExponent missing cs = .ok (none, cs) := by
  cases cs with
  | nil => rfl
  | cons c cs =>
    have hc := h c rfl
    unfold isExponentMark at hc
    unfold scanExponent
    simp only
    rw [if_neg (by simpa using hc)]

theorem scanExponent_cons {mark : Char} (h : isExponentMark mark = true) (tail : List Char) :
    scanExponent missing (mark :: tail) =
      match scanDigits missing (exponentSign tail).2 with
      | .error fault => .error fault
      | .ok (digits, rest) =>
        let e : Int := Nat.ofDigitChars 10 digits 0
        .ok (some (if (exponentSign tail).1 then -e else e), rest) := by
  unfold isExponentMark at h
  unfold scanExponent
  simp only
  rw [if_pos h]
  rfl

theorem scanExponent_append {exponent : Option Int}
    (h : scanExponent missing cs = .ok (exponent, rest))
    (hafter : Avoids Numeral.continues after) :
    scanExponent missing (cs ++ after) = .ok (exponent, rest ++ after) := by
  by_cases hmark : ∃ mark tail, cs = mark :: tail ∧ isExponentMark mark = true
  · obtain ⟨mark, tail, rfl, hmark⟩ := hmark
    rw [scanExponent_cons hmark] at h
    split at h
    · cases h
    · rename_i digits left hdigits
      cases h
      have htail : tail ≠ [] := by
        rintro rfl
        cases hdigits
      rw [List.cons_append, scanExponent_cons hmark, exponentSign_append htail,
        scanDigits_append hdigits (Numeral.avoids_digit hafter)]
  · have hcs : Avoids isExponentMark cs := by
      intro c hc
      obtain ⟨tail, rfl⟩ := List.head?_eq_some_iff.mp hc
      simpa using hmark
    rw [scanExponent_of_avoids hcs] at h
    cases h
    exact scanExponent_of_avoids (hcs.append (Numeral.avoids_mark hafter))

theorem Numeral.scan_eq_ok_iff : scan missing cs = .ok (numeral, rest) ↔
    ∃ rest₁ rest₂, scanWhole missing cs = .ok (numeral.whole, rest₁) ∧
      scanFraction missing rest₁ = .ok (numeral.fraction, rest₂) ∧
      scanExponent missing rest₂ = .ok (numeral.exponent, rest) := by
  obtain ⟨whole, fraction, exponent⟩ := numeral
  simp only [scan, bind, Except.bind]
  cases hwhole : scanWhole missing cs with
  | error fault => simp
  | ok pair =>
    obtain ⟨whole', rest₁⟩ := pair
    cases hfraction : scanFraction missing rest₁ with
    | error fault => simp [hfraction]
    | ok pair =>
      obtain ⟨fraction', rest₂⟩ := pair
      cases hexponent : scanExponent missing rest₂ with
      | error fault => simp [hfraction, hexponent]
      | ok pair => simp [hfraction, hexponent, pure, Except.pure]; grind

/-- **A numeral is read in the same way whatever follows, if it is not gone on.** -/
theorem Numeral.scan_append (h : scan missing cs = .ok (numeral, rest))
    (hafter : Avoids continues after) :
    scan missing (cs ++ after) = .ok (numeral, rest ++ after) := by
  obtain ⟨rest₁, rest₂, hwhole, hfraction, hexponent⟩ := scan_eq_ok_iff.mp h
  exact scan_eq_ok_iff.mpr ⟨rest₁ ++ after, rest₂ ++ after,
    scanWhole_append hwhole (avoids_digit hafter), scanFraction_append hfraction hafter,
    scanExponent_append hexponent hafter⟩

/-! ## Numbers -/

theorem taken_readNumber (negative : Bool) (cs : List Char) :
    taken (readNumber negative cs)
      = (Numeral.scan .endOfValue cs).toOption.bind fun (numeral, rest) =>
          (numeral.value? negative).map fun n => (n, rest) := by
  unfold readNumber
  split
  · rename_i herror
    rw [herror]
    rfl
  · rename_i numeral rest hok
    simp only [hok, Except.toOption, Option.bind_some]
    cases numeral.value? negative <;> rfl

theorem exists_of_taken_readNumber {negative : Bool} {n : Number}
    (h : taken (readNumber negative cs) = some (n, rest)) :
    ∃ numeral, Numeral.scan .endOfValue cs = .ok (numeral, rest) ∧
      numeral.value? negative = some n := by
  rw [taken_readNumber] at h
  obtain ⟨⟨numeral, rest'⟩, hscan, hvalue⟩ := Option.bind_eq_some_iff.mp h
  obtain ⟨n', hn, hpair⟩ := Option.map_eq_some_iff.mp hvalue
  cases hpair
  cases hresult : Numeral.scan .endOfValue cs with
  | error fault => rw [hresult] at hscan; cases hscan
  | ok pair =>
    rw [hresult] at hscan
    cases hscan
    exact ⟨numeral, rfl, hn⟩

theorem taken_readNumber_append {negative : Bool} {n : Number}
    (h : taken (readNumber negative cs) = some (n, rest))
    (hafter : Avoids Numeral.continues after) :
    taken (readNumber negative (cs ++ after)) = some (n, rest ++ after) := by
  obtain ⟨numeral, hscan, hvalue⟩ := exists_of_taken_readNumber h
  rw [taken_readNumber, Numeral.scan_append hscan hafter]
  simp [Except.toOption, hvalue]

theorem taken_readValue_minus (nested : Option (Reader Fault Json)) (cs : List Char) :
    taken (readValue nested ('-' :: cs))
      = (taken (readNumber true cs)).map fun (n, rest) => (.number n, rest) := by
  rw [readValue, taken_byFirst (skipSpace_cons rfl cs)]
  exact taken_map Json.number fun _ _ => ⟨rfl, rfl⟩

theorem taken_readValue_digit (nested : Option (Reader Fault Json)) {c : Char}
    (h : c.isDigit = true) (cs : List Char) :
    taken (readValue nested (c :: cs))
      = (taken (readNumber false (c :: cs))).map fun (n, rest) => (.number n, rest) := by
  have hne : ∀ d : Char, d.isDigit = false → c ≠ d := by
    rintro d hd rfl
    rw [h] at hd
    cases hd
  have hspace : isSpace c = false := by simp [isSpace, hne]
  rw [readValue, taken_byFirst (skipSpace_cons hspace cs), if_neg (hne 'n' rfl),
    if_neg (hne 't' rfl), if_neg (hne 'f' rfl), if_neg (hne '-' rfl), if_pos h]
  exact taken_map Json.number fun _ _ => ⟨rfl, rfl⟩

/-- Only a sign or a digit begins a number. -/
theorem isNumberStart_of_taken {nested : Option (Reader Fault Json)} {c : Char} {n : Number}
    (hspace : isSpace c = false)
    (h : taken (readValue nested (c :: cs)) = some (.number n, rest)) :
    c = '-' ∨ c.isDigit = true := by
  by_contra hnone
  obtain ⟨hminus, hdigit⟩ := not_or.mp hnone
  rw [readValue, taken_byFirst (skipSpace_cons hspace cs), if_neg hminus, if_neg hdigit] at h
  -- any other first character begins a value of another kind, or none
  split at h
  · exact absurd h (taken_map_ne fun y hy => by cases y; cases hy)
  split at h
  · exact absurd h (taken_map_ne fun y hy => by cases y; cases hy)
  split at h
  · exact absurd h (taken_map_ne fun y hy => by cases y; cases hy)
  split at h
  · exact absurd h (taken_map_ne fun y hy => by cases y; cases hy)
  split at h
  · split at h
    · cases h
    · exact absurd h (taken_map_ne fun y hy => by cases y; cases hy)
  split at h
  · split at h
    · cases h
    · exact absurd h (taken_map_ne fun y hy => by cases y; cases hy)
  · cases h

/-- A number has been read after its sign, if there is one, and it is read there in front of any text
and however many levels are open. -/
theorem exists_of_taken_number {nested : Option (Reader Fault Json)} {n : Number}
    (hspace : Avoids isSpace cs) (h : taken (readValue nested cs) = some (.number n, rest)) :
    ∃ sign tail negative, cs = sign ++ tail ∧ (∀ c ∈ sign, c = '-') ∧
      taken (readNumber negative tail) = some (n, rest) ∧
      ∀ nested' after, taken (readValue nested' (cs ++ after))
        = (taken (readNumber negative (tail ++ after))).map fun (n, rest) => (.number n, rest) := by
  cases cs with
  | nil => cases h
  | cons c tail =>
    rcases isNumberStart_of_taken (hspace c rfl) h with rfl | hdigit
    · rw [taken_readValue_minus] at h
      obtain ⟨⟨m, rest⟩, hm, hpair⟩ := Option.map_eq_some_iff.mp h
      cases hpair
      exact ⟨['-'], tail, true, rfl, by simp, hm, fun _ after => taken_readValue_minus _ _⟩
    · rw [taken_readValue_digit nested hdigit] at h
      obtain ⟨⟨m, rest⟩, hm, hpair⟩ := Option.map_eq_some_iff.mp h
      cases hpair
      exact ⟨[], c :: tail, false, rfl, by simp, hm,
        fun _ after => taken_readValue_digit _ hdigit _⟩

/-- **A number that is all of a text is read in the same way in front of any text that does not go on
it.** -/
theorem takes_of_taken_number {nested nested' : Option (Reader Fault Json)} {n : Number}
    (hspace : Avoids isSpace cs) (h : taken (readValue nested cs) = some (.number n, [])) :
    (readValue nested').Takes cs (some (.number n)) := by
  intro after hafter
  obtain ⟨sign, tail, negative, rfl, -, hn, hread⟩ := exists_of_taken_number hspace h
  rw [hread, taken_readNumber_append hn hafter]
  rfl

/-! ## What a numeral is made of -/

theorem scanDigits_eq {missing : Fault} (h : scanDigits missing cs = .ok (digits, rest)) :
    cs = digits ++ rest ∧ digits ≠ [] ∧ ∀ c ∈ digits, c.isDigit = true := by
  cases cs with
  | nil => cases h
  | cons c tail =>
    rw [scanDigits] at h
    split at h
    · rename_i hc
      cases h
      refine ⟨by simp, by simp, ?_⟩
      exact List.forall_mem_cons.mpr ⟨hc, fun d hd => List.mem_takeWhile_imp hd⟩
    · cases h

theorem scanWhole_eq (h : scanWhole missing cs = .ok (whole, rest)) :
    cs = whole ++ rest ∧ ∀ c ∈ whole, c.isDigit = true := by
  unfold scanWhole at h
  split at h
  · cases h
  · rename_i hdigits
    split at h
    · cases h
    · cases h
      obtain ⟨hcs, -, hall⟩ := scanDigits_eq hdigits
      exact ⟨hcs, hall⟩

theorem scanFraction_eq_nil (h : scanFraction missing cs = .ok ([], rest)) : rest = cs := by
  unfold scanFraction at h
  split at h
  · exact absurd rfl (scanDigits_eq h).2.1
  · cases h
    rfl

theorem scanFraction_suffix (h : scanFraction missing cs = .ok (fraction, rest)) :
    rest <:+ cs := by
  unfold scanFraction at h
  split at h
  · rw [(scanDigits_eq h).1]
    exact (List.suffix_append _ _).trans (List.suffix_cons _ _)
  · cases h
    exact List.suffix_rfl

theorem scanExponent_suffix {exponent : Option Int}
    (h : scanExponent missing cs = .ok (exponent, rest)) : rest <:+ cs := by
  cases cs with
  | nil => cases h; exact List.suffix_rfl
  | cons c tail =>
    by_cases hmark : isExponentMark c = true
    · rw [scanExponent_cons hmark] at h
      split at h
      · cases h
      · rename_i hdigits
        cases h
        have hsign : (exponentSign tail).2 <:+ tail := by
          unfold exponentSign
          split <;> simp
        have hrest : rest <:+ (exponentSign tail).2 := by
          rw [(scanDigits_eq hdigits).1]
          exact List.suffix_append _ _
        exact (hrest.trans hsign).trans (List.suffix_cons _ _)
    · rw [scanExponent_of_avoids (by simpa [Avoids] using hmark)] at h
      cases h
      exact List.suffix_rfl

theorem Numeral.scan_suffix (h : scan missing cs = .ok (numeral, rest)) : rest <:+ cs := by
  obtain ⟨rest₁, rest₂, hwhole, hfraction, hexponent⟩ := scan_eq_ok_iff.mp h
  obtain ⟨rfl, -⟩ := scanWhole_eq hwhole
  exact (scanExponent_suffix hexponent).trans
    ((scanFraction_suffix hfraction).trans (List.suffix_append _ _))

theorem scanExponent_eq_none (h : scanExponent missing cs = .ok (none, rest)) : rest = cs := by
  cases cs with
  | nil => cases h; rfl
  | cons c tail =>
    by_cases hmark : isExponentMark c = true
    · rw [scanExponent_cons hmark] at h
      split at h <;> cases h
    · rw [scanExponent_of_avoids (by simpa [Avoids] using hmark)] at h
      cases h
      rfl

/-- A numeral without a fraction and an exponent is nothing but digits. -/
theorem Numeral.isDigit_of_scan (h : scan missing cs = .ok (numeral, []))
    (hfraction : numeral.fraction = []) (hexponent : numeral.exponent = none) :
    ∀ c ∈ cs, c.isDigit = true := by
  obtain ⟨rest₁, rest₂, hwhole, hrest₁, hrest₂⟩ := scan_eq_ok_iff.mp h
  rw [hfraction] at hrest₁
  rw [hexponent] at hrest₂
  obtain ⟨rfl, hdigits⟩ := scanWhole_eq hwhole
  obtain rfl := scanFraction_eq_nil hrest₁
  obtain rfl := scanExponent_eq_none hrest₂
  rwa [List.append_nil]

theorem Numeral.exists_real_of_value? {negative : Bool} {n : Number}
    (h : numeral.value? negative = some n)
    (hreal : ¬ (numeral.fraction = [] ∧ numeral.exponent = none)) : ∃ x, n = .real x := by
  have hwhole : (numeral.fraction.isEmpty && numeral.exponent.isNone) = false := by
    simpa [Option.isSome_iff_ne_none] using hreal
  simp only [value?, hwhole, Bool.false_and, Bool.false_eq_true, if_false] at h
  obtain ⟨y, -, rfl⟩ := Option.map_eq_some_iff.mp h
  exact ⟨_, rfl⟩

/-- What is written for numbers: parts of numerals, with a point or an exponent. -/
structure Numeral.IsReal (cs : List Char) : Prop where
  parts : ∀ c ∈ cs, continues c = true ∨ c = '+' ∨ c = '-'
  mark : ∃ c ∈ cs, c = '.' ∨ c = 'e'

theorem continues_of_mem_plain {d : Decimal} :
    ∀ c ∈ d.plain, Numeral.continues c = true := by
  intro c hc
  obtain ⟨whole, fraction, hnumeral, -, htext⟩ := d.exists_written_eq_plain
  rw [htext, Decimal.written, Decimal.pointed] at hc
  have hdigit := hnumeral.digits c
  split at hc <;> grind [Numeral.continues]

theorem isReal_plain {d : Decimal} (h : ¬ 0 ≤ d.exponent) : Numeral.IsReal d.plain where
  parts c hc := .inl (continues_of_mem_plain c hc)
  mark := by
    refine ⟨'.', ?_, .inl rfl⟩
    rw [Decimal.plain, if_neg h]
    simp

theorem isReal_scientific {digits : List Char} (h : ∀ c ∈ digits, c.isDigit = true)
    (exponent : Int) : Numeral.IsReal (scientific digits exponent) where
  parts c hc := by
    have hexponent := fun hc => Decimal.isDigit_digits (n := exponent.natAbs) (c := c) hc
    unfold scientific at hc
    grind [Numeral.continues]
  mark := by
    refine ⟨'e', ?_, .inr rfl⟩
    unfold scientific
    split <;> simp

theorem isReal_writeMagnitude (x : Float) : Numeral.IsReal (writeMagnitude x) := by
  unfold writeMagnitude
  simp only
  split
  · exact ⟨by simp [Numeral.continues], '.', by simp, .inl rfl⟩
  · split
    · split
      · refine ⟨?_, '.', by simp, .inl rfl⟩
        intro c hc
        rcases List.mem_append.mp hc with hc | hc
        · exact .inl (continues_of_mem_plain c hc)
        · have hzero : c = '.' ∨ c = '0' := by simpa using hc
          rcases hzero with rfl | rfl <;> exact .inl rfl
      · rename_i hexponent
        exact isReal_plain hexponent
    · exact isReal_scientific (fun c hc => Decimal.isDigit_digits hc) _

theorem isReal_writeReal (x : Float) : Numeral.IsReal (writeReal x) := by
  obtain ⟨hparts, c, hc, hmark⟩ := isReal_writeMagnitude x
  unfold writeReal
  split
  · exact ⟨List.forall_mem_cons.mpr ⟨.inr (.inr rfl), hparts⟩, c, List.mem_cons_of_mem _ hc, hmark⟩
  · exact ⟨hparts, c, hc, hmark⟩

namespace Numeral.IsReal

theorem not_isSpace (h : IsReal cs) : ∀ c ∈ cs, isSpace c = false := by
  intro c hc
  by_contra hspace
  simp only [isSpace, Bool.not_eq_false, Bool.or_eq_true, decide_eq_true_eq] at hspace
  have hpart := h.parts c hc
  rcases hspace with ((rfl | rfl) | rfl) | rfl <;> revert hpart <;> decide

theorem avoids_isSpace (h : IsReal cs) : Avoids isSpace cs :=
  fun c hc => h.not_isSpace c (List.mem_of_mem_head? hc)

/-- What has a point or an exponent is not read as a whole number. -/
theorem exists_real_of_readNumber {negative : Bool} {n : Number}
    (hmark : ∃ c ∈ cs, c = '.' ∨ c = 'e')
    (h : taken (readNumber negative cs) = some (n, [])) : ∃ x, n = .real x := by
  obtain ⟨numeral, hscan, hvalue⟩ := exists_of_taken_readNumber h
  refine exists_real_of_value? hvalue ?_
  rintro ⟨hfraction, hexponent⟩
  obtain ⟨c, hc, hmark⟩ := hmark
  have hdigit := isDigit_of_scan hscan hfraction hexponent c hc
  rcases hmark with rfl | rfl <;> cases hdigit

end Numeral.IsReal

/-- If only blanks are left and there was none, nothing is left. -/
theorem eq_nil_of_readNumber {negative : Bool} {n : Number} (hspace : ∀ c ∈ cs, isSpace c = false)
    (h : taken (readNumber negative cs) = some (n, rest)) (hrest : skipSpace rest = []) :
    rest = [] := by
  obtain ⟨numeral, hscan, -⟩ := exists_of_taken_readNumber h
  have hsuffix := Numeral.scan_suffix hscan
  cases rest with
  | nil => rfl
  | cons c rest =>
    rw [skipSpace_cons (hspace c (hsuffix.mem List.mem_cons_self))] at hrest
    cases hrest

theorem startsEntry_writeReal (x : Float) : StartsEntry (writeReal x) := by
  have hreal := isReal_writeReal x
  cases htext : writeReal x with
  | nil =>
    obtain ⟨c, hc, -⟩ := hreal.mark
    rw [htext] at hc
    cases hc
  | cons c rest =>
    have hc : c ∈ writeReal x := htext ▸ List.mem_cons_self
    refine ⟨c, rest, rfl, hreal.not_isSpace c hc, ?_⟩
    rintro rfl
    have hpart := hreal.parts _ hc
    revert hpart
    decide

/-- **A number whose numeral is read back alone is read back in front of other texts**, however many
levels are open. -/
theorem takes_writeReal {nested nested' : Option (Reader Fault Json)} {x : Float} {n : Number}
    {rest : List Char} (h : taken (readValue nested (writeReal x)) = some (.number n, rest))
    (hrest : skipSpace rest = []) (hx : n.toFloat = x) :
    (readValue nested').Takes (writeReal x) (some (.number (.real x))) := by
  have hreal := isReal_writeReal x
  obtain ⟨sign, tail, negative, htext, hsign, hn, -⟩ := exists_of_taken_number hreal.avoids_isSpace h
  have hspace : ∀ c ∈ tail, isSpace c = false := by
    intro c hc
    refine hreal.not_isSpace c ?_
    rw [htext]
    exact List.mem_append_right _ hc
  obtain rfl := eq_nil_of_readNumber hspace hn hrest
  obtain ⟨c, hc, hmark⟩ := hreal.mark
  have htail : c ∈ tail := by
    rw [htext] at hc
    refine (List.mem_append.mp hc).resolve_left fun hc => ?_
    rcases hmark with rfl | rfl <;> cases hsign _ hc
  obtain ⟨y, rfl⟩ := Numeral.IsReal.exists_real_of_readNumber ⟨c, htail, hmark⟩ hn
  obtain rfl : y = x := hx
  exact takes_of_taken_number hreal.avoids_isSpace h

end Formula.Json
