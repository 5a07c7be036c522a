import Formula.Decimal.Text
import Formula.Proofs.Binary64.Rounding

/-! # The text of a number reads back

Whatever grid the search for the shortest decimal stops at, the decimal that it returns has been
read back (`nearestBits_shortest`). Positional notation writes the digits of a decimal before and after
the point, and these denote it (`exists_written_eq_plain`). So the text of a finite number consists
of digits that stand for it. -/

namespace Formula

namespace Decimal

variable {bits : Nat} {v : Rat} {tie : Tie} {d : Decimal}

theorem value_eq (d : Decimal) : d.value = d.coefficient * (10 : ℚ) ^ d.exponent :=
  Binary64.scaled_eq (by decide) _ _

/-! ## The shortest decimal -/

/-- A power of two is a power of ten times one of five. -/
theorem value_exact (bits : Nat) : (exact bits).value = Binary64.value bits := by
  rw [value_eq, Binary64.value_eq]
  unfold exact
  generalize Binary64.components bits = c
  obtain ⟨m, q⟩ := c
  dsimp only
  split
  · rename_i hq
    obtain ⟨n, rfl⟩ := Int.eq_ofNat_of_zero_le hq
    simp
  · rename_i hq
    obtain ⟨n, hn⟩ := Int.eq_ofNat_of_zero_le (Int.neg_nonneg_of_nonpos (Int.le_of_not_le hq))
    obtain rfl : q = -n := by omega
    have hten : (10 : ℚ) ^ n = 5 ^ n * 2 ^ n := by rw [← mul_pow]; norm_num
    simp only [Int.neg_neg, Int.toNat_natCast, Nat.pow_eq, Nat.cast_mul, Nat.cast_pow, zpow_neg,
      zpow_natCast, hten]
    push_cast
    field_simp

theorem nearestBits_nearer {low high : Decimal} (hlow : Binary64.nearestBits low.value = bits)
    (hhigh : Binary64.nearestBits high.value = bits) :
    Binary64.nearestBits (nearer tie v low high).value = bits := by
  unfold nearer
  dsimp only
  split
  · exact hlow
  · split
    · exact hhigh
    · split
      · exact hhigh
      · split <;> assumption

theorem nearestBits_of_onGrid? {k : Int} (h : onGrid? tie bits v k = some d) :
    Binary64.nearestBits d.value = bits := by
  unfold onGrid? at h
  dsimp only at h
  split at h
  · rename_i hlow hhigh
    cases h
    exact nearestBits_nearer (of_decide_eq_true hlow) (of_decide_eq_true hhigh)
  · rename_i hlow hhigh
    cases h
    exact of_decide_eq_true hlow
  · rename_i hlow hhigh
    cases h
    exact of_decide_eq_true hhigh
  · cases h

theorem nearestBits_search (h : bits < Binary64.infinityBits) (grids : Nat) (k : Int) :
    Binary64.nearestBits (search tie bits v grids k).value = bits := by
  induction grids generalizing k with
  | zero => rw [search, value_exact, Binary64.nearestBits_value h]
  | succ grids ih =>
    rw [search]
    cases hgrid : onGrid? tie bits v k with
    | none => exact ih (k - 1)
    | some d => exact nearestBits_of_onGrid? hgrid

/-- **The shortest decimal reads back.** -/
theorem nearestBits_shortest {x : Float} (h : x.isFinite = true) :
    Binary64.nearestBits (shortest tie x).value = Binary64.magnitudeBits x := by
  have hlt := (Binary64.isFinite_eq_true_iff x).mp h
  unfold shortest
  dsimp only
  split
  · rename_i hzero
    rw [hzero]
    decide +kernel
  · exact nearestBits_search hlt _ _

/-! ## Positional notation -/

/-- The digits of a number before and after its point. A point is not needed. -/
structure IsNumeral (whole fraction : List Char) : Prop where
  ne_nil : whole ≠ []
  digits : ∀ c ∈ whole ++ fraction, c.isDigit = true

/-- A point and the digits after it, if there are any. -/
def pointed (fraction : List Char) : List Char := if fraction.isEmpty then [] else '.' :: fraction

/-- A number with the given digits before and after its point. -/
def written (whole fraction : List Char) : List Char := whole ++ pointed fraction

theorem isDigit_digits {n : Nat} {c : Char} (h : c ∈ Nat.toDigits 10 n) : c.isDigit = true :=
  Nat.isDigit_of_mem_toDigits (by decide) (by decide) h

theorem isDigit_of_mem_zeros {n : Nat} {c : Char} (h : c ∈ List.replicate n '0') :
    c.isDigit = true := by
  rw [List.eq_of_mem_replicate h]
  rfl

/-- A point with the given number of places after it, and zeros in front if they are needed. -/
theorem exists_written_of_places (d : Decimal) (places : Nat) (hpos : 0 < places)
    (hplaces : d.exponent = -(places : Int)) :
    let padded := List.replicate (places + 1 - d.digits.length) '0' ++ d.digits
    ∃ whole fraction, IsNumeral whole fraction ∧ ofDigits whole fraction = d ∧
      padded.take (padded.length - places) ++ '.' :: padded.drop (padded.length - places)
        = written whole fraction := by
  intro padded
  have hlength : places < padded.length := by
    simp only [padded, List.length_append, List.length_replicate]
    omega
  have hfraction : (padded.drop (padded.length - places)).length = places := by
    rw [List.length_drop]
    omega
  refine ⟨padded.take (padded.length - places), padded.drop (padded.length - places), ⟨?_, ?_⟩, ?_,
    ?_⟩
  · refine List.ne_nil_of_length_pos ?_
    rw [List.length_take]
    omega
  · rw [List.take_append_drop]
    intro c hc
    rcases List.mem_append.mp hc with hc | hc
    · exact isDigit_of_mem_zeros hc
    · exact isDigit_digits hc
  · unfold ofDigits
    rw [List.take_append_drop, hfraction, ← hplaces, Nat.ofDigitChars_append,
      Nat.ofDigitChars_replicate_zero, Nat.mul_zero, digits, Nat.ofDigitChars_ten_toDigits]
  · rw [written, pointed, if_neg]
    rw [List.isEmpty_iff_length_eq_zero, hfraction]
    omega

/-- **Positional notation denotes the decimal.** -/
theorem exists_written_eq_plain (d : Decimal) :
    ∃ whole fraction, IsNumeral whole fraction ∧ (ofDigits whole fraction).value = d.value ∧
      d.plain = written whole fraction := by
  unfold plain
  split
  · rename_i hexponent
    split
    · rename_i hzero
      refine ⟨['0'], [], ⟨by decide, List.all_eq_true.mp rfl⟩, ?_, rfl⟩
      simp [value_eq, ofDigits, hzero, Nat.ofDigitChars]
    · obtain ⟨n, hn⟩ := Int.eq_ofNat_of_zero_le hexponent
      refine ⟨d.digits ++ List.replicate n '0', [], ⟨?_, ?_⟩, ?_,
        by simp [hn, written, pointed]⟩
      · simp [digits]
      · intro c hc
        rw [List.append_nil] at hc
        rcases List.mem_append.mp hc with hc | hc
        · exact isDigit_digits hc
        · exact isDigit_of_mem_zeros hc
      · simp [value_eq, ofDigits, digits, hn, Nat.ofDigitChars_append, mul_comm]
  · rename_i hexponent
    obtain ⟨n, hn⟩ :=
      Int.eq_ofNat_of_zero_le (Int.neg_nonneg_of_nonpos (Int.le_of_not_le hexponent))
    rw [hn]
    obtain ⟨whole, fraction, hnumeral, hd, htext⟩ :=
      exists_written_of_places d n (by omega) (by omega)
    exact ⟨whole, fraction, hnumeral, by rw [hd], htext⟩

end Decimal

/-! ## Numbers -/

open Binary64

/-- **A finite number without a sign is written with digits that denote it.** -/
theorem exists_written_eq_showNumber {bits : Nat} (h : bits < infinityBits) :
    ∃ whole fraction, Decimal.IsNumeral whole fraction ∧
      (Decimal.ofDigits whole fraction).toFloat = ofMagnitudeBits bits ∧
      (showNumber (ofMagnitudeBits bits)).toList = Decimal.written whole fraction := by
  have hbits : magnitudeBits (ofMagnitudeBits bits) = bits := magnitudeBits_ofMagnitudeBits h.le
  have hfinite : (ofMagnitudeBits bits).isFinite = true := by
    rw [isFinite_eq_true_iff, hbits]
    exact h
  have hnan : ¬ (ofMagnitudeBits bits).isNaN = true := by
    rw [isNaN_eq_true_iff, hbits]
    omega
  have hinf : ¬ (ofMagnitudeBits bits).isInf = true := by
    rw [isInf_eq_true_iff, hbits]
    omega
  obtain ⟨whole, fraction, hnumeral, hvalue, htext⟩ :=
    Decimal.exists_written_eq_plain (Decimal.shortest .up (ofMagnitudeBits bits))
  refine ⟨whole, fraction, hnumeral, ?_, ?_⟩
  · rw [Decimal.toFloat, hvalue, nearest, Decimal.nearestBits_shortest hfinite, hbits]
  · rw [showNumber, if_neg hnan, if_neg hinf, isNegative_ofMagnitudeBits h.le, htext]
    simp

end Formula
