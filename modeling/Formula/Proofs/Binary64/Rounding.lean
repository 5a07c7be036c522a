import Formula.Proofs.Binary64.Bits

/-! # Rounding to a number

`lastPlace` finds the binary logarithm of a rational from those of its numerator and denominator,
and so each magnitude is rounded to itself (`nearestBits_value`). -/

namespace Formula.Binary64

variable {v : Rat} {bits : Nat}

theorem scaled_eq {b : Nat} (hb : 0 < b) (m : Nat) (q : Int) : scaled m b q = m * (b : ℚ) ^ q := by
  unfold scaled
  rw [Rat.mkRat_eq_div]
  have hb' : (b : ℚ) ≠ 0 := by positivity
  rcases Int.le_total 0 q with hq | hq
  · obtain ⟨n, rfl⟩ := Int.eq_ofNat_of_zero_le hq
    simp
  · obtain ⟨n, hn⟩ := Int.eq_ofNat_of_zero_le (Int.neg_nonneg_of_nonpos hq)
    obtain rfl : q = -n := by omega
    simp [div_eq_mul_inv]

/-! ## The last place -/

theorem eq_natAbs_div_den (hv : 0 < v) : v = (v.num.natAbs : ℚ) / (v.den : ℚ) := by
  have hnum : ((v.num.natAbs : Int) : ℚ) = v.num := by
    rw [Int.natAbs_of_nonneg (Rat.num_nonneg.mpr hv.le)]
  rw [← Int.cast_natCast v.num.natAbs, hnum, Rat.num_div_den]

theorem two_zpow_log2_le {n : Nat} (hn : n ≠ 0) :
    (2 : ℚ) ^ (Nat.log2 n : Int) ≤ n ∧ (n : ℚ) < 2 ^ ((Nat.log2 n : Int) + 1) := by
  have hle := Nat.log2_self_le hn
  have hlt := Nat.lt_log2_self (n := n)
  refine ⟨?_, ?_⟩
  · rw [zpow_natCast]
    exact_mod_cast hle
  · rw [← Nat.cast_succ, zpow_natCast]
    exact_mod_cast hlt

/-- The logarithms of numerator and denominator leave two exponents. -/
theorem two_zpow_le_div {n d : Nat} (hn : n ≠ 0) (hd : d ≠ 0) :
    (2 : ℚ) ^ ((Nat.log2 n : Int) - Nat.log2 d - 1) ≤ n / d ∧
      (n / d : ℚ) < 2 ^ ((Nat.log2 n : Int) - Nat.log2 d + 1) := by
  obtain ⟨hn₁, hn₂⟩ := two_zpow_log2_le hn
  obtain ⟨hd₁, hd₂⟩ := two_zpow_log2_le hd
  have hd' : (0 : ℚ) < d := by exact_mod_cast Nat.pos_of_ne_zero hd
  rw [le_div_iff₀ hd', div_lt_iff₀ hd']
  generalize Nat.log2 n = a at *
  generalize Nat.log2 d = b at *
  refine ⟨?_, ?_⟩
  · calc (2 : ℚ) ^ ((a : Int) - b - 1) * d
        ≤ 2 ^ ((a : Int) - b - 1) * 2 ^ ((b : Int) + 1) := by gcongr
      _ = 2 ^ (a : Int) := by rw [← zpow_add₀ two_ne_zero]; congr 1; omega
      _ ≤ n := hn₁
  · calc (n : ℚ)
        < 2 ^ ((a : Int) + 1) := hn₂
      _ = 2 ^ ((a : Int) - b + 1) * 2 ^ (b : Int) := by rw [← zpow_add₀ two_ne_zero]; congr 1; omega
      _ ≤ 2 ^ ((a : Int) - b + 1) * d := by gcongr

theorem two_zpow_mul_pow (e : Int) : (2 : ℚ) ^ e * 2 ^ (-e).toNat = 2 ^ e.toNat := by
  rw [← zpow_natCast, ← zpow_natCast, ← zpow_add₀ two_ne_zero]
  congr 1
  omega

/-- Two products tell which of them it is. -/
theorem two_zpow_le_div_iff {n d : Nat} (hd : d ≠ 0) (e : Int) :
    d * Nat.pow 2 e.toNat ≤ n * Nat.pow 2 (-e).toNat ↔ (2 : ℚ) ^ e ≤ n / d := by
  have hd' : (0 : ℚ) < d := by exact_mod_cast Nat.pos_of_ne_zero hd
  have hpos : (0 : ℚ) < 2 ^ (-e).toNat := by positivity
  calc d * Nat.pow 2 e.toNat ≤ n * Nat.pow 2 (-e).toNat
      ↔ (d : ℚ) * 2 ^ e.toNat ≤ n * 2 ^ (-e).toNat := by
        simp only [Nat.pow_eq]
        exact_mod_cast Iff.rfl
    _ ↔ (2 : ℚ) ^ e ≤ n / d := by
        rw [← two_zpow_mul_pow, ← mul_assoc, mul_le_mul_iff_of_pos_right hpos, le_div_iff₀ hd',
          mul_comm]

/-- The last place is told by the binary logarithm. -/
theorem lastPlace_eq (hv : 0 < v) : lastPlace v = max (Int.log 2 v - 52) (-1074) := by
  have hnum : v.num.natAbs ≠ 0 := Int.natAbs_ne_zero.mpr (Rat.num_pos.mpr hv).ne'
  obtain ⟨hle, hlt⟩ := two_zpow_le_div hnum v.den_pos.ne'
  have hreached := two_zpow_le_div_iff (n := v.num.natAbs) v.den_pos.ne'
    ((Nat.log2 v.num.natAbs : Int) - Nat.log2 v.den)
  rw [← eq_natAbs_div_den hv] at hle hlt hreached
  unfold lastPlace
  dsimp only
  generalize (Nat.log2 v.num.natAbs : Int) - Nat.log2 v.den = e at *
  have hlog₁ : e - 1 ≤ Int.log 2 v :=
    (Int.zpow_le_iff_le_log one_lt_two hv).mp (by exact_mod_cast hle)
  have hlog₂ : Int.log 2 v < e + 1 :=
    (Int.lt_zpow_iff_log_lt one_lt_two hv).mp (by exact_mod_cast hlt)
  have hlog : (2 : ℚ) ^ e ≤ v ↔ e ≤ Int.log 2 v := by
    rw [← Int.zpow_le_iff_le_log one_lt_two hv, Nat.cast_two]
  rw [hlog] at hreached
  simp only [decide_eq_true_eq]
  split
  · rename_i h
    have := hreached.mp h
    omega
  · rename_i h
    have := mt hreached.mpr h
    omega

/-- What lies beyond the largest number is rounded to infinity. -/
theorem nearestBits_le (v : Rat) : nearestBits v ≤ infinityBits := by
  unfold nearestBits
  split
  · exact Nat.zero_le _
  · exact Nat.min_le_right _ _

/-! ## Numbers are rounded to themselves -/

theorem roundDiv_mul (m : Nat) {d : Nat} (hd : 0 < d) : roundDiv (m * d) d = m := by
  simp [roundDiv, Nat.mul_div_cancel m hd, hd]

/-- The magnitude that bits stand for. -/
def value (bits : Nat) : Rat := scaled (components bits).1 2 (components bits).2

theorem value_eq (bits : Nat) : value bits = (components bits).1 * (2 : ℚ) ^ (components bits).2 :=
  scaled_eq two_pos _ _

/-- The significand is below `2 ^ 53`, and the exponent is the smallest one that there is or the
significand has its leading bit. -/
structure IsComponents (bits m : Nat) (q : Int) : Prop where
  lt : m < 2 ^ 53
  le : -1074 ≤ q
  normal : q = -1074 ∨ 2 ^ 52 ≤ m
  bits_eq : (q + 1074).toNat * leadingBit + m = bits

theorem isComponents (bits : Nat) : IsComponents bits (components bits).1 (components bits).2 := by
  unfold components
  rw [leadingBit_eq]
  dsimp only
  split
  · exact ⟨by omega, Int.le_refl _, .inl rfl, by rw [leadingBit_eq]; simp; omega⟩
  · exact ⟨by omega, by omega, .inr (by omega), by rw [leadingBit_eq]; omega⟩

theorem IsComponents.pos {m : Nat} {q : Int} (h : IsComponents bits m q) (hbits : bits ≠ 0) :
    0 < m := by
  have := h.bits_eq
  rcases h.normal with rfl | hm
  · simp only [Int.add_left_neg, Int.toNat_zero] at this
    omega
  · omega

/-- The last place of a number is the one in which its significand is counted. -/
theorem lastPlace_value (hbits : bits ≠ 0) : lastPlace (value bits) = (components bits).2 := by
  have hcomponents := isComponents bits
  have hm := hcomponents.pos hbits
  have hv : 0 < value bits := by
    rw [value_eq]
    positivity
  have hlog₁ : ∀ j : Nat, 2 ^ j ≤ (components bits).1 →
      j + (components bits).2 ≤ Int.log 2 (value bits) := by
    intro j hj
    rw [← Int.zpow_le_iff_le_log one_lt_two hv, value_eq, Nat.cast_two, zpow_add₀ two_ne_zero,
      zpow_natCast]
    gcongr
    exact_mod_cast hj
  have hlog₂ : Int.log 2 (value bits) < (53 : Nat) + (components bits).2 := by
    rw [← Int.lt_zpow_iff_log_lt one_lt_two hv, value_eq, Nat.cast_two, zpow_add₀ two_ne_zero,
      zpow_natCast]
    gcongr
    exact_mod_cast hcomponents.lt
  rw [lastPlace_eq hv]
  have := hcomponents.le
  rcases hcomponents.normal with hq | hleading
  · omega
  · have := hlog₁ 52 hleading
    omega

/-- The scaled value is the significand itself. -/
theorem scaled_num_eq {m : Nat} {q : Int} (hv : v = m * (2 : ℚ) ^ q) (hpos : 0 < v) :
    v.num.natAbs * Nat.pow 2 (-q).toNat = m * (v.den * Nat.pow 2 q.toNat) := by
  have hden : (v.den : ℚ) ≠ 0 := by exact_mod_cast v.den_pos.ne'
  have hnum : (v.num.natAbs : ℚ) = m * 2 ^ q * v.den := by
    rw [← hv, ← div_eq_iff hden]
    exact (eq_natAbs_div_den hpos).symm
  have hcast : (v.num.natAbs : ℚ) * 2 ^ (-q).toNat = m * (v.den * 2 ^ q.toNat) := by
    rw [hnum, ← two_zpow_mul_pow q]
    ring
  simp only [Nat.pow_eq]
  exact_mod_cast hcast

/-- **A number is rounded to itself.** -/
theorem nearestBits_value (h : bits < infinityBits) : nearestBits (value bits) = bits := by
  have hcomponents := isComponents bits
  by_cases hbits : bits = 0
  · subst hbits
    decide +kernel
  · have hm := hcomponents.pos hbits
    have hv : 0 < value bits := by
      rw [value_eq]
      positivity
    unfold nearestBits
    rw [if_neg hv.ne']
    dsimp only
    rw [lastPlace_value hbits, scaled_num_eq (value_eq bits) hv, roundDiv_mul, hcomponents.bits_eq,
      Nat.min_eq_left h.le]
    exact Nat.mul_pos (value bits).den_pos (Nat.two_pow_pos _)

end Formula.Binary64
