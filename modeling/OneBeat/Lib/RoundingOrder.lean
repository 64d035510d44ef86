import OneBeat.Lib.RoundingError

/-!
# The order of roundings

`BinaryFormat.round` gives a value of the format, and never passes one.

* `BinaryFormat.representable_round` : what is rounded is a value of the format;
* `BinaryFormat.le_round` : a value of the format below a number is below what that is rounded to.
-/

namespace OneBeat

theorem lt_two_zpow_leadingExponent {q : ℚ} (hq : 0 < q) :
    q < (2 : ℚ) ^ (leadingExponent q + 1) := by
  have hn : (q.num.natAbs : ℚ) < ((2 ^ (q.num.natAbs.log2 + 1) : ℕ) : ℚ) :=
    Nat.cast_lt.2 Nat.lt_log2_self
  have hd : ((2 ^ q.den.log2 : ℕ) : ℚ) ≤ q.den := Nat.cast_le.2 (Nat.log2_self_le q.den_ne_zero)
  unfold leadingExponent
  simp only [twoPow_eq]
  split_ifs with h
  · rwa [sub_add_cancel]
  · have hsplit : (2 : ℚ) ^ ((q.num.natAbs.log2 : ℤ) - (q.den.log2 : ℤ) + 1) =
        ((2 ^ (q.num.natAbs.log2 + 1) : ℕ) : ℚ) / ((2 ^ q.den.log2 : ℕ) : ℚ) := by
      rw [sub_add_eq_add_sub, zpow_sub₀ two_ne_zero]
      push_cast
      rw [zpow_natCast, zpow_add₀ two_ne_zero, zpow_natCast, zpow_one, pow_succ]
    rw [hsplit]
    calc q = q.num.natAbs / q.den := eq_natAbs_div_den hq
      _ < ((2 ^ (q.num.natAbs.log2 + 1) : ℕ) : ℚ) / ((2 ^ q.den.log2 : ℕ) : ℚ) :=
        div_lt_div₀ hn hd (Nat.cast_nonneg _) (by positivity)

theorem le_roundHalfEven {n : ℤ} {q : ℚ} (h : (n : ℚ) ≤ q) : n ≤ roundHalfEven q := by
  have hfloor : n ≤ ⌊q⌋ := Int.le_floor.2 h
  unfold roundHalfEven
  simp only
  split_ifs <;> omega

theorem roundHalfEven_le {n : ℤ} {q : ℚ} (h : q ≤ (n : ℚ)) : roundHalfEven q ≤ n := by
  have hfloor : ⌊q⌋ ≤ n := by
    have := Int.floor_mono h
    rwa [Int.floor_intCast] at this
  rcases hfloor.lt_or_eq with hlt | heq
  · unfold roundHalfEven
    simp only
    split_ifs <;> omega
  · have hq : q = n := le_antisymm h (heq ▸ Int.floor_le q)
    rw [hq, roundHalfEven_intCast]

namespace BinaryFormat

variable {f : BinaryFormat} {x q : ℚ}

/-- A value of the format, its exponent unbounded above. -/
def Representable (f : BinaryFormat) (x : ℚ) : Prop :=
  ∃ n e : ℤ, f.minExponent ≤ e ∧ |n| ≤ 2 ^ f.precision ∧ x = n * (2 : ℚ) ^ e

theorem representable_zero : f.Representable 0 :=
  ⟨0, f.minExponent, le_rfl, by simp, by simp⟩

theorem round_eq (hq : q ≠ 0) : f.round q =
    roundHalfEven (q / (2 : ℚ) ^ max (leadingExponent |q| - (f.precision - 1)) f.minExponent) *
      (2 : ℚ) ^ max (leadingExponent |q| - (f.precision - 1)) f.minExponent := by
  unfold round
  rw [if_neg hq, twoPow_eq]

theorem representable_round : f.Representable (f.round q) := by
  by_cases hq : q = 0
  · rw [hq, round, if_pos rfl]
    exact representable_zero
  set e := max (leadingExponent |q| - (f.precision - 1)) f.minExponent with he
  have hepos : (0 : ℚ) < (2 : ℚ) ^ e := by positivity
  have hbound : |q / (2 : ℚ) ^ e| ≤ ((2 ^ f.precision : ℤ) : ℚ) := by
    have hlead := lt_two_zpow_leadingExponent (abs_pos.2 hq)
    have hexp : (2 : ℚ) ^ (leadingExponent |q| + 1) ≤ (2 : ℚ) ^ ((f.precision : ℤ) + e) :=
      zpow_le_zpow_right₀ one_le_two (by omega)
    rw [zpow_add₀ two_ne_zero (f.precision : ℤ), zpow_natCast] at hexp
    rw [abs_div, abs_of_pos hepos, div_le_iff₀ hepos]
    push_cast
    linarith
  refine ⟨roundHalfEven (q / (2 : ℚ) ^ e), e, le_max_right _ _, ?_, round_eq hq⟩
  obtain ⟨hlow, hhigh⟩ := abs_le.1 hbound
  refine abs_le.2 ⟨le_roundHalfEven ?_, roundHalfEven_le hhigh⟩
  push_cast at hlow ⊢
  exact hlow

/-- Rounding does not go below a value of the format that the number is above. -/
theorem le_round (hprecision : 0 < f.precision) (hx : f.Representable x) (h0 : 0 ≤ x)
    (hxq : x ≤ q) : x ≤ f.round q := by
  by_cases hq : q = 0
  · rw [hq, round, if_pos rfl]
    exact hq ▸ hxq
  have hqpos : 0 < q := lt_of_le_of_ne (h0.trans hxq) (Ne.symm hq)
  rw [round_eq hq, abs_of_pos hqpos]
  set e := max (leadingExponent q - (f.precision - 1)) f.minExponent with he
  have hepos : (0 : ℚ) < (2 : ℚ) ^ e := by positivity
  -- a whole number of units lies between the two
  suffices hwhole : ∃ m : ℤ, x ≤ m * (2 : ℚ) ^ e ∧ m * (2 : ℚ) ^ e ≤ q by
    obtain ⟨m, hxm, hmq⟩ := hwhole
    have hle := le_roundHalfEven ((le_div_iff₀ hepos).2 hmq)
    exact hxm.trans (mul_le_mul_of_nonneg_right (Int.cast_le.2 hle) hepos.le)
  obtain ⟨n, e', hmin, hn, rfl⟩ := hx
  by_cases hfine : e ≤ e'
  · obtain ⟨k, hk⟩ := Int.eq_ofNat_of_zero_le (show 0 ≤ e' - e by omega)
    have hscale : (n : ℚ) * (2 : ℚ) ^ e' = ((n * 2 ^ k : ℤ) : ℚ) * (2 : ℚ) ^ e := by
      rw [show e' = k + e by omega, zpow_add₀ two_ne_zero, zpow_natCast]
      push_cast
      ring
    exact ⟨n * 2 ^ k, hscale.le, hscale ▸ hxq⟩
  · -- the number has a longer unit, and then its leading bit is above the value
    have hlead : leadingExponent q = e + ((f.precision - 1 : ℕ) : ℤ) := by omega
    have hpow : (2 : ℚ) ^ leadingExponent q = ((2 ^ (f.precision - 1) : ℤ) : ℚ) * (2 : ℚ) ^ e := by
      rw [hlead, zpow_add₀ two_ne_zero, zpow_natCast]
      push_cast
      ring
    refine ⟨2 ^ (f.precision - 1), ?_, hpow ▸ two_zpow_leadingExponent_le hqpos⟩
    have hn : (n : ℚ) ≤ (2 : ℚ) ^ f.precision := by
      exact_mod_cast (le_abs_self n).trans hn
    calc (n : ℚ) * (2 : ℚ) ^ e'
        ≤ (2 : ℚ) ^ f.precision * (2 : ℚ) ^ (e - 1) :=
          mul_le_mul hn (zpow_le_zpow_right₀ one_le_two (by omega)) (by positivity) (by positivity)
      _ = (2 : ℚ) ^ leadingExponent q := by
          rw [hlead, ← zpow_natCast, ← zpow_add₀ two_ne_zero]
          congr 1
          omega
      _ = ((2 ^ (f.precision - 1) : ℤ) : ℚ) * (2 : ℚ) ^ e := hpow

end BinaryFormat

end OneBeat
