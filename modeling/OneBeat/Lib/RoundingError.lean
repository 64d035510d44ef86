import Mathlib.Algebra.Order.AbsoluteValue.Basic
import Mathlib.Algebra.Order.Field.Power
import Mathlib.Data.Nat.Log
import Mathlib.Tactic.FieldSimp
import Mathlib.Tactic.Ring
import OneBeat.Lib.BinaryFloat

/-!
# The error of a rounding

How far `BinaryFormat.round` is from the number it rounds.

* `BinaryFormat.abs_round_sub_le` : in the normal range the error is at most `2⁻ᵖ` of the number,
  `p` the precision of the format;
* `BinaryFormat.round_intCast` : integers of at most `p` bits are values of the format.
-/

namespace OneBeat

theorem twoPow_eq (e : ℤ) : twoPow e = (2 : ℚ) ^ e := by
  unfold twoPow
  split_ifs with h
  · obtain ⟨n, rfl⟩ := Int.eq_ofNat_of_zero_le h
    simp
  · obtain ⟨n, hn⟩ := Int.eq_ofNat_of_zero_le (show 0 ≤ -e by omega)
    obtain rfl : e = -n := by omega
    simp

theorem eq_natAbs_div_den {q : ℚ} (hq : 0 < q) : q = q.num.natAbs / q.den := by
  have habs : ((q.num.natAbs : ℕ) : ℤ) = q.num := Int.natAbs_of_nonneg (Rat.num_pos.2 hq).le
  rw [← Int.cast_natCast (R := ℚ), habs, Rat.num_div_den]

/-- The leading bit of a number does not exceed it. -/
theorem two_zpow_leadingExponent_le {q : ℚ} (hq : 0 < q) : (2 : ℚ) ^ leadingExponent q ≤ q := by
  have hnum : q.num.natAbs ≠ 0 := by simpa using hq.ne'
  have hn : ((2 ^ q.num.natAbs.log2 : ℕ) : ℚ) ≤ q.num.natAbs :=
    Nat.cast_le.2 (Nat.log2_self_le hnum)
  have hd : (q.den : ℚ) < ((2 ^ (q.den.log2 + 1) : ℕ) : ℚ) := Nat.cast_lt.2 Nat.lt_log2_self
  have hdpos : (0 : ℚ) < q.den := Nat.cast_pos.2 q.den_pos
  unfold leadingExponent
  simp only [twoPow_eq]
  split_ifs with h
  · have hsplit : (2 : ℚ) ^ ((q.num.natAbs.log2 : ℤ) - (q.den.log2 : ℤ) - 1) =
        ((2 ^ q.num.natAbs.log2 : ℕ) : ℚ) / ((2 ^ (q.den.log2 + 1) : ℕ) : ℚ) := by
      rw [sub_sub, zpow_sub₀ two_ne_zero]
      push_cast
      rw [zpow_natCast, zpow_add₀ two_ne_zero, zpow_natCast, zpow_one, pow_succ]
    rw [hsplit]
    calc ((2 ^ q.num.natAbs.log2 : ℕ) : ℚ) / ((2 ^ (q.den.log2 + 1) : ℕ) : ℚ)
        ≤ q.num.natAbs / q.den := div_le_div₀ (Nat.cast_nonneg _) hn hdpos hd.le
      _ = q := (eq_natAbs_div_den hq).symm
  · exact not_lt.1 h

/-- Rounding to an integer moves by at most a half. -/
theorem abs_roundHalfEven_sub_le (q : ℚ) : |(roundHalfEven q : ℚ) - q| ≤ 1 / 2 := by
  have h₁ := Int.floor_le q
  have h₂ := Int.lt_floor_add_one q
  unfold roundHalfEven
  simp only
  split_ifs with hlow hhigh heven <;> rw [abs_le] <;> push_cast <;> constructor <;> linarith

theorem roundHalfEven_intCast (n : ℤ) : roundHalfEven n = n := by
  simp [roundHalfEven]

namespace BinaryFormat

variable {f : BinaryFormat} {q : ℚ}

/-- In the normal range a rounding moves by at most half a unit in the last place. -/
theorem abs_round_sub_le (hnormal : (2 : ℚ) ^ (f.minExponent + f.precision) ≤ |q|) :
    |f.round q - q| ≤ |q| * (2 : ℚ) ^ (-f.precision : ℤ) := by
  have hpos : 0 < |q| := lt_of_lt_of_le (by positivity) hnormal
  have hq : q ≠ 0 := abs_pos.1 hpos
  set e := max (leadingExponent |q| - (f.precision - 1)) f.minExponent with he
  -- a unit in the last place is at most what the leading digit says, or the least there is
  have hunit : (2 : ℚ) ^ e ≤ 2 * (|q| * (2 : ℚ) ^ (-f.precision : ℤ)) := by
    rcases max_choice (leadingExponent |q| - ((f.precision : ℤ) - 1)) f.minExponent with h | h <;>
      rw [he, h]
    · rw [sub_sub_eq_add_sub, zpow_sub₀ two_ne_zero, zpow_add₀ two_ne_zero, zpow_neg, zpow_one,
        zpow_natCast]
      have hlead := two_zpow_leadingExponent_le hpos
      rw [div_eq_mul_inv]
      have hinv : (0 : ℚ) < ((2 : ℚ) ^ f.precision)⁻¹ := by positivity
      nlinarith
    · rw [zpow_add₀ two_ne_zero, zpow_natCast] at hnormal
      have hp : (0 : ℚ) < (2 : ℚ) ^ f.precision := by positivity
      have hle : (2 : ℚ) ^ f.minExponent ≤ |q| * ((2 : ℚ) ^ f.precision)⁻¹ := by
        rw [← div_eq_mul_inv, le_div_iff₀ hp]
        exact hnormal
      rw [zpow_neg, zpow_natCast]
      linarith [show (0 : ℚ) ≤ |q| * ((2 : ℚ) ^ f.precision)⁻¹ by positivity]
  have hround : f.round q = roundHalfEven (q / (2 : ℚ) ^ e) * (2 : ℚ) ^ e := by
    unfold round
    rw [if_neg hq, twoPow_eq]
  have hepos : (0 : ℚ) < (2 : ℚ) ^ e := by positivity
  calc |f.round q - q|
      = |(roundHalfEven (q / (2 : ℚ) ^ e) : ℚ) - q / (2 : ℚ) ^ e| * (2 : ℚ) ^ e := by
        rw [hround, ← abs_of_pos hepos, ← abs_mul, abs_of_pos hepos, sub_mul,
          div_mul_cancel₀ _ hepos.ne']
    _ ≤ 1 / 2 * (2 : ℚ) ^ e :=
        mul_le_mul_of_nonneg_right (abs_roundHalfEven_sub_le _) hepos.le
    _ ≤ |q| * (2 : ℚ) ^ (-f.precision : ℤ) := by linarith

/-- Integers of at most `precision` bits are values of the format. -/
theorem round_intCast (hmin : f.minExponent ≤ 0) {n : ℤ} (hn : |(n : ℚ)| < 2 ^ f.precision) :
    f.round n = n := by
  unfold round
  split_ifs with h0
  · exact h0.symm
  · have hpos : 0 < |(n : ℚ)| := abs_pos.2 h0
    have hlead := (two_zpow_leadingExponent_le hpos).trans_lt hn
    rw [← zpow_natCast, zpow_lt_zpow_iff_right₀ one_lt_two] at hlead
    set e := max (leadingExponent |(n : ℚ)| - (f.precision - 1)) f.minExponent with he
    have hneg : e ≤ 0 := max_le (by omega) hmin
    obtain ⟨k, hk⟩ := Int.eq_ofNat_of_zero_le (show 0 ≤ -e by omega)
    have hek : e = -k := by omega
    have hdiv : (n : ℚ) / twoPow e = ((n * 2 ^ k : ℤ) : ℚ) := by
      rw [twoPow_eq, hek, zpow_neg, zpow_natCast, div_inv_eq_mul]
      push_cast
      rfl
    change roundHalfEven ((n : ℚ) / twoPow e) * twoPow e = n
    rw [hdiv, roundHalfEven_intCast, ← hdiv, div_mul_cancel₀]
    rw [twoPow_eq]
    positivity

/-- A number below the overflow bound is rounded to a finite value. -/
theorem ofRat_eq_finite (h : |q| < f.overflow) : f.ofRat q = .finite (f.round q) := by
  rw [ofRat, if_neg (not_le.2 h)]

end BinaryFormat

end OneBeat
