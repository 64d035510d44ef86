import Mathlib.Algebra.Order.Ring.Nat
import Mathlib.Data.Nat.Digits.Defs
import Mathlib.Tactic.Ring

/-!
# Words in bytes

A word is stored as bytes in either order.

* `readLittle_littleEndian`, `readBig_bigEndian` : the bytes give the word back, up to their width.
-/

namespace OneBeat.ByteOrder

variable {w : ℕ}

/-- The bytes of a word, the least significant first. -/
def littleEndian (value : BitVec w) (width : ℕ) : List (BitVec 8) :=
  (List.range width).map fun index => ((value >>> (8 * index)) &&& 0xFF).setWidth 8

/-- The bytes of a word, the most significant first. -/
def bigEndian (value : BitVec w) (width : ℕ) : List (BitVec 8) :=
  (List.range width).reverse.map fun index => ((value >>> (8 * index)) &&& 0xFF).setWidth 8

def readLittle (bytes : List (BitVec 8)) : ℕ := Nat.ofDigits 256 (bytes.map BitVec.toNat)

def readBig (bytes : List (BitVec 8)) : ℕ := readLittle bytes.reverse

@[simp] theorem length_littleEndian (value : BitVec w) (width : ℕ) :
    (littleEndian value width).length = width := by
  simp [littleEndian]

@[simp] theorem length_bigEndian (value : BitVec w) (width : ℕ) :
    (bigEndian value width).length = width := by
  simp [bigEndian]

theorem bigEndian_succ (value : BitVec w) (width : ℕ) : bigEndian value (width + 1) =
    ((value >>> (8 * width)) &&& 0xFF).setWidth 8 :: bigEndian value width := by
  rw [bigEndian, List.range_succ, List.reverse_append, List.reverse_singleton,
    List.singleton_append, List.map_cons, bigEndian]

theorem ofDigits_range (value width : ℕ) :
    Nat.ofDigits 256 ((List.range width).map fun index => value / 256 ^ index % 256) =
      value % 256 ^ width := by
  induction width generalizing value with
  | zero => simp [Nat.mod_one]
  | succ width ih =>
    have hshift : (List.map (fun index => value / 256 ^ index % 256)
        (List.map Nat.succ (List.range width))) =
        (List.range width).map fun index => value / 256 / 256 ^ index % 256 := by
      rw [List.map_map]
      refine List.map_congr_left fun index _ => ?_
      rw [Function.comp_apply, Nat.succ_eq_add_one, pow_succ', Nat.div_div_eq_div_mul]
    rw [List.range_succ_eq_map, List.map_cons, Nat.ofDigits_cons, hshift, ih, pow_zero, Nat.div_one,
      pow_succ', Nat.mod_mul]

/-- A byte of a word, as a number. -/
theorem toNat_byte (hwidth : 8 ≤ w) (value : BitVec w) (index : ℕ) :
    (((value >>> (8 * index)) &&& 0xFF).setWidth 8).toNat = value.toNat / 256 ^ index % 256 := by
  have hmask : (0xFF : BitVec w).toNat = 2 ^ 8 - 1 := by
    have hle : 2 ^ 8 ≤ 2 ^ w := Nat.pow_le_pow_right (by decide) hwidth
    have hlt : 255 < 2 ^ w := by omega
    exact Nat.mod_eq_of_lt hlt
  rw [BitVec.toNat_setWidth, BitVec.toNat_and, BitVec.toNat_ushiftRight, hmask,
    Nat.and_two_pow_sub_one_eq_mod, Nat.mod_mod, Nat.shiftRight_eq_div_pow, pow_mul]
  norm_num

/-- Reading the bytes gives the word back, up to their width. -/
theorem readLittle_littleEndian (hwidth : 8 ≤ w) (value : BitVec w) (width : ℕ) :
    readLittle (littleEndian value width) = value.toNat % 256 ^ width := by
  rw [readLittle, littleEndian, List.map_map, ← ofDigits_range]
  congr 1
  exact List.map_congr_left fun index _ => toNat_byte hwidth value index

theorem reverse_bigEndian (value : BitVec w) (width : ℕ) :
    (bigEndian value width).reverse = littleEndian value width := by
  rw [bigEndian, ← List.map_reverse, List.reverse_reverse, littleEndian]

theorem readBig_bigEndian (hwidth : 8 ≤ w) (value : BitVec w) (width : ℕ) :
    readBig (bigEndian value width) = value.toNat % 256 ^ width := by
  rw [readBig, reverse_bigEndian, readLittle_littleEndian hwidth]

end OneBeat.ByteOrder
