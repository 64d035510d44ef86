import Mathlib.Algebra.Order.Ring.Nat
import Mathlib.Data.List.Induction
import Mathlib.Data.List.Lex
import Mathlib.Tactic.Ring

/-!
# Numerals of a fixed length

The digits of a number in some base, a given count of them and the most significant first, and the
number that digits stand for.

* `readNumeral_numeral` : what is read back is the number, up to what the places cannot hold.
* `numeral_readNumeral` : digits are written back as they were.
* `numeral_lt_numeral` : numerals compare as the numbers do.
-/

namespace OneBeat

/-- The last `places` digits of a number. -/
def numeral (base : ℕ) : ℕ → ℕ → List ℕ
  | 0, _ => []
  | places + 1, value => value / base ^ places % base :: numeral base places value

/-- Read digits after those that stand for `value`. -/
def readNumeral (base value : ℕ) (digits : List ℕ) : ℕ :=
  digits.foldl (fun value digit => value * base + digit) value

variable {base places value : ℕ} {digits : List ℕ}

@[simp] theorem length_numeral : (numeral base places value).length = places := by
  induction places with
  | zero => rfl
  | succ places ih => rw [numeral, List.length_cons, ih]

theorem numeral_eq_map (base places value : ℕ) : numeral base places value =
    (List.range places).map fun i => value / base ^ (places - 1 - i) % base := by
  induction places with
  | zero => rfl
  | succ places ih =>
    rw [numeral, ih, List.range_succ_eq_map, List.map_cons, List.map_map]
    refine congrArg₂ List.cons ?_ (List.map_congr_left fun i _ => ?_)
    · rw [Nat.add_sub_cancel, Nat.sub_zero]
    · rw [Function.comp_apply, Nat.add_sub_cancel, Nat.succ_eq_add_one, Nat.sub_sub, Nat.add_comm]

theorem lt_of_mem_numeral (hbase : 0 < base) {digit : ℕ}
    (h : digit ∈ numeral base places value) : digit < base := by
  rw [numeral_eq_map] at h
  obtain ⟨i, -, rfl⟩ := List.mem_map.1 h
  exact Nat.mod_lt _ hbase

/-- Digits to the left are not written. -/
theorem numeral_add (base places value more : ℕ) :
    numeral base places (value + base ^ places * more) = numeral base places value := by
  induction places generalizing more with
  | zero => rfl
  | succ places ih =>
    have hsplit : base ^ (places + 1) * more = base ^ places * (base * more) := by ring
    rw [numeral, numeral, hsplit, ih]
    refine congrArg (· :: _) ?_
    rcases Nat.eq_zero_or_pos base with rfl | hbase
    · rw [Nat.zero_mul, Nat.mul_zero, Nat.add_zero]
    · rw [Nat.add_mul_div_left _ _ (Nat.pow_pos hbase), Nat.add_mul_mod_self_left]

theorem numeral_mod (base places value : ℕ) :
    numeral base places (value % base ^ places) = numeral base places value := by
  rw [← numeral_add base places (value % base ^ places) (value / base ^ places),
    Nat.mod_add_div]

/-- **What is read back is the number**, up to what the places cannot hold. -/
theorem readNumeral_numeral (base start places value : ℕ) :
    readNumeral base start (numeral base places value) =
      start * base ^ places + value % base ^ places := by
  induction places generalizing start with
  | zero => rw [Nat.pow_zero, Nat.mul_one, Nat.mod_one]; rfl
  | succ places ih =>
    rw [numeral, readNumeral, List.foldl_cons, ← readNumeral, ih, Nat.pow_succ, Nat.mod_mul]
    ring

theorem readNumeral_append (value : ℕ) (digits digits' : List ℕ) :
    readNumeral base value (digits ++ digits') =
      readNumeral base (readNumeral base value digits) digits' := List.foldl_append

theorem readNumeral_eq (value : ℕ) (digits : List ℕ) :
    readNumeral base value digits =
      value * base ^ digits.length + readNumeral base 0 digits := by
  induction digits using List.reverseRecOn with
  | nil => simp [readNumeral]
  | append_singleton digits digit ih =>
    rw [readNumeral_append, readNumeral_append, ih, List.length_append, List.length_singleton,
      Nat.pow_succ]
    simp only [readNumeral, List.foldl_cons, List.foldl_nil]
    ring

theorem readNumeral_lt (hdigits : ∀ digit ∈ digits, digit < base) :
    readNumeral base 0 digits < base ^ digits.length := by
  induction digits using List.reverseRecOn with
  | nil => exact Nat.one_pos
  | append_singleton digits digit ih =>
    rw [List.forall_mem_append, List.forall_mem_singleton] at hdigits
    have hlt := ih hdigits.1
    rw [readNumeral_append, List.length_append, List.length_singleton, Nat.pow_succ]
    calc readNumeral base (readNumeral base 0 digits) [digit]
        = readNumeral base 0 digits * base + digit := rfl
      _ < (readNumeral base 0 digits + 1) * base := by
        rw [Nat.add_mul, Nat.one_mul]
        exact Nat.add_lt_add_left hdigits.2 _
      _ ≤ base ^ digits.length * base := Nat.mul_le_mul_right _ hlt

/-- **Digits are written back as they were.** -/
theorem numeral_readNumeral (hdigits : ∀ digit ∈ digits, digit < base) (start : ℕ) :
    numeral base digits.length (readNumeral base start digits) = digits := by
  induction digits generalizing start with
  | nil => rfl
  | cons digit digits ih =>
    rw [List.forall_mem_cons] at hdigits
    rw [List.length_cons, numeral]
    refine congrArg₂ List.cons ?_ ?_
    · have hpos : 0 < base ^ digits.length :=
        Nat.pow_pos (Nat.zero_lt_of_lt hdigits.1)
      rw [readNumeral, List.foldl_cons, ← readNumeral, readNumeral_eq, Nat.mul_comm,
        Nat.mul_add_div hpos, Nat.div_eq_of_lt (readNumeral_lt hdigits.2), Nat.add_zero,
        Nat.add_comm, Nat.add_mul_mod_self_right, Nat.mod_eq_of_lt hdigits.1]
    · rw [readNumeral, List.foldl_cons, ← readNumeral]
      exact ih hdigits.2 _

/-- **Numerals compare as the numbers do.** -/
theorem numeral_lt_numeral {value' : ℕ} (h : value < base ^ places) (h' : value' < base ^ places) :
    numeral base places value < numeral base places value' ↔ value < value' := by
  induction places generalizing value value' with
  | zero =>
    rw [Nat.pow_zero, Nat.lt_one_iff] at h h'
    rw [h, h']
    exact iff_of_false (List.lt_irrefl _) (Nat.lt_irrefl 0)
  | succ places ih =>
    rcases Nat.eq_zero_or_pos base with rfl | hbase
    · rw [Nat.zero_pow (Nat.succ_pos places)] at h
      cases h
    have hpos : 0 < base ^ places := Nat.pow_pos hbase
    rw [Nat.pow_succ] at h h'
    have htop : value / base ^ places < base := Nat.div_lt_of_lt_mul h
    have htop' : value' / base ^ places < base := Nat.div_lt_of_lt_mul h'
    rw [numeral, numeral, List.cons_lt_cons_iff, Nat.mod_eq_of_lt htop, Nat.mod_eq_of_lt htop',
      ← numeral_mod base places value, ← numeral_mod base places value',
      ih (Nat.mod_lt _ hpos) (Nat.mod_lt _ hpos)]
    have hsplit := Nat.div_add_mod value (base ^ places)
    have hsplit' := Nat.div_add_mod value' (base ^ places)
    have hlow := Nat.mod_lt value hpos
    have hlow' := Nat.mod_lt value' hpos
    constructor
    · rintro (hlt | ⟨heq, hlt⟩)
      · -- the next multiple is not beyond the other number
        have hmul : base ^ places * (value / base ^ places + 1) ≤
            base ^ places * (value' / base ^ places) := Nat.mul_le_mul_left _ hlt
        rw [Nat.mul_add, Nat.mul_one] at hmul
        calc value = base ^ places * (value / base ^ places) + value % base ^ places := hsplit.symm
          _ < base ^ places * (value / base ^ places) + base ^ places := Nat.add_lt_add_left hlow _
          _ ≤ base ^ places * (value' / base ^ places) := hmul
          _ ≤ value' := Nat.mul_div_le _ _
      · rw [heq] at hsplit
        omega
    · intro hlt
      rcases Nat.lt_or_eq_of_le (Nat.div_le_div_right (c := base ^ places) hlt.le) with hless | heq
      · exact .inl hless
      · rw [heq] at hsplit
        exact .inr ⟨heq, by omega⟩

end OneBeat
