import Mathlib.Data.List.Basic
import Mathlib.Tactic.Ring

/-!
# Parts of a list

A part of a list from a place on, and the list in parts of one length.

* `slice_overwrite`, `slice_overwrite_of_disjoint` : what a part is once another was overwritten;
* `chunks_append`, `chunks_flatMap` : the parts of a list that is put together from some.
-/

namespace OneBeat.ListParts

variable {α : Type*}

/-- `width` entries from a place on. -/
def slice (entries : List α) (start width : ℕ) : List α := (entries.drop start).take width

/-- The entries once others were written over them, and behind their end. -/
def overwrite (entries : List α) (start : ℕ) (data : List α) : List α :=
  entries.take start ++ data ++ entries.drop (start + data.length)

variable {entries data : List α} {start : ℕ}

/-- At the end nothing is overwritten. -/
theorem overwrite_end (entries data : List α) :
    overwrite entries entries.length data = entries ++ data := by
  rw [overwrite, List.take_length, List.drop_eq_nil_of_le (Nat.le_add_right _ _), List.append_nil]

theorem length_overwrite (hfit : start + data.length ≤ entries.length) :
    (overwrite entries start data).length = entries.length := by
  simp only [overwrite, List.length_append, List.length_take, List.length_drop]
  omega

theorem getElem?_overwrite (hfit : start + data.length ≤ entries.length) (index : ℕ) :
    (overwrite entries start data)[index]? =
      if start ≤ index ∧ index < start + data.length then data[index - start]?
      else entries[index]? := by
  have htake : (entries.take start).length = start := by
    rw [List.length_take]
    omega
  rw [overwrite, List.append_assoc]
  by_cases hbefore : index < start
  · rw [List.getElem?_append_left (by omega), List.getElem?_take_of_lt hbefore, if_neg (by omega)]
  · rw [List.getElem?_append_right (by omega), htake]
    by_cases hwithin : index < start + data.length
    · rw [List.getElem?_append_left (by omega), if_pos (by omega)]
    · rw [List.getElem?_append_right (by omega), List.getElem?_drop, if_neg (by omega)]
      congr 1
      omega

theorem getElem?_slice (start' width index : ℕ) :
    (slice entries start' width)[index]? =
      if index < width then entries[start' + index]? else none := by
  rw [slice, List.getElem?_take, List.getElem?_drop]

/-- What was written is read back. -/
theorem slice_overwrite (hfit : start + data.length ≤ entries.length) {width : ℕ}
    (hwidth : data.length = width) : slice (overwrite entries start data) start width = data := by
  subst hwidth
  refine List.ext_getElem? fun index => ?_
  rw [getElem?_slice, getElem?_overwrite hfit, Nat.add_sub_cancel_left]
  split_ifs with h h'
  · rfl
  · omega
  · exact (List.getElem?_eq_none (by omega)).symm

/-- What lies beside it is still there. -/
theorem slice_overwrite_of_disjoint (hfit : start + data.length ≤ entries.length) {start' width : ℕ}
    (hbeside : start' + width ≤ start ∨ start + data.length ≤ start') :
    slice (overwrite entries start data) start' width = slice entries start' width := by
  refine List.ext_getElem? fun index => ?_
  rw [getElem?_slice, getElem?_slice, getElem?_overwrite hfit]
  by_cases hindex : index < width
  · rw [if_pos hindex, if_pos hindex, if_neg (by omega)]
  · rw [if_neg hindex, if_neg hindex]

/-! ### Parts of one length -/

/-- The parts of length `width`, up to what is left in the end. -/
def chunks (width : ℕ) (entries : List α) : List (List α) :=
  (List.range (entries.length / width)).map fun index => slice entries (width * index) width

variable {β : Type*} {width size : ℕ}

theorem length_slice (h : start + width ≤ entries.length) :
    (slice entries start width).length = width := by
  rw [slice, List.length_take, List.length_drop]
  omega

theorem slice_slice {start' width' : ℕ} (h : start' + width' ≤ width) :
    slice (slice entries start width) start' width' = slice entries (start + start') width' := by
  rw [slice, slice, slice, List.drop_take, List.drop_drop, List.take_take,
    Nat.min_eq_left (by omega)]

theorem slice_append_left (h : start + width ≤ entries.length) (others : List α) :
    slice (entries ++ others) start width = slice entries start width := by
  rw [slice, slice, List.drop_append_of_le_length (by omega), List.take_append_of_le_length]
  rw [List.length_drop]
  omega

theorem slice_append_right (entries others : List α) (start width : ℕ) :
    slice (entries ++ others) (entries.length + start) width = slice others start width := by
  rw [slice, slice, List.drop_length_add_append]

theorem chunks_append (hwidth : 0 < width) {count : ℕ} (h : entries.length = width * count)
    (others : List α) :
    chunks width (entries ++ others) = chunks width entries ++ chunks width others := by
  have hcount : (entries ++ others).length / width = count + others.length / width := by
    rw [List.length_append, h, Nat.mul_add_div hwidth]
  rw [chunks, hcount, List.range_add, List.map_append, List.map_map, chunks, chunks, h,
    Nat.mul_div_cancel_left _ hwidth]
  congr 1
  · refine List.map_congr_left fun index hindex => slice_append_left ?_ others
    calc width * index + width = width * (index + 1) := by ring
      _ ≤ width * count := Nat.mul_le_mul_left _ (List.mem_range.1 hindex)
      _ = entries.length := h.symm
  · refine List.map_congr_left fun index _ => ?_
    rw [Function.comp_apply, Nat.mul_add, ← h, slice_append_right]

section FlatMap

variable {f : α → List β} (hf : ∀ x, (f x).length = size)

include hf

theorem length_flatMap (entries : List α) : (entries.flatMap f).length = size * entries.length := by
  induction entries with
  | nil => rfl
  | cons x entries ih =>
    rw [List.flatMap_cons, List.length_append, hf, ih, List.length_cons]
    ring

theorem take_flatMap (entries : List α) (count : ℕ) :
    (entries.flatMap f).take (size * count) = (entries.take count).flatMap f := by
  induction entries generalizing count with
  | nil => simp
  | cons x entries ih =>
    cases count with
    | zero => simp
    | succ count =>
      rw [List.flatMap_cons, List.take_succ_cons, List.flatMap_cons, ← ih, Nat.mul_succ,
        Nat.add_comm, ← hf x, List.take_length_add_append]

theorem drop_flatMap (entries : List α) (count : ℕ) :
    (entries.flatMap f).drop (size * count) = (entries.drop count).flatMap f := by
  induction entries generalizing count with
  | nil => simp
  | cons x entries ih =>
    cases count with
    | zero => simp
    | succ count =>
      rw [List.flatMap_cons, List.drop_succ_cons, ← ih, Nat.mul_succ, Nat.add_comm, ← hf x,
        List.drop_length_add_append]

theorem slice_flatMap (entries : List α) (start width : ℕ) :
    slice (entries.flatMap f) (size * start) (size * width) =
      (slice entries start width).flatMap f := by
  rw [slice, drop_flatMap hf, take_flatMap hf, slice]

/-- The parts of a list whose entries make up the parts. -/
theorem chunks_flatMap (hsize : 0 < size) (entries : List α) (width : ℕ) :
    chunks (size * width) (entries.flatMap f) =
      (chunks width entries).map fun part => part.flatMap f := by
  rw [chunks, chunks, List.map_map, length_flatMap hf, Nat.mul_div_mul_left _ _ hsize]
  refine List.map_congr_left fun index _ => ?_
  rw [Nat.mul_assoc, slice_flatMap hf]
  rfl

end FlatMap

/-- The parts of a list whose entries are made up of parts. -/
theorem flatMap_chunks (hwidth : 0 < width) {f : α → List β} {count : ℕ}
    (hf : ∀ x, (f x).length = width * count) (entries : List α) :
    chunks width (entries.flatMap f) = entries.flatMap fun x => chunks width (f x) := by
  induction entries with
  | nil => simp [chunks]
  | cons x entries ih =>
    rw [List.flatMap_cons, chunks_append hwidth (hf x), ih, List.flatMap_cons]

end OneBeat.ListParts
