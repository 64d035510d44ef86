import Mathlib.Data.List.Basic
import Mathlib.Order.MinMax

/-!
# Running extremes

The greatest and the least of some values, as a loop finds them.
-/

namespace OneBeat

variable {α β : Type*} [LinearOrder β] {f : α → β} {bound first : β} {l : List α}

theorem foldl_max_le_iff : l.foldl (fun highest a => max highest (f a)) first ≤ bound ↔
    first ≤ bound ∧ ∀ a ∈ l, f a ≤ bound := by
  induction l generalizing first with
  | nil => simp
  | cons a l ih => rw [List.foldl_cons, ih, max_le_iff, List.forall_mem_cons, and_assoc]

theorem le_foldl_min_iff : bound ≤ l.foldl (fun lowest a => min lowest (f a)) first ↔
    bound ≤ first ∧ ∀ a ∈ l, bound ≤ f a := by
  induction l generalizing first with
  | nil => simp
  | cons a l ih => rw [List.foldl_cons, ih, le_min_iff, List.forall_mem_cons, and_assoc]

/-- The greatest is none of the smaller ones. -/
theorem le_foldl_max : first ≤ l.foldl (fun highest a => max highest (f a)) first ∧
    ∀ a ∈ l, f a ≤ l.foldl (fun highest a => max highest (f a)) first :=
  foldl_max_le_iff.1 le_rfl

end OneBeat
