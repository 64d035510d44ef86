import Mathlib.Algebra.Group.Basic
import Mathlib.Algebra.Group.Int.Defs
import Mathlib.Data.List.Basic
import Mathlib.Order.MinMax

/-!
# Walks that are kept above a floor

A position is told its offsets from where it began, one after another, and takes each as a step from
the last one; every step that would fall below a floor ends at the floor.

* `reflected_eq`: where the walk ends is the last offset over the highest floor it has met, which is
  the `drift`;
* `reflected_rigid_iff`: when several positions take one walk together, they end where the last
  offset alone takes them, and as far apart as they began, exactly when none of them meets the floor,
  or they begin together and no offset is below the last.
-/

namespace OneBeat

/-- The walk of a position whose last offset was `offset`, with the floor at zero. -/
def reflected (offset position : ℤ) : List ℤ → ℤ
  | [] => position
  | next :: offsets => reflected next (max 0 (position + (next - offset))) offsets

/-- The highest origin a walk has been pushed to. -/
def drift (origin : ℤ) (offsets : List ℤ) : ℤ :=
  offsets.foldl (fun origin offset => max origin (-offset)) origin

theorem drift_le_iff {origin bound : ℤ} {offsets : List ℤ} :
    drift origin offsets ≤ bound ↔ origin ≤ bound ∧ ∀ offset ∈ offsets, -offset ≤ bound := by
  induction offsets generalizing origin with
  | nil => simp [drift]
  | cons offset offsets ih =>
    rw [drift, List.foldl_cons]
    have hrest : drift (max origin (-offset)) offsets ≤ bound ↔
        max origin (-offset) ≤ bound ∧ ∀ offset ∈ offsets, -offset ≤ bound := ih
    rw [drift] at hrest
    rw [hrest, max_le_iff, List.forall_mem_cons, and_assoc]

theorem le_drift (origin : ℤ) (offsets : List ℤ) : origin ≤ drift origin offsets :=
  (drift_le_iff.1 le_rfl).1

theorem neg_le_drift (origin : ℤ) {offset : ℤ} {offsets : List ℤ} (h : offset ∈ offsets) :
    -offset ≤ drift origin offsets :=
  (drift_le_iff.1 le_rfl).2 offset h

/-- **Where a walk ends.** -/
theorem reflected_eq (offset position : ℤ) (offsets : List ℤ) :
    reflected offset position offsets =
      offsets.getLastD offset + drift (position - offset) offsets := by
  induction offsets generalizing offset position with
  | nil => exact (add_sub_cancel offset position).symm
  | cons next offsets ih =>
    have horigin : max 0 (position + (next - offset)) - next = max (position - offset) (-next) := by
      omega
    rw [reflected, ih, horigin, drift, drift, List.foldl_cons, List.getLastD_cons]

theorem reflected_concat (offset position last : ℤ) (offsets : List ℤ) :
    reflected offset position (offsets ++ [last]) =
      max 0 (reflected offset position offsets + (last - offsets.getLastD offset)) := by
  induction offsets generalizing offset position with
  | nil => rfl
  | cons next offsets ih =>
    rw [List.cons_append, reflected, ih, reflected, List.getLastD_cons]

theorem reflected_nonneg {offset position : ℤ} (h : 0 ≤ position) (offsets : List ℤ) :
    0 ≤ reflected offset position offsets := by
  induction offsets generalizing offset position with
  | nil => exact h
  | cons next offsets ih => exact ih (le_max_left ..)

section Together

variable {ι : Type*} (moving : ι → Prop) (position : ι → ℤ) (offsets : List ℤ) (last : ℤ)

/-- **A walk taken together is rigid exactly when nothing meets the floor, or all are one.** -/
theorem reflected_rigid_iff :
    ((∀ i, moving i → reflected 0 (position i) (offsets ++ [last]) = max 0 (position i + last)) ∧
      ∀ i j, moving i → moving j →
        reflected 0 (position i) (offsets ++ [last]) - reflected 0 (position j) (offsets ++ [last]) =
          position i - position j) ↔
      (∀ i, moving i → ∀ offset ∈ offsets ++ [last], 0 ≤ position i + offset) ∨
        (∀ i j, moving i → moving j → position i = position j) ∧
          ∀ offset ∈ offsets ++ [last], last ≤ offset := by
  have hends : ∀ i, reflected 0 (position i) (offsets ++ [last]) =
      last + drift (position i) (offsets ++ [last]) := by
    intro i
    rw [reflected_eq, sub_zero, List.getLastD_concat]
  have hlast : last ∈ offsets ++ [last] := List.mem_append_right _ (List.mem_singleton_self last)
  simp only [hends]
  constructor
  · rintro ⟨hends, hrigid⟩
    by_cases hfloor : ∀ i, moving i → ∀ offset ∈ offsets ++ [last], 0 ≤ position i + offset
    · exact .inl hfloor
    · push Not at hfloor
      obtain ⟨i, hi, offset, hoffset, hbelow⟩ := hfloor
      -- the one that met the floor has drifted as far as the last offset pushes it
      have hmet := neg_le_drift (position i) hoffset
      have hdrift : drift (position i) (offsets ++ [last]) = -last := by
        have := hends i hi
        omega
      have hall : ∀ j, moving j → position j = position i := by
        intro j hj
        have h₁ := hends j hj
        have h₂ := hrigid j i hj hi
        omega
      refine .inr ⟨fun j k hj hk => (hall j hj).trans (hall k hk).symm, fun other hother => ?_⟩
      have := neg_le_drift (position i) hother
      omega
  · rintro (hfloor | ⟨hone, hlowest⟩)
    · have hstill : ∀ i, moving i → drift (position i) (offsets ++ [last]) = position i := by
        intro i hi
        refine le_antisymm (drift_le_iff.2 ⟨le_rfl, fun offset hoffset => ?_⟩) (le_drift ..)
        have := hfloor i hi offset hoffset
        omega
      constructor
      · intro i hi
        have := hfloor i hi last hlast
        rw [hstill i hi]
        omega
      · intro i j hi hj
        rw [hstill i hi, hstill j hj]
        omega
    · constructor
      · intro i hi
        have hpushed : drift (position i) (offsets ++ [last]) = max (position i) (-last) := by
          refine le_antisymm (drift_le_iff.2 ⟨le_max_left .., fun offset hoffset => ?_⟩)
            (max_le (le_drift ..) (neg_le_drift _ hlast))
          have := hlowest offset hoffset
          omega
        omega
      · intro i j hi hj
        rw [hone i j hi hj, sub_self, sub_self]

end Together

end OneBeat
