import OneBeat.Commands.NoteEdit
import Mathlib.Tactic.Linarith

/-!
# Snapping

`snapTick` of `model/note_edit.cpp` divides towards zero, so what is left of the origin has a branch
of its own, and adds with saturation.

**Main theorem** (`NoteGrid.snapTick_nearest`): where nothing saturates it gives the line of the grid
that is nearest, the later of two that are as near; a line stays, and later ticks stay later.
-/

namespace OneBeat

/-- A number of 64 bits. -/
def InTicks (tick : ℤ) : Prop := minTicks ≤ tick ∧ tick ≤ maxTicks

instance (tick : ℤ) : Decidable (InTicks tick) := by
  unfold InTicks
  infer_instance

theorem subtractClamped_eq {value subtrahend : ℤ} (h : InTicks (value - subtrahend)) :
    subtractClamped value subtrahend = value - subtrahend := by
  rw [subtractClamped, min_eq_right h.2, max_eq_right h.1]

namespace NoteGrid

/-- How far from the origin a tick is snapped to, in numbers that do not saturate. -/
def exactOffset (grid : NoteGrid) (relative : ℤ) : ℤ :=
  let remainder := relative.tmod grid.spacing
  let offset := relative.tdiv grid.spacing * grid.spacing
  if 0 ≤ remainder then
    if grid.spacing - remainder ≤ remainder then offset + grid.spacing else offset
  else if grid.spacing - -remainder < -remainder then offset + -grid.spacing
  else offset

/-- No intermediate value of a snap is beyond 64 bits. -/
structure Unsaturated (grid : NoteGrid) (tick : ℤ) : Prop where
  relative : InTicks (tick - grid.origin)
  offset : InTicks (grid.exactOffset (tick - grid.origin))
  snapped : InTicks (grid.origin + grid.exactOffset (tick - grid.origin))

variable {grid : NoteGrid}

/-- A multiple of the spacing that is nearest, and later if two are. -/
structure Nearest (spacing relative offset : ℤ) : Prop where
  multiple : spacing ∣ offset
  before : 2 * (relative - offset) < spacing
  after : 2 * (offset - relative) ≤ spacing

theorem Nearest.mono {spacing relative relative' offset offset' : ℤ}
    (h : Nearest spacing relative offset) (h' : Nearest spacing relative' offset')
    (hle : relative ≤ relative') : offset ≤ offset' := by
  obtain ⟨k, rfl⟩ := h.multiple
  obtain ⟨k', rfl⟩ := h'.multiple
  have hbefore := h'.before
  have hafter := h.after
  have hspacing : 0 < spacing := by
    have := h.before
    linarith
  have hlt : spacing * k < spacing * (k' + 1) := by linarith
  have hk : k < k' + 1 := lt_of_mul_lt_mul_left hlt hspacing.le
  exact mul_le_mul_of_nonneg_left (Int.lt_add_one_iff.1 hk) hspacing.le

theorem nearest_exactOffset (hspacing : 0 < grid.spacing) (relative : ℤ) :
    Nearest grid.spacing relative (grid.exactOffset relative) := by
  have hsplit := Int.tmod_add_mul_tdiv relative grid.spacing
  have hlt := Int.tmod_lt_of_pos relative hspacing
  have hgt := Int.lt_tmod_of_pos relative hspacing
  rw [Int.mul_comm] at hsplit
  have hdvd : grid.spacing ∣ relative.tdiv grid.spacing * grid.spacing := Int.dvd_mul_left _ _
  unfold exactOffset
  dsimp only
  generalize relative.tdiv grid.spacing * grid.spacing = offset at *
  split_ifs
  · exact ⟨dvd_add_self_right.2 hdvd, by omega, by omega⟩
  · exact ⟨hdvd, by omega, by omega⟩
  · exact ⟨dvd_add hdvd (dvd_neg.2 dvd_rfl), by omega, by omega⟩
  · exact ⟨hdvd, by omega, by omega⟩

/-- Where nothing saturates, nothing is clamped. -/
theorem snapTick_eq (hspacing : 0 < grid.spacing) {tick : ℤ} (h : grid.Unsaturated tick) :
    grid.snapTick tick = grid.origin + grid.exactOffset (tick - grid.origin) := by
  have hvalid : grid.valid = true := decide_eq_true hspacing
  rw [snapTick, hvalid, Bool.not_true, if_neg Bool.false_ne_true, subtractClamped_eq h.relative]
  dsimp only
  have hsnapped := h.snapped
  have hoffset := h.offset
  unfold exactOffset at hsnapped hoffset ⊢
  dsimp only at hsnapped hoffset ⊢
  split_ifs at hsnapped hoffset ⊢
  · rw [addClamped_eq hoffset.1 hoffset.2, addClamped_eq hsnapped.1 hsnapped.2]
  · rw [addClamped_eq hsnapped.1 hsnapped.2]
  · rw [addClamped_eq hoffset.1 hoffset.2, addClamped_eq hsnapped.1 hsnapped.2]
  · rw [addClamped_eq hsnapped.1 hsnapped.2]

/-- A line of the grid is its own nearest. -/
theorem exactOffset_exactOffset (hspacing : 0 < grid.spacing) (relative : ℤ) :
    grid.exactOffset (grid.exactOffset relative) = grid.exactOffset relative := by
  have hline : Nearest grid.spacing (grid.exactOffset relative) (grid.exactOffset relative) :=
    ⟨(nearest_exactOffset hspacing relative).multiple, by omega, by omega⟩
  have hsnapped := nearest_exactOffset hspacing (grid.exactOffset relative)
  exact le_antisymm (hsnapped.mono hline le_rfl) (hline.mono hsnapped le_rfl)

/-- What was snapped does not saturate when it is snapped again. -/
theorem Unsaturated.snapTick (hspacing : 0 < grid.spacing) {tick : ℤ} (h : grid.Unsaturated tick) :
    grid.Unsaturated (grid.snapTick tick) := by
  have hrelative : grid.snapTick tick - grid.origin = grid.exactOffset (tick - grid.origin) := by
    rw [snapTick_eq hspacing h]
    omega
  refine ⟨?_, ?_, ?_⟩
  · rw [hrelative]
    exact h.offset
  · rw [hrelative, exactOffset_exactOffset hspacing]
    exact h.offset
  · rw [hrelative, exactOffset_exactOffset hspacing]
    exact h.snapped

/-- **Snapping gives the nearest line**: the later one of two that are as near, the same again when
it is snapped, and a later one for a later tick. -/
theorem snapTick_nearest {tick : ℤ} (hspacing : 0 < grid.spacing) (h : grid.Unsaturated tick) :
    (∃ k, grid.snapTick tick = grid.origin + k * grid.spacing) ∧
      2 * |grid.snapTick tick - tick| ≤ grid.spacing ∧
      (2 * |grid.snapTick tick - tick| = grid.spacing → tick < grid.snapTick tick) ∧
      grid.snapTick (grid.snapTick tick) = grid.snapTick tick ∧
      ∀ later, tick ≤ later → grid.Unsaturated later → grid.snapTick tick ≤ grid.snapTick later := by
  have hnearest := nearest_exactOffset hspacing (tick - grid.origin)
  have hbefore := hnearest.before
  have hafter := hnearest.after
  have hsnap := snapTick_eq hspacing h
  refine ⟨?_, ?_, fun hhalf => ?_, ?_, fun later hle hlater => ?_⟩
  · obtain ⟨k, hk⟩ := hnearest.multiple
    exact ⟨k, by rw [hsnap, hk, mul_comm]⟩
  · rw [hsnap]
    rcases abs_cases (grid.origin + grid.exactOffset (tick - grid.origin) - tick) with
      ⟨habs, -⟩ | ⟨habs, -⟩ <;> omega
  · rw [hsnap] at hhalf ⊢
    rcases abs_cases (grid.origin + grid.exactOffset (tick - grid.origin) - tick) with
      ⟨habs, -⟩ | ⟨habs, -⟩ <;> omega
  · have hagain := h.snapTick hspacing
    have hrelative : grid.snapTick tick - grid.origin = grid.exactOffset (tick - grid.origin) := by
      omega
    rw [snapTick_eq hspacing hagain, hrelative, exactOffset_exactOffset hspacing, hsnap]
  · rw [hsnap, snapTick_eq hspacing hlater]
    have hmono := hnearest.mono (nearest_exactOffset hspacing (later - grid.origin)) (by omega)
    omega

/-- An exact half left of the origin. -/
theorem snapTick_nearest_half :
    2 * |snapTick ⟨240, 0⟩ (-120) - (-120)| = 240 ∧ snapTick ⟨240, 0⟩ (-120) = 0 ∧
      snapTick ⟨240, 0⟩ (snapTick ⟨240, 0⟩ (-120)) = snapTick ⟨240, 0⟩ (-120) :=
  ⟨by decide, by decide,
    (snapTick_nearest (by decide) ⟨by decide, by decide, by decide⟩).2.2.2.1⟩

end NoteGrid

end OneBeat
