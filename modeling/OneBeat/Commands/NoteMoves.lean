import OneBeat.Commands.NoteEdit
import OneBeat.Commands.NoteMultisets
import OneBeat.Lib.RunningExtremes
import Mathlib.Algebra.Order.Group.Unbundled.Abs
import Mathlib.Order.Bounds.Basic

/-!
# Moving a selection

A selection moves as a group: its earliest note is moved to where the grid puts it, the keys as far
as the keyboard goes, and every other note with them.  Ticks that saturate break the group up, and
then its last notes are no notes any more, so that the command does not apply.

* `boundedTranspose_closest` : the keys move as near to what was asked for as they can.
* `moveNotes_rigid` : a move is one shift of the whole selection, or is refused.
-/

namespace OneBeat

variable {notes selection : List Note} {delta semitones : ℤ} {grid : Option NoteGrid}

/-- A note moved in time and pitch, unchecked. -/
def Note.shift (deltaTicks semitones : ℤ) (note : Note) : Note :=
  { note with start := note.start + deltaTicks, key := note.key + semitones }

/-! ### Pitch -/

/-- The notes are on the keyboard when they are shifted. -/
def KeepsKeys (notes : List Note) (keys : ℤ) : Prop :=
  ∀ note ∈ notes, 0 ≤ note.key + keys ∧ note.key + keys ≤ 127

/-- The one shift that is nearest to what was asked for, of those that keep the notes on the
keyboard. -/
structure ClosestShift (notes : List Note) (asked keys : ℤ) : Prop where
  keeps : KeepsKeys notes keys
  closest : ∀ other, KeepsKeys notes other → other ≠ keys → |keys - asked| < |other - asked|

/-- The lowest and the highest key bound a transposition. -/
theorem boundedTranspose_eq (hsome : notes ≠ []) (hkeys : KeepsKeys notes 0) :
    ∃ low ∈ notes, ∃ high ∈ notes,
      (∀ note ∈ notes, low.key ≤ note.key ∧ note.key ≤ high.key) ∧
      ∀ semitones, boundedTranspose notes semitones =
        clampInt semitones (-low.key) (127 - high.key) := by
  set lowest := notes.foldl (fun lowest note => min lowest note.key) 127 with hlowest
  set highest := notes.foldl (fun highest note => max highest note.key) 0 with hhighest
  have hlow := (le_foldl_min_iff.1 (le_of_eq hlowest)).2
  have hhigh := (foldl_max_le_iff.1 (ge_of_eq hhighest)).2
  obtain ⟨first, hfirst⟩ := List.exists_mem_of_ne_nil _ hsome
  have hlow' : ∃ low ∈ notes, low.key = lowest := by
    -- were it below every key, so would the next be
    by_contra hnone
    push Not at hnone
    have hnext : lowest + 1 ≤ lowest := le_foldl_min_iff.2
      ⟨by have := hlow first hfirst; have := hkeys first hfirst; have := hnone first hfirst; omega,
        fun note hnote => by have := hlow note hnote; have := hnone note hnote; omega⟩
    omega
  have hhigh' : ∃ high ∈ notes, high.key = highest := by
    by_contra hnone
    push Not at hnone
    have hnext : highest ≤ highest - 1 := foldl_max_le_iff.2
      ⟨by have := hhigh first hfirst; have := hkeys first hfirst; have := hnone first hfirst; omega,
        fun note hnote => by have := hhigh note hnote; have := hnone note hnote; omega⟩
    omega
  obtain ⟨low, hlowmem, hlowkey⟩ := hlow'
  obtain ⟨high, hhighmem, hhighkey⟩ := hhigh'
  refine ⟨low, hlowmem, high, hhighmem, fun note hnote => ?_, fun semitones => ?_⟩
  · rw [hlowkey, hhighkey]
    exact ⟨hlow note hnote, hhigh note hnote⟩
  · rw [boundedTranspose, if_neg hsome, hlowkey, hhighkey]

/-- **A transposition is the nearest that fits.** -/
theorem boundedTranspose_closest (hsome : notes ≠ []) (hkeys : KeepsKeys notes 0)
    (semitones : ℤ) : ClosestShift notes semitones (boundedTranspose notes semitones) := by
  obtain ⟨low, hlow, high, hhigh, hbounds, heq⟩ := boundedTranspose_eq hsome hkeys
  have hlowkey := hkeys low hlow
  have hhighkey := hkeys high hhigh
  rw [heq]
  refine ⟨fun note hnote => ?_, fun other hother hne => ?_⟩
  · have := hbounds note hnote
    unfold clampInt
    split_ifs <;> omega
  · -- what keeps the notes on the keyboard lies between the two bounds
    have := hother low hlow
    have := hother high hhigh
    rw [abs_eq_max_neg, abs_eq_max_neg]
    unfold clampInt at hne ⊢
    split_ifs at hne ⊢ <;> omega

/-! ### Time -/

/-- Where the earliest note is asked to go: with a grid, where the grid puts it. -/
def askedStart (earliest delta : ℤ) : Option NoteGrid → ℤ
  | none => earliest + delta
  | some grid => grid.snapTick (addClamped earliest delta)

/-- How far a group is moved in time. -/
def timeShift (earliest delta : ℤ) (grid : Option NoteGrid) : ℤ :=
  max (match grid with
    | some grid =>
      if grid.valid then subtractClamped (grid.snapTick (addClamped earliest delta)) earliest
      else delta
    | none => delta) (-earliest)

/-- A group moves with its earliest note. -/
theorem movedNotes_eq (hsome : notes ≠ []) (delta semitones : ℤ) (grid : Option NoteGrid) :
    ∃ earliest, IsLeast (Note.start '' {note | note ∈ notes}) earliest ∧
      movedNotes notes delta semitones grid = notes.map fun note => { note with
        start := addClamped note.start (timeShift earliest delta grid)
        key := note.key + boundedTranspose notes semitones } := by
  obtain ⟨first, rest, rfl⟩ := List.exists_cons_of_ne_nil hsome
  refine ⟨_, ?_, rfl⟩
  set earliest := rest.foldl (fun earliest (note : Note) => min earliest note.start) first.start
    with hearliest
  have hall : ∀ note ∈ first :: rest, earliest ≤ note.start :=
    List.forall_mem_cons.2 (le_foldl_min_iff.1 (le_of_eq hearliest))
  refine ⟨?_, ?_⟩
  · -- were it below every note, so would the next be
    by_contra hnone
    have hnext : ∀ note ∈ first :: rest, earliest + 1 ≤ note.start := by
      intro note hnote
      have hne : note.start ≠ earliest := fun heq => hnone ⟨note, hnote, heq⟩
      have := hall note hnote
      omega
    have hlt : earliest + 1 ≤ earliest := le_foldl_min_iff.2 (List.forall_mem_cons.1 hnext)
    omega
  · rintro _ ⟨note, hnote, rfl⟩
    exact hall note hnote

theorem snapTick_inTicks {grid : NoteGrid} (hvalid : grid.valid = true) (tick : ℤ) :
    minTicks ≤ grid.snapTick tick ∧ grid.snapTick tick ≤ maxTicks := by
  have hclamped : ∀ value delta,
      minTicks ≤ addClamped value delta ∧ addClamped value delta ≤ maxTicks := by
    intro value delta
    rw [addClamped, minTicks, maxTicks]
    omega
  rw [NoteGrid.snapTick, hvalid]
  exact hclamped _ _

/-- The earliest note goes where it is asked to, and not before the start of the pattern. -/
theorem add_timeShift {earliest : ℤ} (hlow : 0 ≤ earliest) (hhigh : earliest ≤ maxTicks)
    (hgrid : badGrid grid = false) (delta : ℤ) :
    earliest + timeShift earliest delta grid = max 0 (askedStart earliest delta grid) := by
  cases grid with
  | none =>
    rw [timeShift, askedStart]
    omega
  | some grid =>
    have hvalid : grid.valid = true := by simpa [badGrid] using hgrid
    obtain ⟨hleast, hgreatest⟩ := snapTick_inTicks hvalid (addClamped earliest delta)
    rw [timeShift, askedStart]
    simp only [hvalid, if_true]
    rw [subtractClamped]
    rw [minTicks, maxTicks] at *
    omega

/-- A note that is a note after it moved has not saturated. -/
theorem addClamped_of_valid {note : Note} {ticks keys : ℤ}
    (hmoved : isValidNote { note with start := addClamped note.start ticks, key := keys } = true) :
    addClamped note.start ticks = note.start + ticks := by
  have hafter := isValidNote_iff.1 hmoved
  rw [addClamped] at hafter ⊢
  rw [minTicks, maxTicks] at *
  dsimp only at hafter
  omega

/-! ### The command -/

/-- A selection has been moved as one: every note by the same time and pitch. -/
structure GroupMoved (selection : List Note) (delta semitones : ℤ) (grid : Option NoteGrid)
    (ticks keys : ℤ) : Prop where
  valid : ∀ note ∈ selection, isValidNote (note.shift ticks keys) = true
  time : ∃ earliest, IsLeast (Note.start '' {note | note ∈ selection}) earliest ∧
    earliest + ticks = max 0 (askedStart earliest delta grid)
  pitch : ClosestShift selection semitones keys

theorem groupMoved_of_valid (hvalid : ∀ note ∈ selection, isValidNote note = true)
    (hsome : selection ≠ []) (hgrid : badGrid grid = false)
    (hmoved : ∀ note ∈ movedNotes selection delta semitones grid, isValidNote note = true) :
    ∃ ticks keys, GroupMoved selection delta semitones grid ticks keys ∧
      movedNotes selection delta semitones grid = selection.map (Note.shift ticks keys) := by
  obtain ⟨earliest, hleast, heq⟩ := movedNotes_eq hsome delta semitones grid
  rw [heq, List.forall_mem_map] at hmoved
  have hshift : movedNotes selection delta semitones grid = selection.map
      (Note.shift (timeShift earliest delta grid) (boundedTranspose selection semitones)) := by
    rw [heq]
    refine List.map_congr_left fun note hnote => ?_
    rw [addClamped_of_valid (hmoved note hnote)]
    rfl
  rw [← List.forall_mem_map (P := fun note => isValidNote note = true), ← heq, hshift,
    List.forall_mem_map] at hmoved
  refine ⟨_, _, ⟨hmoved, ⟨earliest, hleast, ?_⟩, boundedTranspose_closest hsome ?_ semitones⟩,
    hshift⟩
  · obtain ⟨⟨note, hnote, rfl⟩, -⟩ := hleast
    have := isValidNote_iff.1 (hvalid note hnote)
    exact add_timeShift this.1 (by omega) hgrid delta
  · intro note hnote
    have := isValidNote_iff.1 (hvalid note hnote)
    omega

/-- **Moving a selection is rigid, or refused.** -/
theorem moveNotes_rigid (project : Tables) {pattern : PatternId} {instrument : InstrumentId}
    {command : NoteCommand} (hvalid : ∀ note ∈ selection, isValidNote note = true)
    (hmove : moveNotes pattern instrument selection delta semitones grid = some command) :
    ((command.apply project).ok = false ∧ (command.apply project).state = project) ∨
      ((command.apply project).ok = true ∧ ∃ ticks keys,
        GroupMoved selection delta semitones grid ticks keys ∧
          (selection : Multiset Note) ≤ project.noteBag pattern instrument ∧
          (command.apply project).state.noteBag pattern instrument =
            project.noteBag pattern instrument - selection +
              selection.map (Note.shift ticks keys)) := by
  rw [moveNotes] at hmove
  obtain ⟨hasked, hmove⟩ := Option.ite_none_left_eq_some.1 hmove
  obtain ⟨hsome, hgrid⟩ := not_or.1 hasked
  obtain ⟨-, hcommand⟩ := Option.ite_none_left_eq_some.1 hmove
  obtain rfl := Option.some.inj hcommand
  cases hok : (NoteCommand.apply _ project).ok with
  | false => exact .inl ⟨rfl, (NoteCommand.state_of_failed _ _).1 hok⟩
  | true =>
    obtain ⟨owner, howner, -, htaken, hgiven⟩ := NoteCommand.apply_ok_iff.1 hok
    have hmoved : ∀ note ∈ movedNotes selection delta semitones grid, isValidNote note = true :=
      fun note hnote => hgiven note ((perm_stableSort _).mem_iff.2 hnote)
    obtain ⟨ticks, keys, hgroup, heq⟩ :=
      groupMoved_of_valid hvalid hsome (Bool.eq_false_iff.2 hgrid) hmoved
    refine .inr ⟨rfl, ticks, keys, hgroup, ?_, ?_⟩
    · rw [noteBag_eq howner, ← coe_stableSort selection]
      exact diff_eq_nil_iff.1 htaken
    · rw [Tables.noteBag, (NoteCommand.notesOf_apply hok).1, coe_stableSort, ← Multiset.coe_add,
        coe_stableSort, ← Multiset.coe_sub, coe_stableSort, heq]
      rfl

/-- Two notes a semitone up and a step later. -/
theorem moveNotes_rigid_tied : ∃ command,
    moveNotes ⟨3⟩ ⟨2⟩ NoteCommand.softAfterLoud 240 1 (some {}) = some command ∧
      (command.apply NoteCommand.tiedProject).ok = true ∧ ∃ ticks keys,
        GroupMoved NoteCommand.softAfterLoud 240 1 (some {}) ticks keys := by
  have hmove : ∃ command,
      moveNotes ⟨3⟩ ⟨2⟩ NoteCommand.softAfterLoud 240 1 (some {}) = some command ∧
        (command.apply NoteCommand.tiedProject).ok = true := ⟨_, rfl, by decide +kernel⟩
  obtain ⟨command, hmove, hok⟩ := hmove
  have hvalid : ∀ note ∈ NoteCommand.softAfterLoud, isValidNote note = true := by decide
  rcases moveNotes_rigid NoteCommand.tiedProject hvalid hmove with
    ⟨hfailed, -⟩ | ⟨-, ticks, keys, hgroup, -⟩
  · rw [hok] at hfailed
    cases hfailed
  · exact ⟨command, hmove, hok, ticks, keys, hgroup⟩

end OneBeat
