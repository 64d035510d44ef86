import OneBeat.Commands.NoteMoves
import OneBeat.Session.CurrentPattern

/-!
# Notes that were narrowed

The key and the velocity of a note cross the boundary in 32 bits; the model has 16.  The entry points
narrow those of a selection first and check the outcome, so that a note out of range can pass for
another one, and a transposition out of range for another one.

* `toModelNotes_eq_givenNotes_iff` : when a selection is the one that was given.
* `Session.actsOnValues_iff` : when an edit of notes acts on the values that were given.
* `Session.notesRemove_wraps` : a selection of a key that does not exist removes a note.
-/

namespace OneBeat

/-! ### The values that were given -/

namespace RawNote

/-- The values are those of a note. -/
def isNote (note : RawNote) : Bool :=
  0 ≤ note.start && 0 < note.length && 0 ≤ note.key && note.key ≤ 127 && 0 ≤ note.velocity &&
    note.velocity ≤ maxVelocity && note.length ≤ maxTicks - note.start

/-- The note with the values that were given. -/
def given (note : RawNote) : Note where
  start := note.start
  length := note.length
  key := note.key
  velocity := note.velocity.toNat

/-- The fields of the model hold the key and the velocity. -/
structure Narrow (note : RawNote) : Prop where
  key : -2 ^ 15 ≤ note.key ∧ note.key < 2 ^ 15
  velocity : 0 ≤ note.velocity ∧ note.velocity < 2 ^ 16

end RawNote

/-- The notes of a selection, by their values; one that is out of range empties it. -/
def givenNotes (notes : List RawNote) : List Note :=
  if notes.all RawNote.isNote then notes.map RawNote.given else []

/-- The command that is executed, if any is. -/
def Reply.command : Reply → Option Command
  | .model command => command
  | .refused => none
  | .done => none

namespace Session

variable (s : Session)

/-- `editNotes`, with the values that were given. -/
def editGivenNotes (id : InstrumentId) (notes : List RawNote)
    (build : PatternId → List Note → Option NoteCommand) : Reply :=
  match s.resolveNoteTarget id with
  | none => .refused
  | some pattern =>
    if givenNotes notes = [] then .refused
    else .model ((build pattern (givenNotes notes)).map .note)

/-- What an entry point would do if it narrowed nothing. -/
def replyToValues : Edit → Reply
  | .notesRemove id notes =>
    s.editGivenNotes id notes fun pattern selection => some (removeNotes pattern id selection)
  | .notesMove id notes delta semitones snapTicks =>
    s.editGivenNotes id notes fun pattern selection =>
      moveNotes pattern id selection delta semitones (optionalGrid snapTicks)
  | .notesResize id notes lengthDelta snapTicks =>
    s.editGivenNotes id notes fun pattern selection =>
      resizeNotes pattern id selection lengthDelta (optionalGrid snapTicks)
  | .notesSetVelocity id notes velocity =>
    if velocity < 1 ∨ maxVelocity < velocity then .refused
    else s.editGivenNotes id notes fun pattern selection =>
      setNoteVelocity pattern id selection velocity.toNat
  | .notesQuantise id notes grid strength =>
    if grid ≤ 0 ∨ strength.lt 0 ∨ Double.lt 1 strength then .refused
    else s.editGivenNotes id notes fun pattern selection =>
      quantiseNotes pattern id selection { spacing := grid, origin := 0 } strength
  | .notesDuplicate id notes delta =>
    s.editGivenNotes id notes fun pattern selection =>
      duplicateNotes pattern id selection delta none
  -- a note that is added is checked before it is narrowed
  | edit => s.reply edit

/-- The command that is executed is the one for the values that were given. -/
def ActsOnValues (edit : Edit) : Prop := (s.reply edit).command = (s.replyToValues edit).command

end Session

/-! ### Selections -/

/-- Nothing was lost, or what is left of some note is no note. -/
def NotesKept (notes : List RawNote) : Prop :=
  (∃ note ∈ notes, isValidNote note.toNote = false) ∨ ∀ note ∈ notes, note.Narrow

namespace RawNote

variable {note : RawNote}

theorem isNote_iff : note.isNote = true ↔ 0 ≤ note.start ∧ 0 < note.length ∧ 0 ≤ note.key ∧
    note.key ≤ 127 ∧ 0 ≤ note.velocity ∧ note.velocity ≤ maxVelocity ∧
      note.start + note.length ≤ maxTicks := by
  simp only [isNote, Bool.and_eq_true, decide_eq_true_eq, and_assoc]
  omega

theorem toNote_eq_given (h : note.Narrow) : note.toNote = note.given := by
  obtain ⟨⟨hlow, hhigh⟩, hnonneg, hlt⟩ := h
  have hkey : Int.bmod note.key (2 ^ 16) = note.key := Int.bmod_eq_of_le hlow hhigh
  have hvelocity : note.velocity % 2 ^ 16 = note.velocity := Int.emod_eq_of_lt hnonneg hlt
  rw [toNote, given, hkey, hvelocity]

/-- The narrowed note is checked, and it is the one that was given. -/
theorem isNote_iff_narrow :
    note.isNote = true ↔ isValidNote note.toNote = true ∧ note.Narrow := by
  constructor
  · intro h
    have hvalues := isNote_iff.1 h
    have hmax : maxVelocity = 16383 := rfl
    have hnarrow : note.Narrow := ⟨by omega, by omega⟩
    refine ⟨?_, hnarrow⟩
    rw [toNote_eq_given hnarrow, isValidNote_iff, given]
    dsimp only
    omega
  · rintro ⟨hvalid, hnarrow⟩
    rw [toNote_eq_given hnarrow, isValidNote_iff, given] at hvalid
    obtain ⟨-, hvelocity⟩ := hnarrow
    rw [isNote_iff]
    dsimp only at hvalid
    omega

end RawNote

variable {notes : List RawNote}

/-- What is a selection by its values is that selection. -/
theorem toModelNotes_of_givenNotes (h : givenNotes notes ≠ []) :
    toModelNotes notes = givenNotes notes ∧ ∀ note ∈ notes, note.Narrow := by
  have hall : notes.all RawNote.isNote = true := by
    by_contra hnot
    exact h (if_neg hnot)
  have hnarrow := fun note hnote => RawNote.isNote_iff_narrow.1 (List.all_eq_true.1 hall note hnote)
  have hvalid : (notes.map RawNote.toNote).all isValidNote = true := by
    rw [List.all_map, List.all_eq_true]
    exact fun note hnote => (hnarrow note hnote).1
  rw [toModelNotes, if_pos hvalid, givenNotes, if_pos hall]
  exact ⟨List.map_congr_left fun note hnote => RawNote.toNote_eq_given (hnarrow note hnote).2,
    fun note hnote => (hnarrow note hnote).2⟩

theorem toModelNotes_eq_nil_iff : toModelNotes notes = [] ↔
    notes = [] ∨ ∃ note ∈ notes, isValidNote note.toNote = false := by
  rw [toModelNotes]
  split_ifs with hall
  · rw [List.map_eq_nil_iff, or_iff_left]
    rintro ⟨note, hnote, hinvalid⟩
    rw [List.all_map, List.all_eq_true] at hall
    exact absurd (hall note hnote) (by simp [hinvalid])
  · rw [List.all_map, List.all_eq_true] at hall
    push Not at hall
    obtain ⟨note, hnote, hinvalid⟩ := hall
    exact iff_of_true rfl (.inr ⟨note, hnote, Bool.eq_false_of_not_eq_true hinvalid⟩)

/-- **A selection is the one that was given unless it lost something that mattered.** -/
theorem toModelNotes_eq_givenNotes_iff :
    toModelNotes notes = givenNotes notes ↔ NotesKept notes := by
  by_cases hgiven : givenNotes notes = []
  · rw [hgiven, toModelNotes_eq_nil_iff]
    constructor
    · rintro (rfl | hrejected)
      · exact .inr nofun
      · exact .inl hrejected
    · rintro (hrejected | hnarrow)
      · exact .inr hrejected
      · by_contra hpasses
        push Not at hpasses
        -- every note passes, and none of them lost anything
        have hall : notes.all RawNote.isNote = true := List.all_eq_true.2 fun note hnote =>
          RawNote.isNote_iff_narrow.2
            ⟨Bool.eq_true_of_not_eq_false (hpasses.2 note hnote), hnarrow note hnote⟩
        rw [givenNotes, if_pos hall, List.map_eq_nil_iff] at hgiven
        exact hpasses.1 hgiven
  · obtain ⟨heq, hnarrow⟩ := toModelNotes_of_givenNotes hgiven
    exact iff_of_true heq (.inr hnarrow)

/-! ### Transpositions -/

/-- A transposition that is narrowed comes out the same: it fits, or it still runs off the same end
of the keyboard, or there is nowhere to go. -/
def TranspositionKept (notes : List Note) (semitones : ℤ) : Prop :=
  (-2 ^ 15 ≤ semitones ∧ semitones < 2 ^ 15) ∨
  (2 ^ 15 ≤ semitones ∧ ∃ note ∈ notes, 127 ≤ note.key + Int.bmod semitones (2 ^ 16)) ∨
  (semitones < -2 ^ 15 ∧ ∃ note ∈ notes, note.key + Int.bmod semitones (2 ^ 16) ≤ 0) ∨
  ((∃ note ∈ notes, note.key = 0) ∧ ∃ note ∈ notes, note.key = 127)

/-- **When a narrowed transposition moves the keys as far.** -/
theorem boundedTranspose_bmod_iff {notes : List Note} (hsome : notes ≠ [])
    (hkeys : KeepsKeys notes 0) {semitones : ℤ} :
    boundedTranspose notes (Int.bmod semitones (2 ^ 16)) = boundedTranspose notes semitones ↔
      TranspositionKept notes semitones := by
  obtain ⟨low, hlow, high, hhigh, hbounds, heq⟩ := boundedTranspose_eq hsome hkeys
  have hlowkey := hkeys low hlow
  have hhighkey := hkeys high hhigh
  have horder := hbounds low hlow
  have hleast : -2 ^ 15 ≤ Int.bmod semitones (2 ^ 16) := Int.le_bmod (by decide)
  have hgreatest : Int.bmod semitones (2 ^ 16) < 2 ^ 15 := Int.bmod_lt (by decide)
  have hfits : -2 ^ 15 ≤ semitones → semitones < 2 ^ 15 →
      Int.bmod semitones (2 ^ 16) = semitones := fun hlow hhigh => Int.bmod_eq_of_le hlow hhigh
  have htop : (∃ note ∈ notes, 127 ≤ note.key + Int.bmod semitones (2 ^ 16)) ↔
      127 ≤ high.key + Int.bmod semitones (2 ^ 16) :=
    ⟨fun ⟨note, hnote, h⟩ => by have := hbounds note hnote; omega, fun h => ⟨high, hhigh, h⟩⟩
  have hbottom : (∃ note ∈ notes, note.key + Int.bmod semitones (2 ^ 16) ≤ 0) ↔
      low.key + Int.bmod semitones (2 ^ 16) ≤ 0 :=
    ⟨fun ⟨note, hnote, h⟩ => by have := hbounds note hnote; omega, fun h => ⟨low, hlow, h⟩⟩
  have hzero : (∃ note ∈ notes, note.key = 0) ↔ low.key = 0 :=
    ⟨fun ⟨note, hnote, h⟩ => by have := hbounds note hnote; omega, fun h => ⟨low, hlow, h⟩⟩
  have hlast : (∃ note ∈ notes, note.key = 127) ↔ high.key = 127 :=
    ⟨fun ⟨note, hnote, h⟩ => by
      have := hbounds note hnote
      omega, fun h => ⟨high, hhigh, h⟩⟩
  rw [heq, heq, TranspositionKept, htop, hbottom, hzero, hlast]
  clear htop hbottom hzero hlast
  generalize Int.bmod semitones (2 ^ 16) = narrowed at *
  unfold clampInt
  split_ifs <;> omega

/-- A group that ends up on the same keys was transposed as far. -/
theorem boundedTranspose_of_perm {notes : List Note} (hsome : notes ≠ []) {delta a b : ℤ}
    {grid : Option NoteGrid}
    (h : (movedNotes notes delta a grid).Perm (movedNotes notes delta b grid)) :
    boundedTranspose notes a = boundedTranspose notes b := by
  have hsum : ∀ semitones, ((movedNotes notes delta semitones grid).map Note.key).sum =
      (notes.map Note.key).sum + notes.length * boundedTranspose notes semitones := by
    intro semitones
    obtain ⟨earliest, -, hmoved⟩ := movedNotes_eq hsome delta semitones grid
    rw [hmoved, List.map_map]
    refine (List.sum_map_add (f := Note.key) (g := fun _ => _)).trans ?_
    rw [List.map_const', List.sum_replicate, nsmul_eq_mul]
  have hkeys := (h.map Note.key).sum_eq
  rw [hsum, hsum] at hkeys
  have hlength : (notes.length : ℤ) ≠ 0 := by simpa using hsome
  exact mul_left_cancel₀ hlength (add_left_cancel hkeys)

namespace Session

variable {s : Session} {notes : List RawNote} {id : InstrumentId}

/-! ### Edits -/

/-- The condition under which an edit of notes acts on the values that were given: it is refused
before it looks at them, or they come out of the narrow fields as they went in, as far as it
matters. -/
def KeepsValues (s : Session) : Edit → Prop
  | .notesRemove id notes => s.resolveNoteTarget id = none ∨ NotesKept notes
  | .notesMove id notes _ semitones _ =>
    s.resolveNoteTarget id = none ∨ (∃ note ∈ notes, isValidNote note.toNote = false) ∨
      ((∀ note ∈ notes, note.Narrow) ∧
        (notes = [] ∨ TranspositionKept (notes.map RawNote.given) semitones))
  | .notesResize id notes _ _ => s.resolveNoteTarget id = none ∨ NotesKept notes
  | .notesSetVelocity id notes velocity =>
    (velocity < 1 ∨ maxVelocity < velocity) ∨ s.resolveNoteTarget id = none ∨ NotesKept notes
  | .notesQuantise id notes grid strength =>
    (grid ≤ 0 ∨ (Double.le 0 strength && strength.le 1) = false) ∨
      s.resolveNoteTarget id = none ∨ NotesKept notes
  | .notesDuplicate id notes _ => s.resolveNoteTarget id = none ∨ NotesKept notes
  | _ => True

/-- An edit that builds a command from any selection. -/
theorem command_editNotes_eq_iff {build : PatternId → List Note → Option NoteCommand}
    (hbuild : ∀ pattern selection, selection ≠ [] → build pattern selection ≠ none) :
    (s.editNotes id notes build).command = (s.editGivenNotes id notes build).command ↔
      s.resolveNoteTarget id = none ∨ NotesKept notes := by
  rw [← toModelNotes_eq_givenNotes_iff, editNotes, editGivenNotes]
  cases s.resolveNoteTarget id with
  | none => simp
  | some pattern =>
    rw [or_iff_right (by simp)]
    by_cases heq : toModelNotes notes = givenNotes notes
    · simp only [heq]
    · -- then the values are none of a selection, and a command is built all the same
      have hgiven : givenNotes notes = [] := by
        by_contra hne
        exact heq (toModelNotes_of_givenNotes hne).1
      have hmodel : toModelNotes notes ≠ [] := fun hnil => heq (hnil.trans hgiven.symm)
      refine iff_of_false ?_ heq
      simp only [hgiven, hmodel, if_true, if_false, Reply.command, Option.map_eq_none_iff]
      exact hbuild pattern _ hmodel

/-- An edit that builds no command. -/
theorem command_of_none {build : PatternId → List Note → Option NoteCommand}
    (hbuild : ∀ pattern selection, build pattern selection = none) :
    (s.editNotes id notes build).command = none ∧
      (s.editGivenNotes id notes build).command = none := by
  rw [editNotes, editGivenNotes]
  cases s.resolveNoteTarget id with
  | none => exact ⟨rfl, rfl⟩
  | some pattern =>
    dsimp only
    rw [hbuild, hbuild]
    constructor <;> split_ifs <;> rfl

theorem replaceNotes_ne_none {pattern : PatternId} {before after : List Note}
    (h : before.length = after.length) : replaceNotes pattern id before after ≠ none := by
  simp [replaceNotes, h]

theorem badGrid_optionalGrid (snapTicks : ℤ) : badGrid (optionalGrid snapTicks) = false := by
  unfold optionalGrid
  split_ifs with h
  · rfl
  · simp only [badGrid, NoteGrid.valid, Bool.not_eq_false', decide_eq_true_eq]
    omega

theorem length_movedNotes (notes : List Note) (delta semitones : ℤ) (grid : Option NoteGrid) :
    (movedNotes notes delta semitones grid).length = notes.length := by
  cases notes with
  | nil => rfl
  | cons first rest => exact List.length_map _

/-- A strength in the unit interval passes the check of the entry point. -/
theorem strength_passes {strength : Double} (h : (Double.le 0 strength && strength.le 1) = true) :
    strength.lt 0 = false ∧ Double.lt 1 strength = false := by
  have hzero : (0 : Double) = .finite 0 := rfl
  have hone : (1 : Double) = .finite 1 := rfl
  rw [hzero, hone] at *
  cases strength with
  | finite q =>
    simp only [Double.le, Double.lt, Double.beq, Bool.and_eq_true, Bool.or_eq_true,
      decide_eq_true_eq, decide_eq_false_iff_not, not_lt] at h ⊢
    exact ⟨h.1.elim le_of_lt fun heq => le_of_eq (Double.finite.inj heq),
      h.2.elim le_of_lt fun heq => le_of_eq (Double.finite.inj heq)⟩
  | infinite negative => cases negative <;> simp [Double.le, Double.lt, Double.beq] at h
  | nan => simp [Double.le, Double.lt, Double.beq] at h

/-- Moving a selection by the narrowed semitones. -/
theorem moveNotes_bmod_eq_iff {selection : List Note} (hsome : selection ≠ [])
    (hkeys : KeepsKeys selection 0) {pattern : PatternId} {delta semitones snapTicks : ℤ} :
    moveNotes pattern id selection delta (Int.bmod semitones (2 ^ 16)) (optionalGrid snapTicks) =
        moveNotes pattern id selection delta semitones (optionalGrid snapTicks) ↔
      TranspositionKept selection semitones := by
  rw [← boundedTranspose_bmod_iff hsome hkeys]
  have hproceeds : ¬(selection = [] ∨ badGrid (optionalGrid snapTicks) = true) := by
    simp [hsome, badGrid_optionalGrid]
  rw [moveNotes, moveNotes, if_neg hproceeds, if_neg hproceeds, replaceNotes, replaceNotes,
    if_neg (not_not.2 (length_movedNotes ..).symm), if_neg (not_not.2 (length_movedNotes ..).symm)]
  constructor
  · intro h
    -- the groups end up on the same keys
    simp only [Option.some.injEq, NoteCommand.mk.injEq, true_and, and_true] at h
    have hperm := perm_stableSort (movedNotes selection delta semitones (optionalGrid snapTicks))
    rw [← h] at hperm
    exact boundedTranspose_of_perm hsome ((perm_stableSort _).symm.trans hperm)
  · intro h
    obtain ⟨first, rest, rfl⟩ := List.exists_cons_of_ne_nil hsome
    simp only [movedNotes, h]

theorem keepsKeys_given (hgiven : givenNotes notes ≠ []) : KeepsKeys (givenNotes notes) 0 := by
  have hall : notes.all RawNote.isNote = true := by
    by_contra hnot
    exact hgiven (if_neg hnot)
  rw [givenNotes, if_pos hall]
  intro note hnote
  obtain ⟨raw, hraw, rfl⟩ := List.mem_map.1 hnote
  have := RawNote.isNote_iff.1 (List.all_eq_true.1 hall raw hraw)
  rw [RawNote.given]
  dsimp only
  omega

/-- A move that is refused, or one of the notes that were given by as far as was given. -/
theorem command_notesMove_eq_iff {delta semitones snapTicks : ℤ} :
    s.ActsOnValues (.notesMove id notes delta semitones snapTicks) ↔
      s.KeepsValues (.notesMove id notes delta semitones snapTicks) := by
  simp only [ActsOnValues, KeepsValues, reply, replyToValues, editNotes, editGivenNotes]
  cases s.resolveNoteTarget id with
  | none => simp
  | some pattern =>
    rw [or_iff_right (by simp)]
    dsimp only
    by_cases hmodel : toModelNotes notes = []
    · -- nothing is given, or some note is rejected
      have hgiven : givenNotes notes = [] := by
        by_contra hne
        exact hne ((toModelNotes_of_givenNotes hne).1.symm.trans hmodel)
      rw [if_pos hmodel, if_pos hgiven]
      refine iff_of_true rfl ((toModelNotes_eq_nil_iff.1 hmodel).symm.imp_right ?_)
      rintro rfl
      exact ⟨List.forall_mem_nil _, .inl rfl⟩
    · have hpasses := fun h => hmodel (toModelNotes_eq_nil_iff.2 (.inr h))
      rw [if_neg hmodel, or_iff_right hpasses]
      by_cases hgiven : givenNotes notes = []
      · rw [if_pos hgiven]
        refine iff_of_false ?_ fun hkept => hmodel ?_
        · simp only [Reply.command, Option.map_eq_none_iff]
          rw [moveNotes, if_neg (by simp [hmodel, badGrid_optionalGrid])]
          exact replaceNotes_ne_none (length_movedNotes ..).symm
        · exact (toModelNotes_eq_givenNotes_iff.2 (.inr hkept.1)).trans hgiven
      · obtain ⟨heq, hnarrow⟩ := toModelNotes_of_givenNotes hgiven
        have hnotes : notes ≠ [] := by
          rintro rfl
          exact hgiven rfl
        have hvalues : givenNotes notes = notes.map RawNote.given := by
          unfold givenNotes at hgiven ⊢
          split_ifs at hgiven ⊢ with hall
          · rfl
          · exact absurd rfl hgiven
        rw [if_neg hgiven, heq, and_iff_right hnarrow, or_iff_right hnotes, ← hvalues]
        exact (Option.map_injective fun _ _ => Command.note.inj).eq_iff.trans
          (moveNotes_bmod_eq_iff hgiven (keepsKeys_given hgiven))

/-- **An edit of notes acts on the values that were given exactly if they are kept.** -/
theorem actsOnValues_iff (s : Session) (edit : Edit) :
    s.ActsOnValues edit ↔ s.KeepsValues edit := by
  cases edit with
  | notesMove => exact command_notesMove_eq_iff
  | notesRemove id notes =>
    simp only [ActsOnValues, KeepsValues, reply, replyToValues]
    exact command_editNotes_eq_iff fun _ _ _ => Option.some_ne_none _
  | notesResize id notes lengthDelta snapTicks =>
    simp only [ActsOnValues, KeepsValues, reply, replyToValues]
    refine command_editNotes_eq_iff fun pattern selection hsome => ?_
    rw [resizeNotes, if_neg (by simp [hsome, badGrid_optionalGrid])]
    exact replaceNotes_ne_none (List.length_map _).symm
  | notesDuplicate id notes delta =>
    simp only [ActsOnValues, KeepsValues, reply, replyToValues]
    refine command_editNotes_eq_iff fun pattern selection hsome => ?_
    rw [duplicateNotes, if_neg (by simp [hsome, badGrid])]
    exact Option.some_ne_none _
  | notesSetVelocity id notes velocity =>
    simp only [ActsOnValues, KeepsValues, reply, replyToValues]
    by_cases hrange : velocity < 1 ∨ maxVelocity < velocity
    · simp only [hrange, if_true, true_or]
    · rw [if_neg hrange, if_neg hrange, or_iff_right hrange]
      refine command_editNotes_eq_iff fun pattern selection hsome => ?_
      rw [setNoteVelocity, if_neg (by push Not at hrange; simp [hsome]; omega)]
      exact replaceNotes_ne_none (List.length_map _).symm
  | notesQuantise id notes grid strength =>
    simp only [ActsOnValues, KeepsValues, reply, replyToValues]
    by_cases hrange : grid ≤ 0 ∨ (Double.le 0 strength && strength.le 1) = false
    · -- a NaN passes the first check and fails the second
      refine iff_of_true ?_ (.inl hrange)
      split_ifs with hrefused
      · rfl
      · have hstrength := hrange.resolve_left fun hgrid => hrefused (.inl hgrid)
        have hnone : ∀ (pattern : PatternId) (selection : List Note),
            quantiseNotes pattern id selection { spacing := grid, origin := 0 } strength = none :=
          fun pattern selection => if_pos (.inr (.inr (by rw [hstrength]; rfl)))
        exact (command_of_none hnone).1.trans (command_of_none hnone).2.symm
    · rw [or_iff_right hrange]
      obtain ⟨hgrid, hstrength⟩ := not_or.1 hrange
      have hstrength := Bool.eq_true_of_not_eq_false hstrength
      obtain ⟨hlow, hhigh⟩ := strength_passes hstrength
      have hproceeds : ¬(grid ≤ 0 ∨ strength.lt 0 = true ∨ Double.lt 1 strength = true) := by
        simp [hgrid, hlow, hhigh]
      rw [if_neg hproceeds, if_neg hproceeds]
      refine command_editNotes_eq_iff fun pattern selection hsome => ?_
      rw [quantiseNotes, if_neg]
      · exact replaceNotes_ne_none (List.length_map _).symm
      · push Not at hgrid
        simp [hsome, NoteGrid.valid, hgrid, hstrength]
  | _ => exact iff_of_true rfl trivial

/-- An instrument with a note of middle C. -/
def withMiddleC : List Call :=
  [.edit (.instrumentAddEmpty ⟨7⟩ ⟨8⟩ "Lead") noPlugins,
    .edit (.noteAdd ⟨7⟩ 0 240 60 12000) noPlugins]

/-- The note of key 65596 is none, and middle C is removed for it. -/
theorem notesRemove_wraps : ∃ s,
    system.run (create noPlugins smallIds (.finite 48000)) withMiddleC = some s ∧
      ¬ s.ActsOnValues (.notesRemove ⟨7⟩ [⟨0, 240, 65536 + 60, 12000⟩]) ∧
      (s.project.notesOf ⟨2⟩ ⟨7⟩ = [⟨0, 240, 60, 12000⟩]) ∧
      (s.edit noPlugins (.notesRemove ⟨7⟩ [⟨0, 240, 65536 + 60, 12000⟩])).1 = true ∧
      (s.edit noPlugins (.notesRemove ⟨7⟩
        [⟨0, 240, 65536 + 60, 12000⟩])).2.project.notesOf ⟨2⟩ ⟨7⟩ = [] := by
  refine ⟨_, rfl, fun h => ?_, ?_, ?_, ?_⟩
  · have hsome := congrArg Option.isSome h
    revert hsome
    decide +kernel
  · decide +kernel
  · decide +kernel
  · decide +kernel

end Session

end OneBeat
