import OneBeat.Commands.Command

/-!
# Editing notes

`model/note_edit.cpp`, the vocabulary both note editors share: every edit gives a note command.  A
step is a view of a sequence, the note that starts on a line of a grid.

Ticks saturate at the ends of 64 bits.
-/

namespace OneBeat

def minTicks : ℤ := -2 ^ 63

def addClamped (value delta : ℤ) : ℤ := max minTicks (min maxTicks (value + delta))

theorem addClamped_eq {value delta : ℤ} (hlow : minTicks ≤ value + delta)
    (hhigh : value + delta ≤ maxTicks) : addClamped value delta = value + delta := by
  rw [addClamped, min_eq_right hhigh, max_eq_right hlow]

def subtractClamped (value subtrahend : ℤ) : ℤ :=
  max minTicks (min maxTicks (value - subtrahend))

theorem isValidNote_iff {note : Note} : isValidNote note = true ↔
    0 ≤ note.start ∧ 0 < note.length ∧ 0 ≤ note.key ∧ note.key ≤ 127 ∧
      note.velocity ≤ maxVelocity ∧ note.start + note.length ≤ maxTicks := by
  simp only [isValidNote, Bool.and_eq_true, decide_eq_true_eq, and_assoc]
  omega

def noteEnd (note : Note) : ℤ := addClamped note.start note.length

structure NoteGrid where
  spacing : ℤ := ticksPerQuarter / 4
  origin : ℤ := 0

namespace NoteGrid

variable (grid : NoteGrid)

def valid : Bool := 0 < grid.spacing

/-- The tick of a line of the grid, unless it cannot be counted. -/
def stepOnset (index : ℤ) : Option ℤ :=
  if !grid.valid ∨ index < 0 ∨ maxTicks.tdiv grid.spacing < index then none
  else
    let offset := index * grid.spacing
    if 0 < grid.origin ∧ maxTicks - grid.origin < offset then none
    else if grid.origin + offset < 0 then none
    else some (grid.origin + offset)

/-- The line that is nearest; an exact half goes forward. -/
def snapTick (tick : ℤ) : ℤ :=
  if !grid.valid then tick
  else
    let relative := subtractClamped tick grid.origin
    let remainder := relative.tmod grid.spacing
    let offset := relative.tdiv grid.spacing * grid.spacing
    let snapped :=
      if 0 ≤ remainder then
        if grid.spacing - remainder ≤ remainder then addClamped offset grid.spacing else offset
      else if grid.spacing - -remainder < -remainder then addClamped offset (-grid.spacing)
      else offset
    addClamped grid.origin snapped

end NoteGrid

/-- `std::clamp`. -/
def clampInt (value low high : ℤ) : ℤ :=
  if value < low then low else if high < value then high else value

/-- A transposition that keeps every note on the keyboard. -/
def boundedTranspose (notes : List Note) (requested : ℤ) : ℤ :=
  if notes = [] then 0
  else
    let lowest := notes.foldl (fun lowest note => min lowest note.key) 127
    let highest := notes.foldl (fun highest note => max highest note.key) 0
    clampInt requested (-lowest) (127 - highest)

/-- The notes, moved as a group. -/
def movedNotes (notes : List Note) (delta semitones : ℤ) (grid : Option NoteGrid) : List Note :=
  match notes with
  | [] => []
  | first :: rest =>
    let earliest := rest.foldl (fun earliest note => min earliest note.start) first.start
    let timeDelta :=
      match grid with
      | some grid =>
        if grid.valid then
          subtractClamped (grid.snapTick (addClamped earliest delta)) earliest
        else delta
      | none => delta
    let timeDelta := max timeDelta (-earliest)
    let pitchDelta := boundedTranspose (first :: rest) semitones
    (first :: rest).map fun note =>
      { note with start := addClamped note.start timeDelta, key := note.key + pitchDelta }

/-- A grid that was asked for and makes no sense. -/
def badGrid (grid : Option NoteGrid) : Bool :=
  match grid with
  | some grid => !grid.valid
  | none => false

/-! ### Commands -/

def addNote (project : Tables) (pattern : PatternId) (instrument : InstrumentId)
    (start length key : ℤ) : Option NoteCommand :=
  match project.instruments.get? instrument with
  | none => none
  | some owner =>
    if !project.patterns.contains pattern then none
    else
      let note : Note := { start, length, key, velocity := owner.noteDefaults.velocity }
      if !isValidNote note then none else some (insertNotes pattern instrument [note])

def moveNotes (pattern : PatternId) (instrument : InstrumentId) (selection : List Note)
    (delta semitones : ℤ) (grid : Option NoteGrid) : Option NoteCommand :=
  if selection = [] ∨ badGrid grid then none
  else replaceNotes pattern instrument selection (movedNotes selection delta semitones grid)

/-- The note with its end moved; it keeps a length. -/
def resizedNote (lengthDelta : ℤ) (grid : Option NoteGrid) (note : Note) : Note :=
  let stop := addClamped (noteEnd note) lengthDelta
  let stop :=
    match grid with
    | some grid => grid.snapTick stop
    | none => stop
  { note with length := if stop ≤ note.start then 1 else stop - note.start }

def resizeNotes (pattern : PatternId) (instrument : InstrumentId) (selection : List Note)
    (lengthDelta : ℤ) (grid : Option NoteGrid) : Option NoteCommand :=
  if selection = [] ∨ badGrid grid then none
  else replaceNotes pattern instrument selection (selection.map (resizedNote lengthDelta grid))

def setNoteVelocity (pattern : PatternId) (instrument : InstrumentId) (selection : List Note)
    (velocity : ℕ) : Option NoteCommand :=
  if selection = [] ∨ maxVelocity < velocity then none
  else replaceNotes pattern instrument selection
    (selection.map fun note => { note with velocity })

/-- The start of a note, pulled towards the grid. -/
def quantisedNote (grid : NoteGrid) (strength : Double) (note : Note) : Note :=
  let adjustment :=
    ((Double.ofInt (subtractClamped (grid.snapTick note.start) note.start)).mul strength).llround
  { note with start := max 0 (addClamped note.start adjustment) }

def quantiseNotes (pattern : PatternId) (instrument : InstrumentId) (selection : List Note)
    (grid : NoteGrid) (strength : Double) : Option NoteCommand :=
  -- what is not in the closed unit interval is no strength: a NaN is in no interval
  if selection = [] ∨ !grid.valid ∨ !(Double.le 0 strength && strength.le 1) then none
  else replaceNotes pattern instrument selection (selection.map (quantisedNote grid strength))

def duplicateNotes (pattern : PatternId) (instrument : InstrumentId) (selection : List Note)
    (delta : ℤ) (grid : Option NoteGrid) : Option NoteCommand :=
  if selection = [] ∨ badGrid grid then none
  else some (insertNotes pattern instrument (movedNotes selection delta 0 grid))

/-! ### Steps -/

/-- The notes of a key in a cell of the grid: those on its line, and the others. -/
structure StepCell where
  onGrid : List Note := []
  offGrid : List Note := []

def inspectStep (notes : List Note) (key index : ℤ) (grid : NoteGrid) : StepCell :=
  match grid.stepOnset index with
  | none => {}
  | some start =>
    if key < 0 ∨ 127 < key then {}
    else
      let cell := notes.filter fun note =>
        start ≤ note.start && note.start < addClamped start grid.spacing && note.key = key
      { onGrid := cell.filter fun note => note.start = start
        offGrid := cell.filter fun note => note.start ≠ start }

def toggleStep (project : Tables) (pattern : PatternId) (instrument : InstrumentId)
    (key index : ℤ) (grid : NoteGrid) : Option NoteCommand :=
  match project.patterns.get? pattern, grid.stepOnset index with
  | some owner, some onset =>
    if !project.instruments.contains instrument ∨ key < 0 ∨ 127 < key then none
    else
      let cell := inspectStep (owner.notesOf instrument) key index grid
      if cell.onGrid ≠ [] then some (removeNotes pattern instrument cell.onGrid)
      else addNote project pattern instrument onset grid.spacing key
  | _, _ => none

end OneBeat
