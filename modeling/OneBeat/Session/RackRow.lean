import OneBeat.Commands.StepToggles
import OneBeat.Lib.RunningExtremes
import OneBeat.Session.Clones
import OneBeat.Session.CurrentPattern

/-!
# The row of the rack

A row of the channel rack is another view of a sequence: one pass over the notes that fills 512
cells at most and counts the notes that are in none of them.

* `agrees_rackRow` : the cells are those an edit of a step looks at; the other notes are counted.
* `Session.rack_agrees` : so they are in any session, and an edit of a step changes its cell.
* `Session.toggles_no_step` : a step that there is no cell for can be edited too.
-/

namespace OneBeat

/-! ### The pass over the notes -/

/-- `OB_RACK_MAX_STEPS`. -/
def rackMaxSteps : ℤ := 512

/-- What the rack shows of an instrument. -/
structure RackRow where
  gridTicks : ℤ
  stepCount : ℤ
  /-- Bit 0 of the flags. -/
  hasSequence : Bool := false
  /-- Bit 1 of the flags. -/
  hasOffGrid : Bool := false
  noteCount : ℕ := 0
  offGridCount : ℕ := 0
  stepActive : ℕ → Bool := fun _ => false
  stepVelocity : ℕ → ℕ := fun _ => 0

namespace RackRow

/-- The step that a note of the rack key is on. -/
def stepOf (row : RackRow) (note : Note) : ℤ :=
  if note.key = 60 ∧ note.start.tmod row.gridTicks = 0 then note.start.tdiv row.gridTicks else -1

/-- Take a note in. -/
def takeNote (row : RackRow) (note : Note) : RackRow :=
  let step := row.stepOf note
  if step < 0 ∨ row.stepCount ≤ step then { row with offGridCount := row.offGridCount + 1 }
  else
    { row with
      stepActive := Function.update row.stepActive step.toNat true
      stepVelocity := Function.update row.stepVelocity step.toNat
        (max (row.stepVelocity step.toNat) note.velocity) }

end RackRow

/-- The steps of a pattern on a grid, as far as there is room for them. -/
def rackStepCount (pattern : Pattern) (grid : ℤ) : ℤ :=
  min rackMaxSteps ((patternEffectiveLength pattern + grid - 1).tdiv grid)

/-- The row before any note is taken in. -/
def emptyRow (pattern : Pattern) (grid : ℤ) : RackRow :=
  { gridTicks := grid, stepCount := rackStepCount pattern grid }

/-- `ob_engine_rack_row_at`, of an instrument. -/
def rackRow (pattern : Pattern) (id : InstrumentId) (grid : ℤ) : RackRow :=
  match pattern.sequences.get? id with
  | none => emptyRow pattern grid
  | some sequence =>
    let row := sequence.notes.foldl RackRow.takeNote
      { emptyRow pattern grid with hasSequence := true, noteCount := sequence.notes.length }
    { row with hasOffGrid := row.offGridCount ≠ 0 }

namespace Session

variable (s : Session)

/-- The row of an instrument, in the current pattern. -/
def rackRowOf (id : InstrumentId) : Option RackRow :=
  s.currentPatternOf.map fun current => rackRow current.2 id (s.rackGrid id)

/-- `ob_engine_rack_row_at`. -/
def rackRowAt (index : ℕ) : Option (InstrumentId × RackRow) :=
  (s.orderedInstrument index).bind fun id => (s.rackRowOf id).map (id, ·)

end Session

/-! ### The cells -/

variable {pattern : Pattern} {id : InstrumentId} {grid : ℤ} {notes : List Note}

/-- The greatest velocity of some notes. -/
def loudest (notes : List Note) : ℕ := notes.foldl (fun loudest note => max loudest note.velocity) 0

namespace RackRow

variable {row : RackRow} {note : Note}

/-- The note is in a cell of the row. -/
def shows (row : RackRow) (note : Note) : Bool :=
  0 ≤ row.stepOf note && row.stepOf note < row.stepCount

/-- A note is on a step exactly if it starts on its line. -/
theorem stepOf_eq_iff (hgrid : 0 < row.gridTicks) (i : ℕ) :
    row.stepOf note = i ↔ picks 60 (i * row.gridTicks) note = true := by
  rw [picks, Bool.and_eq_true, decide_eq_true_eq, decide_eq_true_eq, stepOf]
  have hsplit := Int.tdiv_mul_add_tmod note.start row.gridTicks
  constructor
  · intro h
    split_ifs at h with hon
    · rw [hon.2, add_zero, h] at hsplit
      exact ⟨hon.1, hsplit.symm⟩
  · rintro ⟨hkey, hstart⟩
    rw [hstart, Int.mul_tmod_left, if_pos ⟨hkey, rfl⟩, Int.mul_tdiv_cancel _ hgrid.ne']

theorem takeNote_of_shows (h : row.shows note = true) :
    row.takeNote note = { row with
      stepActive := Function.update row.stepActive (row.stepOf note).toNat true
      stepVelocity := Function.update row.stepVelocity (row.stepOf note).toNat
        (max (row.stepVelocity (row.stepOf note).toNat) note.velocity) } := by
  simp only [shows, Bool.and_eq_true, decide_eq_true_eq] at h
  exact if_neg (by omega)

theorem takeNote_of_not_shows (h : row.shows note = false) :
    row.takeNote note = { row with offGridCount := row.offGridCount + 1 } := by
  simp only [shows, Bool.and_eq_false_iff, decide_eq_false_iff_not] at h
  exact if_pos (by omega)

theorem frame_takeNote (row : RackRow) (note : Note) :
    (row.takeNote note).gridTicks = row.gridTicks ∧
      (row.takeNote note).stepCount = row.stepCount := by
  unfold takeNote
  dsimp only
  split_ifs <;> exact ⟨rfl, rfl⟩

theorem stepCount_foldl (notes : List Note) (row : RackRow) :
    (notes.foldl takeNote row).stepCount = row.stepCount := by
  induction notes generalizing row with
  | nil => rfl
  | cons note notes ih => exact (ih _).trans (frame_takeNote row note).2

@[simp] theorem stepOf_takeNote (other : Note) :
    (row.takeNote other).stepOf note = row.stepOf note := by
  rw [stepOf, (frame_takeNote row other).1, stepOf]

@[simp] theorem shows_takeNote (other : Note) :
    (row.takeNote other).shows note = row.shows note := by
  rw [shows, stepOf_takeNote, (frame_takeNote row other).2, shows]

/-- The note is in a cell. -/
def showsAt (row : RackRow) (i : ℕ) (note : Note) : Bool :=
  row.shows note && row.stepOf note = i

theorem stepOf_toNat (h : row.shows note = true) (i : ℕ) :
    i = (row.stepOf note).toNat ↔ row.stepOf note = i := by
  simp only [shows, Bool.and_eq_true, decide_eq_true_eq] at h
  omega

/-- The pass counts the notes that it does not show. -/
theorem offGridCount_foldl (notes : List Note) (row : RackRow) :
    (notes.foldl takeNote row).offGridCount =
      row.offGridCount + notes.countP fun note => !row.shows note := by
  induction notes generalizing row with
  | nil => rfl
  | cons note notes ih =>
    rw [List.foldl_cons, ih, List.countP_cons]
    simp only [shows_takeNote]
    cases hshows : row.shows note with
    | true =>
      rw [takeNote_of_shows hshows]
      rfl
    | false =>
      rw [takeNote_of_not_shows hshows]
      simp only [Bool.not_false, if_true]
      omega

/-- The pass fills a cell with the notes that it shows there. -/
theorem cell_foldl (notes : List Note) (row : RackRow) (i : ℕ) :
    (notes.foldl takeNote row).stepActive i =
        (row.stepActive i || !(notes.filter (row.showsAt i)).isEmpty) ∧
      (notes.foldl takeNote row).stepVelocity i =
        (notes.filter (row.showsAt i)).foldl (fun loudest note => max loudest note.velocity)
          (row.stepVelocity i) := by
  induction notes generalizing row with
  | nil => simp
  | cons note notes ih =>
    have hsame : (row.takeNote note).showsAt i = row.showsAt i := by
      funext other
      rw [showsAt, shows_takeNote, stepOf_takeNote, showsAt]
    rw [List.foldl_cons, (ih _).1, (ih _).2, hsame]
    by_cases hat : row.showsAt i note = true
    · rw [List.filter_cons_of_pos hat, List.foldl_cons]
      rw [showsAt, Bool.and_eq_true, decide_eq_true_eq] at hat
      rw [takeNote_of_shows hat.1]
      have hcell := (stepOf_toNat hat.1 i).2 hat.2
      dsimp only
      rw [← hcell, Function.update_self, Function.update_self]
      simp
    · rw [List.filter_cons_of_neg hat]
      cases hshows : row.shows note with
      | true =>
        have hother : i ≠ (row.stepOf note).toNat := fun hcell =>
          hat (by rw [showsAt, hshows, (stepOf_toNat hshows i).1 hcell]; simp)
        rw [takeNote_of_shows hshows]
        dsimp only
        rw [Function.update_of_ne hother, Function.update_of_ne hother]
        exact ⟨rfl, rfl⟩
      | false =>
        rw [takeNote_of_not_shows hshows]
        exact ⟨rfl, rfl⟩

end RackRow

/-! ### The notes of a cell -/

/-- The notes are those of a sequence that is stored. -/
def StoredNotes (notes : List Note) : Prop := ∀ note ∈ notes, isValidNote note = true

/-- The notes that start on a line of the grid, as far as there are cells. -/
def cellNotes (notes : List Note) (grid : ℤ) (i : ℕ) : List Note :=
  if (i : ℤ) < rackMaxSteps then notes.filter (picks 60 (i * grid)) else []

/-- A note that no cell shows. -/
def offCells (grid : ℤ) (note : Note) : Bool :=
  decide (∀ i < rackMaxSteps.toNat, picks 60 (i * grid) note = false)

/-- A pattern plays on until its last note has ended. -/
theorem end_le_patternEffectiveLength {note : Note} (hnote : note ∈ pattern.notesOf id) :
    note.start + note.length ≤ patternEffectiveLength pattern := by
  unfold Pattern.notesOf at hnote
  cases hsequence : pattern.sequences.get? id with
  | none => simp [hsequence] at hnote
  | some sequence =>
    simp only [hsequence, Option.map_some, Option.getD_some] at hnote
    have hend : note.start + note.length ≤ sequence.contentEnd :=
      (le_foldl_max (f := fun note : Note => note.start + note.length)).2 note hnote
    have hcontent : sequence.contentEnd ≤ patternContentEnd pattern :=
      (le_foldl_max (f := fun entry : InstrumentId × NoteSequence => entry.2.contentEnd)).2
        (id, sequence) (OrderedMap.get?_eq_some_iff.1 hsequence)
    have hbar : ticksPerBarFourFour = 3840 := rfl
    unfold patternEffectiveLength patternLoopLength
    simp only [hbar]
    split_ifs <;> omega

/-- What starts before the end of the pattern has a step there. -/
theorem lt_rackStepCount_iff (hgrid : 0 < grid) {i : ℕ}
    (hstart : i * grid < patternEffectiveLength pattern) :
    (i : ℤ) < rackStepCount pattern grid ↔ (i : ℤ) < rackMaxSteps := by
  have hlength := Tables.patternEffectiveLength_pos pattern
  have hcount : (i : ℤ) < (patternEffectiveLength pattern + grid - 1).tdiv grid := by
    rw [Int.tdiv_eq_ediv_of_nonneg (by omega), ← Int.add_one_le_iff, Int.le_ediv_iff_mul_le hgrid,
      add_mul, one_mul]
    omega
  rw [rackStepCount, lt_min_iff, and_iff_left hcount]

theorem onGrid_of_stored (hgrid : 0 < grid) (hstored : StoredNotes notes) (i : ℕ) :
    (inspectStep notes 60 i { spacing := grid, origin := 0 }).onGrid =
      notes.filter (picks 60 (i * grid)) := by
  -- a note does not start where ticks end
  have hbefore : ∀ note ∈ notes, note.start < maxTicks := fun note hnote => by
    have := isValidNote_iff.1 (hstored note hnote)
    omega
  have hnone : maxTicks ≤ i * grid → notes.filter (picks 60 (i * grid)) = [] := fun hlate =>
    List.filter_eq_nil_iff.2 fun note hnote hpicks => by
      simp only [picks, Bool.and_eq_true, decide_eq_true_eq] at hpicks
      have := hbefore note hnote
      omega
  cases honset : NoteGrid.stepOnset { spacing := grid, origin := 0 } i with
  | none =>
    have hlate : maxTicks ≤ i * grid := by
      by_contra hearly
      have hquotient : (i : ℤ) ≤ maxTicks.tdiv grid := by
        rw [Int.tdiv_eq_ediv_of_nonneg (by decide), Int.le_ediv_iff_mul_le hgrid]
        omega
      have hnonneg : (0 : ℤ) ≤ i * grid := by positivity
      unfold NoteGrid.stepOnset at honset
      rw [if_neg (by simp [NoteGrid.valid, hgrid, hquotient])] at honset
      dsimp only at honset
      split_ifs at honset <;> omega
    rw [hnone hlate, inspectStep, honset]
  | some onset =>
    obtain ⟨-, -, heq, -⟩ := stepOnset_eq_some honset
    simp only [zero_add] at heq
    subst heq
    by_cases hlate : maxTicks ≤ i * grid
    · have hlast : addClamped (i * grid) grid = maxTicks := by
        rw [addClamped, min_eq_left (by omega)]
        rfl
      rw [hnone hlate, inspectStep, honset]
      dsimp only
      split_ifs
      · rfl
      · dsimp only
        rw [hlast, List.filter_filter, List.filter_eq_nil_iff]
        intro note hnote
        have := hbefore note hnote
        simp only [Bool.and_eq_true, decide_eq_true_eq]
        omega
    · exact onGrid_eq honset (by omega) (by rw [addClamped, minTicks]; simp only; omega) notes

/-! ### The row -/

theorem stepCount_rackRow (pattern : Pattern) (id : InstrumentId) (grid : ℤ) :
    (rackRow pattern id grid).stepCount = rackStepCount pattern grid := by
  unfold rackRow
  cases pattern.sequences.get? id with
  | none => rfl
  | some sequence => exact (RackRow.stepCount_foldl _ _)

/-- The row counts the notes that it does not show. -/
theorem offGridCount_rackRow (pattern : Pattern) (id : InstrumentId) (grid : ℤ) :
    (rackRow pattern id grid).offGridCount =
      (pattern.notesOf id).countP fun note => !(emptyRow pattern grid).shows note := by
  unfold rackRow Pattern.notesOf
  cases pattern.sequences.get? id with
  | none => rfl
  | some sequence =>
    exact (RackRow.offGridCount_foldl _ _).trans (Nat.zero_add _)

/-- A cell of the row holds the notes that are shown there. -/
theorem cell_rackRow (pattern : Pattern) (id : InstrumentId) (grid : ℤ) (i : ℕ) :
    (rackRow pattern id grid).stepActive i =
        !((pattern.notesOf id).filter ((emptyRow pattern grid).showsAt i)).isEmpty ∧
      (rackRow pattern id grid).stepVelocity i =
        loudest ((pattern.notesOf id).filter ((emptyRow pattern grid).showsAt i)) := by
  unfold rackRow Pattern.notesOf
  cases pattern.sequences.get? id with
  | none => exact ⟨rfl, rfl⟩
  | some sequence => exact RackRow.cell_foldl sequence.notes _ i

theorem start_lt_of_stored {note : Note} (hnote : note ∈ pattern.notesOf id)
    (hvalid : isValidNote note = true) {i : ℕ} (hpicks : picks 60 (i * grid) note = true) :
    i * grid < patternEffectiveLength pattern := by
  have hend := end_le_patternEffectiveLength hnote
  have := isValidNote_iff.1 hvalid
  simp only [picks, Bool.and_eq_true, decide_eq_true_eq] at hpicks
  omega

/-- A note that is stored is shown in the cell of its line. -/
theorem showsAt_emptyRow (hgrid : 0 < grid) {note : Note} (hnote : note ∈ pattern.notesOf id)
    (hvalid : isValidNote note = true) (i : ℕ) :
    (emptyRow pattern grid).showsAt i note =
      (decide ((i : ℤ) < rackMaxSteps) && picks 60 (i * grid) note) := by
  have hstep : (emptyRow pattern grid).stepOf note = i ↔ picks 60 (i * grid) note = true :=
    RackRow.stepOf_eq_iff hgrid i
  rw [RackRow.showsAt, RackRow.shows, Bool.eq_iff_iff]
  simp only [Bool.and_eq_true, decide_eq_true_eq]
  constructor
  · rintro ⟨⟨-, hcount⟩, hat⟩
    rw [hat] at hcount
    exact ⟨lt_of_lt_of_le hcount (min_le_left _ _), hstep.1 hat⟩
  · rintro ⟨hroom, hpicks⟩
    have hat := hstep.2 hpicks
    have hcount : (i : ℤ) < (emptyRow pattern grid).stepCount :=
      (lt_rackStepCount_iff hgrid (start_lt_of_stored hnote hvalid hpicks)).2 hroom
    rw [hat]
    exact ⟨⟨by omega, hcount⟩, rfl⟩

/-- **The cells of a row are filled by the notes on their lines**, and the other notes are
counted. -/
theorem rackRow_spec (hgrid : 0 < grid) (hstored : StoredNotes (pattern.notesOf id)) :
    (∀ i, (rackRow pattern id grid).stepActive i =
        !(cellNotes (pattern.notesOf id) grid i).isEmpty ∧
      (rackRow pattern id grid).stepVelocity i =
        loudest (cellNotes (pattern.notesOf id) grid i)) ∧
      (rackRow pattern id grid).offGridCount =
        (pattern.notesOf id).countP (offCells grid) := by
  have hcell : ∀ i, (pattern.notesOf id).filter ((emptyRow pattern grid).showsAt i) =
      cellNotes (pattern.notesOf id) grid i := by
    intro i
    have hshows := fun note hnote => showsAt_emptyRow hgrid hnote (hstored note hnote) i
    rw [cellNotes, List.filter_congr hshows]
    split_ifs with hroom
    · simp [hroom]
    · simp [hroom]
  refine ⟨fun i => ?_, ?_⟩
  · rw [← hcell]
    exact cell_rackRow pattern id grid i
  · rw [offGridCount_rackRow]
    refine List.countP_congr fun note hnote => ?_
    have hshows := showsAt_emptyRow hgrid hnote (hstored note hnote)
    rw [Bool.not_eq_true', offCells, decide_eq_true_eq]
    constructor
    · intro hhidden i hi
      have hat := hshows i
      rw [RackRow.showsAt, hhidden, Bool.false_and,
        decide_eq_true (by have : rackMaxSteps = 512 := rfl; omega), Bool.true_and] at hat
      exact hat.symm
    · intro hoff
      by_contra hshown
      have hshown := Bool.eq_true_of_not_eq_false hshown
      have hat := hshows ((emptyRow pattern grid).stepOf note).toNat
      rw [RackRow.showsAt, hshown, Bool.true_and,
        decide_eq_true ((RackRow.stepOf_toNat hshown _).1 rfl), eq_comm, Bool.and_eq_true,
        decide_eq_true_eq] at hat
      have hempty := hoff ((emptyRow pattern grid).stepOf note).toNat
        (by have := hat.1; omega)
      rw [hat.2] at hempty
      cases hempty

/-- A row shows what the edits of its steps look at: a step is active if its cell of the grid is, as
loud as the loudest note there, and the notes that are in none of these cells are counted. -/
structure RackRow.Agrees (row : RackRow) (notes : List Note) (grid : ℤ) : Prop where
  active : ∀ i : ℕ, (i : ℤ) < row.stepCount →
    row.stepActive i = (inspectStep notes 60 i { spacing := grid, origin := 0 }).active
  velocity : ∀ i : ℕ, (i : ℤ) < row.stepCount →
    row.stepVelocity i = loudest (inspectStep notes 60 i { spacing := grid, origin := 0 }).onGrid
  offGrid : row.offGridCount = notes.countP fun note => ∀ i < row.stepCount.toNat,
    note ∉ (inspectStep notes 60 i { spacing := grid, origin := 0 }).onGrid

/-- **The view agrees with the edits.** -/
theorem agrees_rackRow (hgrid : 0 < grid) (hstored : StoredNotes (pattern.notesOf id)) :
    (rackRow pattern id grid).Agrees (pattern.notesOf id) grid := by
  obtain ⟨hcells, hoff⟩ := rackRow_spec hgrid hstored
  have honGrid : ∀ i : ℕ, (i : ℤ) < (rackRow pattern id grid).stepCount →
      cellNotes (pattern.notesOf id) grid i =
        (inspectStep (pattern.notesOf id) 60 i { spacing := grid, origin := 0 }).onGrid := by
    intro i hi
    rw [stepCount_rackRow] at hi
    rw [onGrid_of_stored hgrid hstored, cellNotes, if_pos (lt_of_lt_of_le hi (min_le_left _ _))]
  constructor
  · intro i hi
    rw [(hcells i).1, honGrid i hi]
    rfl
  · intro i hi
    rw [(hcells i).2, honGrid i hi]
  · rw [hoff]
    refine List.countP_congr fun note hnote => ?_
    rw [offCells, decide_eq_true_eq, decide_eq_true_eq, stepCount_rackRow]
    have hmem : ∀ i : ℕ, note ∉ (inspectStep (pattern.notesOf id) 60 i
        { spacing := grid, origin := 0 }).onGrid ↔ picks 60 (i * grid) note = false := fun i => by
      rw [onGrid_of_stored hgrid hstored, List.mem_filter, and_iff_right hnote, Bool.not_eq_true]
    have hroom : rackStepCount pattern grid ≤ rackMaxSteps := min_le_left _ _
    constructor
    · intro hnone i hi
      exact (hmem i).2 (hnone i (by omega))
    · -- where a note starts there is a step
      intro hnone i hi
      by_contra hpicks
      have hpicks := Bool.eq_true_of_not_eq_false hpicks
      have hstart := start_lt_of_stored hnote (hstored note hnote) hpicks
      have hcount := (lt_rackStepCount_iff hgrid hstart).2 (by omega)
      have hempty := (hmem i).1 (hnone i (by omega))
      rw [hpicks] at hempty
      cases hempty

/-! ### Edits of steps -/

variable {before after : List Note} {step : ℤ}

theorem picks_eq_false_of_ne {key onset onset' : ℤ} {note : Note} (hne : onset ≠ onset')
    (h : picks key onset note = true) : picks key onset' note = false := by
  simp only [picks, Bool.and_eq_true, decide_eq_true_eq] at h
  rw [picks, Bool.and_eq_false_iff, decide_eq_false_iff_not, decide_eq_false_iff_not, h.2]
  exact .inr hne

/-- The other cells hold what they held. -/
theorem Unchanged.cellNotes (hgrid : 0 < grid) (h : Unchanged 60 (step * grid) before after)
    {i : ℕ} (hne : (i : ℤ) ≠ step) :
    OneBeat.cellNotes after grid i = OneBeat.cellNotes before grid i := by
  unfold OneBeat.cellNotes
  split_ifs
  · exact h _ fun note hpicks =>
      picks_eq_false_of_ne (fun heq => hne (mul_right_cancel₀ hgrid.ne' heq)) hpicks
  · rfl

/-- As many notes are in no cell. -/
theorem Unchanged.countP_offCells (h : Unchanged 60 (step * grid) before after)
    (hroom : step < rackMaxSteps) (hstep : 0 ≤ step) :
    after.countP (offCells grid) = before.countP (offCells grid) := by
  rw [List.countP_eq_length_filter, List.countP_eq_length_filter]
  refine congrArg List.length (h _ fun note hoff => ?_)
  rw [offCells, decide_eq_true_eq] at hoff
  have hcell := hoff step.toNat (by omega)
  rwa [Int.toNat_of_nonneg hstep] at hcell

namespace Session

variable {s : Session} {host : InstrumentId → HostAnswer}

/-- A publish shows the rack as it was. -/
theorem rack_publishModel (host : InstrumentId → HostAnswer) (s : Session) :
    (s.publishModel host).currentPattern = s.currentPattern ∧
      (s.publishModel host).rackGrids = s.rackGrids ∧
      (s.publishModel host).project.patterns = s.project.patterns := by
  obtain ⟨names, hproject⟩ := s.project_publishModel host false
  obtain ⟨instruments, hnamed⟩ := nameLanes_eq names (s.project.setLengths s.fittedClips)
  obtain ⟨_, _, _, _, _, hflush⟩ := s.fitClipsToPatterns.flush_eq
  refine ⟨?_, ?_, ?_⟩
  · unfold publishModel
    rw [hflush]
    rfl
  · unfold publishModel
    rw [hflush]
    rfl
  · rw [hproject, hnamed, Tables.setLengths_eq]
    rfl

/-- What a note command leaves of the rack. -/
theorem rack_executeModel (host : InstrumentId → HostAnswer) (s : Session)
    (command : NoteCommand) :
    let after := s.executeModel host (some (.note command))
    after.1 = (command.apply s.project).ok ∧ after.2.currentPattern = s.currentPattern ∧
      after.2.rackGrids = s.rackGrids ∧
      after.2.project.patterns = (command.apply s.project).state.patterns := by
  obtain ⟨hok, hproject⟩ := execute_some s (.note command)
  obtain ⟨hcurrent, hgrids, hpatterns⟩ :=
    rack_publishModel host (s.execute (some (.note command))).2
  have hfst : ((Command.note command).apply s.project).ok = (command.apply s.project).ok := rfl
  have hstate : ((Command.note command).apply s.project).state =
      (command.apply s.project).state := rfl
  rw [hfst] at hok
  rw [hstate] at hproject
  unfold executeModel
  dsimp only
  split_ifs with hdone
  · exact ⟨hdone.symm.trans hok, hcurrent.trans rfl, hgrids.trans rfl,
      hpatterns.trans (congrArg Tables.patterns hproject)⟩
  · exact ⟨hok, rfl, rfl, congrArg Tables.patterns hproject⟩

/-! ### The rows after an edit -/

/-- The notes of the current pattern are stored notes. -/
def NotesStored (s : Session) : Prop := ∀ patternId pattern,
  s.currentPatternOf = some (patternId, pattern) → ∀ id, StoredNotes (pattern.notesOf id)

/-- One step of one row has changed at most: in every row, the other cells and the number of notes
that are in none are what they were. -/
def ChangesStep (s s' : Session) (id : InstrumentId) (step : ℤ) : Prop :=
  ∀ other row, s.rackRowOf other = some row → ∃ row', s'.rackRowOf other = some row' ∧
    row'.offGridCount = row.offGridCount ∧
    ∀ i : ℕ, (other, (i : ℤ)) ≠ (id, step) →
      row'.stepActive i = row.stepActive i ∧ row'.stepVelocity i = row.stepVelocity i

/-- Only notes of the rack key on the line of a step have changed, and they are notes. -/
structure StepEdited (s s' : Session) (id : InstrumentId) (step : ℤ) (pattern pattern' : Pattern) :
    Prop where
  current : ∃ patternId, s.currentPatternOf = some (patternId, pattern) ∧
    s'.currentPatternOf = some (patternId, pattern')
  grids : ∀ other, s'.rackGrid other = s.rackGrid other
  others : ∀ other, other ≠ id → pattern'.notesOf other = pattern.notesOf other
  unchanged : Unchanged 60 (step * s.rackGrid id) (pattern.notesOf id) (pattern'.notesOf id)
  stored : StoredNotes (pattern'.notesOf id)

variable {s' : Session} {step : ℤ} {pattern' : Pattern}

theorem rackRowOf_eq {patternId : PatternId}
    (hcurrent : s.currentPatternOf = some (patternId, pattern)) (id : InstrumentId) :
    s.rackRowOf id = some (rackRow pattern id (s.rackGrid id)) := by
  rw [rackRowOf, hcurrent]
  rfl

theorem StepEdited.changesStep (h : StepEdited s s' id step pattern pattern')
    (hgrids : ∀ id, 0 < s.rackGrid id) (hstored : ∀ id, StoredNotes (pattern.notesOf id))
    (hstep : 0 ≤ step) (hroom : step < rackMaxSteps) : ChangesStep s s' id step := by
  obtain ⟨patternId, hcurrent, hcurrent'⟩ := h.current
  intro other row hrow
  rw [rackRowOf_eq hcurrent, Option.some_inj] at hrow
  subst hrow
  refine ⟨_, rackRowOf_eq hcurrent' other, ?_⟩
  rw [h.grids]
  obtain ⟨hcells, hoff⟩ := rackRow_spec (hgrids other) (hstored other)
  by_cases hother : other = id
  · subst hother
    obtain ⟨hcells', hoff'⟩ := rackRow_spec (hgrids other) h.stored
    refine ⟨?_, fun i hne => ?_⟩
    · rw [hoff', hoff, h.unchanged.countP_offCells hroom hstep]
    · have hcell := h.unchanged.cellNotes (hgrids other) (i := i) fun heq => hne (by rw [heq])
      rw [(hcells' i).1, (hcells' i).2, (hcells i).1, (hcells i).2, hcell]
      exact ⟨rfl, rfl⟩
  · -- the notes of the other rows are what they were
    have hsame := h.others other hother
    have hstored' : StoredNotes (pattern'.notesOf other) := by
      rw [hsame]
      exact hstored other
    obtain ⟨hcells', hoff'⟩ := rackRow_spec (hgrids other) hstored'
    refine ⟨?_, fun i _ => ?_⟩
    · rw [hoff', hoff, hsame]
    · rw [(hcells' i).1, (hcells' i).2, (hcells i).1, (hcells i).2, hsame]
      exact ⟨rfl, rfl⟩

theorem currentPatternOf_eq_some {patternId : PatternId} :
    s.currentPatternOf = some (patternId, pattern) ↔
      s.currentPattern = some patternId ∧ s.project.patterns.get? patternId = some pattern := by
  rw [currentPatternOf, Option.bind_eq_some_iff]
  constructor
  · rintro ⟨current, hcurrent, hfound⟩
    obtain ⟨found, hget, heq⟩ := Option.map_eq_some_iff.1 hfound
    cases heq
    exact ⟨hcurrent, hget⟩
  · rintro ⟨hcurrent, hget⟩
    exact ⟨patternId, hcurrent, by rw [hget]; rfl⟩

/-- A note command of the current pattern that was executed. -/
theorem stepEdited_executeModel {command : NoteCommand}
    (hdone : (s.executeModel host (some (.note command))).1 = true)
    (hcurrent : s.currentPatternOf = some (command.pattern, pattern))
    (hstored : StoredNotes (pattern.notesOf command.instrument))
    (hunchanged : Unchanged 60 (step * s.rackGrid command.instrument)
      (s.project.notesOf command.pattern command.instrument)
      ((command.apply s.project).state.notesOf command.pattern command.instrument)) :
    ∃ pattern', StepEdited s (s.executeModel host (some (.note command))).2 command.instrument step
        pattern pattern' ∧
      pattern'.notesOf command.instrument =
        (command.apply s.project).state.notesOf command.pattern command.instrument := by
  obtain ⟨hok, hpattern', hgrids, hpatterns⟩ := rack_executeModel host s command
  rw [hok] at hdone
  obtain ⟨hselected, hget⟩ := currentPatternOf_eq_some.1 hcurrent
  obtain ⟨hnotes, hothers⟩ := NoteCommand.notesOf_apply hdone
  obtain ⟨owner, howner, happlies⟩ := NoteCommand.apply_ok_iff.1 hdone
  obtain rfl : pattern = owner := Option.some_inj.1 (hget.symm.trans howner)
  -- the pattern is still there
  have hafter : ∃ pattern', (command.apply s.project).state.patterns.get? command.pattern =
      some pattern' := by
    rw [NoteCommand.apply_eq howner happlies]
    exact ⟨_, Tables.get?_withNotes howner command.instrument (command.edited pattern)⟩
  obtain ⟨pattern', hafter⟩ := hafter
  have hnotes' := notesOf_of_get? hafter
  have hbefore := notesOf_of_get? hget
  refine ⟨pattern', ⟨⟨command.pattern, hcurrent, ?_⟩, fun other => ?_, fun other hne => ?_, ?_, ?_⟩,
    (hnotes' _).symm⟩
  · exact currentPatternOf_eq_some.2 ⟨hpattern'.trans hselected, by rw [hpatterns, hafter]⟩
  · rw [rackGrid, hgrids, rackGrid]
  · rw [← hnotes', ← hbefore]
    exact hothers _ _ fun heq => hne (congrArg Prod.snd heq)
  · rw [← hnotes', ← hbefore]
    exact hunchanged
  · intro note hnote
    rw [← hnotes', hnotes, hbefore] at hnote
    rcases List.mem_append.1 ((perm_stableSort _).subset hnote) with hold | hnew
    · exact hstored note (List.diff_subset _ _ hold)
    · exact happlies.2.2 note hnew

/-- The notes of the rack key that start on the line of a step. -/
def lineOf (notes : List Note) (grid step : ℤ) : List Note := notes.filter (picks 60 (step * grid))

theorem executeModel_none : (s.executeModel host none).1 = false := rfl

/-- A step that was toggled. -/
theorem stepEdited_toggle (hdone : (s.edit host (.rackToggleStep id step)).1 = true)
    (hstored : s.NotesStored) :
    0 ≤ step ∧ ∃ pattern pattern',
      StepEdited s (s.edit host (.rackToggleStep id step)).2 id step pattern pattern' ∧
      (lineOf (pattern'.notesOf id) (s.rackGrid id) step).isEmpty =
        !(lineOf (pattern.notesOf id) (s.rackGrid id) step).isEmpty := by
  unfold edit reply rackToggleStep at hdone ⊢
  cases hcurrent : s.currentPatternOf with
  | none => simp [hcurrent] at hdone
  | some current =>
    obtain ⟨patternId, pattern⟩ := current
    simp only [hcurrent] at hdone ⊢
    split_ifs at hdone ⊢ with hrefused
    cases htoggle : toggleStep s.project patternId id 60 step
        { spacing := s.rackGrid id, origin := 0 } with
    | none => simp [htoggle, executeModel_none] at hdone
    | some command =>
      simp only [htoggle, Option.map_some] at hdone ⊢
      obtain ⟨onset, honset, hkey, hpattern, hinstrument, htoggles⟩ := toggleStep_eq_some htoggle
      obtain ⟨-, hstep, honset', -⟩ := stepOnset_eq_some honset
      simp only [zero_add] at honset'
      subst honset'
      obtain ⟨-, hunchanged, -, hline⟩ :=
        notesOf_toggled hpattern hinstrument honset hkey htoggles
      have hplace : command.pattern = patternId ∧ command.instrument = id := by
        cases htoggles <;> exact ⟨rfl, rfl⟩
      obtain ⟨rfl, rfl⟩ := hplace
      obtain ⟨pattern', hedited, hnotes⟩ := stepEdited_executeModel hdone hcurrent
        (hstored _ _ hcurrent _) hunchanged
      refine ⟨hstep, pattern, pattern', hedited, ?_⟩
      rw [lineOf, lineOf, hnotes, ← notesOf_of_get? (currentPatternOf_eq_some.1 hcurrent).2]
      rcases hline with ⟨hbefore, hafter⟩ | ⟨hbefore, note, hnote, hafter⟩
      · rw [hafter, List.isEmpty_eq_false_iff.2 hbefore]
        rfl
      · rw [hbefore, hafter, filter_stableSort, List.filter_append, hbefore, List.nil_append,
          List.filter_cons_of_pos hnote]
        rfl

/-- Notes that are as loud. -/
theorem loudest_of_all {velocity : ℕ} (hsome : notes ≠ [])
    (hall : ∀ note ∈ notes, note.velocity = velocity) : loudest notes = velocity := by
  refine le_antisymm (foldl_max_le_iff.2 ⟨Nat.zero_le _, fun note hnote => (hall note hnote).le⟩) ?_
  obtain ⟨note, hnote⟩ := List.exists_mem_of_ne_nil _ hsome
  rw [← hall note hnote]
  exact (le_foldl_max (f := Note.velocity)).2 note hnote

/-- The notes of a sequence, once the velocity of those on a line is set. -/
def withLineVelocity (notes : List Note) (key onset : ℤ) (velocity : ℕ) : List Note :=
  let line := notes.filter (picks key onset)
  stableSort (notes.diff (stableSort line) ++
    stableSort (line.map fun note => { note with velocity }))

theorem withLineVelocity_eq (hsorted : before.Pairwise Note.le) (key onset : ℤ) (velocity : ℕ) :
    withLineVelocity before key onset velocity =
      stableSort ((before.filter fun note => !picks key onset note) ++
        stableSort ((before.filter (picks key onset)).map fun note => { note with velocity })) := by
  have hline : stableSort (before.filter (picks key onset)) = before.filter (picks key onset) :=
    List.Pairwise.insertionSort_eq (hsorted.filter _)
  simp only [withLineVelocity, hline, diff_filter]

/-- Setting the velocity of the notes on a line leaves the others. -/
theorem unchanged_withLineVelocity (hsorted : before.Pairwise Note.le) (key onset : ℤ)
    (velocity : ℕ) :
    Unchanged key onset before (withLineVelocity before key onset velocity) := by
  rw [withLineVelocity_eq hsorted]
  intro others hothers
  have hset : (stableSort ((before.filter (picks key onset)).map
      fun note => { note with velocity })).filter others = [] := by
    refine List.filter_eq_nil_iff.2 fun note hnote hother => ?_
    obtain ⟨old, hold, rfl⟩ := List.mem_map.1 ((perm_stableSort _).subset hnote)
    have hpicked : picks key onset old = true := (List.mem_filter.1 hold).2
    have hnot := hothers _ hother
    rw [picks] at hnot hpicked
    rw [hpicked] at hnot
    cases hnot
  rw [filter_stableSort, List.filter_append, hset, List.append_nil, List.filter_filter]
  have hrest : (before.filter fun note => others note && !picks key onset note) =
      before.filter others := by
    refine List.filter_congr fun note _ => ?_
    cases hother : others note with
    | false => rfl
    | true => rw [hothers note hother]; rfl
  rw [hrest]
  exact List.Pairwise.insertionSort_eq (hsorted.filter _)

/-- The notes on the line have the velocity. -/
theorem filter_withLineVelocity (hsorted : before.Pairwise Note.le) (key onset : ℤ)
    (velocity : ℕ) (hsome : before.filter (picks key onset) ≠ []) :
    (withLineVelocity before key onset velocity).filter (picks key onset) ≠ [] ∧
      ∀ note ∈ (withLineVelocity before key onset velocity).filter (picks key onset),
        note.velocity = velocity := by
  rw [withLineVelocity_eq hsorted]
  constructor
  · obtain ⟨old, hold⟩ := List.exists_mem_of_ne_nil _ hsome
    refine List.ne_nil_of_mem (List.mem_filter.2 ⟨(perm_stableSort _).symm.subset
      (List.mem_append_right _ ((perm_stableSort _).symm.subset (List.mem_map_of_mem hold))), ?_⟩)
    exact (List.mem_filter.1 hold).2
  · intro note hnote
    obtain ⟨hmem, hpicked⟩ := List.mem_filter.1 hnote
    rcases List.mem_append.1 ((perm_stableSort _).subset hmem) with hother | hset
    · rw [List.mem_filter, hpicked] at hother
      cases hother.2
    · obtain ⟨old, -, rfl⟩ := List.mem_map.1 ((perm_stableSort _).subset hset)
      rfl

theorem setNoteVelocity_eq {patternId : PatternId} {selection : List Note} {velocity : ℕ}
    (hsome : selection ≠ []) (hvelocity : velocity ≤ maxVelocity) :
    setNoteVelocity patternId id selection velocity = some
      { pattern := patternId, instrument := id, removed := stableSort selection
        added := stableSort (selection.map fun note => { note with velocity })
        coalescable := true } := by
  rw [setNoteVelocity, if_neg (by simp [hsome, hvelocity]), replaceNotes,
    if_neg (not_not.2 (List.length_map _).symm)]

/-- A step whose velocity was set. -/
theorem stepEdited_setVelocity {velocity : ℕ}
    (hdone : (s.edit host (.rackSetStepVelocity id step velocity)).1 = true)
    (hgrids : ∀ id, 0 < s.rackGrid id) (hstored : s.NotesStored) :
    0 ≤ step ∧ ∃ pattern pattern',
      StepEdited s (s.edit host (.rackSetStepVelocity id step velocity)).2 id step pattern
        pattern' ∧
      lineOf (pattern'.notesOf id) (s.rackGrid id) step ≠ [] ∧
      ∀ note ∈ lineOf (pattern'.notesOf id) (s.rackGrid id) step, note.velocity = velocity := by
  unfold edit reply rackSetStepVelocity at hdone ⊢
  cases hcurrent : s.currentPatternOf with
  | none => simp [hcurrent] at hdone
  | some current =>
    obtain ⟨patternId, pattern⟩ := current
    simp only [hcurrent] at hdone ⊢
    obtain ⟨hselected, hget⟩ := currentPatternOf_eq_some.1 hcurrent
    have hnotes := notesOf_of_get? hget id
    have hsorted := sorted_notesOf s.project patternId id
    split_ifs at hdone ⊢ with hrefused hempty
    all_goals
      simp only [not_or, not_lt] at hrefused
      obtain ⟨hstep, hvelocity, -, -⟩ := hrefused
      obtain ⟨i, rfl⟩ := Int.eq_ofNat_of_zero_le hstep
      rw [onGrid_of_stored (hgrids id) (hstored _ _ hcurrent id)] at hempty
      rw [← hnotes] at hempty
      refine ⟨hstep, ?_⟩
    · -- a note is put on the line
      set note : Note :=
        { start := i * s.rackGrid id, length := s.rackGrid id, key := 60, velocity } with hnote
      obtain ⟨hok, -⟩ := rack_executeModel host s (insertNotes patternId id [note])
      have hafter : ((insertNotes patternId id [note]).apply s.project).state.notesOf patternId id =
          stableSort ((s.project.notesOf patternId id).diff [] ++ [note]) :=
        (NoteCommand.notesOf_apply (hok.symm.trans hdone)).1
      rw [List.diff_nil] at hafter
      have hpicked : picks 60 (i * s.rackGrid id) note = true := by simp [picks, hnote]
      have hunchanged := unchanged_of_added hsorted hpicked
      rw [← hafter] at hunchanged
      obtain ⟨pattern', hedited, hnotes'⟩ :=
        stepEdited_executeModel hdone hcurrent (hstored _ _ hcurrent id) hunchanged
      have hline : lineOf (pattern'.notesOf id) (s.rackGrid id) i = [note] := by
        rw [lineOf, show pattern'.notesOf id = _ from hnotes'.trans hafter, filter_stableSort,
          List.filter_append, hempty, List.nil_append, List.filter_cons_of_pos hpicked]
        rfl
      refine ⟨pattern, pattern', hedited, by simp [hline], ?_⟩
      rw [hline]
      exact List.forall_mem_singleton.2 rfl
    · -- the notes on the line are set
      rw [onGrid_of_stored (hgrids id) (hstored _ _ hcurrent id), ← hnotes,
        setNoteVelocity_eq hempty (by omega)] at hdone ⊢
      simp only [Option.map_some] at hdone ⊢
      set line := (s.project.notesOf patternId id).filter (picks 60 (i * s.rackGrid id)) with hline
      set command : NoteCommand :=
        { pattern := patternId, instrument := id, removed := stableSort line
          added := stableSort (line.map fun note => { note with velocity })
          coalescable := true } with hcommand
      obtain ⟨hok, -⟩ := rack_executeModel host s command
      have hafter : (command.apply s.project).state.notesOf patternId id =
          withLineVelocity (s.project.notesOf patternId id) 60 (i * s.rackGrid id) velocity :=
        (NoteCommand.notesOf_apply (hok.symm.trans hdone)).1
      have hunchanged := unchanged_withLineVelocity hsorted 60 (i * s.rackGrid id) velocity
      rw [← hafter] at hunchanged
      obtain ⟨pattern', hedited, hnotes'⟩ :=
        stepEdited_executeModel hdone hcurrent (hstored _ _ hcurrent id) hunchanged
      have hset := filter_withLineVelocity hsorted 60 (i * s.rackGrid id) velocity hempty
      refine ⟨pattern, pattern', hedited, ?_⟩
      rw [lineOf, show pattern'.notesOf id = _ from hnotes'.trans hafter]
      exact hset

/-- What a row says of a step. -/
theorem cell_of_line (hgrid : 0 < grid) (hstored : StoredNotes (pattern.notesOf id))
    (hstep : 0 ≤ step) (hroom : step < rackMaxSteps) :
    (rackRow pattern id grid).stepActive step.toNat =
        !(lineOf (pattern.notesOf id) grid step).isEmpty ∧
      (rackRow pattern id grid).stepVelocity step.toNat =
        loudest (lineOf (pattern.notesOf id) grid step) := by
  have hcell : OneBeat.cellNotes (pattern.notesOf id) grid step.toNat =
      lineOf (pattern.notesOf id) grid step := by
    rw [OneBeat.cellNotes, if_pos (by omega), Int.toNat_of_nonneg hstep]
    rfl
  rw [← hcell]
  exact (rackRow_spec hgrid hstored).1 step.toNat

/-- What an edit of a step does is a command of notes, if it is anything. -/
theorem stepEdit_cases (s : Session) (id : InstrumentId) (step : ℤ) (velocity : ℕ)
    {reply : Reply} (hreply : reply = s.rackToggleStep id step ∨
      reply = s.rackSetStepVelocity id step velocity) :
    reply = .refused ∨ ∃ command : Option NoteCommand, reply = .model (command.map .note) := by
  rcases hreply with rfl | rfl
  · unfold rackToggleStep
    split
    · exact .inl rfl
    · split_ifs
      · exact .inl rfl
      · exact .inr ⟨_, rfl⟩
  · unfold rackSetStepVelocity
    split
    · exact .inl rfl
    · dsimp only
      split_ifs
      · exact .inl rfl
      · exact .inr ⟨some _, rfl⟩
      · exact .inr ⟨_, rfl⟩

/-- An edit of a step that fails shows the rack as it was. -/
theorem rackRowOf_of_failed {edit : Edit} (velocity : ℕ)
    (hedit : edit = .rackToggleStep id step ∨ edit = .rackSetStepVelocity id step velocity)
    (hfailed : (s.edit host edit).1 = false) (other : InstrumentId) :
    (s.edit host edit).2.rackRowOf other = s.rackRowOf other := by
  have hreply : s.reply edit = s.rackToggleStep id step ∨
      s.reply edit = s.rackSetStepVelocity id step velocity := by
    rcases hedit with rfl | rfl
    · exact .inl rfl
    · exact .inr rfl
  unfold Session.edit at hfailed ⊢
  rcases stepEdit_cases s id step velocity hreply with hrefused | ⟨command, hcommand⟩
  · rw [hrefused]
  · rw [hcommand] at hfailed ⊢
    cases command with
    | none => rfl
    | some command =>
      obtain ⟨hok, hcurrent, hgrids, hpatterns⟩ := rack_executeModel host s command
      simp only [Option.map_some] at hfailed ⊢
      rw [hok] at hfailed
      rw [(NoteCommand.state_of_failed command s.project).1 hfailed] at hpatterns
      rw [rackRowOf, currentPatternOf, rackGrid, hcurrent, hgrids, hpatterns]
      rfl

/-- The step is active exactly if it was not. -/
def StepToggled (s s' : Session) (id : InstrumentId) (step : ℤ) : Prop :=
  ∃ row row', s.rackRowOf id = some row ∧ s'.rackRowOf id = some row' ∧
    row'.stepActive step.toNat = !row.stepActive step.toNat

/-- The step is active, and as loud as was asked for. -/
def StepSet (s : Session) (id : InstrumentId) (step : ℤ) (velocity : ℕ) : Prop :=
  ∃ row, s.rackRowOf id = some row ∧ row.stepActive step.toNat = true ∧
    row.stepVelocity step.toNat = velocity

/-- An edit of a step changes that step, and one that fails changes nothing. -/
structure EditsStep (s : Session) (host : InstrumentId → HostAnswer) (id : InstrumentId)
    (step : ℤ) : Prop where
  toggled : (s.edit host (.rackToggleStep id step)).1 = true →
    ChangesStep s (s.edit host (.rackToggleStep id step)).2 id step ∧
      StepToggled s (s.edit host (.rackToggleStep id step)).2 id step
  set : ∀ velocity, (s.edit host (.rackSetStepVelocity id step velocity)).1 = true →
    ChangesStep s (s.edit host (.rackSetStepVelocity id step velocity)).2 id step ∧
      StepSet (s.edit host (.rackSetStepVelocity id step velocity)).2 id step velocity
  failed : ∀ edit, (edit = .rackToggleStep id step ∨
      ∃ velocity, edit = .rackSetStepVelocity id step velocity) →
    (s.edit host edit).1 = false → ∀ other, (s.edit host edit).2.rackRowOf other =
      s.rackRowOf other

theorem editsStep_of_stored (host : InstrumentId → HostAnswer) (hgrids : ∀ id, 0 < s.rackGrid id)
    (hstored : s.NotesStored) (id : InstrumentId) (hroom : step < rackMaxSteps) :
    EditsStep s host id step := by
  constructor
  · intro hdone
    obtain ⟨hstep, pattern, pattern', hedited, hline⟩ := stepEdited_toggle hdone hstored
    obtain ⟨patternId, hcurrent, hcurrent'⟩ := hedited.current
    have hnotes := hstored _ _ hcurrent
    refine ⟨hedited.changesStep hgrids hnotes hstep hroom, _, _, rackRowOf_eq hcurrent id,
      rackRowOf_eq hcurrent' id, ?_⟩
    rw [hedited.grids, (cell_of_line (hgrids id) (hnotes id) hstep hroom).1,
      (cell_of_line (hgrids id) hedited.stored hstep hroom).1, hline]
  · intro velocity hdone
    obtain ⟨hstep, pattern, pattern', hedited, hsome, hall⟩ :=
      stepEdited_setVelocity hdone hgrids hstored
    obtain ⟨patternId, hcurrent, hcurrent'⟩ := hedited.current
    refine ⟨hedited.changesStep hgrids (hstored _ _ hcurrent) hstep hroom, _,
      rackRowOf_eq hcurrent' id, ?_⟩
    obtain ⟨hactive, hvelocity⟩ := cell_of_line (hgrids id) hedited.stored hstep hroom
    rw [hedited.grids, hactive, hvelocity, List.isEmpty_eq_false_iff.2 hsome]
    exact ⟨rfl, loudest_of_all hsome hall⟩
  · rintro edit (rfl | ⟨velocity, rfl⟩) hfailed
    · exact rackRowOf_of_failed 0 (.inl rfl) hfailed
    · exact rackRowOf_of_failed velocity (.inr rfl) hfailed

/-- **The rows of the rack and the edits of their steps agree.** A row has a step for each cell that
an edit would look at, as far as there is room, and counts the notes that are in none of them; and
an edit of a step that there is room for changes that step. -/
theorem rack_agrees (s : Session) (hgrids : ∀ id, 0 < s.rackGrid id) (hstored : s.NotesStored) :
    (∀ index id row, s.rackRowAt index = some (id, row) → ∃ patternId pattern,
      s.currentPatternOf = some (patternId, pattern) ∧
        row.Agrees (pattern.notesOf id) (s.rackGrid id)) ∧
    ∀ host id step, step < rackMaxSteps → EditsStep s host id step := by
  refine ⟨fun index id row hrow => ?_, fun host id step hroom =>
    editsStep_of_stored host hgrids hstored id hroom⟩
  obtain ⟨found, -, hfound⟩ := Option.bind_eq_some_iff.1 hrow
  obtain ⟨row', hrow', heq⟩ := Option.map_eq_some_iff.1 hfound
  cases heq
  obtain ⟨⟨patternId, pattern⟩, hcurrent, hrow⟩ := Option.map_eq_some_iff.1 hrow'
  subst hrow
  exact ⟨patternId, pattern, hcurrent, agrees_rackRow (hgrids id) (hstored _ _ hcurrent id)⟩

/-- A new session, and an instrument without notes in it. -/
def withInstrument : Session :=
  ((create noPlugins smallIds (.finite 48000)).edit noPlugins
    (.instrumentAddEmpty ⟨7⟩ ⟨8⟩ "Lead")).2

theorem rack_agrees_withInstrument :
    (withInstrument.edit noPlugins (.rackToggleStep ⟨7⟩ 3)).1 = true ∧
      EditsStep withInstrument noPlugins ⟨7⟩ 3 := by
  refine ⟨by decide +kernel, (rack_agrees withInstrument (fun id => ?_) ?_).2 _ _ _ (by decide)⟩
  · have hempty : withInstrument.rackGrids = .empty := rfl
    rw [rackGrid, hempty]
    exact (by decide : (0 : ℤ) < ticksPerQuarter / 4)
  · -- there are no notes
    intro patternId pattern hcurrent id note hnote
    have hnone : withInstrument.currentPatternOf.map (fun current => current.2.sequences.entries) =
        some [] := by decide +kernel
    rw [hcurrent, Option.map_some, Option.some_inj] at hnone
    unfold Pattern.notesOf at hnote
    cases hsequence : pattern.sequences.get? id with
    | none => simp [hsequence] at hnote
    | some sequence =>
      have hmem := OrderedMap.get?_eq_some_iff.1 hsequence
      rw [show pattern.sequences.entries = [] from hnone] at hmem
      cases hmem

/-- A row of 600 cells. -/
def withLongRow : List Call :=
  [.edit (.instrumentAddEmpty ⟨7⟩ ⟨8⟩ "Lead") noPlugins, .rackSetRowGrid ⟨7⟩ 120,
    .rackSetLength 300 noPlugins]

/-- The step after the last that there is room for is toggled, and none of the row is. -/
theorem toggles_no_step : ∃ s,
    system.run (create noPlugins smallIds (.finite 48000)) withLongRow = some s ∧
      (s.edit noPlugins (.rackToggleStep ⟨7⟩ 512)).1 = true ∧
      ¬ EditsStep s noPlugins ⟨7⟩ 512 ∧
      (s.rackRowOf ⟨7⟩).map RackRow.offGridCount = some 0 ∧
      ((s.edit noPlugins (.rackToggleStep ⟨7⟩ 512)).2.rackRowOf ⟨7⟩).map RackRow.offGridCount =
        some 1 := by
  refine ⟨_, rfl, by decide +kernel, fun h => ?_, by decide +kernel, by decide +kernel⟩
  obtain ⟨row, row', hrow, hrow', htoggled⟩ := (h.toggled (by decide +kernel)).2
  have hbefore := congrArg (Option.map fun row => row.stepActive 512) hrow
  have hafter := congrArg (Option.map fun row => row.stepActive 512) hrow'
  have hsame : row.stepActive 512 = false := by
    refine Option.some_inj.1 (hbefore.symm.trans ?_)
    decide +kernel
  have hsame' : row'.stepActive 512 = false := by
    refine Option.some_inj.1 (hafter.symm.trans ?_)
    decide +kernel
  have hflipped : row'.stepActive 512 = !row.stepActive 512 := htoggled
  rw [hsame, hsame'] at hflipped
  cases hflipped

end Session

end OneBeat
