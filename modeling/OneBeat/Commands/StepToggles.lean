import OneBeat.Commands.NoteEdit
import OneBeat.Commands.NoteMultisets

/-!
# Toggling a step

A cell of the step grid is a view of the sequence of the piano roll: the notes of a key that start
on a line of the grid, and those that start before the next.

* `toggleStep_touches_cell` : toggling a step changes the notes of its key that start on its line,
  and no other cell of the grid.
-/

namespace OneBeat

/-! ### Sorted notes -/

/-- Stable sorting keeps what a predicate picks in its order. -/
theorem filter_stableSort (picks : Note → Bool) (notes : List Note) :
    (stableSort notes).filter picks = stableSort (notes.filter picks) := by
  refine ((stableSort_eq_iff ((sorted_stableSort notes).filter picks)).2 fun place => ?_).symm
  have hcomm : ∀ l : List Note, tied place (l.filter picks) = (tied place l).filter picks :=
    fun l => List.filter_comm _ _ _
  rw [hcomm, hcomm, tied_stableSort]

/-- Removing what a predicate picks leaves the rest. -/
theorem diff_filter (picks : Note → Bool) (notes : List Note) :
    notes.diff (notes.filter picks) = notes.filter fun note => !picks note := by
  induction notes with
  | nil => rfl
  | cons note notes ih =>
    cases hpicks : picks note with
    | true => rw [List.filter_cons_of_pos hpicks, List.diff_cons, List.erase_cons_head, ih,
        List.filter_cons_of_neg (by simp [hpicks])]
    | false =>
      have hnot : note ∉ notes.filter picks := fun hmem => by
        rw [(List.mem_filter.1 hmem).2] at hpicks
        cases hpicks
      rw [List.filter_cons_of_neg (by simp [hpicks]), List.cons_diff_of_not_mem hnot, ih,
        List.filter_cons_of_pos (by simp [hpicks])]

/-! ### Commands -/

variable {project : Tables} {pattern : PatternId} {instrument : InstrumentId} {key index : ℤ}
  {grid : NoteGrid} {command : NoteCommand}

/-- A command of notes deletes neither a pattern nor an instrument. -/
theorem contains_of_applied (hok : (command.apply project).ok = true)
    (hpattern : project.patterns.contains pattern = true)
    (hinstrument : project.instruments.contains instrument = true) :
    (command.apply project).state.patterns.contains pattern = true ∧
      (command.apply project).state.instruments.contains instrument = true := by
  obtain ⟨owner, howner, happlies⟩ := NoteCommand.apply_ok_iff.1 hok
  rw [NoteCommand.apply_eq howner happlies]
  refine ⟨?_, hinstrument⟩
  obtain ⟨held, hheld⟩ := OrderedMap.contains_eq_true_iff.1 hpattern
  have hpatterns : (command.result project owner).patterns =
      (project.withNotes command.pattern command.instrument (command.edited owner)).patterns := rfl
  dsimp only
  rw [OrderedMap.contains_eq_true_iff, hpatterns, Tables.withNotes, OrderedMap.get?_modify, hheld]
  split_ifs
  · exact ⟨_, rfl⟩
  · exact ⟨_, rfl⟩

theorem stepOnset_eq_some {onset : ℤ} (h : grid.stepOnset index = some onset) :
    0 < grid.spacing ∧ 0 ≤ index ∧ onset = grid.origin + index * grid.spacing ∧ 0 ≤ onset := by
  unfold NoteGrid.stepOnset at h
  dsimp only at h
  split_ifs at h with hbad _ hneg
  obtain rfl := Option.some.inj h
  simp only [Bool.not_eq_true', not_or, Bool.not_eq_false] at hbad
  exact ⟨of_decide_eq_true hbad.1, not_lt.1 hbad.2.1, rfl, not_lt.1 hneg⟩

/-- A command of a step removes the notes on its line, or puts one there. -/
inductive Toggles (project : Tables) (pattern : PatternId) (instrument : InstrumentId) (key : ℤ)
    (onset : ℤ) (grid : NoteGrid) (cell : StepCell) : NoteCommand → Prop
  | removes : cell.onGrid ≠ [] →
      Toggles project pattern instrument key onset grid cell
        (removeNotes pattern instrument cell.onGrid)
  | adds {velocity : ℕ} : cell.onGrid = [] →
      isValidNote { start := onset, length := grid.spacing, key, velocity } = true →
      Toggles project pattern instrument key onset grid cell
        (insertNotes pattern instrument [{ start := onset, length := grid.spacing, key, velocity }])

theorem toggleStep_eq_some
    (h : toggleStep project pattern instrument key index grid = some command) :
    ∃ onset, grid.stepOnset index = some onset ∧ ¬(key < 0 ∨ 127 < key) ∧
      project.patterns.contains pattern = true ∧ project.instruments.contains instrument = true ∧
      Toggles project pattern instrument key onset grid
        (inspectStep (project.notesOf pattern instrument) key index grid) command := by
  unfold toggleStep at h
  cases hpattern : project.patterns.get? pattern with
  | none => simp [hpattern] at h
  | some owner =>
    cases honset : grid.stepOnset index with
    | none => simp [hpattern, honset] at h
    | some onset =>
      have hnotes := notesOf_of_get? hpattern instrument
      rw [hpattern, honset] at h
      dsimp only at h
      rw [hnotes]
      split_ifs at h with hbad hactive
      · obtain rfl := Option.some.inj h
        simp only [Bool.not_eq_true', not_or, Bool.not_eq_false] at hbad
        exact ⟨onset, rfl, not_or.2 hbad.2, OrderedMap.contains_eq_true_iff.2 ⟨owner, hpattern⟩,
          hbad.1, .removes hactive⟩
      · simp only [Bool.not_eq_true', not_or, Bool.not_eq_false] at hbad
        unfold addNote at h
        cases hvoice : project.instruments.get? instrument with
        | none => simp [hvoice] at h
        | some voice =>
          rw [hvoice] at h
          dsimp only at h
          split_ifs at h with _ hvalid
          obtain rfl := Option.some.inj h
          rw [Bool.not_eq_true, Bool.not_eq_false'] at hvalid
          exact ⟨onset, rfl, not_or.2 hbad.2, OrderedMap.contains_eq_true_iff.2 ⟨owner, hpattern⟩,
            hbad.1, .adds (not_not.1 hactive) hvalid⟩

/-! ### Cells -/

/-- The notes of a key on a line. -/
def picks (key onset : ℤ) (note : Note) : Bool := note.key = key && note.start = onset

/-- Only notes of a key on a line have changed. -/
def Unchanged (key onset : ℤ) (before after : List Note) : Prop :=
  ∀ others : Note → Bool, (∀ note, others note = true → picks key onset note = false) →
    after.filter others = before.filter others

variable {onset : ℤ} {before after : List Note}

theorem onGrid_eq (honset : grid.stepOnset index = some onset) (hkey : ¬(key < 0 ∨ 127 < key))
    (hstop : onset < addClamped onset grid.spacing) (notes : List Note) :
    (inspectStep notes key index grid).onGrid = notes.filter (picks key onset) := by
  unfold inspectStep
  rw [honset]
  dsimp only
  rw [if_neg hkey, List.filter_filter]
  refine List.filter_congr fun note _ => ?_
  rw [Bool.eq_iff_iff]
  simp only [picks, Bool.and_eq_true, decide_eq_true_eq]
  omega

theorem Unchanged.offGrid (h : Unchanged key onset before after)
    (honset : grid.stepOnset index = some onset) :
    (inspectStep after key index grid).offGrid = (inspectStep before key index grid).offGrid := by
  unfold inspectStep
  rw [honset]
  dsimp only
  split_ifs
  · rfl
  · dsimp only
    rw [List.filter_filter, List.filter_filter]
    refine h _ fun note hnote => ?_
    simp only [ne_eq, decide_not, Bool.and_eq_true, Bool.not_eq_true', decide_eq_false_iff_not]
      at hnote
    rw [picks, Bool.and_eq_false_iff]
    exact .inr (decide_eq_false hnote.1)

/-- Two cells of a grid have no tick in common. -/
theorem Unchanged.inspectStep (h : Unchanged key onset before after)
    (honset : grid.stepOnset index = some onset) {key' index' : ℤ}
    (hne : (key', index') ≠ (key, index)) :
    inspectStep after key' index' grid = inspectStep before key' index' grid := by
  unfold OneBeat.inspectStep
  cases honset' : grid.stepOnset index' with
  | none => rfl
  | some onset' =>
    dsimp only
    split_ifs
    · rfl
    · obtain ⟨hspacing, -, heq, hnonneg⟩ := stepOnset_eq_some honset
      obtain ⟨-, -, heq', hnonneg'⟩ := stepOnset_eq_some honset'
      have hcell : after.filter (fun note => onset' ≤ note.start &&
          note.start < addClamped onset' grid.spacing && note.key = key') =
            before.filter fun note => onset' ≤ note.start &&
              note.start < addClamped onset' grid.spacing && note.key = key' := by
        refine h _ fun note hnote => ?_
        simp only [Bool.and_eq_true, decide_eq_true_eq] at hnote
        rw [picks, Bool.and_eq_false_iff]
        by_contra hpicked
        simp only [not_or, Bool.not_eq_false, decide_eq_true_eq] at hpicked
        have hindex : index' ≠ index := fun hsame =>
          hne (by rw [hsame, ← hpicked.1, hnote.2])
        have hstop : addClamped onset' grid.spacing ≤ onset' + grid.spacing := by
          unfold addClamped minTicks
          omega
        -- the lines are at least a spacing apart
        rcases lt_or_gt_of_ne hindex with hlt | hlt
        · have hmul : (index' + 1) * grid.spacing ≤ index * grid.spacing :=
            mul_le_mul_of_nonneg_right hlt hspacing.le
          rw [Int.add_mul, Int.one_mul] at hmul
          omega
        · have hmul : (index + 1) * grid.spacing ≤ index' * grid.spacing :=
            mul_le_mul_of_nonneg_right hlt hspacing.le
          rw [Int.add_mul, Int.one_mul] at hmul
          omega
      rw [hcell]

theorem unchanged_of_removed (hsorted : before.Pairwise Note.le) (key onset : ℤ) :
    stableSort (before.diff (before.filter (picks key onset)) ++ []) =
        before.filter (fun note => !picks key onset note) ∧
      Unchanged key onset before (before.filter fun note => !picks key onset note) := by
  constructor
  · rw [List.append_nil, diff_filter]
    exact List.Pairwise.insertionSort_eq (hsorted.filter _)
  · intro others hothers
    rw [List.filter_filter]
    refine List.filter_congr fun note _ => ?_
    cases hnote : others note with
    | false => rfl
    | true => rw [hothers note hnote]; rfl

theorem unchanged_of_added (hsorted : before.Pairwise Note.le) {note : Note}
    (hnote : picks key onset note = true) :
    Unchanged key onset before (stableSort (before ++ [note])) := by
  intro others hothers
  have hnot : others note = false := by
    by_contra hpicked
    rw [hothers note (Bool.eq_true_of_not_eq_false hpicked)] at hnote
    cases hnote
  rw [filter_stableSort, List.filter_append, List.filter_cons_of_neg (by simp [hnot]),
    List.filter_nil, List.append_nil]
  exact List.Pairwise.insertionSort_eq (hsorted.filter _)

/-! ### Toggling -/

def StepCell.active (cell : StepCell) : Bool := !cell.onGrid.isEmpty

theorem active_iff {cell : StepCell} : cell.active = true ↔ cell.onGrid ≠ [] := by
  rw [StepCell.active, Bool.not_eq_true', ← Bool.not_eq_true, List.isEmpty_iff]

theorem sorted_notesOf (project : Tables) (pattern : PatternId) (instrument : InstrumentId) :
    (project.notesOf pattern instrument).Pairwise Note.le := by
  unfold Tables.notesOf Pattern.notesOf
  cases project.patterns.get? pattern with
  | none => exact List.Pairwise.nil
  | some owner =>
    cases hsequence : owner.sequences.get? instrument with
    | none => simp [hsequence]
    | some sequence => simpa [hsequence] using sequence.sorted

theorem onset_lt_of_active {notes : List Note} (honset : grid.stepOnset index = some onset)
    (hactive : (inspectStep notes key index grid).onGrid ≠ []) :
    onset < addClamped onset grid.spacing := by
  unfold inspectStep at hactive
  rw [honset] at hactive
  dsimp only at hactive
  split_ifs at hactive
  · exact absurd rfl hactive
  · obtain ⟨note, hnote⟩ := List.exists_mem_of_ne_nil _ hactive
    simp only [List.mem_filter, Bool.and_eq_true, decide_eq_true_eq] at hnote
    omega

/-- A command that removes the notes on a line applies. -/
theorem ok_removeNotes (hpattern : project.patterns.contains pattern = true)
    (hinstrument : project.instruments.contains instrument = true) (picked : Note → Bool) :
    ((removeNotes pattern instrument ((project.notesOf pattern instrument).filter picked)).apply
      project).ok = true := by
  obtain ⟨owner, howner⟩ := OrderedMap.contains_eq_true_iff.1 hpattern
  have hnotes := notesOf_of_get? howner instrument
  refine NoteCommand.apply_ok_iff.2 ⟨owner, howner, hinstrument, diff_eq_nil_iff.2 ?_, nofun⟩
  rw [removeNotes, ← hnotes]
  exact Multiset.coe_le.2 List.filter_sublist.subperm

/-- A command that adds a note applies. -/
theorem ok_insertNotes (hpattern : project.patterns.contains pattern = true)
    (hinstrument : project.instruments.contains instrument = true) {note : Note}
    (hnote : isValidNote note = true) :
    ((insertNotes pattern instrument [note]).apply project).ok = true := by
  obtain ⟨owner, howner⟩ := OrderedMap.contains_eq_true_iff.1 hpattern
  exact NoteCommand.apply_ok_iff.2 ⟨owner, howner, hinstrument, List.nil_diff _,
    List.forall_mem_singleton.2 hnote⟩

/-- An active cell is cleared. -/
theorem toggleStep_of_active (hpattern : project.patterns.contains pattern = true)
    (hinstrument : project.instruments.contains instrument = true)
    (honset : grid.stepOnset index = some onset) (hkey : ¬(key < 0 ∨ 127 < key))
    (hactive : (inspectStep (project.notesOf pattern instrument) key index grid).onGrid ≠ []) :
    toggleStep project pattern instrument key index grid =
      some (removeNotes pattern instrument
        (inspectStep (project.notesOf pattern instrument) key index grid).onGrid) := by
  obtain ⟨owner, howner⟩ := OrderedMap.contains_eq_true_iff.1 hpattern
  rw [notesOf_of_get? howner] at hactive ⊢
  unfold toggleStep
  rw [howner, honset]
  dsimp only
  rw [if_neg (not_or.2 ⟨by simp [hinstrument], hkey⟩), if_pos hactive]

/-- The notes after a step was toggled. -/
theorem notesOf_toggled (hpattern : project.patterns.contains pattern = true)
    (hinstrument : project.instruments.contains instrument = true)
    (honset : grid.stepOnset index = some onset) (hkey : ¬(key < 0 ∨ 127 < key))
    (h : Toggles project pattern instrument key onset grid
      (inspectStep (project.notesOf pattern instrument) key index grid) command) :
    (command.apply project).ok = true ∧
      Unchanged key onset (project.notesOf pattern instrument)
        ((command.apply project).state.notesOf pattern instrument) ∧
      onset < addClamped onset grid.spacing ∧
      (((project.notesOf pattern instrument).filter (picks key onset) ≠ [] ∧
          ((command.apply project).state.notesOf pattern instrument).filter (picks key onset) = []) ∨
        ((project.notesOf pattern instrument).filter (picks key onset) = [] ∧ ∃ note,
          picks key onset note = true ∧
          (command.apply project).state.notesOf pattern instrument =
            stableSort (project.notesOf pattern instrument ++ [note]))) := by
  have hsorted := sorted_notesOf project pattern instrument
  cases h with
  | removes hactive =>
    have hstop := onset_lt_of_active honset hactive
    have hcell := onGrid_eq honset hkey hstop (project.notesOf pattern instrument)
    rw [hcell] at hactive ⊢
    have hok := ok_removeNotes hpattern hinstrument (picks key onset)
    obtain ⟨hafter, hunchanged⟩ := unchanged_of_removed hsorted key onset
    have hnotes : ((removeNotes pattern instrument _).apply project).state.notesOf pattern
        instrument = _ := (NoteCommand.notesOf_apply hok).1.trans hafter
    refine ⟨hok, ?_, hstop, .inl ⟨hactive, ?_⟩⟩
    · rw [hnotes]
      exact hunchanged
    · rw [hnotes, List.filter_filter, List.filter_eq_nil_iff]
      intro note _
      cases picks key onset note <;> decide
  | adds hactive hvalid =>
    rename_i velocity
    have hok := ok_insertNotes hpattern hinstrument hvalid
    have hnotes : ((insertNotes pattern instrument _).apply project).state.notesOf pattern
        instrument = stableSort ((project.notesOf pattern instrument).diff [] ++ _) :=
      (NoteCommand.notesOf_apply hok).1
    rw [List.diff_nil] at hnotes
    have hpicked : picks key onset { start := onset, length := grid.spacing, key, velocity } =
        true := by
      simp [picks]
    have hstop : onset < addClamped onset grid.spacing := by
      obtain ⟨hspacing, -, -, hnonneg⟩ := stepOnset_eq_some honset
      simp only [isValidNote, Bool.and_eq_true, decide_eq_true_eq] at hvalid
      unfold addClamped minTicks
      omega
    have hcell := onGrid_eq honset hkey hstop (project.notesOf pattern instrument)
    refine ⟨hok, ?_, hstop, .inr ⟨hcell ▸ hactive, _, hpicked, hnotes⟩⟩
    rw [hnotes]
    exact unchanged_of_added hsorted hpicked

/-- **Toggling a step touches only its own cell.** The command applies. Only notes of its key that
start on its line change, so no off-grid note goes and every other cell of the grid shows what it
did; the cell itself is active exactly if it was not; and a cell that was inactive is restored by
toggling it again. -/
theorem toggleStep_touches_cell
    (htoggle : toggleStep project pattern instrument key index grid = some command) :
    ∃ onset, grid.stepOnset index = some onset ∧ (command.apply project).ok = true ∧
      (∀ pattern' instrument', (pattern', instrument') ≠ (pattern, instrument) →
        (command.apply project).state.notesOf pattern' instrument' =
          project.notesOf pattern' instrument') ∧
      let before := project.notesOf pattern instrument
      let after := (command.apply project).state.notesOf pattern instrument
      after.filter (fun note => ¬(note.key = key ∧ note.start = onset)) =
          before.filter (fun note => ¬(note.key = key ∧ note.start = onset)) ∧
        (inspectStep after key index grid).active = !(inspectStep before key index grid).active ∧
        (inspectStep after key index grid).offGrid = (inspectStep before key index grid).offGrid ∧
        (∀ key' index', (key', index') ≠ (key, index) →
          inspectStep after key' index' grid = inspectStep before key' index' grid) ∧
        ((inspectStep before key index grid).active = false → ∃ again,
          toggleStep (command.apply project).state pattern instrument key index grid = some again ∧
            (again.apply (command.apply project).state).ok = true ∧
            (again.apply (command.apply project).state).state.notesOf pattern instrument =
              before) := by
  obtain ⟨onset, honset, hkey, hpattern, hinstrument, htoggles⟩ := toggleStep_eq_some htoggle
  obtain ⟨hok, hunchanged, hstop, hcell⟩ :=
    notesOf_toggled hpattern hinstrument honset hkey htoggles
  have hplace : command.pattern = pattern ∧ command.instrument = instrument := by
    cases htoggles <;> exact ⟨rfl, rfl⟩
  have hothers := (NoteCommand.notesOf_apply hok).2
  rw [hplace.1, hplace.2] at hothers
  have hgrid := onGrid_eq honset hkey hstop
  refine ⟨onset, honset, hok, hothers, hunchanged _ fun note hnote => ?_, ?_,
    hunchanged.offGrid honset, fun key' index' hne => hunchanged.inspectStep honset hne,
    fun hinactive => ?_⟩
  · simp only [decide_eq_true_eq] at hnote
    rw [picks, ← Bool.not_eq_true, Bool.and_eq_true, decide_eq_true_eq, decide_eq_true_eq]
    exact hnote
  · rw [StepCell.active, StepCell.active, hgrid, hgrid, Bool.not_not]
    rcases hcell with ⟨hbefore, hafter⟩ | ⟨hbefore, note, hnote, hafter⟩
    · rw [hafter, List.isEmpty_eq_false_iff.2 hbefore]
      rfl
    · rw [hbefore, hafter, filter_stableSort, List.filter_append, hbefore, List.nil_append,
        List.filter_cons_of_pos hnote]
      rfl
  · rw [← Bool.not_eq_true, active_iff, not_not, hgrid] at hinactive
    obtain ⟨note, hnote, hafter⟩ := hcell.elim (fun h => absurd hinactive h.1) fun h => h.2
    obtain ⟨hpattern', hinstrument'⟩ := contains_of_applied hok hpattern hinstrument
    have hpicked : ((command.apply project).state.notesOf pattern instrument).filter
        (picks key onset) = [note] := by
      rw [hafter, filter_stableSort, List.filter_append, hinactive, List.filter_cons_of_pos hnote]
      rfl
    have hactive : (inspectStep ((command.apply project).state.notesOf pattern instrument) key
        index grid).onGrid ≠ [] := by
      rw [hgrid, hpicked]
      exact List.cons_ne_nil _ _
    refine ⟨_, toggleStep_of_active hpattern' hinstrument' honset hkey hactive, ?_⟩
    rw [hgrid]
    have hagain := ok_removeNotes hpattern' hinstrument' (picks key onset)
    refine ⟨hagain, (NoteCommand.notesOf_apply hagain).1.trans ?_⟩
    -- what is left is what did not start on the line, and nothing did before
    calc stableSort (((command.apply project).state.notesOf pattern instrument).diff
          (((command.apply project).state.notesOf pattern instrument).filter (picks key onset)) ++ [])
        = ((command.apply project).state.notesOf pattern instrument).filter
            (fun note => !picks key onset note) := (unchanged_of_removed (sorted_notesOf _ _ _) _ _).1
      _ = (project.notesOf pattern instrument).filter fun note => !picks key onset note :=
          hunchanged _ fun note hnot => by rwa [Bool.not_eq_true'] at hnot
      _ = project.notesOf pattern instrument :=
          List.filter_eq_self.2 fun note hmem => by
            rw [Bool.not_eq_true', ← Bool.not_eq_true]
            exact List.filter_eq_nil_iff.1 hinactive note hmem

/-- A cell without a note gets one. -/
theorem toggleStep_touches_cell_tied :
    ∃ command, toggleStep NoteCommand.tiedProject ⟨3⟩ ⟨2⟩ 60 1 {} = some command ∧
      (inspectStep ((command.apply NoteCommand.tiedProject).state.notesOf ⟨3⟩ ⟨2⟩) 60 1 {}).active =
        true := by
  have htoggle : ∃ command, toggleStep NoteCommand.tiedProject ⟨3⟩ ⟨2⟩ 60 1 {} = some command := by
    rw [← Option.isSome_iff_exists]
    decide +kernel
  obtain ⟨command, htoggle⟩ := htoggle
  obtain ⟨onset, -, -, -, -, hflips, -⟩ := toggleStep_touches_cell htoggle
  refine ⟨command, htoggle, hflips.trans ?_⟩
  decide +kernel

end OneBeat
