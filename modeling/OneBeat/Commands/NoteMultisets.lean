import OneBeat.Commands.Notes
import Mathlib.Algebra.Order.Group.Multiset

/-!
# Note edits as multiset operations

`NoteCommand::editSequence` of `model/commands.cpp` against its purpose: the stored notes, less the
removed ones, with the added ones, as multisets.

`editByIndex` is the general path of the source without the shortcut for a whole sequence, with its
index of how many of each note are still to be removed.

* `sweepRemovals_eq` : one pass with the index leaves the difference, and counts what was not there.
* `editSequence_eq_editByIndex` : the shortcut changes nothing.
* `editSequence_isSome_iff` : when an edit succeeds.
* `editSequence_multiset` : what an edit gives, and that a failed one gives nothing.
-/

namespace OneBeat

/-! ### The removal index -/

/-- How many of each note are to be removed. -/
def countRemovals (take : List Note) : Note → ℕ :=
  take.foldl (fun removals note => Function.update removals note (removals note + 1)) fun _ => 0

/-- Keep the notes the index does not ask for, and count the others off. -/
def sweepRemovals : List Note → (Note → ℕ) → List Note × (Note → ℕ)
  | [], removals => ([], removals)
  | note :: current, removals =>
    if removals note = 0 then
      let (kept, rest) := sweepRemovals current removals
      (note :: kept, rest)
    else sweepRemovals current (Function.update removals note (removals note - 1))

/-- `editSequence` without the shortcut for a whole sequence. -/
def editByIndex (patternId : PatternId) (instrument : InstrumentId) (project : Tables)
    (take give : List Note) : Option Tables :=
  match project.patterns.get? patternId with
  | none => none
  | some pattern =>
    if !project.instruments.contains instrument then none
    else
      let (kept, rest) := sweepRemovals (pattern.notesOf instrument) (countRemovals take)
      if take.any fun note => rest note ≠ 0 then none
      else if !give.all isValidNote then none
      else project.restoreSequence patternId instrument (.assignSorted (kept ++ give))

theorem foldl_countRemovals (take : List Note) (removals : Note → ℕ) :
    take.foldl (fun removals note => Function.update removals note (removals note + 1)) removals =
      fun note => removals note + take.count note := by
  induction take generalizing removals with
  | nil => rfl
  | cons first take ih =>
    funext note
    simp only [List.foldl_cons, ih, List.count_cons, beq_iff_eq]
    rcases eq_or_ne first note with rfl | hne
    · rw [Function.update_self, if_pos rfl]
      omega
    · rw [Function.update_of_ne hne.symm, if_neg hne, Nat.add_zero]

theorem countRemovals_eq (take : List Note) : countRemovals take = fun note => take.count note := by
  rw [countRemovals, foldl_countRemovals]
  exact funext fun note => Nat.zero_add _

/-- One off the count of a note is the count without its first occurrence. -/
theorem update_count (take : List Note) (note : Note) :
    Function.update (fun other => take.count other) note (take.count note - 1) =
      fun other => (take.erase note).count other := by
  funext other
  rcases eq_or_ne other note with rfl | hne
  · rw [Function.update_self, List.count_erase_self]
  · rw [Function.update_of_ne hne, List.count_erase_of_ne hne]

/-- **One pass with the index leaves the difference, and counts what was not there.** -/
theorem sweepRemovals_eq (current take : List Note) :
    sweepRemovals current (fun note => take.count note) =
      (current.diff take, fun note => (take.diff current).count note) := by
  induction current generalizing take with
  | nil => simp [sweepRemovals]
  | cons first current ih =>
    rw [sweepRemovals]
    by_cases hmem : first ∈ take
    · have hcount : take.count first ≠ 0 := (List.count_pos_iff.2 hmem).ne'
      rw [if_neg hcount, update_count, ih, List.cons_diff_of_mem hmem, List.diff_cons]
    · have hcount : take.count first = 0 := List.count_eq_zero.2 hmem
      rw [if_pos hcount, ih, List.cons_diff_of_not_mem hmem, List.diff_cons,
        List.erase_of_not_mem hmem]

/-- Nothing is left to remove just when everything to be removed was there. -/
theorem any_count_diff (take current : List Note) :
    (take.any fun note => (take.diff current).count note ≠ 0) = decide (take.diff current ≠ []) := by
  rw [Bool.eq_iff_iff]
  simp only [List.any_eq_true, decide_eq_true_eq, ne_eq, List.count_eq_zero, not_not]
  constructor
  · rintro ⟨note, -, hnote⟩ hnil
    rw [hnil] at hnote
    exact absurd hnote List.not_mem_nil
  · intro hne
    obtain ⟨note, hnote⟩ := List.exists_mem_of_ne_nil _ hne
    exact ⟨note, List.diff_subset _ _ hnote, hnote⟩

theorem editByIndex_eq {patternId : PatternId} {instrument : InstrumentId} {project : Tables}
    {take give : List Note} {pattern : Pattern}
    (hpattern : project.patterns.get? patternId = some pattern) :
    editByIndex patternId instrument project take give =
      editSequence patternId instrument project take give := by
  have hcontains : project.patterns.contains patternId = true :=
    OrderedMap.contains_eq_true_iff.2 ⟨pattern, hpattern⟩
  rw [editSequence_eq hpattern, editByIndex]
  simp only [hpattern, countRemovals_eq, sweepRemovals_eq, any_count_diff, ← List.all_eq_true]
  rw [Tables.restoreSequence, hcontains]
  cases project.instruments.contains instrument with
  | false => simp
  | true =>
    cases give.all isValidNote with
    | false => simp
    | true =>
      by_cases hrest : take.diff (pattern.notesOf instrument) = []
      · simp [hrest, Tables.withNotes]
      · simp [hrest]

/-- **The shortcut for a whole sequence changes nothing.** -/
theorem editSequence_eq_editByIndex (patternId : PatternId) (instrument : InstrumentId)
    (project : Tables) (take give : List Note) :
    editSequence patternId instrument project take give =
      editByIndex patternId instrument project take give := by
  cases hpattern : project.patterns.get? patternId with
  | none => simp only [editSequence, editByIndex, hpattern]
  | some pattern => exact (editByIndex_eq hpattern).symm

/-! ### Multisets -/

theorem diff_eq_nil_iff {take current : List Note} :
    take.diff current = [] ↔ (take : Multiset Note) ≤ current := by
  rw [← tsub_eq_zero_iff_le, Multiset.coe_sub, Multiset.coe_eq_zero]

/-- The multiset of the stored notes of an instrument in a pattern. -/
def Tables.noteBag (project : Tables) (patternId : PatternId) (instrument : InstrumentId) :
    Multiset Note := project.notesOf patternId instrument

theorem coe_stableSort (notes : List Note) : (stableSort notes : Multiset Note) = notes :=
  Multiset.coe_eq_coe.2 (perm_stableSort notes)

theorem noteBag_eq {patternId : PatternId} {project : Tables} {pattern : Pattern}
    (hpattern : project.patterns.get? patternId = some pattern) (instrument : InstrumentId) :
    project.noteBag patternId instrument = pattern.notesOf instrument := by
  rw [Tables.noteBag, notesOf_of_get? hpattern]

theorem editSequence_isSome_iff (patternId : PatternId) (instrument : InstrumentId)
    (project : Tables) (take give : List Note) :
    (editSequence patternId instrument project take give).isSome = true ↔
      project.patterns.contains patternId = true ∧
      project.instruments.contains instrument = true ∧
      ↑take ≤ project.noteBag patternId instrument ∧ ∀ note ∈ give, isValidNote note = true := by
  cases hpattern : project.patterns.get? patternId with
  | none =>
    have hcontains : project.patterns.contains patternId = false :=
      OrderedMap.contains_eq_false_iff.2 hpattern
    simp [editSequence, hpattern, hcontains]
  | some pattern =>
    have hcontains : project.patterns.contains patternId = true :=
      OrderedMap.contains_eq_true_iff.2 ⟨pattern, hpattern⟩
    rw [editSequence_eq hpattern, noteBag_eq hpattern, ← diff_eq_nil_iff, hcontains]
    split_ifs with h
    · exact iff_of_true rfl ⟨rfl, h⟩
    · exact iff_of_false (by simp) fun hall => h hall.2

/-- What an edit leaves in the project: the sequence in canonical order, its notes as a multiset,
no entry when there are none, and everything else as it was. -/
structure EditedTo (patternId : PatternId) (instrument : InstrumentId) (project : Tables)
    (take give : List Note) (project' : Tables) : Prop where
  sorted : (project'.notesOf patternId instrument).Pairwise Note.le
  bag : project'.noteBag patternId instrument =
    project.noteBag patternId instrument - ↑take + ↑give
  entry : ∀ pattern', project'.patterns.get? patternId = some pattern' →
    (pattern'.sequences.contains instrument = true ↔
      project'.noteBag patternId instrument ≠ 0)
  others : ∀ patternId' instrument', (patternId', instrument') ≠ (patternId, instrument) →
    ((project'.patterns.get? patternId').bind fun pattern => pattern.sequences.get? instrument') =
      (project.patterns.get? patternId').bind fun pattern => pattern.sequences.get? instrument'
  frame : ∃ patterns, project' = { project with patterns } ∧
    ∀ patternId', (patterns.get? patternId').map
        (fun pattern => { pattern with sequences := OrderedMap.empty }) =
      (project.patterns.get? patternId').map
        fun pattern => { pattern with sequences := OrderedMap.empty }

theorem editedTo_withNotes {patternId : PatternId} {project : Tables} {pattern : Pattern}
    (hpattern : project.patterns.get? patternId = some pattern) (instrument : InstrumentId)
    (take give : List Note) :
    EditedTo patternId instrument project take give
      (project.withNotes patternId instrument ((pattern.notesOf instrument).diff take ++ give)) := by
  have hget := Tables.get?_withNotes hpattern instrument
    ((pattern.notesOf instrument).diff take ++ give)
  have hnotes : (project.withNotes patternId instrument
      ((pattern.notesOf instrument).diff take ++ give)).notesOf patternId instrument =
        stableSort ((pattern.notesOf instrument).diff take ++ give) := by
    rw [Tables.notesOf, hget, Option.map_some, Option.getD_some, Pattern.notesOf_withSequence,
      NoteSequence.notes_assignSorted]
  refine ⟨?_, ?_, ?_, ?_, ?_⟩
  · rw [hnotes]
    exact sorted_stableSort _
  · rw [Tables.noteBag, hnotes, coe_stableSort, noteBag_eq hpattern,
      Multiset.coe_sub, Multiset.coe_add]
  · intro pattern' hpattern'
    rw [hget, Option.some_inj] at hpattern'
    subst hpattern'
    rw [Tables.noteBag, hnotes, Ne, Multiset.coe_eq_zero, OrderedMap.contains_eq_true_iff,
      Pattern.get?_withSequence, if_pos rfl, NoteSequence.empty, NoteSequence.notes_assignSorted]
    split_ifs with hempty
    · simpa using hempty
    · simpa using hempty
  · intro patternId' instrument' hne
    rw [Tables.withNotes, OrderedMap.get?_modify]
    split_ifs with hid
    · subst hid
      have hother : instrument' ≠ instrument := fun h => hne (by rw [h])
      simp only [hpattern, Option.map_some, Option.bind_some, Pattern.get?_withSequence,
        if_neg hother]
    · rfl
  · refine ⟨_, rfl, fun patternId' => ?_⟩
    rw [OrderedMap.get?_modify]
    split_ifs with hid
    · rw [Option.map_map]
      rfl
    · rfl

/-- A failed note command leaves the project alone, whichever way it went. -/
theorem NoteCommand.state_of_failed (command : NoteCommand) (project : Tables) :
    ((command.apply project).ok = false → (command.apply project).state = project) ∧
      ((command.revert project).ok = false → (command.revert project).state = project) := by
  constructor
  · rw [NoteCommand.apply]
    cases project.patterns.get? command.pattern with
    | none => exact fun _ => rfl
    | some pattern =>
      cases editSequence command.pattern command.instrument project command.removed
          command.added with
      | none => exact fun _ => rfl
      | some project' => simp
  · rw [NoteCommand.revert]
    cases editSequence command.pattern command.instrument project command.added
        command.removed with
    | none => exact fun _ => rfl
    | some project' => simp

/-- What a command that applies does to the stored notes. -/
theorem NoteCommand.notesOf_apply {command : NoteCommand} {project : Tables}
    (hok : (command.apply project).ok = true) :
    (command.apply project).state.notesOf command.pattern command.instrument =
        stableSort ((project.notesOf command.pattern command.instrument).diff command.removed ++
          command.added) ∧
      ∀ pattern instrument, (pattern, instrument) ≠ (command.pattern, command.instrument) →
        (command.apply project).state.notesOf pattern instrument =
          project.notesOf pattern instrument := by
  obtain ⟨pattern, hpattern, happlies⟩ := NoteCommand.apply_ok_iff.1 hok
  rw [NoteCommand.apply_eq hpattern happlies]
  have hpatterns : (command.result project pattern).patterns =
      (project.withNotes command.pattern command.instrument (command.edited pattern)).patterns := rfl
  constructor
  · dsimp only
    rw [Tables.notesOf, hpatterns, Tables.get?_withNotes hpattern, Option.map_some,
      Option.getD_some, Pattern.notesOf_withSequence, NoteSequence.notes_assignSorted,
      Tables.notesOf, hpattern, Option.map_some, Option.getD_some]
    rfl
  · intro patternId instrument hne
    dsimp only
    rw [Tables.notesOf, Tables.notesOf, hpatterns, Tables.withNotes, OrderedMap.get?_modify]
    split_ifs with hsame
    · subst hsame
      have hinstrument : instrument ≠ command.instrument := fun heq => hne (by rw [heq])
      rw [hpattern]
      simp only [Option.map_some, Option.getD_some, Pattern.notesOf]
      rw [Pattern.get?_withSequence, if_neg hinstrument]
    · rfl

/-- **A note edit is a multiset difference and union, or nothing.**  It succeeds just when the
pattern and the instrument exist, the notes to remove are stored and the notes to add are in range;
a success stores the sorted sequence, a failure of a command made of it changes nothing, and the
shortcut agrees with the general path. -/
theorem editSequence_multiset (patternId : PatternId) (instrument : InstrumentId)
    (project : Tables) (take give : List Note) :
    ((editSequence patternId instrument project take give).isSome = true ↔
      project.patterns.contains patternId = true ∧
      project.instruments.contains instrument = true ∧
      ↑take ≤ project.noteBag patternId instrument ∧ ∀ note ∈ give, isValidNote note = true) ∧
    (∀ project', editSequence patternId instrument project take give = some project' →
      EditedTo patternId instrument project take give project') ∧
    (∀ command : NoteCommand,
      ((command.apply project).ok = false → (command.apply project).state = project) ∧
      ((command.revert project).ok = false → (command.revert project).state = project)) ∧
    editSequence patternId instrument project take give =
      editByIndex patternId instrument project take give := by
  refine ⟨editSequence_isSome_iff .., fun project' hedit => ?_,
    fun command => command.state_of_failed project, editSequence_eq_editByIndex ..⟩
  cases hpattern : project.patterns.get? patternId with
  | none => simp [editSequence, hpattern] at hedit
  | some pattern =>
    obtain ⟨-, rfl⟩ := (editSequence_eq_some_iff hpattern).1 hedit
    exact editedTo_withNotes hpattern instrument take give

end OneBeat
