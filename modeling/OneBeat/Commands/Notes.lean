import OneBeat.Lib.TieClasses
import OneBeat.Commands.ClipLengths

/-!
# Note commands

`NoteCommand` of `model/commands.cpp`: take notes out of a sequence, put notes in, and let the
clips that were exactly as long as the pattern follow its length.

* `editSequence_eq` : the fast path for a whole sequence and the removal index agree, and give the
  sorted sequence of what is left and what is added.
* `NoteCommand.revert_apply` : what a revert that follows an apply does.
* `NoteCommand.TiesRestored` : for the notes that agree in start, key and length, the removed ones
  were the last, and taking the added ones out again finds the others in their order.
* `NoteCommand.done_of_restored` : then the edit can be taken back and made again.
-/

namespace OneBeat

/-! ### `NoteCommand` -/

/-- Take notes out of a sequence, each the first time it occurs; gives what is left of the sequence
and of the notes. -/
def takeOut : List Note → List Note → List Note × List Note
  | [], removals => ([], removals)
  | note :: current, removals =>
    if note ∈ removals then takeOut current (removals.erase note)
    else
      let (kept, rest) := takeOut current removals
      (note :: kept, rest)

/-- Take notes out of the sequence of an instrument in a pattern and put notes in. -/
def editSequence (patternId : PatternId) (instrument : InstrumentId) (project : Tables)
    (take give : List Note) : Option Tables :=
  match project.patterns.get? patternId with
  | none => none
  | some pattern =>
    if !project.instruments.contains instrument then none
    else
      let current := pattern.notesOf instrument
      -- the whole sequence is replaced: no removal index is needed
      if take = current then
        if !give.all isValidNote then none
        else project.restoreSequence patternId instrument (.assignSorted give)
      else
        let (kept, rest) := takeOut current take
        if rest ≠ [] then none
        else if !give.all isValidNote then none
        else project.restoreSequence patternId instrument (.assignSorted (kept ++ give))

/-- An edit of the notes one instrument has in one pattern. -/
structure NoteCommand where
  pattern : PatternId
  instrument : InstrumentId
  removed : List Note
  added : List Note
  coalescable : Bool := false
  /-- The clips the edit dragged along, and the length each one had before. -/
  resized : List (ClipId × ℤ) := []

namespace NoteCommand

def apply (command : NoteCommand) (project : Tables) : Outcome Tables NoteCommand :=
  match project.patterns.get? command.pattern with
  | none => ⟨false, command, project⟩
  | some pattern =>
    let before := patternEffectiveLength pattern
    match editSequence command.pattern command.instrument project command.removed
        command.added with
    | none => ⟨false, command, project⟩
    | some project =>
      let (resized, project) := project.followPatternLength command.pattern before
      ⟨true, { command with resized }, project⟩

def revert (command : NoteCommand) (project : Tables) : Outcome Tables NoteCommand :=
  match editSequence command.pattern command.instrument project command.added
      command.removed with
  | none => ⟨false, command, project⟩
  | some project => ⟨true, { command with resized := [] }, project.setLengths command.resized⟩

/-- A clip that is already recorded keeps the length it had before the whole run. -/
def mergeResized (held next : List (ClipId × ℤ)) : List (ClipId × ℤ) :=
  next.foldl (fun resized entry =>
    if resized.any fun held => held.1 = entry.1 then resized else resized ++ [entry]) held

/-- `A → B` followed by `B → C` becomes `A → C`. -/
def coalesceWith (command next : NoteCommand) : Option NoteCommand :=
  if !command.coalescable || !next.coalescable || next.pattern ≠ command.pattern ||
      next.instrument ≠ command.instrument || command.added ≠ next.removed then none
  else some { command with
    added := next.added
    resized := mergeResized command.resized next.resized }

end NoteCommand

/-! ### Factories -/

def insertNotes (pattern : PatternId) (instrument : InstrumentId) (notes : List Note) :
    NoteCommand :=
  { pattern, instrument, removed := [], added := notes }

def removeNotes (pattern : PatternId) (instrument : InstrumentId) (notes : List Note) :
    NoteCommand :=
  { pattern, instrument, removed := notes, added := [] }

/-- The same notes, before and after. -/
def replaceNotes (pattern : PatternId) (instrument : InstrumentId) (before after : List Note) :
    Option NoteCommand :=
  if before.length ≠ after.length then none
  else some
    { pattern, instrument, removed := stableSort before, added := stableSort after
      coalescable := true }

/-! ### Removal -/

theorem takeOut_eq (current removals : List Note) :
    takeOut current removals = (current.diff removals, removals.diff current) := by
  induction current generalizing removals with
  | nil => simp [takeOut]
  | cons note current ih =>
    rw [takeOut]
    split_ifs with h
    · rw [ih, List.cons_diff_of_mem h, List.diff_cons]
    · simp only [ih, List.cons_diff_of_not_mem h, List.diff_cons, List.erase_of_not_mem h]

/-- Store the notes of an instrument in a pattern. -/
def Tables.withNotes (patternId : PatternId) (instrument : InstrumentId) (notes : List Note)
    (project : Tables) : Tables :=
  { project with
    patterns := project.patterns.modify patternId
      (Pattern.withSequence instrument (.assignSorted notes)) }

/-- The fast path for a whole sequence and the removal index agree. -/
theorem editSequence_eq {patternId : PatternId} {instrument : InstrumentId} {project : Tables}
    {take give : List Note} {pattern : Pattern}
    (hpattern : project.patterns.get? patternId = some pattern) :
    editSequence patternId instrument project take give =
      if project.instruments.contains instrument = true ∧
          take.diff (pattern.notesOf instrument) = [] ∧ ∀ note ∈ give, isValidNote note = true then
        some (project.withNotes patternId instrument
          ((pattern.notesOf instrument).diff take ++ give))
      else none := by
  have hcontains : project.patterns.contains patternId = true :=
    OrderedMap.contains_eq_true_iff.2 ⟨pattern, hpattern⟩
  unfold editSequence Tables.restoreSequence Tables.withNotes
  simp only [hpattern, takeOut_eq, hcontains, Bool.true_and, ← List.all_eq_true]
  cases project.instruments.contains instrument with
  | false => simp
  | true =>
    cases give.all isValidNote with
    | false => simp
    | true =>
      by_cases htake : take = pattern.notesOf instrument
      · simp [htake, diff_self]
      · by_cases hrest : take.diff (pattern.notesOf instrument) = []
        · simp [htake, hrest]
        · simp [htake, hrest]

theorem editSequence_eq_some_iff {patternId : PatternId} {instrument : InstrumentId}
    {project project' : Tables} {take give : List Note} {pattern : Pattern}
    (hpattern : project.patterns.get? patternId = some pattern) :
    editSequence patternId instrument project take give = some project' ↔
      (project.instruments.contains instrument = true ∧
        take.diff (pattern.notesOf instrument) = [] ∧ ∀ note ∈ give, isValidNote note = true) ∧
      project' = project.withNotes patternId instrument
        ((pattern.notesOf instrument).diff take ++ give) := by
  rw [editSequence_eq hpattern]
  split_ifs with h
  · rw [and_iff_right h, Option.some_inj]
    exact eq_comm
  · exact iff_of_false (by simp) fun hsome => h hsome.1

/-! ### Storing notes -/

/-- The notes of an instrument in a pattern. -/
def Tables.notesOf (project : Tables) (patternId : PatternId) (instrument : InstrumentId) :
    List Note :=
  ((project.patterns.get? patternId).map fun pattern => pattern.notesOf instrument).getD []

theorem notesOf_of_get? {project : Tables} {pattern : PatternId} {owner : Pattern}
    (howner : project.patterns.get? pattern = some owner) (instrument : InstrumentId) :
    project.notesOf pattern instrument = owner.notesOf instrument := by
  rw [Tables.notesOf, howner]
  rfl

namespace Tables

variable {project : Tables} {patternId : PatternId} {instrument : InstrumentId}

@[simp] theorem clips_withNotes (notes : List Note) :
    (project.withNotes patternId instrument notes).clips = project.clips := rfl

theorem get?_withNotes {pattern : Pattern} (h : project.patterns.get? patternId = some pattern)
    (instrument : InstrumentId) (notes : List Note) :
    (project.withNotes patternId instrument notes).patterns.get? patternId =
      some (pattern.withSequence instrument (.assignSorted notes)) := by
  simp [withNotes, h]

theorem withNotes_withNotes (notes notes' : List Note) :
    (project.withNotes patternId instrument notes).withNotes patternId instrument notes' =
      project.withNotes patternId instrument notes' := by
  have hcomp : Pattern.withSequence instrument (.assignSorted notes') ∘
      Pattern.withSequence instrument (.assignSorted notes) =
        Pattern.withSequence instrument (.assignSorted notes') :=
    funext fun _ => Pattern.withSequence_withSequence ..
  unfold withNotes
  simp only [OrderedMap.modify_modify, hcomp]

theorem withNotes_mapClips (notes : List Note) (f : ClipId → Clip → Clip) :
    (project.mapClips f).withNotes patternId instrument notes =
      (project.withNotes patternId instrument notes).mapClips f := rfl

/-- Notes that sort to what is stored change nothing. -/
theorem withNotes_eq_self {pattern : Pattern}
    (hget : project.patterns.get? patternId = some pattern) (hsparse : pattern.Sparse)
    {notes : List Note} (h : stableSort notes = pattern.notesOf instrument) :
    project.withNotes patternId instrument notes = project := by
  unfold withNotes
  rw [OrderedMap.modify_of_forall]
  intro live hlive
  rw [hget, Option.some_inj] at hlive
  subst hlive
  exact Pattern.withSequence_notesOf hsparse (by rw [NoteSequence.notes_assignSorted, h])

theorem withNotes_congr {notes notes' : List Note} (h : stableSort notes = stableSort notes') :
    project.withNotes patternId instrument notes =
      project.withNotes patternId instrument notes' := by
  unfold withNotes
  rw [show NoteSequence.assignSorted notes = NoteSequence.assignSorted notes' from
    NoteSequence.ext (by simp only [NoteSequence.notes_assignSorted, h])]

end Tables

theorem Pattern.stableSort_notesOf (pattern : Pattern) (i : InstrumentId) :
    stableSort (pattern.notesOf i) = pattern.notesOf i := by
  unfold Pattern.notesOf
  cases pattern.sequences.get? i with
  | none => rfl
  | some sequence => exact sequence.stableSort_notes

/-! ### Ties -/

/-- The notes at one place of the canonical order. -/
def tied (place : ℤ ×ₗ ℤ ×ₗ ℤ) (notes : List Note) : List Note := ties Note.place place notes

theorem tied_stableSort (place : ℤ ×ₗ ℤ ×ₗ ℤ) (notes : List Note) :
    tied place (stableSort notes) = tied place notes :=
  ties_insertionSort Note.le_iff notes

theorem stableSort_eq_iff {notes sorted : List Note} (h : sorted.Pairwise Note.le) :
    stableSort notes = sorted ↔ ∀ place, tied place notes = tied place sorted :=
  insertionSort_eq_iff Note.le_iff h

theorem stableSort_congr {notes notes' : List Note}
    (h : ∀ place, tied place notes = tied place notes') : stableSort notes = stableSort notes' :=
  (stableSort_eq_iff (sorted_stableSort notes')).2 fun place => by rw [h, tied_stableSort]

/-- What a note edit leaves at one place, its added notes among them. -/
theorem tied_edited (place : ℤ ×ₗ ℤ ×ₗ ℤ) (current removed added : List Note) :
    tied place (stableSort (current.diff removed ++ added)) =
      (tied place current).diff (tied place removed) ++ tied place added := by
  rw [tied_stableSort]
  simp only [tied, ties_append, ties_diff]

namespace NoteCommand

/-- At every place, the removed notes were the last, and taking the added ones out again finds the
others in their order. -/
def TiesRestored (current removed added : List Note) : Prop :=
  ∀ place, ∃ rest, tied place current = rest ++ tied place removed ∧
    ((tied place current).diff (tied place removed) ++ tied place added).diff (tied place added) =
      rest

/-- At every place, the removed notes were the last, the others keep their order when they are
taken out, and keep it when the added ones are taken out again. -/
def TiesSettled (current removed added : List Note) : Prop :=
  ∀ place,
    tied place current =
        (tied place current).diff (tied place removed) ++ tied place removed ∧
      ((tied place current).diff (tied place removed) ++ tied place added).diff
        (tied place added) = (tied place current).diff (tied place removed)

theorem TiesSettled.restored {current removed added : List Note}
    (h : TiesSettled current removed added) : TiesRestored current removed added :=
  fun place => ⟨_, (h place).1, (h place).2⟩

/-- Taking out what an edit added and putting back what it removed gives the sequence back exactly
when the ties are restored. -/
theorem stableSort_undo_iff {current removed added : List Note}
    (hcurrent : stableSort current = current) :
    stableSort ((stableSort (current.diff removed ++ added)).diff added ++ removed) = current ↔
      TiesRestored current removed added := by
  have hsorted : current.Pairwise Note.le := hcurrent ▸ sorted_stableSort current
  rw [stableSort_eq_iff hsorted]
  refine forall_congr' fun place => ?_
  have hplace : tied place ((stableSort (current.diff removed ++ added)).diff added ++ removed) =
      ((tied place current).diff (tied place removed) ++ tied place added).diff
        (tied place added) ++ tied place removed := by
    rw [← tied_edited]
    simp only [tied, ties_append, ties_diff]
  rw [hplace]
  exact ⟨fun h => ⟨_, h.symm, rfl⟩, fun ⟨rest, h₁, h₂⟩ => by rw [h₂, h₁]⟩

/-! ### Apply and revert -/

variable {command : NoteCommand} {project : Tables} {pattern : Pattern}

/-- The notes after an edit, not yet sorted. -/
def edited (command : NoteCommand) (pattern : Pattern) : List Note :=
  (pattern.notesOf command.instrument).diff command.removed ++ command.added

/-- The effective length of the pattern after an edit. -/
def lengthAfter (command : NoteCommand) (pattern : Pattern) : ℤ :=
  patternEffectiveLength
    (pattern.withSequence command.instrument (.assignSorted (command.edited pattern)))

/-- The edit can be made: the instrument exists, the notes to remove are there, and the notes to
add are in range. -/
def Applies (command : NoteCommand) (project : Tables) (pattern : Pattern) : Prop :=
  project.instruments.contains command.instrument = true ∧
    command.removed.diff (pattern.notesOf command.instrument) = [] ∧
    ∀ note ∈ command.added, isValidNote note = true

/-- The project after an edit. -/
def result (command : NoteCommand) (project : Tables) (pattern : Pattern) : Tables :=
  (project.withNotes command.pattern command.instrument (command.edited pattern)).mapClips fun _ =>
    Tables.followed command.pattern (patternEffectiveLength pattern) (command.lengthAfter pattern)

/-- The clips an edit drags along. -/
def dragged (command : NoteCommand) (project : Tables) (pattern : Pattern) : List (ClipId × ℤ) :=
  ((project.withNotes command.pattern command.instrument
    (command.edited pattern)).followPatternLength command.pattern
      (patternEffectiveLength pattern)).1

theorem apply_eq (hpattern : project.patterns.get? command.pattern = some pattern)
    (h : command.Applies project pattern) :
    command.apply project =
      ⟨true, { command with resized := command.dragged project pattern },
        command.result project pattern⟩ := by
  unfold apply
  simp only [hpattern, (editSequence_eq_some_iff hpattern).2 ⟨h, rfl⟩]
  rw [result, lengthAfter, ← Tables.followPatternLength_snd (Tables.get?_withNotes hpattern _ _)]
  rfl

theorem apply_eq_ok_iff (hpattern : project.patterns.get? command.pattern = some pattern)
    {command' : NoteCommand} {project' : Tables} :
    command.apply project = ⟨true, command', project'⟩ ↔
      command.Applies project pattern ∧
      command' = { command with resized := command.dragged project pattern } ∧
      project' = command.result project pattern := by
  by_cases h : command.Applies project pattern
  · rw [apply_eq hpattern h, and_iff_right h]
    simp [eq_comm]
  · refine iff_of_false (fun happly => h ?_) fun hresult => h hresult.1
    unfold apply at happly
    simp only [hpattern] at happly
    cases hedit : editSequence command.pattern command.instrument project command.removed
        command.added with
    | none => simp [hedit] at happly
    | some project' => exact ((editSequence_eq_some_iff hpattern).1 hedit).1

theorem apply_ok_iff : (command.apply project).ok = true ↔
    ∃ pattern, project.patterns.get? command.pattern = some pattern ∧
      command.Applies project pattern := by
  cases hpattern : project.patterns.get? command.pattern with
  | none => simp [apply, hpattern]
  | some pattern =>
    simp only [Option.some_inj, exists_eq_left']
    refine ⟨fun h => ?_, fun h => by rw [apply_eq hpattern h]⟩
    obtain ⟨happlies, -, -⟩ := (apply_eq_ok_iff hpattern).1
      (show command.apply project = ⟨true, (command.apply project).command,
        (command.apply project).state⟩ by rw [← h])
    exact happlies

/-- Clips that followed are put back where they were. -/
theorem relength_dragged (hpattern : project.patterns.get? command.pattern = some pattern)
    {id : ClipId} {clip : Clip} (hclip : project.clips.get? id = some clip) :
    Tables.relength (command.dragged project pattern) id
      (Tables.followed command.pattern (patternEffectiveLength pattern)
        (command.lengthAfter pattern) clip) = clip := by
  obtain ⟨hlengths, hkeys⟩ := Tables.followPatternLength_fst
    (Tables.get?_withNotes hpattern command.instrument (command.edited pattern))
    (patternEffectiveLength pattern)
  by_cases hmem : id ∈ (command.dragged project pattern).map Prod.fst
  · obtain ⟨-, other, hother, hfollows⟩ := (hkeys id).1 hmem
    obtain rfl : clip = other := Option.some_inj.1 (hclip.symm.trans hother)
    rw [Tables.relength_of_forall hmem fun l => hlengths id l, Tables.followed, if_pos hfollows,
      Clip.withLength_withLength]
    simp only [Tables.follows, Bool.and_eq_true, decide_eq_true_eq] at hfollows
    rw [← hfollows.2, Clip.withLength_length]
  · rw [Tables.relength_of_notMem hmem]
    unfold Tables.followed
    split_ifs with hfollows
    · have hsame : command.lengthAfter pattern = patternEffectiveLength pattern := by
        by_contra hne
        exact hmem ((hkeys id).2 ⟨hne, clip, hclip, hfollows⟩)
      simp only [Tables.follows, Bool.and_eq_true, decide_eq_true_eq] at hfollows
      rw [hsame, ← hfollows.2, Clip.withLength_length]
    · rfl

/-- What a revert with some recorded lengths does to the result of an apply: it needs the removed
notes to be in range, and then stores what its own removal leaves, the removed notes at the end. -/
theorem revert_result (hpattern : project.patterns.get? command.pattern = some pattern)
    (h : command.Applies project pattern) (lengths : List (ClipId × ℤ)) :
    ({ command with resized := lengths } : NoteCommand).revert (command.result project pattern) =
      if ∀ note ∈ command.removed, isValidNote note = true then
        ⟨true, { command with resized := [] },
          (project.withNotes command.pattern command.instrument
            ((stableSort (command.edited pattern)).diff command.added ++ command.removed)).mapClips
              fun id clip => Tables.relength lengths id (Tables.followed command.pattern
                (patternEffectiveLength pattern) (command.lengthAfter pattern) clip)⟩
      else ⟨false, { command with resized := lengths }, command.result project pattern⟩ := by
  have hlive : (command.result project pattern).patterns.get? command.pattern =
      some (pattern.withSequence command.instrument (.assignSorted (command.edited pattern))) :=
    Tables.get?_withNotes hpattern _ _
  have hnotes : (pattern.withSequence command.instrument
      (.assignSorted (command.edited pattern))).notesOf command.instrument =
        stableSort (command.edited pattern) := by
    rw [Pattern.notesOf_withSequence, NoteSequence.notes_assignSorted]
  -- the added notes are all there
  have hadded : command.added.diff (stableSort (command.edited pattern)) = [] := by
    have hperm : (stableSort (command.edited pattern)).Perm (command.added ++
        (pattern.notesOf command.instrument).diff command.removed) :=
      (perm_stableSort _).trans List.perm_append_comm
    rw [List.Perm.diff_left _ hperm, List.diff_append, diff_self, List.nil_diff]
  unfold revert
  rw [editSequence_eq hlive, hnotes]
  simp only [hadded, true_and, show (command.result project pattern).instruments =
    project.instruments from rfl, h.1]
  split_ifs with hvalid
  · simp only [Tables.setLengths_eq, result, Tables.withNotes_mapClips,
      Tables.withNotes_withNotes, Tables.mapClips_mapClips]
  · rfl

/-- **What a revert that follows an apply does.** -/
theorem revert_apply (hpattern : project.patterns.get? command.pattern = some pattern)
    (h : command.Applies project pattern) :
    ({ command with resized := command.dragged project pattern } : NoteCommand).revert
        (command.result project pattern) =
      if ∀ note ∈ command.removed, isValidNote note = true then
        ⟨true, { command with resized := [] },
          project.withNotes command.pattern command.instrument
            ((stableSort (command.edited pattern)).diff command.added ++ command.removed)⟩
      else ⟨false, { command with resized := command.dragged project pattern },
        command.result project pattern⟩ := by
  rw [revert_result hpattern h]
  have hback : (project.withNotes command.pattern command.instrument
      ((stableSort (command.edited pattern)).diff command.added ++ command.removed)).mapClips
        (fun id clip => Tables.relength (command.dragged project pattern) id
          (Tables.followed command.pattern (patternEffectiveLength pattern)
            (command.lengthAfter pattern) clip)) = _ :=
    Tables.mapClips_eq_self fun id clip hclip => relength_dragged hpattern hclip
  rw [hback]

/-- An edit that has been taken back, when its ties are restored. -/
theorem undone_of_restored (hpattern : project.patterns.get? command.pattern = some pattern)
    (hsparse : pattern.Sparse) (h : command.Applies project pattern)
    (hvalid : ∀ note ∈ command.removed, isValidNote note = true)
    (hties : TiesRestored (pattern.notesOf command.instrument) command.removed command.added) :
    History.Undone apply revert { command with resized := [] } project
      (command.result project pattern) := by
  have happly := @apply_eq { command with resized := [] } project pattern hpattern h
  refine ⟨{ command with resized := command.dragged project pattern },
    { command with resized := [] }, happly, ?_, happly⟩
  rw [revert_apply hpattern h, if_pos hvalid, Tables.withNotes_eq_self hpattern hsparse]
  exact (stableSort_undo_iff (pattern.stableSort_notesOf _)).2 hties

/-- **An edit whose ties are restored can be taken back and made again.** -/
theorem done_of_restored (hpattern : project.patterns.get? command.pattern = some pattern)
    (hsparse : pattern.Sparse) (h : command.Applies project pattern)
    (hvalid : ∀ note ∈ command.removed, isValidNote note = true)
    (hties : TiesRestored (pattern.notesOf command.instrument) command.removed command.added) :
    History.Done apply revert { command with resized := command.dragged project pattern } project
      (command.result project pattern) := by
  refine ⟨_, ?_, undone_of_restored hpattern hsparse h hvalid hties⟩
  rw [revert_apply hpattern h, if_pos hvalid, Tables.withNotes_eq_self hpattern hsparse]
  exact (stableSort_undo_iff (pattern.stableSort_notesOf _)).2 hties

/-! ### Undo -/

/-- A revert right after an apply succeeds, and gives back the stored notes, one by one, and the
length of every clip. -/
def UndoExact (command : NoteCommand) (project : Tables) : Prop :=
  let applied := command.apply project
  let reverted := applied.command.revert applied.state
  reverted.ok = true ∧
    reverted.state.notesOf command.pattern command.instrument =
      project.notesOf command.pattern command.instrument ∧
    ∀ id, (reverted.state.clips.get? id).map Clip.length =
      (project.clips.get? id).map Clip.length

/-- **Undo of a note edit is exact just when the removed notes are in range and the ties are
restored.** -/
theorem undoExact_iff (hok : (command.apply project).ok = true) :
    command.UndoExact project ↔
      (∀ note ∈ command.removed, isValidNote note = true) ∧
      TiesRestored (project.notesOf command.pattern command.instrument) command.removed
        command.added := by
  obtain ⟨pattern, hpattern, happlies⟩ := apply_ok_iff.1 hok
  have hnotes : project.notesOf command.pattern command.instrument =
      pattern.notesOf command.instrument := notesOf_of_get? hpattern command.instrument
  have hstored : ∀ notes : List Note,
      (project.withNotes command.pattern command.instrument notes).notesOf command.pattern
        command.instrument = stableSort notes := by
    intro notes
    rw [Tables.notesOf, Tables.get?_withNotes hpattern, Option.map_some, Option.getD_some,
      Pattern.notesOf_withSequence, NoteSequence.notes_assignSorted]
  unfold UndoExact
  rw [apply_eq hpattern happlies]
  simp only [revert_apply hpattern happlies, hnotes]
  split_ifs with hvalid
  · simp only [hstored, true_and, Tables.clips_withNotes, implies_true, and_true]
    exact (stableSort_undo_iff (pattern.stableSort_notesOf _)).trans
      ⟨fun h => ⟨hvalid, h⟩, And.right⟩
  · simp [hvalid]

/-- Two notes that differ in velocity only. -/
def softAfterLoud : List Note := [⟨0, 240, 60, 12000⟩, ⟨0, 240, 60, 3000⟩]

/-- A project in which one instrument plays `softAfterLoud`. -/
def tiedProject : Tables :=
  { newProject ⟨1⟩ with
    instruments := OrderedMap.empty.assign ⟨2⟩ { routing := [⟨0, ⟨1⟩⟩] }
    patterns := OrderedMap.empty.assign ⟨3⟩
      { sequences := OrderedMap.empty.assign ⟨2⟩ (.assignSorted softAfterLoud) } }

/-- Deleting both is exact: the removed notes are all the notes at their place. -/
theorem undoExact_tiedProject : (removeNotes ⟨3⟩ ⟨2⟩ softAfterLoud).UndoExact tiedProject := by
  refine (undoExact_iff (by decide +kernel)).2 ⟨by decide +kernel, fun place => ⟨[], ?_, ?_⟩⟩
  · have : tiedProject.notesOf ⟨3⟩ ⟨2⟩ = softAfterLoud := by decide +kernel
    rw [List.nil_append]
    exact congrArg (tied place) this
  · have : tiedProject.notesOf ⟨3⟩ ⟨2⟩ = softAfterLoud := by decide +kernel
    simp only [removeNotes, this, diff_self]
    rfl

/-- Deleting the first of the two and taking that back swaps them. -/
theorem not_undoExact_tiedProject :
    ((removeNotes ⟨3⟩ ⟨2⟩ [⟨0, 240, 60, 12000⟩]).apply tiedProject).ok = true ∧
      ¬(removeNotes ⟨3⟩ ⟨2⟩ [⟨0, 240, 60, 12000⟩]).UndoExact tiedProject :=
  ⟨by decide +kernel, fun h => absurd h.2.1 (by decide +kernel)⟩

end NoteCommand

end OneBeat
