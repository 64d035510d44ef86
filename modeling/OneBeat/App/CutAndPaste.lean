import OneBeat.App.PianoRollSelection

/-!
# Cut and paste

`RackStore.cutNotes` and `pasteNotes`, `PianoRollStore.cutSelection` and `pasteClipboard`, over the
note calls of the engine.  A call that the engine refuses throws, and the rest is not reached.

The clipboard keeps every value of a note, but `ob_engine_note_add` takes a velocity of 0 to mean
that of the instrument.

* `cutPaste_iff` : cutting and pasting in place gives the same notes back, when none of them has the
  velocity 0 or that of the instrument is 0 too, and only then.
-/

namespace OneBeat

/-! ### The engine's side -/

namespace Tables

variable (project : Tables) (pattern : PatternId) (instrument : InstrumentId)

/-- Execute a note command; none when there is none or it fails. -/
def executeNotes (command : Option NoteCommand) : Option Tables :=
  command.bind fun command =>
    let applied := command.apply project
    if applied.ok then some applied.state else none

/-- `ob_engine_notes_remove` -/
def notesRemove (notes : List Note) : Option Tables :=
  if checkedNotes notes = [] then none
  else project.executeNotes (some (removeNotes pattern instrument (checkedNotes notes)))

/-- `ob_engine_note_add` -/
def noteAdd (note : Note) : Option Tables :=
  if note.start < 0 ∨ note.length ≤ 0 ∨ note.key < 0 ∨ 127 < note.key ∨ maxVelocity < note.velocity
  then none
  else if note.velocity = 0 then
    project.executeNotes (addNote project pattern instrument note.start note.length note.key)
  else project.executeNotes (some (insertNotes pattern instrument [note]))

/-- Add notes one after another. -/
def notesAdd (notes : List Note) : Option Tables :=
  notes.foldlM (fun project note => project.noteAdd pattern instrument note) project

end Tables

/-! ### The rack -/

/-- What copying and pasting a channel's notes reads and writes. -/
structure RackStore where
  project : Tables
  currentPattern : PatternId
  selectedInstrumentId : Option InstrumentId := none
  /-- The channel the notes came from, and the notes. -/
  clipboard : Option (InstrumentId × List Note) := none

namespace RackStore

variable (store : RackStore)

def notesFor (id : InstrumentId) : List Note := store.project.notesOf store.currentPattern id

def copyNotes (instrumentId : Option InstrumentId) : Bool × RackStore :=
  match instrumentId.or store.selectedInstrumentId with
  | none => (false, store)
  | some id =>
    if !store.project.instruments.contains id then (false, store)
    else if store.notesFor id = [] then (false, store)
    else (true, { store with clipboard := some (id, store.notesFor id) })

def cutNotes (instrumentId : Option InstrumentId) : Option (Bool × RackStore) :=
  match instrumentId.or store.selectedInstrumentId with
  | none => some (false, store)
  | some id =>
    match store.copyNotes (some id) with
    | (false, store) => some (false, store)
    | (true, store) =>
      (store.project.notesRemove store.currentPattern id
        ((store.clipboard.map Prod.snd).getD [])).map fun project => (true, { store with project })

def pasteNotes (instrumentId : Option InstrumentId) : Option (Bool × RackStore) :=
  match store.clipboard with
  | none => some (false, store)
  | some (source, notes) =>
    let target := instrumentId.or
      (if store.project.instruments.contains source then some source
        else store.selectedInstrumentId)
    match target with
    | none => some (false, store)
    | some target =>
      if !store.project.instruments.contains target then some (false, store)
      else (store.project.notesAdd store.currentPattern target notes).map fun project =>
        (true, { store with project, selectedInstrumentId := some target })

end RackStore

/-! ### The piano roll -/

/-- What copying and pasting a selection reads and writes.  Which notes a paste selects is
`PianoRollStore.pasteClipboard`. -/
structure RollClipboard where
  project : Tables
  currentPattern : PatternId
  instrumentId : InstrumentId
  /-- A set of values. -/
  selection : List Note := []
  clipboard : List Note := []
  clipboardTick : ℤ := 0

namespace RollClipboard

variable (store : RollClipboard)

def notes : List Note := store.project.notesOf store.currentPattern store.instrumentId

/-- The first tick of the selection. -/
def lowest : ℤ := store.selection.foldl (fun lowest note => min lowest note.start) (2 ^ 62)

/-- The selection relative to its first tick, by tick and then by key. -/
def relative : List Note :=
  (store.selection.map fun note => { note with start := note.start - store.lowest }).insertionSort
    fun a b => a.start < b.start ∨ a.start = b.start ∧ a.key ≤ b.key

def copySelection : RollClipboard :=
  if store.selection = [] then store
  else { store with clipboardTick := store.lowest, clipboard := store.relative }

def deleteSelection : Option RollClipboard :=
  if store.selection = [] then some store
  else (store.project.notesRemove store.currentPattern store.instrumentId store.selection).map
    fun project => { store with project, selection := [] }

def cutSelection : Option RollClipboard :=
  if store.selection = [] then some store else store.copySelection.deleteSelection

def pasteClipboard (atTick : Option ℤ) : Option RollClipboard :=
  if store.clipboard = [] then some store
  else
    let origin := atTick.getD store.clipboardTick
    (store.project.notesAdd store.currentPattern store.instrumentId
      (store.clipboard.map fun note => { note with start := origin + note.start })).map
        fun project => { store with project }

end RollClipboard

/-! ### What the engine adds -/

/-- The velocity a new note of the instrument has. -/
def Tables.velocityOf (project : Tables) (instrument : InstrumentId) : ℕ :=
  ((project.instruments.get? instrument).map fun owner => owner.noteDefaults.velocity).getD 0

/-- A note as it is added: with a velocity of 0 it takes that of the instrument. -/
def Note.added (velocity : ℕ) (note : Note) : Note :=
  { note with velocity := if note.velocity = 0 then velocity else note.velocity }

namespace Tables

variable {project project' : Tables} {pattern : PatternId} {instrument : InstrumentId}
  {command : NoteCommand} {note : Note} {notes : List Note}

/-- What an edit of notes leaves. -/
structure Edited (project : Tables) (pattern : PatternId) (instrument : InstrumentId)
    (removed added : List Note) (project' : Tables) : Prop where
  notes : (project'.notesOf pattern instrument : Multiset Note) =
    project.notesOf pattern instrument - removed + added
  instruments : project'.instruments = project.instruments
  pattern : project'.patterns.contains pattern = true

theorem edited_of_executeNotes (h : project.executeNotes (some command) = some project') :
    project.Edited command.pattern command.instrument command.removed command.added project' := by
  rw [executeNotes, Option.bind_some] at h
  obtain ⟨hok, heq⟩ := Option.ite_none_right_eq_some.1 h
  obtain rfl := Option.some_inj.1 heq
  obtain ⟨live, hlive, happlies⟩ := NoteCommand.apply_ok_iff.1 hok
  refine ⟨?_, ?_, ?_⟩
  · rw [(NoteCommand.notesOf_apply hok).1, coe_stableSort, ← Multiset.coe_add, Multiset.coe_sub]
  · rw [NoteCommand.apply_eq hlive happlies]
    rfl
  · have hget : (command.result project live).patterns.get? command.pattern = _ :=
      Tables.get?_withNotes hlive command.instrument (command.edited live)
    rw [NoteCommand.apply_eq hlive happlies, OrderedMap.contains_eq_true_iff]
    exact ⟨_, hget⟩

theorem exists_executeNotes (project : Tables) (command : NoteCommand)
    (hpattern : project.patterns.contains command.pattern = true)
    (hinstrument : project.instruments.contains command.instrument = true)
    (hremoved : (command.removed : Multiset Note) ≤
      project.notesOf command.pattern command.instrument)
    (hadded : ∀ note ∈ command.added, isValidNote note = true) :
    ∃ project', project.executeNotes (some command) = some project' := by
  obtain ⟨live, hlive⟩ := OrderedMap.contains_eq_true_iff.1 hpattern
  have hok : (command.apply project).ok = true := by
    refine NoteCommand.apply_ok_iff.2 ⟨live, hlive, hinstrument, ?_, hadded⟩
    rw [diff_eq_nil_iff, ← notesOf_of_get? hlive]
    exact hremoved
  exact ⟨_, if_pos hok⟩

/-- **One note**, with the velocity it is given. -/
theorem edited_of_noteAdd (h : project.noteAdd pattern instrument note = some project') :
    project.Edited pattern instrument [] [note.added (project.velocityOf instrument)] project' := by
  rw [noteAdd] at h
  obtain ⟨-, h⟩ := Option.ite_none_left_eq_some.1 h
  by_cases hzero : note.velocity = 0
  · rw [if_pos hzero, addNote] at h
    cases howner : project.instruments.get? instrument with
    | none =>
      rw [howner] at h
      cases h
    | some owner =>
      rw [howner] at h
      dsimp only at h
      split_ifs at h
      · cases h
      · cases h
      · have hedited := edited_of_executeNotes h
        rwa [Note.added, if_pos hzero, velocityOf, howner]
  · rw [if_neg hzero] at h
    have hedited := edited_of_executeNotes h
    rwa [Note.added, if_neg hzero]

theorem exists_noteAdd (hpattern : project.patterns.contains pattern = true)
    (hinstrument : project.instruments.contains instrument = true)
    (hnote : isValidNote note = true)
    (hadded : note.added (project.velocityOf instrument) = note) :
    ∃ project', project.noteAdd pattern instrument note = some project' := by
  have hvalid := isValidNote_iff.1 hnote
  rw [noteAdd, if_neg (by omega)]
  by_cases hzero : note.velocity = 0
  · obtain ⟨owner, howner⟩ := OrderedMap.contains_eq_true_iff.1 hinstrument
    have hsame : Note.mk note.start note.length note.key owner.noteDefaults.velocity = note := by
      rw [Note.added, if_pos hzero, velocityOf, howner] at hadded
      exact hadded
    rw [if_pos hzero, addNote, howner]
    dsimp only
    rw [hsame, hpattern, hnote]
    exact exists_executeNotes _ _ hpattern hinstrument (Multiset.zero_le _)
      fun other hother => by rwa [List.mem_singleton.1 hother]
  · rw [if_neg hzero]
    exact exists_executeNotes _ _ hpattern hinstrument (Multiset.zero_le _)
      fun other hother => by rwa [List.mem_singleton.1 hother]

theorem velocityOf_of_edited {removed added : List Note}
    (h : project.Edited pattern instrument removed added project') :
    project'.velocityOf instrument = project.velocityOf instrument := by
  rw [velocityOf, velocityOf, h.instruments]

/-- **One note after another.** -/
theorem notes_of_notesAdd (h : project.notesAdd pattern instrument notes = some project') :
    (project'.notesOf pattern instrument : Multiset Note) =
      project.notesOf pattern instrument +
        notes.map (Note.added (project.velocityOf instrument)) := by
  induction notes generalizing project with
  | nil =>
    obtain rfl := Option.some_inj.1 h
    exact (add_zero _).symm
  | cons note notes ih =>
    rw [notesAdd, List.foldlM_cons, Option.bind_eq_bind, Option.bind_eq_some_iff] at h
    obtain ⟨next, hnext, h⟩ := h
    have hedited := edited_of_noteAdd hnext
    rw [ih h, hedited.notes, velocityOf_of_edited hedited, List.map_cons, Multiset.coe_nil,
      tsub_zero, add_assoc, Multiset.coe_add, List.singleton_append]

theorem exists_notesAdd (notes : List Note)
    (hpattern : project.patterns.contains pattern = true)
    (hinstrument : project.instruments.contains instrument = true)
    (hvalid : ∀ note ∈ notes, isValidNote note = true)
    (hadded : ∀ note ∈ notes, note.added (project.velocityOf instrument) = note) :
    ∃ project', project.notesAdd pattern instrument notes = some project' := by
  induction notes generalizing project with
  | nil => exact ⟨project, rfl⟩
  | cons note notes ih =>
    obtain ⟨next, hnext⟩ := exists_noteAdd hpattern hinstrument
      (hvalid note (by simp)) (hadded note (by simp))
    have hedited := edited_of_noteAdd hnext
    obtain ⟨project', hproject'⟩ := ih hedited.pattern (by rwa [hedited.instruments])
      (fun other hother => hvalid other (List.mem_cons_of_mem _ hother))
      (fun other hother => by
        rw [velocityOf_of_edited hedited]
        exact hadded other (List.mem_cons_of_mem _ hother))
    refine ⟨project', ?_⟩
    rw [notesAdd, List.foldlM_cons, hnext]
    exact hproject'

/-- The notes are there, and none changes when it is added. -/
theorem map_added_eq_iff (velocity : ℕ) (notes : List Note) :
    (notes.map (Note.added velocity) : Multiset Note) = notes ↔
      ∀ note ∈ notes, note.added velocity = note := by
  constructor
  · intro h
    have hle (note : Note) : note.velocity ≤ (note.added velocity).velocity := by
      rw [Note.added]
      dsimp only
      split_ifs <;> omega
    have hsum := ((Multiset.coe_eq_coe.1 h).map Note.velocity).sum_eq
    rw [List.map_map] at hsum
    clear h
    -- velocities only grow, so where the sums agree each of them does
    induction notes with
    | nil => exact nofun
    | cons first notes ih =>
      have hrest : (notes.map Note.velocity).sum ≤
          (notes.map (Note.velocity ∘ Note.added velocity)).sum :=
        List.sum_le_sum fun note _ => hle note
      rw [List.map_cons, List.map_cons, List.sum_cons, List.sum_cons, Function.comp_apply] at hsum
      have hfirst := hle first
      intro note hnote
      rcases List.mem_cons.1 hnote with rfl | hnote
      · have hvelocity : (note.added velocity).velocity = note.velocity := by omega
        exact congrArg (fun velocity => { note with velocity }) hvelocity
      · exact ih (by omega) note hnote
  · intro h
    rw [List.map_congr_left h, List.map_id']

/-- What is cut and added again. -/
theorem notes_of_cut_iff {cut : Tables} {removed : List Note}
    (hcut : project.Edited pattern instrument removed [] cut)
    (hremoved : (removed : Multiset Note) ≤ project.notesOf pattern instrument)
    (hinstrument : project.instruments.contains instrument = true)
    (hvalid : ∀ note ∈ removed, isValidNote note = true) {added : List Note}
    (hperm : added.Perm removed) :
    (∃ project', cut.notesAdd pattern instrument added = some project' ∧
      (project'.notesOf pattern instrument : Multiset Note) =
        project.notesOf pattern instrument) ↔
      ∀ note ∈ removed, note.velocity ≠ 0 ∨ project.velocityOf instrument = 0 := by
  have hsame (note : Note) : note.added (project.velocityOf instrument) = note ↔
      note.velocity ≠ 0 ∨ project.velocityOf instrument = 0 := by
    rw [Note.added, Note.mk.injEq]
    by_cases hzero : note.velocity = 0
    · simp [hzero]
    · simp [hzero]
  simp only [← hsame]
  have hnotes {project' : Tables} (h : cut.notesAdd pattern instrument added = some project') :
      (project'.notesOf pattern instrument : Multiset Note) =
        project.notesOf pattern instrument - removed +
          (removed.map (Note.added (project.velocityOf instrument)) : List Note) := by
    rw [notes_of_notesAdd h, hcut.notes, velocityOf_of_edited hcut, Multiset.coe_nil, add_zero,
      Multiset.coe_eq_coe.2 (hperm.map _)]
  constructor
  · rintro ⟨project', h, hback⟩
    rw [hnotes h] at hback
    have hsplit := tsub_add_cancel_of_le hremoved
    exact (map_added_eq_iff _ _).1 (add_left_cancel (hback.trans hsplit.symm))
  · intro hkept
    obtain ⟨project', h⟩ := exists_notesAdd added hcut.pattern
      (by rwa [hcut.instruments]) (fun note hnote => hvalid note (hperm.mem_iff.1 hnote))
      (fun note hnote => by
        rw [velocityOf_of_edited hcut]
        exact hkept note (hperm.mem_iff.1 hnote))
    refine ⟨project', h, ?_⟩
    rw [hnotes h, (map_added_eq_iff _ _).2 hkept]
    exact tsub_add_cancel_of_le hremoved

end Tables

/-! ### Back in place -/

/-- The pattern and the instrument are there, and the notes are such as the model admits. -/
structure Tables.Stores (project : Tables) (pattern : PatternId) (instrument : InstrumentId) :
    Prop where
  hasPattern : project.patterns.contains pattern = true
  hasInstrument : project.instruments.contains instrument = true
  valid : ∀ note ∈ project.notesOf pattern instrument, isValidNote note = true

variable {instrument : InstrumentId}

theorem exists_notesRemove {project : Tables} {pattern : PatternId}
    (h : project.Stores pattern instrument) {removed : List Note} (hsome : removed ≠ [])
    (hremoved : (removed : Multiset Note) ≤ project.notesOf pattern instrument) :
    ∃ cut, project.notesRemove pattern instrument removed = some cut ∧
      project.Edited pattern instrument removed [] cut := by
  have hvalid : ∀ note ∈ removed, isValidNote note = true := fun note hnote =>
    h.valid note (Multiset.mem_coe.1 (Multiset.mem_of_le hremoved (Multiset.mem_coe.2 hnote)))
  rw [Tables.notesRemove, checkedNotes_of_valid hvalid, if_neg hsome]
  obtain ⟨cut, hcut⟩ := project.exists_executeNotes (removeNotes pattern instrument removed)
    h.hasPattern h.hasInstrument hremoved nofun
  exact ⟨cut, hcut, Tables.edited_of_executeNotes hcut⟩

/-- The channel's notes are cut and pasted back. -/
def RackStore.ComesBack (store : RackStore) (instrument : InstrumentId) : Prop :=
  ∃ cut pasted, store.cutNotes (some instrument) = some (true, cut) ∧
    cut.pasteNotes none = some (true, pasted) ∧
    (pasted.notesFor instrument : Multiset Note) = store.notesFor instrument

theorem RackStore.comesBack_iff {store : RackStore}
    (h : store.project.Stores store.currentPattern instrument)
    (hsome : store.notesFor instrument ≠ []) :
    store.ComesBack instrument ↔ ∀ note ∈ store.notesFor instrument,
      note.velocity ≠ 0 ∨ store.project.velocityOf instrument = 0 := by
  obtain ⟨cut, hcut, hedited⟩ := exists_notesRemove h hsome le_rfl
  have hcutNotes : store.cutNotes (some instrument) = some (true, { store with
      clipboard := some (instrument, store.notesFor instrument), project := cut }) := by
    simp [cutNotes, copyNotes, h.hasInstrument, hsome, hcut]
  rw [← Tables.notes_of_cut_iff hedited le_rfl h.hasInstrument h.valid (List.Perm.refl _)]
  have hthere : cut.instruments.contains instrument = true := by
    rw [hedited.instruments]
    exact h.hasInstrument
  constructor
  · rintro ⟨_, pasted, hcut', hpaste, hback⟩
    rw [hcutNotes] at hcut'
    obtain rfl := (Prod.mk.inj (Option.some_inj.1 hcut')).2
    simp only [pasteNotes, Option.none_or, hthere, if_true, Bool.not_true, Bool.false_eq_true,
      if_false] at hpaste
    obtain ⟨project', hadd, heq⟩ := Option.map_eq_some_iff.1 hpaste
    obtain rfl := (Prod.mk.inj heq).2
    exact ⟨project', hadd, hback⟩
  · rintro ⟨project', hadd, hback⟩
    refine ⟨_, { store with
      clipboard := some (instrument, store.notesFor instrument), project := project'
      selectedInstrumentId := some instrument }, hcutNotes, ?_, hback⟩
    simp only [pasteNotes, Option.none_or, hthere, if_true, Bool.not_true, Bool.false_eq_true,
      if_false]
    rw [hadd]
    rfl

/-- The selection is cut and pasted back. -/
def RollClipboard.ComesBack (store : RollClipboard) : Prop :=
  ∃ cut pasted, store.cutSelection = some cut ∧ cut.pasteClipboard none = some pasted ∧
    (pasted.notes : Multiset Note) = store.notes

/-- The clipboard at the tick it was copied from. -/
theorem RollClipboard.perm_relative (store : RollClipboard) :
    (store.relative.map fun note => { note with start := store.lowest + note.start }).Perm
      store.selection := by
  rw [relative]
  refine ((List.perm_insertionSort _ _).map _).trans ?_
  rw [List.map_map]
  refine List.Perm.of_eq ((List.map_congr_left fun note _ => ?_).trans (List.map_id' _))
  rw [Function.comp_apply]
  dsimp only
  rw [add_sub_cancel]

theorem RollClipboard.comesBack_iff {store : RollClipboard}
    (h : store.project.Stores store.currentPattern store.instrumentId)
    (hsome : store.selection ≠ []) (hnodup : store.selection.Nodup)
    (hmem : ∀ note ∈ store.selection, note ∈ store.notes) :
    store.ComesBack ↔ ∀ note ∈ store.selection,
      note.velocity ≠ 0 ∨ store.project.velocityOf store.instrumentId = 0 := by
  have hle : (store.selection : Multiset Note) ≤
      store.project.notesOf store.currentPattern store.instrumentId :=
    Multiset.coe_le.2 (hnodup.subperm hmem)
  obtain ⟨cut, hcut, hedited⟩ := exists_notesRemove h hsome hle
  have hperm := store.perm_relative
  have hclipboard : store.relative ≠ [] := by
    intro hempty
    rw [hempty, List.map_nil] at hperm
    exact hsome hperm.nil_eq.symm
  have hcutSelection : store.cutSelection = some { store with
      clipboardTick := store.lowest, clipboard := store.relative
      project := cut, selection := [] } := by
    rw [cutSelection, if_neg hsome, copySelection, if_neg hsome, deleteSelection, if_neg hsome,
      hcut]
    rfl
  rw [← Tables.notes_of_cut_iff hedited hle h.hasInstrument
    (fun note hnote => h.valid note (hmem note hnote)) hperm]
  constructor
  · rintro ⟨_, pasted, hcut', hpaste, hback⟩
    rw [hcutSelection] at hcut'
    obtain rfl := Option.some_inj.1 hcut'
    rw [pasteClipboard, if_neg hclipboard] at hpaste
    obtain ⟨project', hadd, rfl⟩ := Option.map_eq_some_iff.1 hpaste
    exact ⟨project', hadd, hback⟩
  · rintro ⟨project', hadd, hback⟩
    refine ⟨_, { store with
      clipboardTick := store.lowest, clipboard := store.relative
      project := project', selection := [] }, hcutSelection, ?_, hback⟩
    rw [pasteClipboard, if_neg hclipboard]
    exact Option.map_eq_some_iff.2 ⟨project', hadd, rfl⟩

/-- **Cut and paste in place** give a channel's notes back, and a selection, when no note has the
velocity 0 or the instrument's own is 0, and only then. -/
theorem cutPaste_iff (rack : RackStore) (instrument : InstrumentId) (roll : RollClipboard) :
    (rack.project.Stores rack.currentPattern instrument → rack.notesFor instrument ≠ [] →
      (rack.ComesBack instrument ↔ ∀ note ∈ rack.notesFor instrument,
        note.velocity ≠ 0 ∨ rack.project.velocityOf instrument = 0)) ∧
    (roll.project.Stores roll.currentPattern roll.instrumentId → roll.selection ≠ [] →
      roll.selection.Nodup → (∀ note ∈ roll.selection, note ∈ roll.notes) →
      (roll.ComesBack ↔ ∀ note ∈ roll.selection,
        note.velocity ≠ 0 ∨ roll.project.velocityOf roll.instrumentId = 0)) :=
  ⟨fun h hsome => RackStore.comesBack_iff h hsome,
    fun h hsome hnodup hmem => RollClipboard.comesBack_iff h hsome hnodup hmem⟩

/-- One channel with one note. -/
def oneNote (velocity : ℕ) : Tables :=
  ({ newProject ⟨2⟩ with
      instruments := OrderedMap.empty.assign ⟨4⟩ { name := "Kick" }
      patterns := OrderedMap.empty.assign ⟨1⟩ { name := "Pattern 1" } } : Tables).withNotes ⟨1⟩ ⟨4⟩
    [⟨0, 240, 60, velocity⟩]

theorem stores_oneNote : (oneNote 0).Stores ⟨1⟩ ⟨4⟩ ∧ (oneNote 100).Stores ⟨1⟩ ⟨4⟩ :=
  ⟨⟨by decide +kernel, by decide +kernel, by decide +kernel⟩,
    ⟨by decide +kernel, by decide +kernel, by decide +kernel⟩⟩

/-- A note with a velocity of its own. -/
theorem cutPaste_iff_oneNote :
    RackStore.ComesBack ⟨oneNote 100, ⟨1⟩, none, none⟩ ⟨4⟩ ∧
    RollClipboard.ComesBack
      { project := oneNote 100, currentPattern := ⟨1⟩, instrumentId := ⟨4⟩
        selection := [⟨0, 240, 60, 100⟩] } := by
  have h := cutPaste_iff ⟨oneNote 100, ⟨1⟩, none, none⟩ ⟨4⟩
    { project := oneNote 100, currentPattern := ⟨1⟩, instrumentId := ⟨4⟩
      selection := [⟨0, 240, 60, 100⟩] }
  exact ⟨(h.1 stores_oneNote.2 (by decide +kernel)).2 (by decide +kernel),
    (h.2 stores_oneNote.2 (by decide +kernel) (by decide +kernel) (by decide +kernel)).2
      (by decide +kernel)⟩

/-- **A silent note sounds** once it has been cut and pasted. -/
theorem not_comesBack_oneNote :
    ¬RackStore.ComesBack ⟨oneNote 0, ⟨1⟩, none, none⟩ ⟨4⟩ ∧
    ¬RollClipboard.ComesBack
      { project := oneNote 0, currentPattern := ⟨1⟩, instrumentId := ⟨4⟩
        selection := [⟨0, 240, 60, 0⟩] } := by
  constructor
  · rw [RackStore.comesBack_iff stores_oneNote.1 (by decide +kernel)]
    decide +kernel
  · rw [RollClipboard.comesBack_iff stores_oneNote.1 (by decide +kernel) (by decide +kernel)
      (by decide +kernel)]
    decide +kernel

end OneBeat
