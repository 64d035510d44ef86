import Mathlib.Data.Multiset.AddSub
import OneBeat.Commands.NoteMoves
import OneBeat.Lib.RunningExtremes
import OneBeat.Session.Edits

/-!
# Dragging notes

The piano roll's side of a drag: `PianoRollStore` of `piano_roll_store.dart`.  The store holds the
notes it has read and a selection of them by value.  A drag sends the selection by the step from the
last offset; what the selection has become the store works out by itself, and of that it keeps what
it finds among the notes when it reads them again.

**Main theorem** (`drag_endsAs`): a drag ends as its last offset alone would end it, with the moved notes
selected, when no offset meets an edge; a move that meets one does not.
-/

namespace OneBeat

/-! ### The engine's side -/

/-- What `replaceNotes` leaves of the notes of an instrument. -/
def replaced (notes before after : List Note) : Option (List Note) :=
  if (stableSort before).diff notes = [] ∧ ∀ note ∈ after, isValidNote note = true then
    some (stableSort (notes.diff (stableSort before) ++ stableSort after))
  else none

theorem mem_stableSort {note : Note} {notes : List Note} : note ∈ stableSort notes ↔ note ∈ notes :=
  (perm_stableSort notes).mem_iff

/-! ### The store's side -/

/-- The state of the store that edits of the selection are about. -/
structure PianoRollStore where
  notes : List Note := []
  /-- A set of values. -/
  selection : List Note := []
  lastNoteLength : ℤ := ticksPerQuarter / 4
  dragDeltaTicks : ℤ := 0
  dragSemitones : ℤ := 0
  dragLengthDelta : ℤ := 0
  deriving DecidableEq

/-- Put notes into a set that keeps the order they came in. -/
def addAll (set notes : List Note) : List Note :=
  notes.foldl (fun set note => if note ∈ set then set else set ++ [note]) set

/-- `toModelNotes`; one note that is out of range empties the selection. -/
def checkedNotes (notes : List Note) : List Note := if notes.all isValidNote then notes else []

/-- A note made longer, by the store's own rule. -/
def Note.lengthen (lengthDelta : ℤ) (note : Note) : Note :=
  { note with length := max 1 (note.length + lengthDelta) }

namespace PianoRollStore

variable (store : PianoRollStore)

/-- `_reselect`: what is not among the notes is not selected. -/
def reselect : PianoRollStore :=
  { store with selection := store.selection.filter fun note => note ∈ store.notes }

/-- Have the engine edit the selection, and take the selection to be what is predicted; none when the
engine refuses. -/
def editSelection (edit : List Note → List Note) (predict : Note → Note) : Option PianoRollStore :=
  let selection := checkedNotes store.selection
  if selection = [] then none
  else (replaced store.notes selection (edit selection)).map fun notes =>
    { store with notes, selection := addAll [] (store.selection.map predict) }

/-- What `ob_engine_notes_move` does to a selection. -/
def engineMove (deltaTicks semitones : ℤ) (selection : List Note) : List Note :=
  movedNotes selection deltaTicks (Int.bmod semitones (2 ^ 16)) none

def engineResize (lengthDelta : ℤ) (selection : List Note) : List Note :=
  selection.map (resizedNote lengthDelta none)

def beginMove : PianoRollStore := { store with dragDeltaTicks := 0, dragSemitones := 0 }

/-- A call that throws leaves the store as it was. -/
def updateMove (offset : ℤ × ℤ) : PianoRollStore :=
  let tickStep := offset.1 - store.dragDeltaTicks
  let keyStep := offset.2 - store.dragSemitones
  if tickStep = 0 ∧ keyStep = 0 then store
  else
    match store.editSelection (engineMove tickStep keyStep) (Note.shift tickStep keyStep) with
    | none => store
    | some next =>
      { next with dragDeltaTicks := offset.1, dragSemitones := offset.2 }.reselect

def beginResize : PianoRollStore := { store with dragLengthDelta := 0 }

def updateResize (lengthDelta : ℤ) : PianoRollStore :=
  let step := lengthDelta - store.dragLengthDelta
  if step = 0 then store
  else
    match store.editSelection (engineResize step) (Note.lengthen step) with
    | none => store
    | some next =>
      { next with
        dragLengthDelta := lengthDelta
        lastNoteLength := (next.selection.head?.map Note.length).getD next.lastNoteLength }.reselect

end PianoRollStore

/-! ### Moving a group -/

variable {notes selection : List Note} {deltaTicks semitones : ℤ}

/-- The notes do not run off the end of time. -/
def EndsInTime (deltaTicks : ℤ) (notes : List Note) : Prop :=
  ∀ note ∈ notes, note.start + note.length + deltaTicks ≤ maxTicks

/-- **A group is moved as one, and stays a group of notes; as far as was asked for when that leaves
notes.** -/
theorem movedNotes_spec (hvalid : ∀ note ∈ notes, isValidNote note = true) (hsome : notes ≠ [])
    (hends : EndsInTime deltaTicks notes) (semitones : ℤ) :
    ∃ ticks keys, movedNotes notes deltaTicks semitones none = notes.map (Note.shift ticks keys) ∧
      (∀ note ∈ notes, isValidNote (note.shift ticks keys) = true) ∧
      ((∀ note ∈ notes, isValidNote (note.shift deltaTicks semitones) = true) →
        ticks = deltaTicks ∧ keys = semitones) := by
  obtain ⟨earliest, hleast, hmoved⟩ := movedNotes_eq hsome deltaTicks semitones none
  simp only [isValidNote_iff] at hvalid ⊢
  have hstart : ∀ note ∈ notes, earliest ≤ note.start := fun note hnote =>
    hleast.2 ⟨note, hnote, rfl⟩
  have hclosest := boundedTranspose_closest hsome
    (fun note hnote => by have := hvalid note hnote; omega) semitones
  obtain ⟨⟨latest, hlatest, hearliest⟩, -⟩ := hleast
  have hnonneg := (hvalid latest hlatest).1
  have htime : timeShift earliest deltaTicks none = max deltaTicks (-earliest) := rfl
  refine ⟨timeShift earliest deltaTicks none, boundedTranspose notes semitones, ?_, ?_, ?_⟩
  · rw [hmoved]
    refine List.map_congr_left fun note hnote => ?_
    have := hvalid note hnote
    have := hstart note hnote
    have := hends note hnote
    rw [addClamped_eq (by rw [minTicks]; omega) (by omega)]
    rfl
  · intro note hnote
    have := hvalid note hnote
    have := hstart note hnote
    have := hends note hnote
    have := hclosest.keeps note hnote
    simp only [Note.shift]
    omega
  · intro hfits
    refine ⟨?_, ?_⟩
    · have := (hfits latest hlatest).1
      simp only [Note.shift] at this
      omega
    · by_contra hne
      have hkeeps : KeepsKeys notes semitones := fun note hnote => by
        have := hfits note hnote
        simp only [Note.shift] at this
        omega
      have hlt := hclosest.closest semitones hkeeps (Ne.symm hne)
      rw [sub_self, abs_zero] at hlt
      exact absurd hlt (not_lt.2 (abs_nonneg _))

/-! ### Editing the selection -/

theorem mem_addAll {set : List Note} {note : Note} :
    note ∈ addAll set notes ↔ note ∈ set ∨ note ∈ notes := by
  induction notes generalizing set with
  | nil => simp [addAll]
  | cons first notes ih =>
    rw [addAll, List.foldl_cons]
    refine Iff.trans ih ?_
    split_ifs with h
    · rw [List.mem_cons]
      exact ⟨fun hmem => hmem.imp_right .inr, fun hmem => by
        rcases hmem with hmem | rfl | hmem
        exacts [.inl hmem, .inl h, .inr hmem]⟩
    · rw [List.mem_append, List.mem_singleton, List.mem_cons, or_assoc]

theorem length_addAll_le (set notes : List Note) :
    (addAll set notes).length ≤ set.length + notes.length := by
  induction notes generalizing set with
  | nil => exact le_rfl
  | cons first notes ih =>
    rw [addAll, List.foldl_cons]
    refine (ih _).trans ?_
    split_ifs
    · rw [List.length_cons]
      omega
    · rw [List.length_append, List.length_singleton, List.length_cons]
      omega

/-- Notes that differ are put in one after another. -/
theorem addAll_of_nodup {set : List Note} (h : (set ++ notes).Nodup) :
    addAll set notes = set ++ notes := by
  induction notes generalizing set with
  | nil => exact (List.append_nil set).symm
  | cons first notes ih =>
    have hnew : first ∉ set := fun hmem =>
      (List.nodup_append.1 h).2.2 first hmem first List.mem_cons_self rfl
    have happend : set ++ first :: notes = set ++ [first] ++ notes := by simp
    rw [addAll, List.foldl_cons, if_neg hnew, happend]
    exact ih (happend ▸ h)

theorem checkedNotes_of_valid (h : ∀ note ∈ notes, isValidNote note = true) :
    checkedNotes notes = notes :=
  if_pos (List.all_eq_true.2 h)

/-- The selection is a set of notes that are there. -/
structure PianoRollStore.Live (store : PianoRollStore) : Prop where
  valid : ∀ note ∈ store.notes, isValidNote note = true
  nodup : store.selection.Nodup
  mem : ∀ note ∈ store.selection, note ∈ store.notes
  some : store.selection ≠ []

theorem replaced_eq_some (hnodup : selection.Nodup) (hmem : ∀ note ∈ selection, note ∈ notes)
    {after : List Note} (hvalid : ∀ note ∈ after, isValidNote note = true) :
    ∃ left, replaced notes selection after = some left ∧
      (left : Multiset Note) = notes - selection + after := by
  have hdiff : (stableSort selection).diff notes = [] := by
    have hsub : (stableSort selection).Subperm notes :=
      ((perm_stableSort selection).nodup_iff.2 hnodup).subperm fun note hnote =>
        hmem note (mem_stableSort.1 hnote)
    have hzero := tsub_eq_zero_of_le (Multiset.coe_le.2 hsub)
    rwa [Multiset.coe_sub, Multiset.coe_eq_zero] at hzero
  refine ⟨_, if_pos ⟨hdiff, hvalid⟩, ?_⟩
  rw [coe_stableSort, ← Multiset.coe_add, coe_stableSort, ← Multiset.coe_sub, coe_stableSort]

namespace PianoRollStore

variable {store start now : PianoRollStore} {edit : List Note → List Note} {predict f g : Note → Note}
  {offset last : ℤ × ℤ} {offsets : List (ℤ × ℤ)}

/-- What the selection has been turned into, and the notes with it. -/
structure Carried (start : PianoRollStore) (f : Note → Note) (now : PianoRollStore) : Prop where
  selection : now.selection = start.selection.map f
  notes : (now.notes : Multiset Note) = start.notes - start.selection + start.selection.map f

theorem Live.le (h : store.Live) : (store.selection : Multiset Note) ≤ store.notes :=
  Multiset.coe_le.2 (h.nodup.subperm h.mem)

theorem Live.carried (h : store.Live) (hnotes : now.notes = store.notes)
    (hselection : now.selection = store.selection) : Carried store (fun note => note) now := by
  refine ⟨by rw [hselection, List.map_id'], ?_⟩
  rw [hnotes, List.map_id', Multiset.add_sub_cancel h.le]

/-- **One edit of the selection.** -/
theorem Carried.editSelection (hlive : start.Live) (h : Carried start f now)
    (hf : (start.selection.map f).Nodup)
    (hvalid : ∀ note ∈ start.selection, isValidNote (f note) = true)
    (hpredict : ∀ note ∈ start.selection, predict (f note) = g note)
    (hvalid' : ∀ note ∈ edit (start.selection.map f), isValidNote note = true) :
    ∃ left, now.editSelection edit predict =
        some { now with notes := left, selection := addAll [] (start.selection.map g) } ∧
      (left : Multiset Note) =
        start.notes - start.selection + edit (start.selection.map f) := by
  have hchecked : checkedNotes now.selection = start.selection.map f := by
    rw [h.selection]
    exact checkedNotes_of_valid (List.forall_mem_map.2 hvalid)
  have hmem : ∀ note ∈ start.selection.map f, note ∈ now.notes := by
    intro note hnote
    rw [← Multiset.mem_coe, h.notes]
    exact Multiset.mem_add.2 (.inr hnote)
  obtain ⟨left, hleft, hnotes⟩ := replaced_eq_some hf hmem hvalid'
  rw [h.notes, Multiset.add_sub_cancel_right] at hnotes
  have hsome : ¬start.selection.map f = [] := by simpa using hlive.some
  have hpredicted : now.selection.map predict = start.selection.map g := by
    rw [h.selection, List.map_map]
    exact List.map_congr_left hpredict
  refine ⟨left, ?_, hnotes⟩
  rw [PianoRollStore.editSelection]
  simp only [hchecked, if_neg hsome, hleft, hpredicted, Option.map_some]

theorem reselect_eq (h : ∀ note ∈ store.selection, note ∈ store.notes) : store.reselect = store := by
  rw [reselect, List.filter_eq_self.2 fun note hnote => decide_eq_true (h note hnote)]

/-! ### Moves -/

/-- An offset takes every selected note to a note. -/
def Fits (store : PianoRollStore) (offset : ℤ × ℤ) : Prop :=
  ∀ note ∈ store.selection, isValidNote (note.shift offset.1 offset.2) = true

theorem shift_injective (ticks keys : ℤ) : Function.Injective (Note.shift ticks keys) := by
  intro a b h
  cases a; cases b
  simp only [Note.shift, Note.mk.injEq] at h ⊢
  omega

/-- What fits is moved as asked. -/
theorem engineMove_of_fits (hvalid : ∀ note ∈ notes, isValidNote note = true) (hsome : notes ≠ [])
    (hfits : ∀ note ∈ notes, isValidNote (note.shift deltaTicks semitones) = true) :
    engineMove deltaTicks semitones notes = notes.map (Note.shift deltaTicks semitones) := by
  have hbmod : Int.bmod semitones (2 ^ 16) = semitones := by
    obtain ⟨first, hfirst⟩ := List.exists_mem_of_ne_nil notes hsome
    have h₁ := isValidNote_iff.1 (hvalid first hfirst)
    have h₂ := isValidNote_iff.1 (hfits first hfirst)
    simp only [Note.shift] at h₂
    exact Int.bmod_eq_of_le (by omega) (by omega)
  have hends : EndsInTime deltaTicks notes := by
    intro note hnote
    have := isValidNote_iff.1 (hfits note hnote)
    simp only [Note.shift] at this
    omega
  obtain ⟨ticks, keys, hmoved, -, hwhole⟩ := movedNotes_spec hvalid hsome hends semitones
  obtain ⟨rfl, rfl⟩ := hwhole hfits
  rw [engineMove, hbmod, hmoved]

theorem shift_shift (ticks keys : ℤ) (offset : ℤ × ℤ) (note : Note) :
    (note.shift ticks keys).shift (offset.1 - ticks) (offset.2 - keys) =
      note.shift offset.1 offset.2 := by
  simp only [Note.shift, Note.mk.injEq, and_true, true_and]
  omega

/-- **A step of a move that fits.** -/
theorem updateMove_of_fits (hlive : start.Live)
    (h : Carried start (Note.shift now.dragDeltaTicks now.dragSemitones) now)
    (hfits : start.Fits (now.dragDeltaTicks, now.dragSemitones)) (hfits' : start.Fits offset) :
    Carried start (Note.shift offset.1 offset.2) (now.updateMove offset) ∧
      (now.updateMove offset).dragDeltaTicks = offset.1 ∧
      (now.updateMove offset).dragSemitones = offset.2 := by
  rw [updateMove]
  split_ifs with hsame
  · have h₁ : now.dragDeltaTicks = offset.1 := by omega
    have h₂ : now.dragSemitones = offset.2 := by omega
    exact ⟨h₁ ▸ h₂ ▸ h, h₁, h₂⟩
  · have hshift := shift_shift now.dragDeltaTicks now.dragSemitones offset
    have hnodup := (List.nodup_map_iff (shift_injective offset.1 offset.2)).2 hlive.nodup
    have hmove : engineMove (offset.1 - now.dragDeltaTicks) (offset.2 - now.dragSemitones)
        (start.selection.map (Note.shift now.dragDeltaTicks now.dragSemitones)) =
          start.selection.map (Note.shift offset.1 offset.2) := by
      refine (engineMove_of_fits ?_ ?_ ?_).trans ?_
      · exact List.forall_mem_map.2 hfits
      · simpa using hlive.some
      · exact List.forall_mem_map.2 fun note hnote => (hshift note).symm ▸ hfits' note hnote
      · rw [List.map_map]
        exact List.map_congr_left fun note _ => hshift note
    have hvalid' : ∀ note ∈ engineMove (offset.1 - now.dragDeltaTicks)
        (offset.2 - now.dragSemitones)
          (start.selection.map (Note.shift now.dragDeltaTicks now.dragSemitones)),
        isValidNote note = true := by
      rw [hmove]
      exact List.forall_mem_map.2 hfits'
    obtain ⟨left, hnext, hnotes⟩ := h.editSelection hlive
      ((List.nodup_map_iff (shift_injective ..)).2 hlive.nodup) hfits (fun note _ => hshift note)
      hvalid'
    rw [hmove] at hnotes
    have hthere : ∀ note ∈ addAll [] (start.selection.map (Note.shift offset.1 offset.2)),
        note ∈ left := by
      intro note hnote
      rw [← Multiset.mem_coe, hnotes]
      exact Multiset.mem_add.2 (.inr ((mem_addAll.1 hnote).resolve_left List.not_mem_nil))
    simp only [hnext]
    rw [reselect_eq hthere]
    exact ⟨⟨addAll_of_nodup hnodup, hnotes⟩, rfl, rfl⟩

/-- A drag that moves the selection. -/
def dragMove (store : PianoRollStore) (offsets : List (ℤ × ℤ)) : PianoRollStore :=
  offsets.foldl updateMove store.beginMove

theorem dragMove_concat (store : PianoRollStore) (offsets : List (ℤ × ℤ)) (last : ℤ × ℤ) :
    store.dragMove (offsets ++ [last]) = (store.dragMove offsets).updateMove last := by
  rw [dragMove, List.foldl_append]
  rfl

/-- **A drag whose offsets all fit.** -/
theorem carried_dragMove (hlive : start.Live) (hfits : ∀ offset ∈ offsets, start.Fits offset) :
    Carried start (Note.shift (start.dragMove offsets).dragDeltaTicks
      (start.dragMove offsets).dragSemitones) (start.dragMove offsets) ∧
    start.Fits ((start.dragMove offsets).dragDeltaTicks, (start.dragMove offsets).dragSemitones) := by
  induction offsets using List.reverseRecOn with
  | nil =>
    have hzero : ∀ note : Note, note.shift 0 0 = note := fun note => by simp [Note.shift]
    have hcarried : Carried start (fun note => note) start.beginMove := hlive.carried rfl rfl
    refine ⟨?_, fun note hnote => ?_⟩
    · exact (funext hzero : Note.shift 0 0 = fun note => note) ▸ hcarried
    · exact (hzero note).symm ▸ hlive.valid note (hlive.mem note hnote)
  | append_singleton offsets last ih =>
    rw [List.forall_mem_append, List.forall_mem_singleton] at hfits
    obtain ⟨hcarried, hcurrent⟩ := ih hfits.1
    obtain ⟨hnext, hticks, hkeys⟩ := updateMove_of_fits hlive hcarried hcurrent hfits.2
    rw [dragMove_concat, hticks, hkeys]
    exact ⟨hnext, hfits.2⟩

/-! ### Moves that meet an edge -/

theorem length_editSelection_le {next : PianoRollStore}
    (h : store.editSelection edit predict = some next) :
    next.selection.length ≤ store.selection.length := by
  rw [PianoRollStore.editSelection] at h
  split_ifs at h
  obtain ⟨left, -, rfl⟩ := Option.map_eq_some_iff.1 h
  exact (length_addAll_le [] _).trans (by simp)

/-- A selection only loses notes. -/
theorem length_updateMove_le (now : PianoRollStore) (offset : ℤ × ℤ) :
    (now.updateMove offset).selection.length ≤ now.selection.length := by
  rw [updateMove]
  split_ifs
  · exact le_rfl
  · split
    · exact le_rfl
    next next hnext =>
      have hle := length_editSelection_le hnext
      exact (List.length_filter_le ..).trans hle

/-- **A step that meets an edge loses a note.** -/
theorem length_updateMove_lt (hlive : start.Live)
    (h : Carried start (Note.shift now.dragDeltaTicks now.dragSemitones) now)
    (hfits : start.Fits (now.dragDeltaTicks, now.dragSemitones)) (hmeets : ¬start.Fits offset)
    (hends : EndsInTime offset.1 start.selection) :
    (now.updateMove offset).selection.length < start.selection.length := by
  have hmoves : ¬(offset.1 - now.dragDeltaTicks = 0 ∧ offset.2 - now.dragSemitones = 0) := by
    rintro ⟨hticks, hkeys⟩
    have hsame : offset = (now.dragDeltaTicks, now.dragSemitones) :=
      Prod.ext (by omega) (by omega)
    exact hmeets (hsame ▸ hfits)
  have hshift := shift_shift now.dragDeltaTicks now.dragSemitones offset
  have hnodup := (List.nodup_map_iff (shift_injective offset.1 offset.2)).2 hlive.nodup
  have hends' : EndsInTime (offset.1 - now.dragDeltaTicks)
      (start.selection.map (Note.shift now.dragDeltaTicks now.dragSemitones)) := by
    refine List.forall_mem_map.2 fun note hnote => ?_
    have := hends note hnote
    simp only [Note.shift]
    omega
  obtain ⟨ticks, keys, hmoved, hvalid, -⟩ := movedNotes_spec (List.forall_mem_map.2 hfits)
    (by simpa using hlive.some) hends' (Int.bmod (offset.2 - now.dragSemitones) (2 ^ 16))
  have hvalid' : ∀ note ∈ engineMove (offset.1 - now.dragDeltaTicks)
      (offset.2 - now.dragSemitones)
        (start.selection.map (Note.shift now.dragDeltaTicks now.dragSemitones)),
      isValidNote note = true := by
    rw [engineMove, hmoved]
    exact List.forall_mem_map.2 hvalid
  obtain ⟨left, hnext, hnotes⟩ := h.editSelection hlive
    ((List.nodup_map_iff (shift_injective ..)).2 hlive.nodup) hfits (fun note _ => hshift note)
    hvalid'
  -- the notes that are left are notes, and one of the predicted ones is none
  have hleft : ∀ note ∈ left, isValidNote note = true := by
    intro note hnote
    rw [← Multiset.mem_coe, hnotes, Multiset.mem_add] at hnote
    rcases hnote with hnote | hnote
    · exact hlive.valid note (Multiset.mem_coe.1 (Multiset.mem_of_le (Multiset.sub_le_self ..) hnote))
    · exact hvalid' note hnote
  rw [Fits] at hmeets
  push Not at hmeets
  obtain ⟨note, hnote, hinvalid⟩ := hmeets
  rw [updateMove]
  simp only [if_neg hmoves, hnext, reselect]
  rw [addAll_of_nodup hnodup, List.nil_append]
  refine lt_of_lt_of_eq ?_ (List.length_map (Note.shift offset.1 offset.2))
  refine List.length_filter_lt_length_iff_exists.2 ⟨_, List.mem_map_of_mem hnote, ?_⟩
  simpa using fun hthere => hinvalid (hleft _ hthere)

/-- **A drag that meets an edge has lost a note.** -/
theorem length_dragMove_lt (hlive : start.Live)
    (hends : ∀ offset ∈ offsets, EndsInTime offset.1 start.selection)
    (hmeets : ∃ offset ∈ offsets, ¬start.Fits offset) :
    (start.dragMove offsets).selection.length < start.selection.length := by
  induction offsets using List.reverseRecOn with
  | nil =>
    obtain ⟨offset, hoffset, -⟩ := hmeets
    cases hoffset
  | append_singleton offsets last ih =>
    rw [List.forall_mem_append, List.forall_mem_singleton] at hends
    rw [dragMove_concat]
    by_cases hbefore : ∃ offset ∈ offsets, ¬start.Fits offset
    · exact (length_updateMove_le ..).trans_lt (ih hends.1 hbefore)
    · push Not at hbefore
      obtain ⟨hcarried, hcurrent⟩ := carried_dragMove hlive hbefore
      obtain ⟨offset, hoffset, hlast⟩ := hmeets
      have hsame : offset = last := by
        rcases List.mem_append.1 hoffset with hoffset | hoffset
        · exact absurd (hbefore offset hoffset) hlast
        · exact List.mem_singleton.1 hoffset
      exact length_updateMove_lt hlive hcarried hcurrent (hsame ▸ hlast) hends.2

/-! ### Resizes -/

/-- A change of length leaves every selected note at least one tick. -/
def FitsLength (store : PianoRollStore) (lengthDelta : ℤ) : Prop :=
  ∀ note ∈ store.selection, 1 ≤ note.length + lengthDelta

theorem resizedNote_eq {note : Note} {lengthDelta : ℤ} (hvalid : isValidNote note = true)
    (hends : note.start + note.length + lengthDelta ≤ maxTicks) :
    resizedNote lengthDelta none note = note.lengthen lengthDelta := by
  have hvalid := isValidNote_iff.1 hvalid
  have hstop : noteEnd note = note.start + note.length :=
    addClamped_eq (by rw [minTicks]; omega) (by omega)
  simp only [resizedNote, Note.lengthen, Note.mk.injEq, true_and, and_true, hstop]
  rw [addClamped, min_eq_right hends, minTicks]
  split_ifs <;> omega

theorem isValidNote_lengthen {note : Note} {lengthDelta : ℤ} (hvalid : isValidNote note = true)
    (hends : note.start + note.length + lengthDelta ≤ maxTicks) :
    isValidNote (note.lengthen lengthDelta) = true := by
  rw [isValidNote_iff] at hvalid ⊢
  simp only [Note.lengthen]
  omega

theorem engineResize_eq {lengthDelta : ℤ} (hvalid : ∀ note ∈ notes, isValidNote note = true)
    (hends : EndsInTime lengthDelta notes) :
    engineResize lengthDelta notes = notes.map (Note.lengthen lengthDelta) :=
  List.map_congr_left fun note hnote => resizedNote_eq (hvalid note hnote) (hends note hnote)

/-- Notes that differ still do. -/
theorem FitsLength.nodup {lengthDelta : ℤ} (h : start.FitsLength lengthDelta) (hlive : start.Live) :
    (start.selection.map (Note.lengthen lengthDelta)).Nodup := by
  refine hlive.nodup.map_on fun a ha b hb heq => ?_
  have := h a ha
  have := h b hb
  cases a; cases b
  simp only [Note.lengthen, Note.mk.injEq] at *
  omega

/-- **A step of a resize whose last offset has fitted.** -/
theorem updateResize_of_fits {lengthDelta : ℤ} (hlive : start.Live)
    (h : Carried start (Note.lengthen now.dragLengthDelta) now)
    (hfits : start.FitsLength now.dragLengthDelta)
    (hends : EndsInTime now.dragLengthDelta start.selection)
    (hends' : EndsInTime lengthDelta start.selection) :
    (now.updateResize lengthDelta).selection =
        addAll [] (start.selection.map (Note.lengthen lengthDelta)) ∧
      ((now.updateResize lengthDelta).notes : Multiset Note) =
        start.notes - start.selection + start.selection.map (Note.lengthen lengthDelta) ∧
      (now.updateResize lengthDelta).dragLengthDelta = lengthDelta := by
  have hnodup := hfits.nodup hlive
  rw [updateResize]
  split_ifs with hsame
  · have heq : now.dragLengthDelta = lengthDelta := by omega
    rw [← heq, addAll_of_nodup hnodup]
    exact ⟨h.selection, h.notes, rfl⟩
  · have hlengthen : ∀ note ∈ start.selection, (note.lengthen now.dragLengthDelta).lengthen
        (lengthDelta - now.dragLengthDelta) = note.lengthen lengthDelta := by
      intro note hnote
      have := hfits note hnote
      simp only [Note.lengthen, Note.mk.injEq, and_true, true_and]
      omega
    have hvalid : ∀ note ∈ start.selection, isValidNote (note.lengthen now.dragLengthDelta) = true :=
      fun note hnote => isValidNote_lengthen (hlive.valid note (hlive.mem note hnote))
        (hends note hnote)
    have hresize : engineResize (lengthDelta - now.dragLengthDelta)
        (start.selection.map (Note.lengthen now.dragLengthDelta)) =
          start.selection.map (Note.lengthen lengthDelta) := by
      refine (engineResize_eq (List.forall_mem_map.2 hvalid) ?_).trans ?_
      · refine List.forall_mem_map.2 fun note hnote => ?_
        have := hends' note hnote
        have := hfits note hnote
        simp only [Note.lengthen]
        omega
      · rw [List.map_map]
        exact List.map_congr_left hlengthen
    have hvalid' : ∀ note ∈ engineResize (lengthDelta - now.dragLengthDelta)
        (start.selection.map (Note.lengthen now.dragLengthDelta)), isValidNote note = true := by
      rw [hresize]
      exact List.forall_mem_map.2 fun note hnote =>
        isValidNote_lengthen (hlive.valid note (hlive.mem note hnote)) (hends' note hnote)
    obtain ⟨left, hnext, hnotes⟩ := h.editSelection hlive hnodup hvalid hlengthen hvalid'
    rw [hresize] at hnotes
    have hthere : ∀ note ∈ addAll [] (start.selection.map (Note.lengthen lengthDelta)),
        note ∈ left := by
      intro note hnote
      rw [← Multiset.mem_coe, hnotes]
      exact Multiset.mem_add.2 (.inr ((mem_addAll.1 hnote).resolve_left List.not_mem_nil))
    simp only [hnext]
    rw [reselect_eq hthere]
    exact ⟨rfl, hnotes, rfl⟩

/-- A drag of the ends of the selection. -/
def dragResize (store : PianoRollStore) (offsets : List ℤ) : PianoRollStore :=
  offsets.foldl updateResize store.beginResize

theorem dragResize_concat (store : PianoRollStore) (offsets : List ℤ) (last : ℤ) :
    store.dragResize (offsets ++ [last]) = (store.dragResize offsets).updateResize last := by
  rw [dragResize, List.foldl_append]
  rfl

theorem carried_dragResize {offsets : List ℤ} (hlive : start.Live)
    (hfits : ∀ offset ∈ offsets, start.FitsLength offset)
    (hends : ∀ offset ∈ offsets, EndsInTime offset start.selection) :
    Carried start (Note.lengthen (start.dragResize offsets).dragLengthDelta)
        (start.dragResize offsets) ∧
      start.FitsLength (start.dragResize offsets).dragLengthDelta ∧
      EndsInTime (start.dragResize offsets).dragLengthDelta start.selection := by
  have hlength : ∀ note ∈ start.selection, 1 ≤ note.length ∧
      note.start + note.length ≤ maxTicks := by
    intro note hnote
    have := isValidNote_iff.1 (hlive.valid note (hlive.mem note hnote))
    omega
  induction offsets using List.reverseRecOn with
  | nil =>
    have hsame : start.selection.map (Note.lengthen 0) = start.selection.map fun note => note := by
      refine List.map_congr_left fun note hnote => ?_
      have := hlength note hnote
      rw [Note.lengthen, add_zero, max_eq_right this.1]
    have hcarried : Carried start (fun note => note) start.beginResize := hlive.carried rfl rfl
    refine ⟨⟨hcarried.selection.trans hsame.symm, ?_⟩, fun note hnote => ?_, fun note hnote => ?_⟩
    · exact hsame.symm ▸ hcarried.notes
    · have := hlength note hnote
      exact (add_zero note.length).symm ▸ this.1
    · have := hlength note hnote
      exact (add_zero (note.start + note.length)).symm ▸ this.2
  | append_singleton offsets last ih =>
    rw [List.forall_mem_append, List.forall_mem_singleton] at hfits hends
    obtain ⟨hcarried, hcurrent, hcurrentEnds⟩ := ih hfits.1 hends.1
    obtain ⟨hselection, hnotes, hlast⟩ :=
      updateResize_of_fits hlive hcarried hcurrent hcurrentEnds hends.2
    rw [dragResize_concat, hlast]
    exact ⟨⟨hselection.trans (addAll_of_nodup (hfits.2.nodup hlive)), hnotes⟩, hfits.2, hends.2⟩

/-! ### The property -/

/-- What is left is what one edit of the selection at the start would leave, and the edited notes are
selected. -/
def EndsAs (start : PianoRollStore) (edit : List Note → List Note) (final : PianoRollStore) : Prop :=
  ∃ left, replaced start.notes start.selection (edit start.selection) = some left ∧
    (final.notes : Multiset Note) = left ∧
      ∀ note, note ∈ final.selection ↔ note ∈ edit start.selection

theorem endsAs_of_eq {after : List Note} (hlive : start.Live) (hedit : edit start.selection = after)
    (hvalid : ∀ note ∈ after, isValidNote note = true)
    (hnotes : (now.notes : Multiset Note) = start.notes - start.selection + after)
    (hselection : ∀ note, note ∈ now.selection ↔ note ∈ after) : start.EndsAs edit now := by
  obtain ⟨left, hleft, heq⟩ := replaced_eq_some hlive.nodup hlive.mem hvalid
  exact ⟨left, hedit ▸ hleft, hnotes.trans heq.symm, hedit ▸ hselection⟩

theorem endsAs_dragMove (hlive : start.Live) (hfits : ∀ offset ∈ offsets ++ [last], start.Fits offset) :
    start.EndsAs (engineMove last.1 last.2) (start.dragMove (offsets ++ [last])) := by
  have hlast : start.Fits last := hfits last (List.mem_append_right _ (List.mem_singleton_self last))
  obtain ⟨hcarried, hcurrent⟩ :=
    carried_dragMove hlive fun offset hoffset => hfits offset (List.mem_append_left _ hoffset)
  obtain ⟨hnext, -, -⟩ := updateMove_of_fits hlive hcarried hcurrent hlast
  rw [dragMove_concat]
  refine endsAs_of_eq hlive (engineMove_of_fits (fun note hnote => hlive.valid note
    (hlive.mem note hnote)) hlive.some hlast) (List.forall_mem_map.2 hlast) hnext.notes fun note => ?_
  rw [hnext.selection]

/-- A group that is moved stays as large. -/
theorem not_endsAs_of_length_lt (hlive : start.Live) (hends : EndsInTime last.1 start.selection)
    (hlength : now.selection.length < start.selection.length) :
    ¬start.EndsAs (engineMove last.1 last.2) now := by
  rintro ⟨left, -, -, hselection⟩
  obtain ⟨ticks, keys, hmoved, -⟩ := movedNotes_spec (fun note hnote => hlive.valid note
    (hlive.mem note hnote)) hlive.some hends (Int.bmod last.2 (2 ^ 16))
  rw [engineMove, hmoved] at hselection
  have hnodup := (List.nodup_map_iff (shift_injective ticks keys)).2 hlive.nodup
  have hle := (hnodup.subperm fun note hnote => (hselection note).2 hnote).length_le
  rw [List.length_map] at hle
  omega

theorem endsAs_dragResize {offsets : List ℤ} {last : ℤ} (hlive : start.Live)
    (hfits : ∀ offset ∈ offsets, start.FitsLength offset)
    (hends : ∀ offset ∈ offsets ++ [last], EndsInTime offset start.selection) :
    start.EndsAs (engineResize last) (start.dragResize (offsets ++ [last])) := by
  rw [List.forall_mem_append, List.forall_mem_singleton] at hends
  obtain ⟨hcarried, hcurrent, hcurrentEnds⟩ := carried_dragResize hlive hfits hends.1
  obtain ⟨hselection, hnotes, -⟩ :=
    updateResize_of_fits hlive hcarried hcurrent hcurrentEnds hends.2
  rw [dragResize_concat]
  refine endsAs_of_eq hlive (engineResize_eq (fun note hnote => hlive.valid note
    (hlive.mem note hnote)) hends.2) ?_ hnotes fun note => ?_
  · exact List.forall_mem_map.2 fun note hnote =>
      isValidNote_lengthen (hlive.valid note (hlive.mem note hnote)) (hends.2 note hnote)
  · rw [hselection, mem_addAll, or_iff_right List.not_mem_nil]

/-- **A drag ends where its last offset takes it when it meets no edge on its way; a move that meets
one does not.** -/
theorem drag_endsAs (hlive : start.Live) :
    (∀ (offsets : List (ℤ × ℤ)) (last : ℤ × ℤ),
      ((∀ offset ∈ offsets ++ [last], start.Fits offset) →
        start.EndsAs (engineMove last.1 last.2) (start.dragMove (offsets ++ [last]))) ∧
      ((∀ offset ∈ offsets ++ [last], EndsInTime offset.1 start.selection) →
        start.EndsAs (engineMove last.1 last.2) (start.dragMove (offsets ++ [last])) →
          ∀ offset ∈ offsets ++ [last], start.Fits offset)) ∧
    ∀ (offsets : List ℤ) (last : ℤ),
      (∀ offset ∈ offsets, start.FitsLength offset) →
      (∀ offset ∈ offsets ++ [last], EndsInTime offset start.selection) →
        start.EndsAs (engineResize last) (start.dragResize (offsets ++ [last])) := by
  refine ⟨fun offsets last => ⟨endsAs_dragMove hlive, fun hends h => ?_⟩, fun offsets last =>
    endsAs_dragResize hlive⟩
  by_contra hmeets
  push Not at hmeets
  have hlast := hends last (List.mem_append_right _ (List.mem_singleton_self last))
  exact not_endsAs_of_length_lt hlive hlast (length_dragMove_lt hlive hends hmeets) h

/-! ### Past an edge and back -/

/-- One note at the first tick, selected. -/
def noteAtStart : PianoRollStore where
  notes := [⟨0, 240, 60, 12900⟩]
  selection := [⟨0, 240, 60, 12900⟩]

theorem live_noteAtStart : noteAtStart.Live :=
  ⟨by decide, by decide, by decide, by decide⟩

/-- The note that was dragged past the first tick and back is not selected any more; the one that was
made too short and back is too long. -/
theorem not_endsAs_noteAtStart :
    (noteAtStart.dragMove [(-240, 0), (0, 0)]).selection = [] ∧
    ¬noteAtStart.EndsAs (engineMove 0 0) (noteAtStart.dragMove [(-240, 0), (0, 0)]) ∧
    (noteAtStart.dragResize [-480, 0]).notes = [⟨0, 481, 60, 12900⟩] ∧
    ¬noteAtStart.EndsAs (engineResize 0) (noteAtStart.dragResize [-480, 0]) := by
  refine ⟨by decide, ?_, by decide, ?_⟩
  · rintro ⟨left, -, -, hselection⟩
    exact absurd ((hselection ⟨0, 240, 60, 12900⟩).2 (by decide)) (by decide)
  · rintro ⟨left, -, -, hselection⟩
    exact absurd ((hselection ⟨0, 240, 60, 12900⟩).2 (by decide)) (by decide)

theorem drag_endsAs_noteAtStart :
    noteAtStart.EndsAs (engineMove 480 2) (noteAtStart.dragMove ([(240, 0)] ++ [(480, 2)])) ∧
    noteAtStart.EndsAs (engineResize (-480)) (noteAtStart.dragResize ([240] ++ [-480])) := by
  refine ⟨((drag_endsAs live_noteAtStart).1 [(240, 0)] (480, 2)).1 ?_,
    (drag_endsAs live_noteAtStart).2 [240] (-480) ?_ ?_⟩
  · intro offset hoffset note hnote
    revert offset note
    decide
  · intro offset hoffset note hnote
    revert offset note
    decide
  · intro offset hoffset note hnote
    revert offset note
    decide

end PianoRollStore

end OneBeat
