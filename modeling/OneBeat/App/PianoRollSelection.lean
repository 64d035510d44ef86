import OneBeat.App.PianoRollStore

/-!
# What is selected after an edit

The edits of the piano roll that are no drags, each with its own way of finding its notes again:
some predict them, others look for what has their key or their place.

**Main theorem** (`selects_iff`): after an edit the notes it made are selected, each of them and no
other, exactly when nothing that was not edited answers to the same description; a nudge or a
transposition has to keep all notes on the canvas besides.
-/

namespace OneBeat

/-- What `insertNotes` leaves of the notes of an instrument. -/
def inserted (notes added : List Note) : Option (List Note) :=
  if ∀ note ∈ added, isValidNote note = true then some (stableSort (notes ++ added)) else none

def Note.withVelocity (velocity : ℕ) (note : Note) : Note := { note with velocity }

namespace PianoRollStore

variable (store : PianoRollStore)

/-! ### Edits of the selection -/

def nudgeSelection (deltaTicks : ℤ) : Option PianoRollStore :=
  (store.editSelection (engineMove deltaTicks 0) (Note.shift deltaTicks 0)).map reselect

def transposeSelection (semitones : ℤ) : Option PianoRollStore :=
  (store.editSelection (engineMove 0 semitones) (Note.shift 0 semitones)).map reselect

/-- The velocity is brought into range first. -/
def setSelectionVelocity (velocity : ℤ) : Option PianoRollStore :=
  let clamped := (clampInt velocity 1 maxVelocity).toNat
  (store.editSelection (List.map (Note.withVelocity clamped)) (Note.withVelocity clamped)).map
    reselect

/-- What a copy of the selection is shifted by: its span, up to the next line of the grid. -/
def duplicateDelta (snapTicks : ℤ) : ℤ :=
  let lowest := store.selection.foldl (fun lowest note => min lowest note.start) (2 ^ 62)
  let highest := store.selection.foldl (fun highest note => max highest (note.start + note.length)) 0
  let delta := highest - lowest
  let delta := if 0 < snapTicks then (delta + snapTicks - 1).tdiv snapTicks * snapTicks else delta
  if delta ≤ 0 then store.lastNoteLength else delta

def duplicateSelection (snapTicks : ℤ) : Option PianoRollStore :=
  let delta := store.duplicateDelta snapTicks
  let selection := checkedNotes store.selection
  if selection = [] then none
  else (inserted store.notes (engineMove delta 0 selection)).map fun notes =>
    reselect { store with
      notes, selection := addAll [] (store.selection.map (Note.shift delta 0)) }

/-- What is quantised is looked for by its keys. -/
def quantiseSelection (snapTicks : ℤ) (strength : Double) : Option PianoRollStore :=
  let selection := checkedNotes store.selection
  let keys := store.selection.map Note.key
  if snapTicks ≤ 0 ∨ selection = [] ∨ !(Double.le 0 strength && strength.le 1) then none
  else (replaced store.notes selection
      (selection.map (quantisedNote { spacing := snapTicks } strength))).map fun notes =>
    { store with notes, selection := addAll [] (notes.filter fun note => note.key ∈ keys) }

/-! ### Notes that are put in -/

/-- The note `ob_engine_note_add` makes; without a velocity it has the instrument's. -/
def addedNote (defaultVelocity : ℕ) (start length key velocity : ℤ) : Note :=
  { start, length, key, velocity := if velocity ≤ 0 then defaultVelocity else velocity.toNat }

/-- Put notes in one after another. -/
def addNotes (notes added : List Note) : Option (List Note) :=
  added.foldlM (fun notes note => inserted notes [note]) notes

/-- The clipboard's notes at a tick. -/
def pastedNotes (defaultVelocity : ℕ) (origin : ℤ) (clipboard : List Note) : List Note :=
  clipboard.map fun note =>
    addedNote defaultVelocity (origin + note.start) note.length note.key note.velocity

/-- What was pasted is looked for by the hash of its place. -/
def pasteClipboard (hash : ℤ → ℤ → ℤ) (defaultVelocity : ℕ) (clipboard : List Note) (origin : ℤ) :
    Option PianoRollStore :=
  let pasted := clipboard.map fun note => hash (origin + note.start) note.key
  if clipboard = [] then none
  else (addNotes store.notes (pastedNotes defaultVelocity origin clipboard)).map fun notes =>
    { store with
      notes, selection := addAll [] (notes.filter fun note => hash note.start note.key ∈ pasted) }

def noteAt (tick key : ℤ) : Option Note :=
  store.notes.find? fun note => note.key = key ∧ note.start ≤ tick ∧ tick < note.start + note.length

def snapDown (snapTicks tick : ℤ) : ℤ :=
  if snapTicks ≤ 0 then max 0 tick else max 0 (tick.tdiv snapTicks * snapTicks)

/-- The note that was added is looked for where it was put. -/
def addNoteAt (defaultVelocity : ℕ) (snapTicks tick key : ℤ) (length : Option ℤ) (velocity : ℤ) :
    Option PianoRollStore :=
  let start := snapDown snapTicks tick
  let noteLength := length.getD store.lastNoteLength
  (inserted store.notes [addedNote defaultVelocity start noteLength key velocity]).map fun notes =>
    let next := reselect { store with notes, lastNoteLength := noteLength }
    match next.noteAt start key with
    | some created => { next with selection := [created] }
    | none => next

/-! ### One edit -/

/-- The edits, with their arguments. -/
inductive RollEdit
  | nudge (deltaTicks : ℤ)
  | transpose (semitones : ℤ)
  | velocity (velocity : ℤ)
  | duplicate (snapTicks : ℤ)
  | quantise (snapTicks : ℤ) (strength : Double)
  | paste (clipboard : List Note) (origin : ℤ)
  | add (snapTicks tick key : ℤ) (length : Option ℤ) (velocity : ℤ)

/-- None when nothing is edited. -/
def perform (hash : ℤ → ℤ → ℤ) (defaultVelocity : ℕ) : RollEdit → Option PianoRollStore
  | .nudge deltaTicks => store.nudgeSelection deltaTicks
  | .transpose semitones => store.transposeSelection semitones
  | .velocity velocity => store.setSelectionVelocity velocity
  | .duplicate snapTicks => store.duplicateSelection snapTicks
  | .quantise snapTicks strength => store.quantiseSelection snapTicks strength
  | .paste clipboard origin => store.pasteClipboard hash defaultVelocity clipboard origin
  | .add snapTicks tick key length velocity =>
    store.addNoteAt defaultVelocity snapTicks tick key length velocity

/-- The notes an edit makes of those that were selected, or puts in. -/
def made (defaultVelocity : ℕ) : RollEdit → List Note
  | .nudge deltaTicks => engineMove deltaTicks 0 store.selection
  | .transpose semitones => engineMove 0 semitones store.selection
  | .velocity velocity =>
    store.selection.map (Note.withVelocity (clampInt velocity 1 maxVelocity).toNat)
  | .duplicate snapTicks => engineMove (store.duplicateDelta snapTicks) 0 store.selection
  | .quantise snapTicks strength =>
    store.selection.map (quantisedNote { spacing := snapTicks } strength)
  | .paste clipboard origin => pastedNotes defaultVelocity origin clipboard
  | .add snapTicks tick key length velocity =>
    [addedNote defaultVelocity (snapDown snapTicks tick) (length.getD store.lastNoteLength) key
      velocity]

/-- Nothing that was not edited answers to what the edit looks for. -/
def Apart (hash : ℤ → ℤ → ℤ) : RollEdit → Prop
  | .nudge deltaTicks => store.Fits (deltaTicks, 0) ∧
      ∀ note ∈ store.notes.diff store.selection, note ∉ store.selection.map (Note.shift deltaTicks 0)
  | .transpose semitones => store.Fits (0, semitones) ∧
      ∀ note ∈ store.notes.diff store.selection, note ∉ store.selection.map (Note.shift 0 semitones)
  | .velocity velocity => ∀ note ∈ store.notes.diff store.selection,
      note ∉ store.selection.map (Note.withVelocity (clampInt velocity 1 maxVelocity).toNat)
  | .duplicate snapTicks => ∀ note ∈ store.notes,
      note ∉ store.selection.map (Note.shift (store.duplicateDelta snapTicks) 0)
  | .quantise _ _ =>
    ∀ note ∈ store.notes.diff store.selection, note.key ∉ store.selection.map Note.key
  | .paste clipboard origin => ∀ note ∈ store.notes, hash note.start note.key ∉
      clipboard.map fun note => hash (origin + note.start) note.key
  | .add snapTicks tick key length _ => ∀ note ∈ store.notes, note.key = key →
      note.start ≤ snapDown snapTicks tick → snapDown snapTicks tick < note.start + note.length →
        note.start = snapDown snapTicks tick ∧ length.getD store.lastNoteLength < note.length

variable {store : PianoRollStore} {next : PianoRollStore} {made : List Note} {rest : Multiset Note}
  {edit : List Note → List Note} {predict : Note → Note}

/-- The notes that are selected are the ones the edit made. -/
def Selects (next : PianoRollStore) (made : List Note) : Prop :=
  (next.notes.filter fun note => note ∈ next.selection).Perm made

/-! ### Looking for notes -/

theorem selects_iff_of_notes (hnotes : (next.notes : Multiset Note) = rest + made) :
    next.Selects made ↔
      (∀ note ∈ rest, note ∉ next.selection) ∧ ∀ note ∈ made, note ∈ next.selection := by
  rw [Selects, ← Multiset.coe_eq_coe, ← Multiset.filter_coe, hnotes, Multiset.filter_add]
  constructor
  · intro heq
    have hmade : ∀ note ∈ made, note ∈ next.selection := by
      intro note hnote
      rw [← Multiset.mem_coe, ← heq, ← Multiset.filter_add] at hnote
      exact (Multiset.mem_filter.1 hnote).2
    have hfilter : Multiset.filter (fun note => note ∈ next.selection) (made : Multiset Note) = made :=
      Multiset.filter_eq_self.2 hmade
    rw [hfilter] at heq
    have hrest := add_eq_right.1 heq
    exact ⟨Multiset.filter_eq_nil.1 hrest, hmade⟩
  · rintro ⟨hrest, hmade⟩
    rw [Multiset.filter_eq_nil.2 hrest, Multiset.filter_eq_self.2 hmade, zero_add]

/-- What is found by a description that fits the edited notes. -/
theorem selects_iff_of_description {p : Note → Prop} {rest : List Note}
    (hnotes : (next.notes : Multiset Note) = rest + made)
    (hselection : ∀ note, note ∈ next.selection ↔ note ∈ next.notes ∧ p note)
    (hmade : ∀ note ∈ made, p note) : next.Selects made ↔ ∀ note ∈ rest, ¬p note := by
  have hmem : ∀ note, note ∈ next.notes ↔ note ∈ rest ∨ note ∈ made := by
    intro note
    rw [← Multiset.mem_coe, hnotes, Multiset.mem_add, Multiset.mem_coe, Multiset.mem_coe]
  rw [selects_iff_of_notes hnotes]
  constructor
  · rintro ⟨hrest, -⟩ note hnote hp
    exact hrest note hnote ((hselection note).2 ⟨(hmem note).2 (.inl hnote), hp⟩)
  · intro hrest
    refine ⟨fun note hnote hmem => hrest note hnote ((hselection note).1 hmem).2, fun note hnote => ?_⟩
    exact (hselection note).2 ⟨(hmem note).2 (.inr hnote), hmade note hnote⟩

/-! ### Edits that predict -/

theorem editSelection_some (hlive : store.Live) (h : store.editSelection edit predict = some next) :
    ∃ left, next = { store with
        notes := left, selection := addAll [] (store.selection.map predict) } ∧
      (left : Multiset Note) = store.notes - store.selection + edit store.selection ∧
      ∀ note ∈ edit store.selection, isValidNote note = true := by
  have hchecked : checkedNotes store.selection = store.selection :=
    checkedNotes_of_valid fun note hnote => hlive.valid note (hlive.mem note hnote)
  rw [editSelection] at h
  simp only [hchecked, if_neg hlive.some] at h
  obtain ⟨left, hleft, rfl⟩ := Option.map_eq_some_iff.1 h
  obtain ⟨⟨-, hvalid⟩, -⟩ := Option.ite_none_right_eq_some.1 hleft
  obtain ⟨left', hleft', hnotes⟩ := replaced_eq_some hlive.nodup hlive.mem hvalid
  cases Option.some_inj.1 (hleft.symm.trans hleft')
  exact ⟨left, rfl, hnotes, hvalid⟩

theorem live_of_editSelection (hvalid : ∀ note ∈ store.notes, isValidNote note = true)
    (hnodup : store.selection.Nodup) (hmem : ∀ note ∈ store.selection, note ∈ store.notes)
    (h : store.editSelection edit predict = some next) : store.Live := by
  refine ⟨hvalid, hnodup, hmem, fun hnone => ?_⟩
  rw [editSelection, hnone] at h
  cases h

/-- What is predicted right is found among the notes. -/
theorem selects_predicted_iff (hlive : store.Live)
    (hpredict : edit store.selection = store.selection.map predict)
    (h : (store.editSelection edit predict).map reselect = some next) :
    next.Selects (edit store.selection) ↔
      ∀ note ∈ store.notes.diff store.selection, note ∉ store.selection.map predict := by
  obtain ⟨next', hedit, rfl⟩ := Option.map_eq_some_iff.1 h
  obtain ⟨left, rfl, hnotes, -⟩ := editSelection_some hlive hedit
  rw [Multiset.coe_sub] at hnotes
  refine selects_iff_of_description hnotes (fun note => ?_) (fun note hnote => ?_)
  · simp only [reselect, List.mem_filter, mem_addAll, List.not_mem_nil, false_or, decide_eq_true_eq]
    exact and_comm
  · exact hpredict ▸ hnote

/-- Notes that have moved and are notes have not run off the end of time. -/
theorem endsInTime_of_valid {notes : List Note} {deltaTicks semitones : ℤ}
    (hvalid : ∀ note ∈ notes, isValidNote note = true)
    (hmoved : ∀ note ∈ movedNotes notes deltaTicks semitones none, isValidNote note = true) :
    EndsInTime deltaTicks notes := by
  cases notes with
  | nil => exact fun note hnote => absurd hnote List.not_mem_nil
  | cons first rest =>
    intro note hnote
    have hnote' := List.mem_map_of_mem (f := fun note : Note => { note with
      start := addClamped note.start (max deltaTicks
        (-rest.foldl (fun earliest (note : Note) => min earliest note.start) first.start))
      key := note.key + boundedTranspose (first :: rest) semitones }) hnote
    have hnow := isValidNote_iff.1 (hmoved _ hnote')
    have hbefore := isValidNote_iff.1 (hvalid note hnote)
    have htime := le_max_left deltaTicks
      (-rest.foldl (fun earliest (note : Note) => min earliest note.start) first.start)
    simp only [addClamped] at hnow
    rw [minTicks, maxTicks] at *
    omega

/-- **A group that is moved is found again exactly when it could be moved as asked, and nothing lies
where it has come to.** -/
theorem selects_move_iff (hlive : store.Live) {deltaTicks semitones : ℤ}
    (h : (store.editSelection (engineMove deltaTicks semitones)
      (Note.shift deltaTicks semitones)).map reselect = some next) :
    next.Selects (engineMove deltaTicks semitones store.selection) ↔
      store.Fits (deltaTicks, semitones) ∧ ∀ note ∈ store.notes.diff store.selection,
        note ∉ store.selection.map (Note.shift deltaTicks semitones) := by
  have hvalid : ∀ note ∈ store.selection, isValidNote note = true := fun note hnote =>
    hlive.valid note (hlive.mem note hnote)
  by_cases hfits : store.Fits (deltaTicks, semitones)
  · rw [and_iff_right hfits]
    exact selects_predicted_iff hlive (engineMove_of_fits hvalid hlive.some hfits) h
  · refine iff_of_false (fun hselects => ?_) fun hboth => hfits hboth.1
    obtain ⟨next', hedit, rfl⟩ := Option.map_eq_some_iff.1 h
    obtain ⟨left, rfl, hnotes, hmoved⟩ := editSelection_some hlive hedit
    obtain ⟨ticks, keys, heq, hgroup, -⟩ :=
      movedNotes_spec hvalid hlive.some (endsInTime_of_valid hvalid hmoved)
        (Int.bmod semitones (2 ^ 16))
    rw [engineMove] at hselects hnotes hmoved
    rw [heq] at hselects hnotes hmoved
    -- as many notes as were moved have to be selected, and one that was predicted is none
    have hall := ((selects_iff_of_notes hnotes).1 hselects).2
    have hle := (((List.nodup_map_iff (shift_injective ticks keys)).2 hlive.nodup).subperm
      hall).length_le
    have hpredicted : addAll [] (store.selection.map (Note.shift deltaTicks semitones)) =
        store.selection.map (Note.shift deltaTicks semitones) :=
      addAll_of_nodup ((List.nodup_map_iff (shift_injective deltaTicks semitones)).2 hlive.nodup)
    simp only [reselect, hpredicted, List.length_map] at hle
    rw [Fits] at hfits
    push Not at hfits
    obtain ⟨note, hnote, hinvalid⟩ := hfits
    have hlt := List.length_filter_lt_length_iff_exists (p := fun note => decide (note ∈ left))
      (l := store.selection.map (Note.shift deltaTicks semitones)) |>.2
      ⟨_, List.mem_map_of_mem hnote, by
        refine fun hthere => hinvalid ?_
        have hthere := of_decide_eq_true hthere
        rw [← Multiset.mem_coe, hnotes, Multiset.mem_add] at hthere
        rcases hthere with hthere | hthere
        · exact hlive.valid _ (Multiset.mem_coe.1
            (Multiset.mem_of_le (Multiset.sub_le_self ..) hthere))
        · exact hmoved _ hthere⟩
    rw [List.length_map] at hlt
    omega

/-! ### Copies -/

theorem inserted_eq_some_iff {notes added left : List Note} : inserted notes added = some left ↔
    (∀ note ∈ added, isValidNote note = true) ∧ left = stableSort (notes ++ added) := by
  rw [inserted]
  split_ifs with h
  · rw [Option.some_inj, and_iff_right h]
    exact eq_comm
  · exact iff_of_false (by simp) fun hboth => h hboth.1

theorem coe_stableSort_append (notes added : List Note) :
    (stableSort (notes ++ added) : Multiset Note) = notes + added := by
  rw [Multiset.coe_eq_coe.2 (perm_stableSort _), Multiset.coe_add]

/-- A copy is put later. -/
theorem duplicateDelta_pos (hlive : store.Live) (snapTicks : ℤ) :
    0 < store.duplicateDelta snapTicks := by
  obtain ⟨note, hnote⟩ := List.exists_mem_of_ne_nil _ hlive.some
  have hnoteValid := isValidNote_iff.1 (hlive.valid note (hlive.mem note hnote))
  set lowest := store.selection.foldl (fun lowest note => min lowest note.start) (2 ^ 62)
    with hlowest
  set highest := store.selection.foldl (fun highest note => max highest (note.start + note.length)) 0
    with hhighest
  have hlow := (le_foldl_min_iff.1 (le_of_eq hlowest)).2 note hnote
  have hhigh := (foldl_max_le_iff.1 (ge_of_eq hhighest)).2 note hnote
  have hspan : 0 < highest - lowest := by omega
  have hsnapped : 0 < snapTicks →
      highest - lowest ≤ (highest - lowest + snapTicks - 1).tdiv snapTicks * snapTicks := by
    intro hsnap
    rw [Int.tdiv_eq_ediv_of_nonneg (by omega)]
    have hmod := Int.emod_lt_of_pos (highest - lowest + snapTicks - 1) hsnap
    have hdiv := Int.ediv_mul_add_emod (highest - lowest + snapTicks - 1) snapTicks
    omega
  rw [duplicateDelta]
  simp only [← hlowest, ← hhighest]
  split_ifs with hsnap hnone hnone
  · have := hsnapped hsnap
    omega
  · have := hsnapped hsnap
    omega
  · omega
  · omega

theorem selects_duplicate_iff (hlive : store.Live) {snapTicks : ℤ}
    (h : store.duplicateSelection snapTicks = some next) :
    next.Selects (engineMove (store.duplicateDelta snapTicks) 0 store.selection) ↔
      ∀ note ∈ store.notes,
        note ∉ store.selection.map (Note.shift (store.duplicateDelta snapTicks) 0) := by
  have hvalid : ∀ note ∈ store.selection, isValidNote note = true := fun note hnote =>
    hlive.valid note (hlive.mem note hnote)
  rw [duplicateSelection] at h
  simp only [checkedNotes_of_valid hvalid, if_neg hlive.some] at h
  obtain ⟨left, hleft, rfl⟩ := Option.map_eq_some_iff.1 h
  obtain ⟨hmoved, rfl⟩ := inserted_eq_some_iff.1 hleft
  have hends := endsInTime_of_valid hvalid hmoved
  have hfits : ∀ note ∈ store.selection,
      isValidNote (note.shift (store.duplicateDelta snapTicks) 0) = true := by
    intro note hnote
    have hpos := duplicateDelta_pos hlive snapTicks
    have := hends note hnote
    have hnoteValid := isValidNote_iff.1 (hvalid note hnote)
    rw [isValidNote_iff]
    simp only [Note.shift]
    omega
  rw [engineMove_of_fits hvalid hlive.some hfits]
  refine selects_iff_of_description (coe_stableSort_append ..) (fun note => ?_) fun note hnote => hnote
  simp only [reselect, List.mem_filter, mem_addAll, List.not_mem_nil, false_or, decide_eq_true_eq]
  exact and_comm

/-! ### Edits that look for keys and places -/

theorem selects_quantise_iff (hlive : store.Live) {snapTicks : ℤ} {strength : Double}
    (h : store.quantiseSelection snapTicks strength = some next) :
    next.Selects (store.selection.map (quantisedNote { spacing := snapTicks } strength)) ↔
      ∀ note ∈ store.notes.diff store.selection, note.key ∉ store.selection.map Note.key := by
  have hchecked : checkedNotes store.selection = store.selection :=
    checkedNotes_of_valid fun note hnote => hlive.valid note (hlive.mem note hnote)
  rw [quantiseSelection] at h
  simp only [hchecked] at h
  obtain ⟨-, h⟩ := Option.ite_none_left_eq_some.1 h
  obtain ⟨left, hleft, rfl⟩ := Option.map_eq_some_iff.1 h
  obtain ⟨⟨-, hvalid⟩, -⟩ := Option.ite_none_right_eq_some.1 hleft
  obtain ⟨left', hleft', hnotes⟩ := replaced_eq_some hlive.nodup hlive.mem hvalid
  cases Option.some_inj.1 (hleft.symm.trans hleft')
  rw [Multiset.coe_sub] at hnotes
  refine selects_iff_of_description hnotes (fun note => ?_) fun note hnote => ?_
  · simp only [mem_addAll, List.not_mem_nil, false_or, List.mem_filter, decide_eq_true_eq]
  · obtain ⟨before, hbefore, rfl⟩ := List.mem_map.1 hnote
    exact List.mem_map.2 ⟨before, hbefore, rfl⟩

theorem addNotes_eq {notes added left : List Note} (h : addNotes notes added = some left) :
    (left : Multiset Note) = notes + added := by
  induction added generalizing notes with
  | nil =>
    cases Option.some_inj.1 h
    exact (add_zero _).symm
  | cons note added ih =>
    rw [addNotes, List.foldlM_cons, Option.bind_eq_bind, Option.bind_eq_some_iff] at h
    obtain ⟨next, hnext, h⟩ := h
    obtain ⟨-, rfl⟩ := inserted_eq_some_iff.1 hnext
    rw [ih h, coe_stableSort_append, add_assoc, Multiset.coe_add, List.singleton_append]

theorem selects_paste_iff {hash : ℤ → ℤ → ℤ} {defaultVelocity : ℕ} {clipboard : List Note}
    {origin : ℤ} (h : store.pasteClipboard hash defaultVelocity clipboard origin = some next) :
    next.Selects (pastedNotes defaultVelocity origin clipboard) ↔
      ∀ note ∈ store.notes, hash note.start note.key ∉
        clipboard.map fun note => hash (origin + note.start) note.key := by
  rw [pasteClipboard] at h
  obtain ⟨-, h⟩ := Option.ite_none_left_eq_some.1 h
  obtain ⟨left, hleft, rfl⟩ := Option.map_eq_some_iff.1 h
  refine selects_iff_of_description (addNotes_eq hleft) (fun note => ?_) fun note hnote => ?_
  · simp only [mem_addAll, List.not_mem_nil, false_or, List.mem_filter, decide_eq_true_eq]
  · obtain ⟨before, hbefore, rfl⟩ := List.mem_map.1 hnote
    exact List.mem_map.2 ⟨before, hbefore, rfl⟩

/-- What lies under a tick of a key. -/
def Covers (tick key : ℤ) (note : Note) : Prop :=
  note.key = key ∧ note.start ≤ tick ∧ tick < note.start + note.length

instance (tick key : ℤ) : DecidablePred (Covers tick key) := fun _ =>
  inferInstanceAs (Decidable (_ ∧ _ ∧ _))

/-- **The first note under a tick is the one that was put there exactly when it comes first in the
canonical order, and was not there before.** -/
theorem find?_inserted_iff (notes : List Note) {new : Note} (hnew : 0 < new.length) :
    ((stableSort (notes ++ [new])).find? (fun note => Covers new.start new.key note) = some new ∧
      new ∉ notes) ↔
    ∀ note ∈ notes, Covers new.start new.key note → new.place < note.place := by
  have hcovers : Covers new.start new.key new := ⟨rfl, le_rfl, by omega⟩
  have hmem : ∀ note, note ∈ stableSort (notes ++ [new]) ↔ note ∈ notes ∨ note = new := by
    intro note
    rw [mem_stableSort, List.mem_append, List.mem_singleton]
  have hsorted := sorted_stableSort (notes ++ [new])
  have hplace : ∀ note : Note, note.place = new.place → Covers new.start new.key note := by
    intro note heq
    simp only [Note.place, EmbeddingLike.apply_eq_iff_eq, Prod.mk.injEq] at heq
    refine ⟨heq.2.1, le_of_eq heq.1, ?_⟩
    omega
  -- what stands before the first that covers does not cover
  have hsplit : ∀ {found}, (stableSort (notes ++ [new])).find?
      (fun note => Covers new.start new.key note) = some found → Covers new.start new.key found ∧
      ∃ before after, stableSort (notes ++ [new]) = before ++ found :: after ∧
        ∀ note ∈ before, ¬Covers new.start new.key note := by
    intro found hfind
    obtain ⟨hcovers, before, after, heq, hbefore⟩ := List.find?_eq_some_iff_append.1 hfind
    refine ⟨of_decide_eq_true hcovers, before, after, heq, fun note hnote => ?_⟩
    simpa using hbefore note hnote
  constructor
  · rintro ⟨hfind, hfresh⟩ note hnote hnoteCovers
    obtain ⟨-, before, after, heq, hbefore⟩ := hsplit hfind
    have hafter : note ∈ after := by
      have hthere := (hmem note).2 (.inl hnote)
      rw [heq, List.mem_append, List.mem_cons] at hthere
      rcases hthere with hthere | rfl | hthere
      · exact absurd hnoteCovers (hbefore note hthere)
      · exact absurd hnote hfresh
      · exact hthere
    rw [heq, List.pairwise_append, List.pairwise_cons] at hsorted
    refine lt_of_le_of_ne ((Note.le_iff _ _).1 (hsorted.2.1.1 note hafter)) fun hsame => ?_
    -- of the notes at its place the new one is the last
    have hties := tied_stableSort new.place (notes ++ [new])
    have hnone : tied new.place before = [] := by
      refine List.filter_eq_nil_iff.2 fun other hother => ?_
      simpa using fun hother' => hbefore other hother (hplace other hother')
    simp only [heq, tied, ties_append, ties_cons, if_true, ties_nil] at hties
    rw [tied] at hnone
    rw [hnone, List.nil_append] at hties
    have hnoteTied : note ∈ ties Note.place new.place notes := mem_ties.2 ⟨hnote, hsame.symm⟩
    cases htied : ties Note.place new.place notes with
    | nil =>
      rw [htied] at hnoteTied
      cases hnoteTied
    | cons first others =>
      rw [htied, List.cons_append, List.cons.injEq] at hties
      have hfirst : first ∈ ties Note.place new.place notes := htied ▸ List.mem_cons_self
      exact hfresh (hties.1 ▸ (mem_ties.1 hfirst).1)
  · intro hfirst
    refine ⟨?_, fun hmem => lt_irrefl _ (hfirst new hmem hcovers)⟩
    cases hfind : (stableSort (notes ++ [new])).find?
        (fun note => Covers new.start new.key note) with
    | none =>
      have := List.find?_eq_none.1 hfind new ((hmem new).2 (.inr rfl))
      exact absurd (decide_eq_true hcovers) this
    | some found =>
      obtain ⟨hfound, before, after, heq, hbefore⟩ := hsplit hfind
      rcases (hmem found).1 (heq ▸ List.mem_append_right _ List.mem_cons_self) with hnote | rfl
      · have hlater := hfirst found hnote hfound
        have hthere := (hmem new).2 (.inr rfl)
        rw [heq, List.mem_append, List.mem_cons] at hthere
        rw [heq, List.pairwise_append, List.pairwise_cons] at hsorted
        rcases hthere with hthere | rfl | hthere
        · exact absurd hcovers (hbefore new hthere)
        · rfl
        · exact absurd ((Note.le_iff _ _).1 (hsorted.2.1.1 new hthere)) (not_le.2 hlater)
      · rfl

/-- Of the notes under a start those that come after a new one are longer, and start with it. -/
theorem place_lt_iff {new note : Note} (h : Covers new.start new.key note) :
    new.place < note.place ↔ note.start = new.start ∧ new.length < note.length := by
  obtain ⟨hkey, hstart, -⟩ := h
  rw [← noteOrderBefore_iff, noteOrderBefore]
  split_ifs with h₁ h₂
  · simp only [decide_eq_true_eq]
    omega
  · exact absurd hkey.symm h₂
  · simp only [decide_eq_true_eq]
    omega

theorem selects_add_iff {defaultVelocity : ℕ} {snapTicks tick key : ℤ} {length : Option ℤ}
    {velocity : ℤ} (h : store.addNoteAt defaultVelocity snapTicks tick key length velocity = some next) :
    next.Selects [addedNote defaultVelocity (snapDown snapTicks tick)
        (length.getD store.lastNoteLength) key velocity] ↔
      ∀ note ∈ store.notes, note.key = key → note.start ≤ snapDown snapTicks tick →
        snapDown snapTicks tick < note.start + note.length →
          note.start = snapDown snapTicks tick ∧ length.getD store.lastNoteLength < note.length := by
  set new := addedNote defaultVelocity (snapDown snapTicks tick) (length.getD store.lastNoteLength)
    key velocity with hnew
  rw [addNoteAt] at h
  obtain ⟨left, hleft, hnext⟩ := Option.map_eq_some_iff.1 h
  obtain ⟨hvalid, rfl⟩ := inserted_eq_some_iff.1 hleft
  have hlength : 0 < new.length := (isValidNote_iff.1 (hvalid new (List.mem_singleton_self new))).2.1
  have hcovers : Covers new.start new.key new := ⟨rfl, le_rfl, by omega⟩
  cases hfind : (stableSort (store.notes ++ [new])).find?
      (fun note => Covers new.start new.key note) with
  | none =>
    have hthere : new ∈ stableSort (store.notes ++ [new]) :=
      mem_stableSort.2 (List.mem_append_right _ (List.mem_singleton_self new))
    exact absurd (decide_eq_true hcovers) (List.find?_eq_none.1 hfind new hthere)
  | some created =>
    have hsome : (stableSort (store.notes ++ [new])).find? (fun note => decide (note.key = key ∧
        note.start ≤ snapDown snapTicks tick ∧
          snapDown snapTicks tick < note.start + note.length)) = some created := hfind
    simp only [noteAt, reselect, ← hnew] at hnext
    rw [hsome] at hnext
    have hnotes : next.notes = stableSort (store.notes ++ [new]) := hnext ▸ rfl
    have hselection : next.selection = [created] := hnext ▸ rfl
    have hfirst := find?_inserted_iff store.notes hlength
    rw [hfind, Option.some_inj] at hfirst
    rw [selects_iff_of_notes (hnotes ▸ coe_stableSort_append store.notes [new]), hselection]
    have hcreated : ((∀ note ∈ (store.notes : Multiset Note), note ∉ [created]) ∧
        ∀ note ∈ [new], note ∈ [created]) ↔ created = new ∧ new ∉ store.notes := by
      simp only [List.mem_singleton, forall_eq, Multiset.mem_coe]
      constructor
      · rintro ⟨hfresh, heq⟩
        exact ⟨heq.symm, fun hmem => hfresh new hmem heq⟩
      · rintro ⟨rfl, hfresh⟩
        exact ⟨fun note hnote heq => hfresh (heq ▸ hnote), rfl⟩
    rw [hcreated, hfirst]
    refine forall₂_congr fun note hnote => ?_
    constructor
    · intro hplace hkey hstart hstop
      exact (place_lt_iff ⟨hkey, hstart, hstop⟩).1 (hplace ⟨hkey, hstart, hstop⟩)
    · intro hlonger hunder
      exact (place_lt_iff hunder).2 (hlonger hunder.1 hunder.2.1 hunder.2.2)

/-- **The selection follows an edit exactly when nothing else answers to what it looks for.** -/
theorem selects_iff {hash : ℤ → ℤ → ℤ} {defaultVelocity : ℕ} {edit : RollEdit}
    (hvalid : ∀ note ∈ store.notes, isValidNote note = true) (hnodup : store.selection.Nodup)
    (hmem : ∀ note ∈ store.selection, note ∈ store.notes)
    (h : store.perform hash defaultVelocity edit = some next) :
    next.Selects (store.made defaultVelocity edit) ↔ store.Apart hash edit := by
  have hlive : store.selection ≠ [] → store.Live := fun hsome => ⟨hvalid, hnodup, hmem, hsome⟩
  have hchecked : store.selection = [] → checkedNotes store.selection = [] := fun hnone => by
    rw [hnone]; rfl
  have hedited : ∀ {edit predict}, (store.editSelection edit predict).map reselect = some next →
      store.Live := by
    intro edit predict h
    obtain ⟨next', hedit, -⟩ := Option.map_eq_some_iff.1 h
    exact live_of_editSelection hvalid hnodup hmem hedit
  cases edit with
  | nudge deltaTicks => exact selects_move_iff (hedited h) h
  | transpose semitones => exact selects_move_iff (hedited h) h
  | velocity velocity => exact selects_predicted_iff (hedited h) rfl h
  | duplicate snapTicks =>
    refine selects_duplicate_iff (hlive fun hnone => ?_) h
    simp only [perform, duplicateSelection, hchecked hnone, if_true, reduceCtorEq] at h
  | quantise snapTicks strength =>
    refine selects_quantise_iff (hlive fun hnone => ?_) h
    simp only [perform, quantiseSelection, hchecked hnone, true_or, or_true, if_true,
      reduceCtorEq] at h
  | paste clipboard origin => exact selects_paste_iff h
  | add snapTicks tick key length velocity => exact selects_add_iff h

/-! ### A note on a key that is taken -/

/-- Two notes of one key, the first of them selected. -/
def twoOfAKey : PianoRollStore where
  notes := [⟨10, 240, 60, 12900⟩, ⟨960, 240, 60, 12900⟩]
  selection := [⟨10, 240, 60, 12900⟩]

/-- A hash that tells places apart. -/
def placeHash (start key : ℤ) : ℤ := 128 * start + key

/-- Quantising one of them selects both; a nudge that the first tick stops selects none; a note that
is drawn under another one selects the other. -/
theorem not_selects_twoOfAKey :
    (∃ next, twoOfAKey.perform placeHash 12900 (.quantise 240 1) = some next ∧
      ¬next.Selects (twoOfAKey.made 12900 (.quantise 240 1))) ∧
    (∃ next, twoOfAKey.perform placeHash 12900 (.nudge (-240)) = some next ∧
      ¬next.Selects (twoOfAKey.made 12900 (.nudge (-240)))) ∧
    ∃ next, twoOfAKey.perform placeHash 12900 (.add 0 100 60 (some 240) 12900) = some next ∧
      ¬next.Selects (twoOfAKey.made 12900 (.add 0 100 60 (some 240) 12900)) := by
  refine ⟨⟨{ twoOfAKey with
      notes := [⟨0, 240, 60, 12900⟩, ⟨960, 240, 60, 12900⟩]
      selection := [⟨0, 240, 60, 12900⟩, ⟨960, 240, 60, 12900⟩] }, by decide +kernel, ?_⟩,
    ⟨_, rfl, ?_⟩, ⟨_, rfl, ?_⟩⟩
  all_goals
    rw [Selects]
    decide +kernel

theorem selects_iff_twoOfAKey :
    ∃ next, twoOfAKey.perform placeHash 12900 (.nudge 240) = some next ∧
      (next.Selects (twoOfAKey.made 12900 (.nudge 240)) ↔
        twoOfAKey.Apart placeHash (.nudge 240)) :=
  ⟨_, rfl, selects_iff (by decide) (by decide) (by decide) rfl⟩

end PianoRollStore

end OneBeat
