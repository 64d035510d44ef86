import OneBeat.Commands.Bus

/-!
# The roster of a project

Which instruments and which mixer tracks there are (`Tables.roster`), and the commands of the rack
by what they do to it (`Command.Shifts`): an edit leaves it alone, an instrument comes with a track
of its own, an instrument goes.

A command that shifted one roster into another can be taken back wherever the second one is found,
whatever else has changed since (`Command.Shifts.revert`), and made again wherever the first is
(`Command.Shifts.apply`).  So a history of such commands never fails (`CommandBus.Rostered`).
-/

namespace OneBeat

/-- Which instruments and mixer tracks there are. -/
structure Roster where
  instruments : InstrumentId → Bool
  tracks : MixerTrackId → Bool
  master : MixerTrackId

namespace Tables

variable {project project' : Tables}

def roster (project : Tables) : Roster where
  instruments := project.instruments.contains
  tracks := project.mixerTracks.contains
  master := project.master

/-- The plug-in of every instrument. -/
def voices (project : Tables) : OrderedMap InstrumentId PluginRef :=
  project.instruments.mapValues fun _ => Instrument.plugin

theorem roster_eq (hinstruments : ∀ id, project'.instruments.contains id =
      project.instruments.contains id)
    (htracks : ∀ id, project'.mixerTracks.contains id = project.mixerTracks.contains id)
    (hmaster : project'.master = project.master) : project'.roster = project.roster := by
  rw [roster, roster, funext hinstruments, funext htracks, hmaster]

theorem roster_updateInstrument {id : InstrumentId} {f : Instrument → Instrument}
    (h : project.updateInstrument id f = some project') : project'.roster = project.roster := by
  unfold updateInstrument at h
  split_ifs at h
  cases h
  refine roster_eq (fun k => ?_) (fun _ => rfl) rfl
  simp only [OrderedMap.contains, OrderedMap.get?_modify]
  split_ifs with hk
  · rw [Option.isSome_map, hk]
  · rfl

theorem roster_deleteInstrument {id : InstrumentId}
    (h : project.deleteInstrument id = some project') : project'.roster = { project.roster with
      instruments := Function.update project.roster.instruments id false } := by
  obtain ⟨-, rfl⟩ := deleteInstrument_eq_some_iff.1 h
  simp only [roster, Roster.mk.injEq, and_true]
  funext k
  rw [Function.update_apply]
  simp only [OrderedMap.contains, OrderedMap.get?_erase]
  split_ifs with hk
  · rfl
  · rfl

theorem roster_deleteMixerTrack {id : MixerTrackId}
    (h : project.deleteMixerTrack id = some project') : project'.roster = { project.roster with
      tracks := Function.update project.roster.tracks id false } := by
  obtain ⟨-, -, rfl⟩ := deleteMixerTrack_eq_some_iff.1 h
  simp only [roster, Roster.mk.injEq, and_true]
  constructor
  · funext k
    simp only [OrderedMap.contains]
    exact OrderedMap.isSome_get?_foldl_modify (fun i => i)
      (fun _ => repointRouting id project.master) k _
  · funext k
    rw [Function.update_apply]
    simp only [OrderedMap.contains, OrderedMap.get?_erase]
    split_ifs with hk
    · rfl
    · exact OrderedMap.isSome_get?_foldl_modify (fun i => i)
        (fun _ => MixerTrack.outputTo project.master) k _

theorem roster_restoreInstrument {id : InstrumentId} {instrument : Instrument}
    (h : project.restoreInstrument id instrument = some project') :
    project'.roster = { project.roster with
      instruments := Function.update project.roster.instruments id true } := by
  unfold restoreInstrument at h
  split_ifs at h
  cases h
  simp only [roster, Roster.mk.injEq, and_true]
  funext k
  rw [Function.update_apply]
  simp only [OrderedMap.contains, OrderedMap.get?_assign]
  split_ifs with hk
  · rfl
  · rfl

theorem roster_restoreMixerTrack {id : MixerTrackId} {track : MixerTrack}
    (h : project.restoreMixerTrack id track = some project') :
    project'.roster = { project.roster with
      tracks := Function.update project.roster.tracks id true } := by
  unfold restoreMixerTrack at h
  split_ifs at h
  cases h
  simp only [roster, Roster.mk.injEq, and_true, true_and]
  funext k
  rw [Function.update_apply]
  simp only [OrderedMap.contains, OrderedMap.get?_assign]
  split_ifs with hk
  · rfl
  · rfl

theorem roster_restoreClips (clips : List (ClipId × Clip)) :
    (project.restoreClips clips).roster = project.roster := by
  rw [restoreClips_eq]
  rfl

theorem roster_restoreSequences (id : InstrumentId) (sequences : List (PatternId × NoteSequence)) :
    (sequences.foldl (fun project entry =>
      (project.restoreSequence entry.1 id entry.2).getD project) project).roster =
      project.roster := by
  induction sequences generalizing project with
  | nil => rfl
  | cons entry sequences ih =>
    rw [List.foldl_cons, ih]
    unfold restoreSequence
    split_ifs
    · rfl
    · rfl

theorem roster_setLengths (lengths : List (ClipId × ℤ)) :
    (project.setLengths lengths).roster = project.roster := by
  rw [setLengths_eq]
  rfl

/-- Deleting a track leaves the plug-ins where they are. -/
theorem voices_deleteMixerTrack {id : MixerTrackId}
    (h : project.deleteMixerTrack id = some project') : project'.voices = project.voices := by
  obtain ⟨-, -, rfl⟩ := deleteMixerTrack_eq_some_iff.1 h
  refine OrderedMap.ext_get? fun k => ?_
  unfold voices
  rw [OrderedMap.get?_mapValues, OrderedMap.get?_mapValues]
  dsimp only
  induction (project.mixerTrackImpact id).instruments using List.reverseRecOn with
  | nil => rfl
  | append_singleton ids last ih =>
    rw [List.foldl_append, List.foldl_cons, List.foldl_nil, OrderedMap.get?_modify]
    split_ifs with hk
    · subst hk
      rw [Option.map_map, ← ih]
      exact congrFun (congrArg Option.map rfl) _
    · exact ih

end Tables

/-! ### What commands do to it -/

namespace Command

/-- The command took one roster into the other. -/
inductive Shifts : Command → Roster → Roster → Prop
  | edit {command : EditCommand} {id : InstrumentId} {roster : Roster} :
      command.target = .instrument id → roster.instruments id = true →
      Shifts (.edit command) roster roster
  | edits {commands : List EditCommand} {roster : Roster} :
      (∀ command ∈ commands, ∃ id, command.target = .instrument id ∧
        roster.instruments id = true) →
      Shifts (.composite (commands.map .edit)) roster roster
  | added {track : MixerTrackId} {id : InstrumentId} {mixerTrack : MixerTrack}
      {instrument : Instrument} {roster : Roster} :
      track.valid = true → roster.tracks track = false → track ≠ roster.master →
      id.valid = true → roster.instruments id = false →
      Shifts (.composite [.add (.mixerTrack track mixerTrack), .add (.instrument id instrument)])
        roster { roster with
          instruments := Function.update roster.instruments id true
          tracks := Function.update roster.tracks track true }
  | removed {command : RemoveInstrument} {roster : Roster} :
      command.id.valid = true → roster.instruments command.id = true →
      Shifts (.removeInstrument command) roster { roster with
        instruments := Function.update roster.instruments command.id false }

variable {command : Command} {roster roster' : Roster} {project : Tables}

/-- An instrument that is there can be written. -/
theorem write_instrument {id : InstrumentId} {target : EditTarget}
    (htarget : target = .instrument id) (hthere : project.roster.instruments id = true)
    (value : target.Value) :
    ∃ project', target.write project value = some project' ∧ project'.roster = project.roster := by
  subst htarget
  have hwrite : EditTarget.write project (.instrument id) value =
      project.updateInstrument id fun _ => value := rfl
  have hupdate : ∃ project', project.updateInstrument id (fun _ => value) = some project' := by
    unfold Tables.updateInstrument
    exact ⟨_, if_pos hthere⟩
  obtain ⟨project', hproject'⟩ := hupdate
  exact ⟨project', hwrite.trans hproject', Tables.roster_updateInstrument hproject'⟩

theorem applyAll_edits {commands : List EditCommand} (h : ∀ command ∈ commands, ∃ id,
      command.target = .instrument id ∧ project.roster.instruments id = true) :
    ∃ project', applyAll (commands.map .edit) project = ⟨true, commands.map .edit, project'⟩ ∧
      project'.roster = project.roster := by
  induction commands generalizing project with
  | nil => exact ⟨project, by rw [List.map_nil, applyAll], rfl⟩
  | cons command commands ih =>
    obtain ⟨id, htarget, hthere⟩ := h command List.mem_cons_self
    obtain ⟨between, hwrite, hbetween⟩ := write_instrument htarget hthere command.after
    have hrest : ∀ command ∈ commands, ∃ id, command.target = .instrument id ∧
        between.roster.instruments id = true := fun command hmem => by
      rw [hbetween]
      exact h command (List.mem_cons_of_mem _ hmem)
    obtain ⟨project', hall, hproject'⟩ := ih hrest
    refine ⟨project', ?_, hproject'.trans hbetween⟩
    simp [applyAll, apply, EditCommand.apply, hwrite, Outcome.ofOption, hall]

theorem revertAll_edits {commands : List EditCommand} (h : ∀ command ∈ commands, ∃ id,
      command.target = .instrument id ∧ project.roster.instruments id = true) :
    ∃ project', revertAll (commands.map .edit) project = ⟨true, commands.map .edit, project'⟩ ∧
      project'.roster = project.roster := by
  induction commands with
  | nil => exact ⟨project, by rw [List.map_nil, revertAll], rfl⟩
  | cons command commands ih =>
    obtain ⟨between, hall, hbetween⟩ := ih fun command hmem => h command (List.mem_cons_of_mem _ hmem)
    obtain ⟨id, htarget, hthere⟩ := h command List.mem_cons_self
    rw [← hbetween] at hthere
    obtain ⟨project', hwrite, hproject'⟩ := write_instrument htarget hthere command.before
    refine ⟨project', ?_, hproject'.trans hbetween⟩
    simp [revertAll, revert, EditCommand.revert, hwrite, Outcome.ofOption, hall]

theorem restoreInstrument_of_roster {id : InstrumentId} (hvalid : id.valid = true)
    (hnew : project.roster.instruments id = false) (instrument : Instrument) :
    ∃ project', project.restoreInstrument id instrument = some project' := by
  have hnew : project.instruments.contains id = false := hnew
  unfold Tables.restoreInstrument
  rw [if_neg (by simp [hvalid, hnew])]
  exact ⟨_, rfl⟩

theorem restoreMixerTrack_of_roster {id : MixerTrackId} (hvalid : id.valid = true)
    (hnew : project.roster.tracks id = false) (track : MixerTrack) :
    ∃ project', project.restoreMixerTrack id track = some project' := by
  have hnew : project.mixerTracks.contains id = false := hnew
  unfold Tables.restoreMixerTrack
  rw [if_neg (by simp [hvalid, hnew])]
  exact ⟨_, rfl⟩

theorem deleteInstrument_of_roster {id : InstrumentId}
    (hthere : project.roster.instruments id = true) :
    ∃ project', project.deleteInstrument id = some project' := by
  unfold Tables.deleteInstrument
  exact ⟨_, if_pos hthere⟩

theorem deleteMixerTrack_of_roster {id : MixerTrackId} (hmaster : id ≠ project.master)
    (hthere : project.roster.tracks id = true) :
    ∃ project', project.deleteMixerTrack id = some project' := by
  unfold Tables.deleteMixerTrack
  rw [if_neg hmaster]
  exact ⟨_, if_pos hthere⟩

/-- Made again wherever the roster is the one it started from. -/
theorem Shifts.apply (h : command.Shifts project.roster roster') :
    ∃ command' project', command.apply project = ⟨true, command', project'⟩ ∧
      command'.Shifts project.roster roster' ∧ project'.roster = roster' := by
  generalize hroster : project.roster = roster at h
  cases h with
  | @edit edited _ _ htarget hthere =>
    rw [← hroster] at hthere
    obtain ⟨project', hwrite, hproject'⟩ := write_instrument htarget hthere edited.after
    refine ⟨_, project', ?_, .edit htarget (hroster ▸ hthere), hproject'.trans hroster⟩
    simp [Command.apply, EditCommand.apply, hwrite, Outcome.ofOption]
  | edits hall =>
    rw [← hroster] at hall
    obtain ⟨project', happly, hproject'⟩ := applyAll_edits hall
    refine ⟨_, project', ?_, .edits (hroster ▸ hall), hproject'.trans hroster⟩
    simp [Command.apply, happly]
  | @added track id mixerTrack instrument _ htrack hnew hmaster hid hnew' =>
    obtain ⟨between, hbetween⟩ :=
      restoreMixerTrack_of_roster htrack ((congrArg (·.tracks track) hroster).trans hnew) mixerTrack
    have hroster' := Tables.roster_restoreMixerTrack hbetween
    have hnew'' : between.roster.instruments id = false := by
      rw [hroster', hroster]
      exact hnew'
    obtain ⟨project', hproject'⟩ := restoreInstrument_of_roster hid hnew'' instrument
    refine ⟨_, project', ?_, @Shifts.added track id mixerTrack instrument _ htrack hnew hmaster hid hnew', ?_⟩
    · simp [Command.apply, applyAll, AddedEntity.apply, AddedEntity.restore, hbetween, hproject',
        Outcome.ofOption]
    · rw [Tables.roster_restoreInstrument hproject', hroster', hroster]
  | @removed removal _ hid hthere =>
    have hthere' : project.instruments.contains removal.id = true :=
      (congrArg (·.instruments removal.id) hroster).trans hthere
    obtain ⟨project', hproject'⟩ := deleteInstrument_of_roster hthere'
    obtain ⟨instrument, hget⟩ := OrderedMap.contains_eq_true_iff.1 hthere'
    let captured : RemoveInstrument := { removal with
      instrument
      sequences := project.patterns.entries.filterMap fun entry =>
        (entry.2.sequences.get? removal.id).map (entry.1, ·)
      clips := project.clipsOf (project.instrumentImpact removal.id).clips }
    refine ⟨.removeInstrument captured, project', ?_, @Shifts.removed captured _ hid hthere, ?_⟩
    · simp only [Command.apply, RemoveInstrument.apply, hget, hproject', Outcome.ofOption,
        Outcome.map_mk, captured]
    · rw [Tables.roster_deleteInstrument hproject', hroster]

/-- Taken back wherever the roster is the one it led to. -/
theorem Shifts.revert (h : command.Shifts roster project.roster) :
    ∃ command' project', command.revert project = ⟨true, command', project'⟩ ∧
      command'.Shifts roster project.roster ∧ project'.roster = roster := by
  generalize hroster : project.roster = roster' at h
  cases h with
  | @edit edited _ _ htarget hthere =>
    rw [← hroster] at hthere
    obtain ⟨project', hwrite, hproject'⟩ := write_instrument htarget hthere edited.before
    refine ⟨_, project', ?_, .edit htarget (hroster ▸ hthere), hproject'.trans hroster⟩
    simp [Command.revert, EditCommand.revert, hwrite, Outcome.ofOption]
  | edits hall =>
    rw [← hroster] at hall
    obtain ⟨project', hrevert, hproject'⟩ := revertAll_edits hall
    refine ⟨_, project', ?_, .edits (hroster ▸ hall), hproject'.trans hroster⟩
    simp [Command.revert, hrevert]
  | @added track id mixerTrack instrument _ htrack hnew hmaster hid hnew' =>
    have hthere : project.roster.instruments id = true := by
      rw [hroster]
      exact Function.update_self _ _ _
    obtain ⟨between, hbetween⟩ := deleteInstrument_of_roster hthere
    have hbetween' := Tables.roster_deleteInstrument hbetween
    have htracks : between.roster.tracks track = true := by
      rw [hbetween', hroster]
      exact Function.update_self _ _ _
    have hmaster' : track ≠ between.master := by
      have hsame : between.master = roster.master := by
        refine (congrArg Roster.master hbetween').trans ?_
        rw [hroster]
      rwa [hsame]
    obtain ⟨project', hproject'⟩ := deleteMixerTrack_of_roster hmaster' htracks
    refine ⟨_, project', ?_, @Shifts.added track id mixerTrack instrument _ htrack hnew hmaster hid hnew', ?_⟩
    · simp [Command.revert, revertAll, AddedEntity.revert, AddedEntity.delete, hbetween, hproject',
        Outcome.ofOption]
    · have hinstruments : Function.update roster.instruments id false = roster.instruments := by
        rw [← hnew', Function.update_eq_self]
      have htracks' : Function.update roster.tracks track false = roster.tracks := by
        rw [← hnew, Function.update_eq_self]
      rw [Tables.roster_deleteMixerTrack hproject', hbetween', hroster]
      simp only [Function.update_idem, hinstruments, htracks']
  | @removed removal _ hid hthere =>
    have hnew : project.roster.instruments removal.id = false := by
      rw [hroster]
      exact Function.update_self _ _ _
    obtain ⟨between, hbetween⟩ := restoreInstrument_of_roster hid hnew removal.instrument
    let sequenced := removal.sequences.foldl (fun project entry =>
      (project.restoreSequence entry.1 removal.id entry.2).getD project) between
    refine ⟨_, sequenced.restoreClips removal.clips, ?_, .removed hid hthere, ?_⟩
    · simp only [Command.revert, RemoveInstrument.revert, hbetween, Outcome.map_mk, sequenced]
    · rw [Tables.roster_restoreClips, Tables.roster_restoreSequences,
        Tables.roster_restoreInstrument hbetween, hroster]
      simp only [Function.update_idem, ← hthere, Function.update_eq_self]

/-- A roster a command leads to is as sound as the one it started from. -/
theorem Shifts.sound (h : command.Shifts roster roster')
    (hvalid : ∀ id, roster.instruments id = true → id.valid = true)
    (hmaster : roster.tracks roster.master = true) :
    (∀ id, roster'.instruments id = true → id.valid = true) ∧
      roster'.tracks roster'.master = true := by
  cases h with
  | edit htarget hthere | edits hall => exact ⟨hvalid, hmaster⟩
  | added htrack hnew hne hid hnew' =>
    refine ⟨fun k hk => ?_, ?_⟩
    · dsimp only at hk
      rw [Function.update_apply] at hk
      split_ifs at hk with heq
      · exact heq ▸ hid
      · exact hvalid k hk
    · exact (Function.update_of_ne hne.symm _ _).trans hmaster
  | removed hid hthere =>
    refine ⟨fun k hk => ?_, hmaster⟩
    dsimp only at hk
    rw [Function.update_apply] at hk
    split_ifs at hk
    exact hvalid k hk

/-- ... and the other way round. -/
theorem Shifts.sound_back (h : command.Shifts roster roster')
    (hvalid : ∀ id, roster'.instruments id = true → id.valid = true)
    (hmaster : roster'.tracks roster'.master = true) :
    (∀ id, roster.instruments id = true → id.valid = true) ∧
      roster.tracks roster.master = true := by
  cases h with
  | edit htarget hthere | edits hall => exact ⟨hvalid, hmaster⟩
  | @added track id _ _ _ htrack hnew hne hid hnew' =>
    refine ⟨fun k hk => hvalid k ?_, ?_⟩
    · dsimp only
      rw [Function.update_apply]
      split_ifs
      · rfl
      · exact hk
    · exact (Function.update_of_ne hne.symm _ _).symm.trans hmaster
  | @removed removal _ hid hthere =>
    refine ⟨fun k hk => ?_, hmaster⟩
    by_cases heq : k = removal.id
    · exact heq ▸ hid
    · exact hvalid k ((Function.update_of_ne heq _ _).trans hk)

/-- Two commands that are absorbed into one are edits. -/
theorem Shifts.coalesceWith {command next merged : Command} {roster roster' roster'' : Roster}
    (h : command.Shifts roster roster') (h' : next.Shifts roster' roster'')
    (hmerged : command.coalesceWith next = some merged) : merged.Shifts roster roster'' := by
  cases h with
  | edit htarget hthere =>
    cases h' with
    | edit htarget' hthere' =>
      obtain ⟨absorbed, habsorbed, rfl⟩ := Option.map_eq_some_iff.1 hmerged
      refine .edit ?_ hthere
      unfold EditCommand.coalesceWith at habsorbed
      split_ifs at habsorbed
      cases habsorbed
      exact htarget
    | edits hall => cases hmerged
    | added => cases hmerged
    | removed => cases hmerged
  | edits hall => cases hmerged
  | added => cases hmerged
  | removed => cases hmerged

end Command

/-! ### Histories -/

/-- A stack of commands that took effect, the last one on top, and the roster after it. -/
inductive Undoes : List Command → Roster → Prop
  | nil (roster : Roster) : Undoes [] roster
  | cons {command : Command} {commands : List Command} {roster roster' : Roster} :
      command.Shifts roster roster' → Undoes commands roster → Undoes (command :: commands) roster'

/-- A stack of commands that were taken back, the next one on top, and the roster before it. -/
inductive Redoes : List Command → Roster → Prop
  | nil (roster : Roster) : Redoes [] roster
  | cons {command : Command} {commands : List Command} {roster roster' : Roster} :
      command.Shifts roster roster' → Redoes commands roster' → Redoes (command :: commands) roster

namespace CommandBus

/-- The history is one of the rack, and the project is where it leads. -/
structure Rostered (bus : CommandBus) : Prop where
  opened : bus.opened = []
  undoes : Undoes bus.undoStack bus.project.roster
  redoes : Redoes bus.redoStack bus.project.roster
  validIds : ∀ id, bus.project.roster.instruments id = true → id.valid = true
  master : bus.project.roster.tracks bus.project.roster.master = true

variable {bus : CommandBus}

/-- Only the roster of the project matters. -/
theorem Rostered.congr (h : bus.Rostered) {project : Tables}
    (hproject : project.roster = bus.project.roster) : { bus with project }.Rostered where
  opened := h.opened
  undoes := hproject ▸ h.undoes
  redoes := hproject ▸ h.redoes
  validIds := hproject ▸ h.validIds
  master := hproject ▸ h.master

theorem rostered_start {project : Tables} (hvalid : ∀ id, project.instruments.contains id = true →
      id.valid = true) (hmaster : project.mixerTracks.contains project.master = true) :
    (start project).Rostered where
  opened := rfl
  undoes := .nil _
  redoes := .nil _
  validIds := hvalid
  master := hmaster

/-- A command that shifts the roster is executed, and recorded. -/
theorem Rostered.execute (h : bus.Rostered) {command : Command} {roster : Roster}
    (hshifts : command.Shifts bus.project.roster roster) :
    (bus.execute (some command)).1 = true ∧ (bus.execute (some command)).2.Rostered ∧
      (bus.execute (some command)).2.project.roster = roster := by
  obtain ⟨command', project', happly, hshifts', rfl⟩ := hshifts.apply
  obtain ⟨hvalid, hmaster⟩ := hshifts'.sound h.validIds h.master
  obtain ⟨hopened, hundoes, -, -, -⟩ := h
  simp only [CommandBus.execute, happly, ↓reduceIte]
  unfold record
  simp only [hopened]
  cases hstack : bus.undoStack with
  | nil =>
    rw [hstack] at hundoes
    exact ⟨trivial, ⟨rfl, .cons hshifts' (.nil _), .nil _, hvalid, hmaster⟩, rfl⟩
  | cons entry entries =>
    rw [hstack] at hundoes
    dsimp only
    split
    next merged hmerged =>
      split_ifs at hmerged
      cases hundoes with
      | cons hentry hrest =>
        exact ⟨trivial, ⟨rfl, .cons (hentry.coalesceWith hshifts' hmerged) hrest, .nil _,
          hvalid, hmaster⟩, rfl⟩
    next => exact ⟨trivial, ⟨rfl, .cons hshifts' hundoes, .nil _, hvalid, hmaster⟩, rfl⟩

/-- Undo fails on an empty stack, and on no other. -/
theorem Rostered.undo (h : bus.Rostered) :
    bus.undo.2.Rostered ∧ (bus.undo.1 = false → bus.undo.2 = bus) := by
  obtain ⟨hopened, hundoes, hredoes, hvalid, hmaster⟩ := h
  unfold CommandBus.undo
  cases hstack : bus.undoStack with
  | nil => exact ⟨⟨hopened, hundoes, hredoes, hvalid, hmaster⟩, fun _ => rfl⟩
  | cons entry entries =>
    rw [hstack] at hundoes
    cases hundoes with
    | cons hentry hrest =>
      obtain ⟨command', project', hrevert, hshifts, rfl⟩ := hentry.revert
      obtain ⟨hvalid', hmaster'⟩ := hshifts.sound_back hvalid hmaster
      simp only [hrevert, ↓reduceIte]
      exact ⟨⟨hopened, hrest, .cons hshifts hredoes, hvalid', hmaster'⟩, fun hfalse => by cases hfalse⟩

/-- Redo fails on an empty stack, and on no other. -/
theorem Rostered.redo (h : bus.Rostered) :
    bus.redo.2.Rostered ∧ (bus.redo.1 = false → bus.redo.2 = bus) := by
  obtain ⟨hopened, hundoes, hredoes, hvalid, hmaster⟩ := h
  unfold CommandBus.redo
  cases hstack : bus.redoStack with
  | nil => exact ⟨⟨hopened, hundoes, hredoes, hvalid, hmaster⟩, fun _ => rfl⟩
  | cons entry entries =>
    rw [hstack] at hredoes
    cases hredoes with
    | cons hentry hrest =>
      obtain ⟨command', project', happly, hshifts, rfl⟩ := hentry.apply
      obtain ⟨hvalid', hmaster'⟩ := hshifts.sound hvalid hmaster
      simp only [happly, ↓reduceIte]
      exact ⟨⟨hopened, .cons hshifts hundoes, hrest, hvalid', hmaster'⟩, fun hfalse => by cases hfalse⟩

end CommandBus

/-! ### The commands of the rack -/

namespace Command

variable {project : Tables} {command : Command}

theorem shifts_editInstrument {id : InstrumentId} {field : ChangeField}
    {mutator : Instrument → Instrument}
    (h : editInstrument project id field mutator = some command) :
    command.Shifts project.roster project.roster := by
  obtain ⟨instrument, hget, rfl⟩ := Option.map_eq_some_iff.1 h
  exact .edit rfl (OrderedMap.contains_eq_true_iff.2 ⟨instrument, hget⟩)

/-- Edits of some of the instruments are edits of instruments that are there. -/
theorem exists_edits (unchanged : InstrumentId × Instrument → Prop) [DecidablePred unchanged]
    (mutator : InstrumentId × Instrument → Instrument → Instrument)
    (entries : List (InstrumentId × Instrument)) :
    ∃ commands : List EditCommand, (entries.filterMap fun entry =>
        if unchanged entry then none
        else editInstrument project entry.1 .order (mutator entry)) = commands.map .edit ∧
      ∀ command ∈ commands, ∃ id, command.target = .instrument id ∧
        project.roster.instruments id = true := by
  induction entries with
  | nil => exact ⟨[], rfl, by simp⟩
  | cons entry entries ih =>
    obtain ⟨commands, hcommands, hall⟩ := ih
    rw [List.filterMap_cons]
    split
    next => exact ⟨commands, hcommands, hall⟩
    next edit hedit =>
      split_ifs at hedit
      obtain ⟨instrument, hget, rfl⟩ := Option.map_eq_some_iff.1 hedit
      refine ⟨_ :: commands, congrArg (_ :: ·) hcommands, fun command hmem => ?_⟩
      rcases List.mem_cons.1 hmem with rfl | hmem
      · exact ⟨entry.1, rfl, OrderedMap.contains_eq_true_iff.2 ⟨instrument, hget⟩⟩
      · exact hall command hmem

theorem shifts_reorderInstrument {id : InstrumentId} {targetOrder : ℤ}
    (h : reorderInstrument project id targetOrder = some command) :
    command.Shifts project.roster project.roster := by
  unfold reorderInstrument at h
  split at h
  · cases h
  next moving hmoving =>
  dsimp only at h
  split_ifs at h
  cases h
  let next (entry : InstrumentId × Instrument) : ℤ := reorderedTo id entry.1 moving.order
    (max 0 (min targetOrder (project.instruments.size - 1))) entry.2.order
  obtain ⟨commands, hcommands, hall⟩ := @exists_edits project
    (fun entry => next entry = entry.2.order) _
    (fun entry instrument => { instrument with order := next entry }) project.instruments.entries
  exact hcommands ▸ .edits hall

/-- An instrument and its track are added, or the plug-ins stay as they are. -/
theorem shifts_or_voices_added {track : MixerTrackId} {id : InstrumentId}
    {mixerTrack : MixerTrack} {instrument : Instrument}
    (hmaster : project.roster.tracks project.roster.master = true) :
    (∃ roster, (composite [.add (.mixerTrack track mixerTrack),
        .add (.instrument id instrument)]).Shifts project.roster roster) ∨
      ((composite [.add (.mixerTrack track mixerTrack),
          .add (.instrument id instrument)]).apply project).ok = false ∧
        ((composite [.add (.mixerTrack track mixerTrack),
          .add (.instrument id instrument)]).apply project).state.voices = project.voices ∧
        ((composite [.add (.mixerTrack track mixerTrack),
          .add (.instrument id instrument)]).apply project).state.roster = project.roster := by
  by_cases htrack : track.valid = true ∧ project.roster.tracks track = false
  swap
  · have hnone : project.restoreMixerTrack track mixerTrack = none := by
      unfold Tables.restoreMixerTrack
      refine if_pos ?_
      rw [not_and_or] at htrack
      simpa [Tables.roster] using htrack
    refine .inr ?_
    simp [Command.apply, applyAll, AddedEntity.apply, AddedEntity.restore, hnone,
      Outcome.ofOption]
  obtain ⟨hvalid, hnew⟩ := htrack
  have hne : track ≠ project.roster.master := by
    rintro rfl
    rw [hmaster] at hnew
    cases hnew
  by_cases hid : id.valid = true ∧ project.roster.instruments id = false
  · exact .inl ⟨_, .added hvalid hnew hne hid.1 hid.2⟩
  obtain ⟨between, hbetween⟩ := restoreMixerTrack_of_roster hvalid hnew mixerTrack
  have hroster := Tables.roster_restoreMixerTrack hbetween
  have hnone : between.restoreInstrument id instrument = none := by
    unfold Tables.restoreInstrument
    refine if_pos ?_
    have hsame : between.instruments.contains id = project.instruments.contains id :=
      congrArg (·.instruments id) hroster
    rw [not_and_or] at hid
    rw [hsame]
    simpa [Tables.roster] using hid
  have hthere : between.roster.tracks track = true := by
    rw [hroster]
    exact Function.update_self _ _ _
  have hne' : track ≠ between.master := by
    have hsame : between.master = project.roster.master := congrArg Roster.master hroster
    rwa [hsame]
  obtain ⟨project', hproject'⟩ := deleteMixerTrack_of_roster hne' hthere
  have happly : ((composite [.add (.mixerTrack track mixerTrack),
      .add (.instrument id instrument)]).apply project).ok = false ∧
      ((composite [.add (.mixerTrack track mixerTrack),
        .add (.instrument id instrument)]).apply project).state = project' := by
    simp [Command.apply, applyAll, Command.revert, AddedEntity.apply, AddedEntity.restore,
      AddedEntity.revert, AddedEntity.delete, hbetween, hnone, hproject', Outcome.ofOption]
  rw [happly.2]
  refine .inr ⟨happly.1, ?_, ?_⟩
  · rw [Tables.voices_deleteMixerTrack hproject']
    unfold Tables.restoreMixerTrack at hbetween
    split_ifs at hbetween
    cases hbetween
    rfl
  · rw [Tables.roster_deleteMixerTrack hproject', hroster]
    simp only [Function.update_idem, ← hnew, Function.update_eq_self]

/-- An instrument is removed, or there was none. -/
theorem shifts_or_state_removed (id : InstrumentId)
    (hvalid : ∀ id, project.roster.instruments id = true → id.valid = true) :
    (∃ roster, (OneBeat.removeInstrument id).Shifts project.roster roster) ∨
      ((OneBeat.removeInstrument id).apply project).ok = false ∧
        ((OneBeat.removeInstrument id).apply project).state = project := by
  by_cases hthere : project.roster.instruments id = true
  · exact .inl ⟨_, @Shifts.removed { id } _ (hvalid id hthere) hthere⟩
  · have hnone : project.instruments.get? id = none :=
      OrderedMap.contains_eq_false_iff.1 (Bool.eq_false_of_not_eq_true hthere)
    refine .inr ?_
    simp [OneBeat.removeInstrument, Command.apply, RemoveInstrument.apply, hnone]

end Command

end OneBeat
