import OneBeat.Commands.Edit

/-!
# Creating and deleting commands

The first half of `model/commands.cpp`.  Creation restores an entity that has never existed yet;
every delete captures its whole inverse when it is applied: the entity, and all that the deletion
in `Project` cascades to.
-/

namespace OneBeat

/-! ### `AddCommand` -/

/-- An entity and the id it will be stored under. -/
inductive AddedEntity
  | instrument (id : InstrumentId) (entity : Instrument)
  | pattern (id : PatternId) (entity : Pattern)
  | lane (id : ArrangementLaneId) (entity : ArrangementLane)
  | clip (id : ClipId) (entity : Clip)
  | mixerTrack (id : MixerTrackId) (entity : MixerTrack)

namespace AddedEntity

/-- Store the entity, which has never existed yet. -/
def restore (project : Tables) : AddedEntity → Option Tables
  | instrument id entity => project.restoreInstrument id entity
  | pattern id entity => project.restorePattern id entity
  | lane id entity => project.restoreLane id entity
  | clip id entity => project.restoreClip id entity
  | mixerTrack id entity => project.restoreMixerTrack id entity

/-- Delete the entity again. -/
def delete (project : Tables) : AddedEntity → Option Tables
  | instrument id _ => project.deleteInstrument id
  | pattern id _ => project.deletePattern id
  | lane id _ => project.deleteLane id
  | clip id _ => project.deleteClip id
  | mixerTrack id _ => project.deleteMixerTrack id

/-- `AddCommand::apply`. -/
def apply (command : AddedEntity) (project : Tables) : Outcome Tables AddedEntity :=
  .ofOption command project (command.restore project)

/-- `AddCommand::revert`. -/
def revert (command : AddedEntity) (project : Tables) : Outcome Tables AddedEntity :=
  .ofOption command project (command.delete project)

end AddedEntity

/-- The clips of a list of ids that exist, with their ids. -/
def Tables.clipsOf (project : Tables) (ids : List ClipId) : List (ClipId × Clip) :=
  ids.filterMap fun id => (project.clips.get? id).map (id, ·)

/-! ### `RemoveInstrumentCommand` -/

structure RemoveInstrument where
  id : InstrumentId
  instrument : Instrument := {}
  sequences : List (PatternId × NoteSequence) := []
  clips : List (ClipId × Clip) := []

namespace RemoveInstrument

def apply (command : RemoveInstrument) (project : Tables) : Outcome Tables RemoveInstrument :=
  match project.instruments.get? command.id with
  | none => ⟨false, command, project⟩
  | some instrument =>
    let sequences := project.patterns.entries.filterMap fun entry =>
      (entry.2.sequences.get? command.id).map (entry.1, ·)
    let clips := project.clipsOf (project.instrumentImpact command.id).clips
    .ofOption { command with instrument, sequences, clips } project
      (project.deleteInstrument command.id)

def revert (command : RemoveInstrument) (project : Tables) : Outcome Tables RemoveInstrument :=
  match project.restoreInstrument command.id command.instrument with
  | none => ⟨false, command, project⟩
  | some project =>
    let project := command.sequences.foldl (fun project entry =>
      (project.restoreSequence entry.1 command.id entry.2).getD project) project
    ⟨true, command, project.restoreClips command.clips⟩

end RemoveInstrument

/-! ### `RemovePatternCommand` -/

structure RemovePattern where
  id : PatternId
  pattern : Pattern := {}
  clips : List (ClipId × Clip) := []

namespace RemovePattern

def apply (command : RemovePattern) (project : Tables) : Outcome Tables RemovePattern :=
  match project.patterns.get? command.id with
  | none => ⟨false, command, project⟩
  | some pattern =>
    let clips := project.clipsOf (project.clipsUsingPattern command.id)
    .ofOption { command with pattern, clips } project (project.deletePattern command.id)

def revert (command : RemovePattern) (project : Tables) : Outcome Tables RemovePattern :=
  match project.restorePattern command.id command.pattern with
  | none => ⟨false, command, project⟩
  | some project => ⟨true, command, project.restoreClips command.clips⟩

end RemovePattern

/-! ### `RemoveLaneCommand` -/

/-- Group a lane under another one. -/
def ArrangementLane.groupUnder (id : ArrangementLaneId) (lane : ArrangementLane) :
    ArrangementLane :=
  { lane with groupId := some id }

theorem ArrangementLane.groupUnder_eq_self {id : ArrangementLaneId} {lane : ArrangementLane}
    (h : lane.groupId = some id) : lane.groupUnder id = lane := by
  unfold groupUnder
  rw [← h]

structure RemoveLane where
  id : ArrangementLaneId
  lane : ArrangementLane := {}
  clips : List (ClipId × Clip) := []
  grouped : List ArrangementLaneId := []

namespace RemoveLane

def apply (command : RemoveLane) (project : Tables) : Outcome Tables RemoveLane :=
  match project.lanes.get? command.id with
  | none => ⟨false, command, project⟩
  | some lane =>
    let clips := project.clipsOf (project.clipsOnLane command.id)
    let grouped := project.lanes.keysWhere fun other => other.groupId = some command.id
    .ofOption { command with lane, clips, grouped } project (project.deleteLane command.id)

def revert (command : RemoveLane) (project : Tables) : Outcome Tables RemoveLane :=
  match project.restoreLane command.id command.lane with
  | none => ⟨false, command, project⟩
  | some project =>
    let project := command.grouped.foldl (fun project lane =>
      (project.updateLane lane (ArrangementLane.groupUnder command.id)).getD project) project
    ⟨true, command, project.restoreClips command.clips⟩

end RemoveLane

/-! ### `RemoveClipCommand` -/

structure RemoveClip where
  id : ClipId
  clip : Clip := default

namespace RemoveClip

def apply (command : RemoveClip) (project : Tables) : Outcome Tables RemoveClip :=
  match project.clips.get? command.id with
  | none => ⟨false, command, project⟩
  | some clip => .ofOption { command with clip } project (project.deleteClip command.id)

def revert (command : RemoveClip) (project : Tables) : Outcome Tables RemoveClip :=
  .ofOption command project (project.restoreClip command.id command.clip)

end RemoveClip

/-! ### `RemoveMixerTrackCommand` -/

/-- Replace the routing of an instrument. -/
def Instrument.routeTo (routing : List OutputRoute) (instrument : Instrument) : Instrument :=
  { instrument with routing }

structure RemoveMixerTrack where
  id : MixerTrackId
  track : MixerTrack := {}
  routings : List (InstrumentId × List OutputRoute) := []
  inputs : List MixerTrackId := []
  clips : List (ClipId × Clip) := []
  audioClips : List (ClipId × Clip) := []

namespace RemoveMixerTrack

def apply (command : RemoveMixerTrack) (project : Tables) : Outcome Tables RemoveMixerTrack :=
  match project.mixerTracks.get? command.id with
  | none => ⟨false, command, project⟩
  | some track =>
    let impact := project.mixerTrackImpact command.id
    let routings := impact.instruments.filterMap fun id =>
      (project.instruments.get? id).map fun instrument => (id, instrument.routing)
    let touched := project.clipsOf impact.clips
    .ofOption
      { command with
        track, routings, inputs := impact.inputs
        audioClips := touched.filter fun entry => entry.2.audio.isSome
        clips := touched.filter fun entry => entry.2.audio.isNone }
      project (project.deleteMixerTrack command.id)

def revert (command : RemoveMixerTrack) (project : Tables) : Outcome Tables RemoveMixerTrack :=
  match project.restoreMixerTrack command.id command.track with
  | none => ⟨false, command, project⟩
  | some project =>
    let project := command.routings.foldl (fun project entry =>
      (project.updateInstrument entry.1 (Instrument.routeTo entry.2)).getD project) project
    let project := command.inputs.foldl (fun project input =>
      (project.updateMixerTrack input (MixerTrack.outputTo command.id)).getD project) project
    let project := command.audioClips.foldl (fun project entry =>
      (project.updateClip entry.1 fun _ => entry.2).getD project) project
    ⟨true, command, project.restoreClips command.clips⟩

end RemoveMixerTrack

end OneBeat
