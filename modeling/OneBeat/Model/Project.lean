import OneBeat.Model.Entities

/-!
# The project and the operations that keep it consistent

`model/project.h` and `model/project.cpp`.  `Tables` is what a project owns: one map for each kind
of entity, and the project-level state.  The operations that can fail return an `Option`: `none`
is the source's `false`, and then the project is as it was.

Change events and the invariant check of debug builds are not part of the tables.
-/

namespace OneBeat

/-- Everything a project owns. -/
structure Tables where
  instruments : OrderedMap InstrumentId Instrument := .empty
  patterns : OrderedMap PatternId Pattern := .empty
  lanes : OrderedMap ArrangementLaneId ArrangementLane := .empty
  clips : OrderedMap ClipId Clip := .empty
  mixerTracks : OrderedMap MixerTrackId MixerTrack := .empty
  master : MixerTrackId := .none
  transport : TransportState := {}
  metadata : ProjectMeta := {}
  deriving DecidableEq, Inhabited

/-- A project before its first edit: the master track and nothing else. -/
def newProject (master : MixerTrackId) : Tables :=
  { mixerTracks := OrderedMap.empty.assign master { name := "Master", output := none }, master }

/-- Send a track into another one. -/
def MixerTrack.outputTo (id : MixerTrackId) (track : MixerTrack) : MixerTrack :=
  { track with output := some id }

namespace Tables

variable (project : Tables)

/-! ### Lookups -/

def clipsOnLane (id : ArrangementLaneId) : List ClipId :=
  project.clips.keysWhere fun clip => clip.lane = id

def clipsUsingPattern (id : PatternId) : List ClipId :=
  project.clips.keysWhere fun clip => clip.pattern = some id

/-! ### Impact reports -/

/-- What deleting an instrument would touch. -/
structure InstrumentImpact where
  patterns : List PatternId
  noteCount : ℕ
  patternClips : List ClipId
  clips : List ClipId
  tracks : List MixerTrackId

/-- An automation clip that drives the instrument. -/
def automatesInstrument (id : InstrumentId) (clip : Clip) : Bool :=
  match clip.automation with
  | some source => source.targetKind = .instrument && source.instrument = id
  | none => false

def instrumentImpact (id : InstrumentId) : InstrumentImpact :=
  let patterns := project.patterns.keysWhere fun pattern => pattern.sequences.contains id
  { patterns
    noteCount := (project.patterns.entries.map fun entry =>
      ((entry.2.sequences.get? id).map NoteSequence.size).getD 0).sum
    patternClips := project.clips.keysWhere fun clip =>
      match clip.pattern with
      | some pattern => pattern ∈ patterns
      | none => false
    clips := project.clips.keysWhere (automatesInstrument id)
    tracks := match project.instruments.get? id with
      | some instrument => instrument.routing.map OutputRoute.track
      | none => [] }

/-- What deleting a mixer track would touch. -/
structure MixerTrackImpact where
  instruments : List InstrumentId
  inputs : List MixerTrackId
  clips : List ClipId

/-- An audio clip that plays into the track. -/
def playsInto (id : MixerTrackId) (clip : Clip) : Bool :=
  match clip.audio with
  | some source => source.destination = id
  | none => false

/-- An automation clip that drives the track or an insert of its chain. -/
def automatesTrack (id : MixerTrackId) (clip : Clip) : Bool :=
  match clip.automation with
  | some source =>
    (source.targetKind = .mixerTrack || source.targetKind = .effect) && source.mixerTrack = id
  | none => false

def mixerTrackImpact (id : MixerTrackId) : MixerTrackImpact where
  instruments := project.instruments.keysWhere fun instrument =>
    instrument.routing.any fun route => route.track = id
  inputs := project.mixerTracks.keysWhere fun track => track.output = some id
  clips := project.clips.keysWhere fun clip => playsInto id clip || automatesTrack id clip

/-- An automation clip that drives the insert. -/
def automatesEffect (track : MixerTrackId) (effect : EffectId) (clip : Clip) : Bool :=
  match clip.automation with
  | some source =>
    source.targetKind = .effect && source.mixerTrack = track && source.effect = effect
  | none => false

/-- The automation clips that pulling an insert out of a chain destroys. -/
def effectImpact (track : MixerTrackId) (effect : EffectId) : List ClipId :=
  project.clips.keysWhere (automatesEffect track effect)

/-! ### Deletion -/

def deleteClip (id : ClipId) : Option Tables :=
  if project.clips.contains id then some { project with clips := project.clips.erase id } else none

/-- Delete clips one after the other; the result of a deletion is not looked at. -/
def deleteClips (ids : List ClipId) : Tables :=
  ids.foldl (fun project id => (project.deleteClip id).getD project) project

def deleteInstrument (id : InstrumentId) : Option Tables :=
  if project.instruments.contains id then
    let project := { project with
      patterns := project.patterns.mapValues fun _ pattern =>
        { pattern with sequences := pattern.sequences.erase id } }
    let project := project.deleteClips (project.instrumentImpact id).clips
    some { project with instruments := project.instruments.erase id }
  else none

def deletePattern (id : PatternId) : Option Tables :=
  if project.patterns.contains id then
    let project := project.deleteClips (project.clipsUsingPattern id)
    some { project with patterns := project.patterns.erase id }
  else none

/-- A lane that was grouped under `id` is released. -/
def releaseLane (id : ArrangementLaneId) (lane : ArrangementLane) : ArrangementLane :=
  if lane.groupId = some id then { lane with groupId := none } else lane

def deleteLane (id : ArrangementLaneId) : Option Tables :=
  if project.lanes.contains id then
    let project := project.deleteClips (project.clipsOnLane id)
    let lanes := project.lanes.mapValues fun _ => releaseLane id
    some { project with lanes := lanes.erase id }
  else none

/-- Send the routes into `id` to `master` instead. -/
def repointRouting (id master : MixerTrackId) (instrument : Instrument) : Instrument :=
  { instrument with
    routing := instrument.routing.map fun route =>
      if route.track = id then { route with track := master } else route }

/-- What becomes of a clip whose track is deleted: audio plays into the master, an automation clip
goes with its target. -/
def releaseClip (master : MixerTrackId) (project : Tables) (id : ClipId) : Tables :=
  match project.clips.get? id with
  | none => project
  | some clip =>
    match clip.source with
    | .audio source =>
      { project with clips := project.clips.modify id fun clip =>
          { clip with source := .audio { source with destination := master } } }
    | _ => (project.deleteClip id).getD project

def deleteMixerTrack (id : MixerTrackId) : Option Tables :=
  if id = project.master then none
  else if project.mixerTracks.contains id then
    let impact := project.mixerTrackImpact id
    let instruments := impact.instruments.foldl
      (fun instruments i => instruments.modify i (repointRouting id project.master))
      project.instruments
    let mixerTracks := impact.inputs.foldl
      (fun tracks i => tracks.modify i (MixerTrack.outputTo project.master))
      project.mixerTracks
    let project := impact.clips.foldl (releaseClip project.master)
      { project with instruments, mixerTracks }
    some { project with mixerTracks := project.mixerTracks.erase id }
  else none

/-! ### Restore: undo's half of creation -/

def restoreInstrument (id : InstrumentId) (instrument : Instrument) : Option Tables :=
  if !id.valid || project.instruments.contains id then none
  else some { project with instruments := project.instruments.assign id instrument }

def restorePattern (id : PatternId) (pattern : Pattern) : Option Tables :=
  if !id.valid || project.patterns.contains id then none
  else some { project with patterns := project.patterns.assign id pattern }

def restoreLane (id : ArrangementLaneId) (lane : ArrangementLane) : Option Tables :=
  if !id.valid || project.lanes.contains id then none
  else some { project with lanes := project.lanes.assign id lane }

def restoreClip (id : ClipId) (clip : Clip) : Option Tables :=
  if !id.valid || project.clips.contains id then none
  else some { project with clips := project.clips.assign id clip }

def restoreMixerTrack (id : MixerTrackId) (track : MixerTrack) : Option Tables :=
  if !id.valid || project.mixerTracks.contains id then none
  else some { project with mixerTracks := project.mixerTracks.assign id track }

/-- Restore clips one after the other; the result is not looked at. -/
def restoreClips (clips : List (ClipId × Clip)) : Tables :=
  clips.foldl (fun project entry => (project.restoreClip entry.1 entry.2).getD project) project

/-- Replace one instrument's sequence in a pattern; an empty one is erased. -/
def restoreSequence (patternId : PatternId) (instrumentId : InstrumentId)
    (sequence : NoteSequence) : Option Tables :=
  if project.patterns.contains patternId && project.instruments.contains instrumentId then
    some { project with
      patterns := project.patterns.modify patternId (Pattern.withSequence instrumentId sequence) }
  else none

/-! ### Project-level state -/

def setTransport (transport : TransportState) : Tables := { project with transport }

def setMeta (metadata : ProjectMeta) : Tables := { project with metadata }

/-! ### Modify -/

def updateInstrument (id : InstrumentId) (mutator : Instrument → Instrument) : Option Tables :=
  if project.instruments.contains id then
    some { project with instruments := project.instruments.modify id mutator }
  else none

def updatePattern (id : PatternId) (mutator : Pattern → Pattern) : Option Tables :=
  if project.patterns.contains id then
    some { project with patterns := project.patterns.modify id mutator }
  else none

def updateLane (id : ArrangementLaneId) (mutator : ArrangementLane → ArrangementLane) :
    Option Tables :=
  if project.lanes.contains id then
    some { project with lanes := project.lanes.modify id mutator }
  else none

def updateClip (id : ClipId) (mutator : Clip → Clip) : Option Tables :=
  if project.clips.contains id then
    some { project with clips := project.clips.modify id mutator }
  else none

def updateMixerTrack (id : MixerTrackId) (mutator : MixerTrack → MixerTrack) : Option Tables :=
  if project.mixerTracks.contains id then
    some { project with mixerTracks := project.mixerTracks.modify id mutator }
  else none

end Tables

end OneBeat
