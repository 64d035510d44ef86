import OneBeat.Commands.Exact
import OneBeat.Lib.RunningExtremes

/-!
# Building commands

The factories of `model/commands.cpp`, which build a command against a project.  A factory whose
result is null where the step makes no sense returns an `Option`.  The ids a factory mints are
arguments, and so are the mutators of the edits; names for the undo menu are left out.

* `Structural project` : the commands the factories build, note and transport edits apart;
* `Command.ready_of_structural` : such a command is ready when nothing refers to what it creates.
-/

namespace OneBeat

/-! ### Names, orders and colours of new instruments -/

def kInstrumentColors : List ColorHex :=
  ["#6C8CFF", "#B779F2", "#EF6F91", "#F59E5B", "#E7C75F", "#66C58F", "#50B8C6", "#8294B8"]

/-- The first of `base`, `base 2`, `base 3`, … that no instrument has.  A project with `n`
instruments leaves one of the first `n + 1` free. -/
def uniqueInstrumentName (project : Tables) (base : String) : String :=
  let base := if base = "" then "Instrument" else base
  let names := project.instruments.entries.map fun entry => entry.2.name
  let candidates := base :: (List.range names.length).map fun i => base ++ " " ++ toString (i + 2)
  (candidates.find? fun candidate => candidate ∉ names).getD base

/-- One past the highest of some orders. -/
def nextOrder (orders : List ℤ) : ℤ := orders.foldl max (-1) + 1

theorem lt_nextOrder {order : ℤ} {orders : List ℤ} (h : order ∈ orders) :
    order < nextOrder orders :=
  Int.lt_add_one_of_le ((le_foldl_max (f := id)).2 order h)

def nextInstrumentOrder (project : Tables) : ℤ :=
  nextOrder (project.instruments.entries.map fun entry => entry.2.order)

def nextInstrumentColor (project : Tables) : ColorHex :=
  kInstrumentColors.getD (project.instruments.size % kInstrumentColors.length) ""

/-! ### Edits -/

def editInstrument (project : Tables) (id : InstrumentId) (field : ChangeField)
    (mutator : Instrument → Instrument) : Option Command :=
  (project.instruments.get? id).map fun instrument =>
    .edit { target := .instrument id, field, before := instrument, after := mutator instrument }

def editPatternMeta (project : Tables) (id : PatternId) (field : ChangeField)
    (mutator : PatternMeta → PatternMeta) : Option Command :=
  (project.patterns.get? id).map fun pattern =>
    .edit
      { target := .patternMeta id, field
        before := PatternMeta.ofPattern pattern
        after := mutator (PatternMeta.ofPattern pattern) }

def editLane (project : Tables) (id : ArrangementLaneId) (field : ChangeField)
    (mutator : ArrangementLane → ArrangementLane) : Option Command :=
  (project.lanes.get? id).map fun lane =>
    .edit { target := .lane id, field, before := lane, after := mutator lane }

def editClip (project : Tables) (id : ClipId) (field : ChangeField) (mutator : Clip → Clip) :
    Option Command :=
  (project.clips.get? id).map fun clip =>
    .edit { target := .clip id, field, before := clip, after := mutator clip }

def editMixerTrack (project : Tables) (id : MixerTrackId) (field : ChangeField)
    (mutator : MixerTrack → MixerTrack) : Option Command :=
  (project.mixerTracks.get? id).map fun track =>
    .edit { target := .mixerTrack id, field, before := track, after := mutator track }

/-! ### Instruments -/

/-- An instrument, and the mixer track it plays into unless the user wants none. -/
def addInstrument (project : Tables) (autoCreateMixerTrack : Bool) (id : InstrumentId)
    (trackId : MixerTrackId) (name : String) (plugin : PluginRef) : Command :=
  let instrument (destination : MixerTrackId) : Command := .add (.instrument id
    { name
      color := nextInstrumentColor project
      order := nextInstrumentOrder project
      plugin
      routing := [⟨0, destination⟩] })
  if autoCreateMixerTrack then
    .composite
      [.add (.mixerTrack trackId { name, output := some project.master }), instrument trackId]
  else .composite [instrument project.master]

/-- An instrument that is named after its plug-in. -/
def addInstrumentNamed (project : Tables) (autoCreateMixerTrack : Bool) (id : InstrumentId)
    (trackId : MixerTrackId) (plugin : PluginRef) : Command :=
  addInstrument project autoCreateMixerTrack id trackId
    (uniqueInstrumentName project plugin.name) plugin

def duplicateInstrument (project : Tables) (trackId : MixerTrackId) (copyId id : InstrumentId) :
    Option Command :=
  (project.instruments.get? id).map fun source =>
    let name := uniqueInstrumentName project source.name
    .composite
      [.add (.mixerTrack trackId { name, output := some project.master }),
        .add (.instrument copyId
          { source with
            name
            order := nextInstrumentOrder project
            routing := [⟨0, trackId⟩] })]

def replaceInstrument (project : Tables) (id : InstrumentId) (plugin : PluginRef) :
    Option Command :=
  editInstrument project id .plugin fun instrument => { instrument with plugin }

/-- Where an instrument goes when the one at `source` moves to `target`. -/
def reorderedTo (moving other : InstrumentId) (source target order : ℤ) : ℤ :=
  if other = moving then target
  else if source < target ∧ source < order ∧ order ≤ target then order - 1
  else if target < source ∧ target ≤ order ∧ order < source then order + 1
  else order

/-- One edit for every instrument whose order changes. -/
def reorderInstrument (project : Tables) (id : InstrumentId) (targetOrder : ℤ) :
    Option Command :=
  match project.instruments.get? id with
  | none => none
  | some moving =>
    let maximum : ℤ := project.instruments.size - 1
    let target := max 0 (min targetOrder maximum)
    if moving.order = target then none
    else some (.composite (project.instruments.entries.filterMap fun entry =>
      let next := reorderedTo id entry.1 moving.order target entry.2.order
      if next = entry.2.order then none
      else editInstrument project entry.1 .order fun instrument =>
        { instrument with order := next }))

/-! ### Patterns, lanes, tracks, clips -/

def addPattern (project : Tables) (id : PatternId) (name : String)
    (length : ℤ := ticksPerBarFourFour * 4) : Command :=
  .add (.pattern id
    { name, length, order := nextOrder (project.patterns.entries.map fun entry => entry.2.order) })

def addLane (project : Tables) (id : ArrangementLaneId) (name : String) : Command :=
  .add (.lane id
    { name, order := nextOrder (project.lanes.entries.map fun entry => entry.2.order) })

def addMixerTrack (project : Tables) (id : MixerTrackId) (name : String) : Command :=
  .add (.mixerTrack id { name, output := some project.master })

def addClip (id : ClipId) (lane : ArrangementLaneId) (source : ClipSource) (start length : ℤ) :
    Command :=
  .add (.clip id { lane, source, start, length })

def removeInstrument (id : InstrumentId) : Command := .removeInstrument { id }

def removePattern (id : PatternId) : Command := .removePattern { id }

def removeLane (id : ArrangementLaneId) : Command := .removeLane { id }

def removeClip (id : ClipId) : Command := .removeClip { id }

def removeMixerTrack (id : MixerTrackId) : Command := .removeMixerTrack { id }

/-! ### Audio clips -/

/-- Edit the source of an audio clip; a clip of another kind gives nothing. -/
def editAudio (project : Tables) (id : ClipId) (mutator : AudioSource → AudioSource) :
    Option Command :=
  match project.clips.get? id with
  | none => none
  | some clip =>
    if clip.audio.isNone then none
    else editClip project id .source fun live =>
      match live.source with
      | .audio audio => { live with source := .audio (mutator audio) }
      | _ => live

def setAudioClipWindow (project : Tables) (id : ClipId) (sourceOffset sourceLength : ℤ) :
    Option Command :=
  if sourceOffset < 0 ∨ sourceLength < 0 then none
  else editAudio project id fun audio => { audio with sourceOffset, sourceLength }

def setAudioClipStretchMode (project : Tables) (id : ClipId) (mode : StretchMode) :
    Option Command :=
  editAudio project id fun audio => { audio with stretchMode := mode }

def setAudioClipSourceBpm (project : Tables) (id : ClipId) (bpm : Double) : Option Command :=
  if bpm.lt 0 then none else editAudio project id fun audio => { audio with sourceBpm := bpm }

def setAudioClipReversed (project : Tables) (id : ClipId) (reversed : Bool) : Option Command :=
  editAudio project id fun audio => { audio with reversed }

def setAudioClipGain (project : Tables) (id : ClipId) (gain : Double) : Option Command :=
  if gain.lt 0 then none else editAudio project id fun audio => { audio with gain }

/-- The edge of a clip: a window onto audio that does not stretch is trimmed with it. -/
def resizeAudioClip (project : Tables) (id : ClipId) (length : ℤ) : Option Command :=
  if length ≤ 0 then none
  else
    match project.clips.get? id with
    | none => none
    | some clip =>
      match clip.audio with
      | none => editClip project id .length fun live => live.withLength length
      | some audio =>
        editClip project id .length fun live =>
          if audio.stretchMode ≠ .off ∨ audio.sourceLength ≤ 0 then live.withLength length
          else
            match live.source with
            | .audio source =>
              { live with length, source := .audio { source with sourceLength := length } }
            | _ => live.withLength length

/-- The source of the right half of a clip that is cut `leftLength` after its start. -/
def splitSource (clip : Clip) (leftLength : ℤ) : ClipSource :=
  match clip.source with
  | .audio audio =>
    let consumed :=
      ((Double.ofInt leftLength).mul (audioStretchRatio audio clip.length)).truncate
    .audio { audio with
      sourceOffset := audio.sourceOffset + consumed
      sourceLength :=
        if 0 < audio.sourceLength then
          if consumed < audio.sourceLength then audio.sourceLength - consumed else 0
        else audio.sourceLength }
  | .automation automation =>
    .automation { automation with
      points := (automation.points.filter fun point => ¬point.position < leftLength).map
        fun point => { point with position := point.position - leftLength } }
  | .pattern pattern => .pattern pattern

/-- The left half, whose window ends with it. -/
def shortenTo (leftLength : ℤ) (live : Clip) : Clip :=
  match live.source with
  | .audio audio =>
    let consumed :=
      ((Double.ofInt leftLength).mul (audioStretchRatio audio leftLength)).truncate
    { live with
      length := leftLength
      source := .audio { audio with
        sourceLength := if 0 < consumed then consumed else audio.sourceLength } }
  | _ => live.withLength leftLength

/-- Cut a clip strictly inside; the left half keeps the id. -/
def splitClip (project : Tables) (rightId id : ClipId) (cut : ℤ) : Option Command :=
  match project.clips.get? id with
  | none => none
  | some clip =>
    if cut ≤ clip.start ∨ clip.start + clip.length ≤ cut then none
    else
      let leftLength := cut - clip.start
      let right : Clip := { clip with
        start := cut
        length := clip.start + clip.length - cut
        source := splitSource clip leftLength }
      (editClip project id .length (shortenTo leftLength)).map fun shorten =>
        .composite [shorten, .add (.clip rightId right)]

/-- Stretch an audio clip to the length it has at the project's tempo. -/
def fitAudioClipToTempo (project : Tables) (id : ClipId) (projectBpm : Double)
    (sourceDuration : ℤ := 0) : Option Command :=
  match project.clips.get? id with
  | none => none
  | some clip =>
    match clip.audio with
    | none => none
    | some audio =>
      let length := audioLengthAtTempo audio clip.length projectBpm sourceDuration
      if length ≤ 0 then none
      else editClip project id .length fun live =>
        match live.source with
        | .audio source =>
          { live with
            length
            source := .audio { source with
              stretchMode := .stretch
              sourceLength :=
                if source.sourceLength ≤ 0 then
                  audioSourceSpan { source with stretchMode := .stretch } clip.length
                    sourceDuration
                else source.sourceLength } }
        | _ => live.withLength length

/-! ### Mixer effects -/

def editChain (project : Tables) (track : MixerTrackId)
    (mutator : List EffectSlot → List EffectSlot) : Option Command :=
  editMixerTrack project track .effects fun live => { live with effects := mutator live.effects }

def addEffect (project : Tables) (id : EffectId) (track : MixerTrackId) (plugin : PluginRef)
    (index : ℕ) : Option Command :=
  editChain project track fun effects =>
    effects.insertIdx (min index effects.length) { id, plugin }

/-- The automation of the effect goes first, then its slot. -/
def removeEffect (project : Tables) (track : MixerTrackId) (effect : EffectId) :
    Option Command :=
  match (project.mixerTracks.get? track).bind fun live => live.findEffect effect with
  | none => none
  | some _ =>
    (editChain project track fun effects =>
        match indexOfEffect effects effect with
        | some i => effects.eraseIdx i
        | none => effects).map fun drop =>
      .composite ((project.effectImpact track effect).map removeClip ++ [drop])

/-- Take the slot out of the chain and put it back where it goes. -/
def moveSlot (effect : EffectId) (index : ℕ) (effects : List EffectSlot) : List EffectSlot :=
  match indexOfEffect effects effect with
  | none => effects
  | some source =>
    let target := min index (effects.length - 1)
    match effects[source]? with
    | none => effects
    | some moved =>
      if source = target then effects else (effects.eraseIdx source).insertIdx target moved

def moveEffect (project : Tables) (track : MixerTrackId) (effect : EffectId) (index : ℕ) :
    Option Command :=
  match project.mixerTracks.get? track with
  | none => none
  | some live =>
    match indexOfEffect live.effects effect with
    | none => none
    | some source =>
      if source = min index (live.effects.length - 1) then none
      else editChain project track (moveSlot effect index)

def setEffectParam (project : Tables) (track : MixerTrackId) (effect : EffectId)
    (parameter : ParamId) (value : Double) : Option Command :=
  ((project.mixerTracks.get? track).bind fun live => live.findEffect effect).map fun slot =>
    .effectParam
      { track, effect, parameter, before := slot.params.get? parameter, after := value }

def setEffectBypassed (project : Tables) (track : MixerTrackId) (effect : EffectId)
    (bypassed : Bool) : Option Command :=
  match (project.mixerTracks.get? track).bind fun live => live.findEffect effect with
  | none => none
  | some _ =>
    editChain project track fun effects =>
      match indexOfEffect effects effect with
      | some i => effects.modify i fun slot => { slot with bypassed }
      | none => effects

/-! ### Project-level state -/

def setTransport (project : Tables) (transport : TransportState) : Command :=
  .transport { before := project.transport, after := transport }

def setProjectMeta (project : Tables) (metadata : ProjectMeta) : Command :=
  .metadata { before := project.metadata, after := metadata }

/-! ### What the factories build -/

/-- A command that a factory built on the project, note and transport edits apart. -/
inductive Structural (project : Tables) : Command → Prop
  | addInstrument (auto : Bool) (id : InstrumentId) (trackId : MixerTrackId) (name : String)
      (plugin : PluginRef) :
      Structural project (addInstrument project auto id trackId name plugin)
  | duplicateInstrument {trackId : MixerTrackId} {copyId id : InstrumentId} {command : Command} :
      duplicateInstrument project trackId copyId id = some command → Structural project command
  | reorderInstrument {id : InstrumentId} {targetOrder : ℤ} {command : Command} :
      reorderInstrument project id targetOrder = some command → Structural project command
  | addPattern (id : PatternId) (name : String) (length : ℤ) :
      Structural project (addPattern project id name length)
  | addLane (id : ArrangementLaneId) (name : String) :
      Structural project (addLane project id name)
  | addMixerTrack (id : MixerTrackId) (name : String) :
      Structural project (addMixerTrack project id name)
  | addClip (id : ClipId) (lane : ArrangementLaneId) (source : ClipSource) (start length : ℤ) :
      Structural project (addClip id lane source start length)
  | removeInstrument (id : InstrumentId) : Structural project (removeInstrument id)
  | removePattern (id : PatternId) : Structural project (removePattern id)
  | removeLane (id : ArrangementLaneId) : Structural project (removeLane id)
  | removeClip (id : ClipId) : Structural project (removeClip id)
  | removeMixerTrack (id : MixerTrackId) : Structural project (removeMixerTrack id)
  | editInstrument {id : InstrumentId} {field : ChangeField} {mutator : Instrument → Instrument}
      {command : Command} :
      editInstrument project id field mutator = some command → Structural project command
  | editPatternMeta {id : PatternId} {field : ChangeField}
      {mutator : PatternMeta → PatternMeta} {command : Command} :
      editPatternMeta project id field mutator = some command → Structural project command
  | editLane {id : ArrangementLaneId} {field : ChangeField}
      {mutator : ArrangementLane → ArrangementLane} {command : Command} :
      editLane project id field mutator = some command → Structural project command
  | editClip {id : ClipId} {field : ChangeField} {mutator : Clip → Clip} {command : Command} :
      editClip project id field mutator = some command → Structural project command
  | editMixerTrack {id : MixerTrackId} {field : ChangeField}
      {mutator : MixerTrack → MixerTrack} {command : Command} :
      editMixerTrack project id field mutator = some command → Structural project command
  | splitClip {rightId id : ClipId} {cut : ℤ} {command : Command} :
      splitClip project rightId id cut = some command → Structural project command
  | removeEffect {track : MixerTrackId} {effect : EffectId} {command : Command} :
      removeEffect project track effect = some command → Structural project command
  | setEffectParam {track : MixerTrackId} {effect : EffectId} {parameter : ParamId}
      {value : Double} {command : Command} :
      setEffectParam project track effect parameter value = some command →
        Structural project command
  | replaceInstrument {id : InstrumentId} {plugin : PluginRef} {command : Command} :
      replaceInstrument project id plugin = some command → Structural project command
  | setAudioClipWindow {id : ClipId} {sourceOffset sourceLength : ℤ} {command : Command} :
      setAudioClipWindow project id sourceOffset sourceLength = some command →
        Structural project command
  | setAudioClipStretchMode {id : ClipId} {mode : StretchMode} {command : Command} :
      setAudioClipStretchMode project id mode = some command → Structural project command
  | setAudioClipSourceBpm {id : ClipId} {bpm : Double} {command : Command} :
      setAudioClipSourceBpm project id bpm = some command → Structural project command
  | setAudioClipReversed {id : ClipId} {reversed : Bool} {command : Command} :
      setAudioClipReversed project id reversed = some command → Structural project command
  | setAudioClipGain {id : ClipId} {gain : Double} {command : Command} :
      setAudioClipGain project id gain = some command → Structural project command
  | resizeAudioClip {id : ClipId} {length : ℤ} {command : Command} :
      resizeAudioClip project id length = some command → Structural project command
  | fitAudioClipToTempo {id : ClipId} {projectBpm : Double} {sourceDuration : ℤ}
      {command : Command} :
      fitAudioClipToTempo project id projectBpm sourceDuration = some command →
        Structural project command
  | addEffect {id : EffectId} {track : MixerTrackId} {plugin : PluginRef} {index : ℕ}
      {command : Command} :
      addEffect project id track plugin index = some command → Structural project command
  | moveEffect {track : MixerTrackId} {effect : EffectId} {index : ℕ} {command : Command} :
      moveEffect project track effect index = some command → Structural project command
  | setEffectBypassed {track : MixerTrackId} {effect : EffectId} {bypassed : Bool}
      {command : Command} :
      setEffectBypassed project track effect bypassed = some command →
        Structural project command
  | setProjectMeta (metadata : ProjectMeta) : Structural project (setProjectMeta project metadata)

namespace Command

mutual

/-- The entities a command creates. -/
def created : Command → List AddedEntity
  | add command => [command]
  | composite commands => createdAll commands
  | _ => []

def createdAll : List Command → List AddedEntity
  | [] => []
  | command :: commands => created command ++ createdAll commands

end

/-- Nothing refers to what a command creates, unless its id is taken. -/
def CreatesFresh (command : Command) (project : Tables) : Prop :=
  ∀ entity ∈ command.created, (entity.restore project).isSome → entity.Fresh project

variable {project project' : Tables} {command : Command}

/-! ### Edits are ready -/

theorem ready_editInstrument {id : InstrumentId} {field : ChangeField}
    {mutator : Instrument → Instrument}
    (h : editInstrument project id field mutator = some command) : Ready command project := by
  obtain ⟨instrument, hget, rfl⟩ := Option.map_eq_some_iff.1 h
  exact hget

theorem ready_editPatternMeta {id : PatternId} {field : ChangeField}
    {mutator : PatternMeta → PatternMeta}
    (h : editPatternMeta project id field mutator = some command) : Ready command project := by
  obtain ⟨pattern, hget, rfl⟩ := Option.map_eq_some_iff.1 h
  exact Option.map_eq_some_iff.2 ⟨pattern, hget, rfl⟩

theorem ready_editLane {id : ArrangementLaneId} {field : ChangeField}
    {mutator : ArrangementLane → ArrangementLane}
    (h : editLane project id field mutator = some command) : Ready command project := by
  obtain ⟨lane, hget, rfl⟩ := Option.map_eq_some_iff.1 h
  exact hget

theorem ready_editClip {id : ClipId} {field : ChangeField} {mutator : Clip → Clip}
    (h : editClip project id field mutator = some command) : Ready command project := by
  obtain ⟨clip, hget, rfl⟩ := Option.map_eq_some_iff.1 h
  exact hget

theorem ready_editMixerTrack {id : MixerTrackId} {field : ChangeField}
    {mutator : MixerTrack → MixerTrack}
    (h : editMixerTrack project id field mutator = some command) : Ready command project := by
  obtain ⟨track, hget, rfl⟩ := Option.map_eq_some_iff.1 h
  exact hget

theorem ready_editAudio {id : ClipId} {mutator : AudioSource → AudioSource}
    (h : editAudio project id mutator = some command) : Ready command project := by
  unfold editAudio at h
  split at h
  · cases h
  · split_ifs at h
    exact ready_editClip h

theorem ready_resizeAudioClip {id : ClipId} {length : ℤ}
    (h : resizeAudioClip project id length = some command) : Ready command project := by
  unfold resizeAudioClip at h
  split_ifs at h
  split at h
  · cases h
  · split at h <;> exact ready_editClip h

theorem ready_fitAudioClipToTempo {id : ClipId} {projectBpm : Double} {sourceDuration : ℤ}
    (h : fitAudioClipToTempo project id projectBpm sourceDuration = some command) :
    Ready command project := by
  unfold fitAudioClipToTempo at h
  split at h
  · cases h
  · split at h
    · cases h
    · simp only at h
      split_ifs at h
      exact ready_editClip h

theorem ready_moveEffect {track : MixerTrackId} {effect : EffectId} {index : ℕ}
    (h : moveEffect project track effect index = some command) : Ready command project := by
  unfold moveEffect at h
  split at h
  · cases h
  · split at h
    · cases h
    · split_ifs at h
      exact ready_editMixerTrack h

theorem ready_setEffectBypassed {track : MixerTrackId} {effect : EffectId} {bypassed : Bool}
    (h : setEffectBypassed project track effect bypassed = some command) :
    Ready command project := by
  unfold setEffectBypassed at h
  split at h
  · cases h
  · exact ready_editMixerTrack h

theorem ready_setEffectParam {track : MixerTrackId} {effect : EffectId} {parameter : ParamId}
    {value : Double} (h : setEffectParam project track effect parameter value = some command) :
    Ready command project := by
  obtain ⟨slot, hslot, rfl⟩ := Option.map_eq_some_iff.1 h
  obtain ⟨live, hlive, hfind⟩ := Option.bind_eq_some_iff.1 hslot
  exact ⟨live, slot, hlive, hfind, rfl⟩

/-! ### Composites are ready -/

theorem readyAll_nil : ReadyAll [] project := by
  simp only [ReadyAll]

theorem readyAll_cons {commands : List Command} (h : Ready command project)
    (hall : (apply command project).ok = true → ReadyAll commands (apply command project).state) :
    ReadyAll (command :: commands) project := by
  simp only [ReadyAll]
  exact ⟨h, hall⟩

theorem readyAll_singleton (h : Ready command project) : ReadyAll [command] project :=
  readyAll_cons h fun _ => readyAll_nil

theorem isSome_restoreInstrument {id : InstrumentId} (instrument : Instrument) :
    (AddedEntity.restore project (.instrument id instrument)).isSome = true ↔
      id.valid = true ∧ project.instruments.contains id = false := by
  rw [AddedEntity.restore, Tables.restoreInstrument]
  cases id.valid <;> cases project.instruments.contains id <;> simp

/-- A track that is created first does not make the instrument any less new. -/
theorem readyAll_trackThenInstrument {trackId : MixerTrackId} {track : MixerTrack}
    {id : InstrumentId} {instrument : Instrument}
    (hfresh : ∀ entity ∈ [AddedEntity.mixerTrack trackId track, .instrument id instrument],
      (entity.restore project).isSome → entity.Fresh project) :
    ReadyAll [.add (.mixerTrack trackId track), .add (.instrument id instrument)] project := by
  refine readyAll_cons ⟨hfresh _ (by simp), trivial⟩ fun hok => readyAll_singleton ?_
  cases hrestore : AddedEntity.restore project (.mixerTrack trackId track) with
  | none =>
    rw [apply, AddedEntity.apply, hrestore] at hok
    cases hok
  | some project' =>
    rw [apply, AddedEntity.apply, hrestore]
    obtain ⟨-, rfl⟩ := AddedEntity.restore_eq_some_iff.1 hrestore
    refine ⟨fun hsome => ?_, trivial⟩
    have htaken := (isSome_restoreInstrument instrument).1 hsome
    exact hfresh (.instrument id instrument) (by simp)
      ((isSome_restoreInstrument instrument).2 htaken)

/-- Edits of different instruments do not see each other. -/
theorem readyAll_editInstruments {entries : List (InstrumentId × Instrument)}
    {edit : InstrumentId × Instrument → Option Command} (hids : (entries.map Prod.fst).Nodup)
    (hedit : ∀ entry command, edit entry = some command →
      ∃ field mutator, editInstrument project entry.1 field mutator = some command)
    (hsame : ∀ id ∈ entries.map Prod.fst,
      project'.instruments.get? id = project.instruments.get? id) :
    ReadyAll (entries.filterMap edit) project' := by
  induction entries generalizing project' with
  | nil => exact readyAll_nil
  | cons entry entries ih =>
    rw [List.map_cons, List.nodup_cons] at hids
    have htail : ∀ id ∈ entries.map Prod.fst,
        project'.instruments.get? id = project.instruments.get? id :=
      fun id hid => hsame id (List.mem_cons_of_mem _ hid)
    cases hcommand : edit entry with
    | none =>
      rw [List.filterMap_cons_none hcommand]
      exact ih hids.2 htail
    | some command =>
      rw [List.filterMap_cons_some hcommand]
      obtain ⟨field, mutator, hbuilt⟩ := hedit entry command hcommand
      obtain ⟨instrument, hget, rfl⟩ := Option.map_eq_some_iff.1 hbuilt
      refine readyAll_cons ((hsame entry.1 List.mem_cons_self).trans hget) fun hok => ?_
      refine ih hids.2 fun other hother => ?_
      have hne : other ≠ entry.1 := fun h => hids.1 (h ▸ hother)
      rw [← htail other hother, apply, EditCommand.apply, EditTarget.write,
        Tables.updateInstrument]
      split_ifs
      · simp only [Outcome.map, Outcome.ofOption, OrderedMap.get?_modify]
        rw [if_neg hne]
      · rfl

theorem ready_reorderInstrument {id : InstrumentId} {targetOrder : ℤ}
    (h : reorderInstrument project id targetOrder = some command) : Ready command project := by
  unfold reorderInstrument at h
  split at h
  · cases h
  · simp only at h
    split_ifs at h
    cases h
    refine readyAll_editInstruments (project.instruments.sorted.imp ne_of_lt)
      (fun entry command hcommand => ?_) fun _ _ => rfl
    split_ifs at hcommand
    exact ⟨_, _, hcommand⟩

/-- Deleting clips does not show in the mixer. -/
theorem readyAll_removeClips {ids : List ClipId} {id : MixerTrackId} {field : ChangeField}
    {mutator : MixerTrack → MixerTrack} {drop : Command}
    (hdrop : editMixerTrack project id field mutator = some drop)
    (hsame : project'.mixerTracks = project.mixerTracks) :
    ReadyAll (ids.map OneBeat.removeClip ++ [drop]) project' := by
  induction ids generalizing project' with
  | nil =>
    obtain ⟨track, hget, rfl⟩ := Option.map_eq_some_iff.1 hdrop
    rw [← hsame] at hget
    exact readyAll_singleton hget
  | cons clip ids ih =>
    refine readyAll_cons trivial fun hok => ih ?_
    rw [← hsame, OneBeat.removeClip, apply, RemoveClip.apply]
    split
    · rfl
    · unfold Tables.deleteClip
      split_ifs <;> rfl

theorem ready_removeEffect {track : MixerTrackId} {effect : EffectId}
    (h : removeEffect project track effect = some command) : Ready command project := by
  unfold removeEffect at h
  split at h
  · cases h
  · obtain ⟨drop, hdrop, rfl⟩ := Option.map_eq_some_iff.1 h
    exact readyAll_removeClips hdrop rfl

theorem ready_splitClip {rightId id : ClipId} {cut : ℤ}
    (h : splitClip project rightId id cut = some command) : Ready command project := by
  unfold splitClip at h
  split at h
  · cases h
  · split_ifs at h
    obtain ⟨shorten, hshorten, rfl⟩ := Option.map_eq_some_iff.1 h
    exact readyAll_cons (ready_editClip hshorten) fun _ =>
      readyAll_singleton ⟨fun _ => trivial, trivial⟩

/-- **What the factories build is ready**, when nothing refers to what it creates. -/
theorem ready_of_structural (h : Structural project command)
    (hfresh : command.CreatesFresh project) : Ready command project := by
  have hadded : ∀ {entity}, entity ∈ command.created → (entity.restore project).isSome →
      entity.Fresh project := fun hmem => hfresh _ hmem
  cases h with
  | addInstrument auto id trackId name plugin =>
    cases auto with
    | true =>
      refine readyAll_trackThenInstrument fun entity hentity => hadded ?_
      simpa [addInstrument, created, createdAll] using hentity
    | false =>
      exact readyAll_singleton
        ⟨hadded (by simp [addInstrument, created, createdAll]), trivial⟩
  | duplicateInstrument h =>
    obtain ⟨source, -, rfl⟩ := Option.map_eq_some_iff.1 h
    refine readyAll_trackThenInstrument fun entity hentity => hadded ?_
    simpa [created, createdAll] using hentity
  | reorderInstrument h => exact ready_reorderInstrument h
  | addPattern id name length =>
    refine ⟨hadded (by simp [addPattern, created]), fun i sequence hs => ?_⟩
    rw [OrderedMap.get?_empty] at hs
    cases hs
  | addLane id name => exact ⟨hadded (by simp [addLane, created]), trivial⟩
  | addMixerTrack id name => exact ⟨hadded (by simp [addMixerTrack, created]), trivial⟩
  | addClip id lane source start length => exact ⟨fun _ => trivial, trivial⟩
  | removeInstrument | removePattern | removeLane | removeClip | removeMixerTrack => exact trivial
  | editInstrument h | replaceInstrument h => exact ready_editInstrument h
  | editPatternMeta h => exact ready_editPatternMeta h
  | editLane h => exact ready_editLane h
  | editClip h => exact ready_editClip h
  | editMixerTrack h | addEffect h => exact ready_editMixerTrack h
  | splitClip h => exact ready_splitClip h
  | removeEffect h => exact ready_removeEffect h
  | setEffectParam h => exact ready_setEffectParam h
  | setAudioClipWindow h =>
    unfold setAudioClipWindow at h
    split_ifs at h
    exact ready_editAudio h
  | setAudioClipStretchMode h | setAudioClipReversed h => exact ready_editAudio h
  | setAudioClipSourceBpm h =>
    unfold setAudioClipSourceBpm at h
    split_ifs at h
    exact ready_editAudio h
  | setAudioClipGain h =>
    unfold setAudioClipGain at h
    split_ifs at h
    exact ready_editAudio h
  | resizeAudioClip h => exact ready_resizeAudioClip h
  | fitAudioClipToTempo h => exact ready_fitAudioClipToTempo h
  | moveEffect h => exact ready_moveEffect h
  | setEffectBypassed h => exact ready_setEffectBypassed h
  | setProjectMeta metadata => exact rfl

end Command

end OneBeat
