import OneBeat.Commands.NoteEdit
import OneBeat.Session.Session

/-!
# Edits of the session

The entry points of `abi/onebeat_abi.cpp` that check their arguments, build one command and hand it
to `executeModel`.  Texts that name no id are refused before anything else happens, so the ids are
arguments; so are the ids that are minted, and what was read from a file.

An empty text stands for a null one.
-/

namespace OneBeat

/-- A note as it crosses the boundary. -/
structure RawNote where
  start : ℤ
  length : ℤ
  key : ℤ
  velocity : ℤ

/-- The note in the fields of the model, which are narrower. -/
def RawNote.toNote (note : RawNote) : Note where
  start := note.start
  length := note.length
  key := Int.bmod note.key (2 ^ 16)
  velocity := (note.velocity % 2 ^ 16).toNat

/-- The notes of a selection; one that is out of range empties it. -/
def toModelNotes (notes : List RawNote) : List Note :=
  if (notes.map RawNote.toNote).all isValidNote then notes.map RawNote.toNote else []

def optionalGrid (snapTicks : ℤ) : Option NoteGrid :=
  if snapTicks ≤ 0 then none else some { spacing := snapTicks, origin := 0 }

/-- `std::clamp` on a floating-point value. -/
def clampDouble (value low high : Double) : Double :=
  if value.lt low then low else if high.lt value then high else value

/-- What an entry point does with its arguments. -/
inductive Reply
  /-- It fails. -/
  | refused
  /-- There is nothing to do. -/
  | done
  /-- It executes a command, and fails on a null one. -/
  | model (command : Option Command)

/-- An entry point that executes one command, and its arguments. -/
inductive Edit
  | instrumentRename (id : InstrumentId) (name : String)
  | instrumentRecolor (id : InstrumentId) (color : String)
  | instrumentReorder (id : InstrumentId) (order : ℤ)
  | instrumentSetMuted (id : InstrumentId) (muted : Bool)
  | instrumentSetSoloed (id : InstrumentId) (soloed : Bool)
  | instrumentAddEmpty (id : InstrumentId) (track : MixerTrackId) (name : String)
  | instrumentSetGain (id : InstrumentId) (gain : Double)
  | instrumentSetPan (id : InstrumentId) (pan : Double)
  | instrumentSetRoute (id : InstrumentId) (track : MixerTrackId)
  | instrumentSetSettings (id : InstrumentId) (settings : ChannelSettings)
  | rackSetSwing (swing : Double)
  | rackToggleStep (id : InstrumentId) (step : ℤ)
  | rackSetStepVelocity (id : InstrumentId) (step : ℤ) (velocity : ℕ)
  | rackRemoveSequence (id : InstrumentId)
  | noteAdd (id : InstrumentId) (start length key velocity : ℤ)
  | notesRemove (id : InstrumentId) (notes : List RawNote)
  | notesMove (id : InstrumentId) (notes : List RawNote) (delta semitones snapTicks : ℤ)
  | notesResize (id : InstrumentId) (notes : List RawNote) (lengthDelta snapTicks : ℤ)
  | notesSetVelocity (id : InstrumentId) (notes : List RawNote) (velocity : ℤ)
  | notesQuantise (id : InstrumentId) (notes : List RawNote) (grid : ℤ) (strength : Double)
  | notesDuplicate (id : InstrumentId) (notes : List RawNote) (delta : ℤ)
  | patternRename (id : PatternId) (name : String)
  | patternRecolor (id : PatternId) (color : String)
  | patternSetTimeSignature (id : PatternId) (numerator denominator : ℤ)
  | patternSetGroup (id : PatternId) (group : String)
  | laneCreate (id : ArrangementLaneId) (name : String)
  | laneRename (id : ArrangementLaneId) (name : String)
  | laneRecolor (id : ArrangementLaneId) (color : String)
  | laneReorder (id : ArrangementLaneId) (order : ℤ)
  | laneSetHeight (id : ArrangementLaneId) (height : ℤ)
  | laneSetMuted (id : ArrangementLaneId) (muted : Bool)
  | laneSetSoloed (id : ArrangementLaneId) (soloed : Bool)
  | laneSetCollapsed (id : ArrangementLaneId) (collapsed : Bool)
  | laneRemove (id : ArrangementLaneId)
  | clipAdd (id : ClipId) (lane : ArrangementLaneId) (pattern : Option PatternId)
      (start length : ℤ)
  | audioClipAdd (id : ClipId) (lane : ArrangementLaneId) (path : String) (start length : ℤ)
  | clipMove (id : ClipId) (lane : Option ArrangementLaneId) (start : ℤ)
  | clipResize (id : ClipId) (length : ℤ)
  | audioClipSetWindow (id : ClipId) (sourceOffset sourceLength : ℤ)
  | audioClipSetStretchMode (id : ClipId) (mode : StretchMode) (duration : ℤ)
  | audioClipSetSourceBpm (id : ClipId) (bpm : Double)
  | audioClipSetReversed (id : ClipId) (reversed : Bool)
  | audioClipSetGain (id : ClipId) (gain : Double)
  | audioClipResize (id : ClipId) (length : ℤ)
  | clipSplit (right id : ClipId) (position : ℤ)
  | audioClipFitToTempo (id : ClipId) (duration : ℤ)
  | clipRemove (id : ClipId)
  | clipSetMuted (id : ClipId) (muted : Bool)
  | clipSetLoop (id : ClipId) (loop : Bool)
  | clipSetWindowStart (id : ClipId) (windowStart : ℤ)
  | clipSetTranspose (id : ClipId) (semitones : ℤ)
  | mixerTrackSetGain (id : MixerTrackId) (gain : Double)
  | mixerTrackSetPan (id : MixerTrackId) (pan : Double)
  | mixerTrackSetMuted (id : MixerTrackId) (muted : Bool)
  | mixerTrackSetSoloed (id : MixerTrackId) (soloed : Bool)
  | mixerEffectAdd (id : EffectId) (track : MixerTrackId) (plugin : PluginRef) (index : ℤ)
  | mixerEffectRemove (track : MixerTrackId) (effect : EffectId)
  | mixerEffectMove (track : MixerTrackId) (effect : EffectId) (index : ℤ)
  | mixerEffectSetBypassed (track : MixerTrackId) (effect : EffectId) (bypassed : Bool)
  | mixerEffectSetParam (track : MixerTrackId) (effect : EffectId) (parameter : ParamId)
      (value : Double)
  | setTempo (tempo : Double)
  | setMetronome (enabled : Bool)
  | setLoop (enabled : Bool)

namespace Session

variable (s : Session)

/-! ### What the entry points share -/

/-- The pattern that is being edited, if it is there. -/
def currentPatternOf : Option (PatternId × Pattern) :=
  s.currentPattern.bind fun id => (s.project.patterns.get? id).map (id, ·)

/-- The pattern and the notes an instrument has in it; there must be such an instrument. -/
def resolveNoteTarget (id : InstrumentId) : Option PatternId :=
  if s.project.instruments.contains id then s.currentPatternOf.map Prod.fst else none

def rackGrid (id : InstrumentId) : ℤ := (s.rackGrids.get? id).getD (ticksPerQuarter / 4)

/-- Edit notes of the current pattern; the selection must be valid. -/
def editNotes (id : InstrumentId) (notes : List RawNote)
    (build : PatternId → List Note → Option NoteCommand) : Reply :=
  match s.resolveNoteTarget id with
  | none => .refused
  | some pattern =>
    if toModelNotes notes = [] then .refused
    else .model ((build pattern (toModelNotes notes)).map .note)

/-- `editLaneField`. -/
def editLaneField (id : ArrangementLaneId) (field : ChangeField)
    (mutator : ArrangementLane → ArrangementLane) : Reply :=
  .model (editLane s.project id field mutator)

/-- `editClipField`. -/
def editClipField (id : ClipId) (field : ChangeField) (mutator : Clip → Clip) : Reply :=
  .model (editClip s.project id field mutator)

/-- `editTrack`. -/
def editTrack (id : MixerTrackId) (field : ChangeField) (mutator : MixerTrack → MixerTrack) :
    Reply :=
  .model (editMixerTrack s.project id field mutator)

/-- The source of an audio clip. -/
def audioSourceOf (id : ClipId) : Option AudioSource := (s.project.clips.get? id).bind Clip.audio

/-- The slot of an insert, through the track that owns it. -/
def resolveEffect (track : MixerTrackId) (effect : EffectId) : Option EffectSlot :=
  (s.project.mixerTracks.get? track).bind fun track => track.findEffect effect

/-- Set the transport; one that is as it was is not set. -/
def editTransport (changed : Bool) (transport : TransportState) : Reply :=
  if changed then .model (some (setTransport s.project transport)) else .done

/-- The tempi are more than `0.0001` apart. -/
def tempoDiffers (tempo tempo' : Double) : Bool :=
  let limit := BinaryFormat.double.ofRat (1 / 10000)
  limit.lt (tempo.sub tempo') || (tempo.sub tempo').lt limit.neg

/-- Channel settings in the ranges they have. -/
def clampSettings (settings : ChannelSettings) : ChannelSettings :=
  { settings with
    gatePercent := clampInt settings.gatePercent 1 100
    cutGroup := max 0 settings.cutGroup
    cutByGroup := max 0 settings.cutByGroup
    maxPolyphony := max 0 settings.maxPolyphony
    rootKey := clampInt settings.rootKey 0 127
    keyLow := clampInt settings.keyLow 0 127
    keyHigh := clampInt settings.keyHigh 0 127
    fineTuneCents := clampInt settings.fineTuneCents (-1200) 1200
    velocityTracking := clampDouble settings.velocityTracking 0 (.finite 2)
    modX := clampInt settings.modX (-100) 100
    modY := clampInt settings.modY (-100) 100
    arpeggiatorTimeTicks := max 1 settings.arpeggiatorTimeTicks
    arpeggiatorGatePercent := clampInt settings.arpeggiatorGatePercent 1 100
    echoTimeTicks := max 0 settings.echoTimeTicks
    echoFeedbackPercent := clampInt settings.echoFeedbackPercent 0 100 }

/-- Route the main output of an instrument. -/
def routeMain (track : MixerTrackId) (instrument : Instrument) : Instrument :=
  { instrument with
    routing :=
      match instrument.routing with
      | [] => [⟨0, track⟩]
      | route :: routes => { route with track } :: routes }

/-! ### The rack -/

def rackToggleStep (id : InstrumentId) (step : ℤ) : Reply :=
  match s.currentPatternOf with
  | none => .refused
  | some (patternId, pattern) =>
    if step < 0 ∨ !s.project.instruments.contains id ∨
        patternEffectiveLength pattern ≤ step * s.rackGrid id then .refused
    else .model ((toggleStep s.project patternId id 60 step
      { spacing := s.rackGrid id, origin := 0 }).map .note)

def rackSetStepVelocity (id : InstrumentId) (step : ℤ) (velocity : ℕ) : Reply :=
  match s.currentPatternOf with
  | none => .refused
  | some (patternId, pattern) =>
    let grid := s.rackGrid id
    if step < 0 ∨ maxVelocity < velocity ∨ !s.project.instruments.contains id ∨
        patternEffectiveLength pattern ≤ step * grid then .refused
    else
      let cell := inspectStep (pattern.notesOf id) 60 step { spacing := grid, origin := 0 }
      if cell.onGrid = [] then
        .model (some (.note (insertNotes patternId id
          [{ start := step * grid, length := grid, key := 60, velocity }])))
      else .model ((setNoteVelocity patternId id cell.onGrid velocity).map .note)

def rackRemoveSequence (id : InstrumentId) : Reply :=
  match s.currentPatternOf with
  | none => .refused
  | some (patternId, pattern) =>
    match pattern.sequences.get? id with
    | none => .done
    | some sequence => .model (some (.note (removeNotes patternId id sequence.notes)))

def noteAdd (id : InstrumentId) (start length key velocity : ℤ) : Reply :=
  match s.resolveNoteTarget id with
  | none => .refused
  | some pattern =>
    if start < 0 ∨ length ≤ 0 ∨ key < 0 ∨ 127 < key ∨ maxVelocity < velocity then .refused
    else if velocity ≤ 0 then
      .model ((addNote s.project pattern id start length key).map .note)
    else
      .model (some (.note (insertNotes pattern id
        [{ start, length, key, velocity := velocity.toNat }])))

/-! ### Clips -/

def clipAdd (id : ClipId) (lane : ArrangementLaneId) (pattern : Option PatternId)
    (start length : ℤ) : Reply :=
  if start < 0 ∨ length ≤ 0 ∨ !s.project.lanes.contains lane then .refused
  else
    match pattern.or s.currentPattern with
    | none => .refused
    | some target =>
      if !s.project.patterns.contains target then .refused
      else .model (some (addClip id lane (.pattern target) start length))

/-- Turning stretching on pins the window of the source in the same edit. -/
def audioClipSetStretchMode (id : ClipId) (mode : StretchMode) (duration : ℤ) : Reply :=
  match s.project.clips.get? id with
  | none => .refused
  | some clip =>
    match clip.audio with
    | none => .refused
    | some audio =>
      if mode = .off ∨ 0 < audio.sourceLength then
        .model (setAudioClipStretchMode s.project id mode)
      else
        .model (editClip s.project id .source fun live =>
          match live.source with
          | .audio source => { live with source := .audio { source with
              stretchMode := mode, sourceLength := audioSourceSpan audio clip.length duration } }
          | _ => live)

/-! ### All of them -/

/-- What an entry point does. -/
def reply : Edit → Reply
  | .instrumentRename id name =>
    if name = "" then .refused
    else .model (editInstrument s.project id .name fun value => { value with name })
  | .instrumentRecolor id color =>
    if color.utf8ByteSize ≠ 7 ∨ color.front ≠ '#' then .refused
    else .model (editInstrument s.project id .color fun value => { value with color })
  | .instrumentReorder id order =>
    match s.project.instruments.get? id with
    | none => .refused
    | some instrument =>
      if instrument.order = order then .done
      else .model (reorderInstrument s.project id order)
  | .instrumentSetMuted id muted =>
    .model (editInstrument s.project id .muted fun value => { value with muted })
  | .instrumentSetSoloed id soloed =>
    .model (editInstrument s.project id .soloed fun value => { value with soloed })
  | .instrumentAddEmpty id track name =>
    .model (some (addInstrument s.project true id track (if name = "" then "Channel" else name) {}))
  | .instrumentSetGain id gain =>
    .model (editInstrument s.project id .gain fun value =>
      { value with gain := clampDouble gain 0 (.finite 2) })
  | .instrumentSetPan id pan =>
    .model (editInstrument s.project id .pan fun value =>
      { value with pan := clampDouble pan (.finite (-1)) 1 })
  | .instrumentSetRoute id track =>
    if !s.project.mixerTracks.contains track then .refused
    else .model (editInstrument s.project id .routing (routeMain track))
  | .instrumentSetSettings id settings =>
    .model (editInstrument s.project id .metadata fun value =>
      { value with channelSettings := clampSettings settings })
  | .rackSetSwing swing =>
    -- written as the source has it: a NaN passes
    if swing.lt 0 || Double.lt 1 swing then .refused
    else
      match s.currentPatternOf with
      | none => .refused
      | some (id, _) => .model (editPatternMeta s.project id .transforms fun value =>
          { value with swing })
  | .rackToggleStep id step => s.rackToggleStep id step
  | .rackSetStepVelocity id step velocity => s.rackSetStepVelocity id step velocity
  | .rackRemoveSequence id => s.rackRemoveSequence id
  | .noteAdd id start length key velocity => s.noteAdd id start length key velocity
  | .notesRemove id notes =>
    s.editNotes id notes fun pattern selection => some (removeNotes pattern id selection)
  | .notesMove id notes delta semitones snapTicks =>
    s.editNotes id notes fun pattern selection =>
      moveNotes pattern id selection delta (Int.bmod semitones (2 ^ 16)) (optionalGrid snapTicks)
  | .notesResize id notes lengthDelta snapTicks =>
    s.editNotes id notes fun pattern selection =>
      resizeNotes pattern id selection lengthDelta (optionalGrid snapTicks)
  | .notesSetVelocity id notes velocity =>
    if velocity < 1 ∨ maxVelocity < velocity then .refused
    else s.editNotes id notes fun pattern selection =>
      setNoteVelocity pattern id selection velocity.toNat
  | .notesQuantise id notes grid strength =>
    if grid ≤ 0 ∨ strength.lt 0 ∨ Double.lt 1 strength then .refused
    else s.editNotes id notes fun pattern selection =>
      quantiseNotes pattern id selection { spacing := grid, origin := 0 } strength
  | .notesDuplicate id notes delta =>
    s.editNotes id notes fun pattern selection => duplicateNotes pattern id selection delta none
  | .patternRename id name =>
    if name = "" then .refused
    else .model (editPatternMeta s.project id .name fun value => { value with name })
  | .patternRecolor id color =>
    .model (editPatternMeta s.project id .color fun value => { value with color })
  | .patternSetTimeSignature id numerator denominator =>
    if numerator < 1 ∨ 32 < numerator ∨ denominator ∉ [1, 2, 4, 8, 16, 32] then .refused
    else .model (editPatternMeta s.project id .metadata fun value =>
      { value with timeSignature := ⟨numerator, denominator⟩ })
  | .patternSetGroup id group =>
    .model (editPatternMeta s.project id .metadata fun value => { value with group })
  | .laneCreate id name =>
    .model (some (addLane s.project id
      (if name = "" then "Lane " ++ toString (s.project.lanes.size + 1) else name)))
  | .laneRename id name =>
    if name = "" then .refused else s.editLaneField id .name fun lane => { lane with name }
  | .laneRecolor id color => s.editLaneField id .color fun lane => { lane with color }
  | .laneReorder id order => s.editLaneField id .order fun lane => { lane with order }
  | .laneSetHeight id height =>
    if height < 24 ∨ 400 < height then .refused
    else s.editLaneField id .height fun lane => { lane with height }
  | .laneSetMuted id muted => s.editLaneField id .muted fun lane => { lane with muted }
  | .laneSetSoloed id soloed => s.editLaneField id .soloed fun lane => { lane with soloed }
  | .laneSetCollapsed id collapsed =>
    s.editLaneField id .collapsed fun lane => { lane with collapsed }
  | .laneRemove id =>
    if !s.project.lanes.contains id then .refused else .model (some (removeLane id))
  | .clipAdd id lane pattern start length => s.clipAdd id lane pattern start length
  | .audioClipAdd id lane path start length =>
    if path = "" ∨ start < 0 ∨ !s.project.lanes.contains lane then .refused
    else .model (some (addClip id lane
      (.audio { path, destination := s.project.master }) start (max 1 length)))
  | .clipMove id lane start =>
    if start < 0 ∨ (lane.any fun lane => !s.project.lanes.contains lane) then .refused
    else s.editClipField id .start fun clip => { clip with start, lane := lane.getD clip.lane }
  | .clipResize id length =>
    if length ≤ 0 then .refused
    else s.editClipField id .length fun clip => { clip with length }
  | .audioClipSetWindow id sourceOffset sourceLength =>
    if sourceOffset < 0 ∨ sourceLength < 0 ∨ (s.audioSourceOf id).isNone then .refused
    else .model (setAudioClipWindow s.project id sourceOffset sourceLength)
  | .audioClipSetStretchMode id mode duration => s.audioClipSetStretchMode id mode duration
  | .audioClipSetSourceBpm id bpm =>
    if bpm.lt 0 ∨ (s.audioSourceOf id).isNone then .refused
    else .model (setAudioClipSourceBpm s.project id bpm)
  | .audioClipSetReversed id reversed =>
    if (s.audioSourceOf id).isNone then .refused
    else .model (setAudioClipReversed s.project id reversed)
  | .audioClipSetGain id gain =>
    if gain.lt 0 ∨ (s.audioSourceOf id).isNone then .refused
    else .model (setAudioClipGain s.project id gain.toFloat)
  | .audioClipResize id length =>
    if length ≤ 0 then .refused else .model (resizeAudioClip s.project id length)
  | .clipSplit right id position => .model (splitClip s.project right id position)
  | .audioClipFitToTempo id duration =>
    .model (fitAudioClipToTempo s.project id s.project.transport.tempo duration)
  | .clipRemove id =>
    if !s.project.clips.contains id then .refused else .model (some (removeClip id))
  | .clipSetMuted id muted => s.editClipField id .muted fun clip => { clip with muted }
  | .clipSetLoop id loop => s.editClipField id .transforms fun clip =>
      { clip with transforms := { clip.transforms with loop } }
  | .clipSetWindowStart id windowStart =>
    if windowStart < 0 then .refused
    else s.editClipField id .transforms fun clip =>
      { clip with transforms := { clip.transforms with windowStart } }
  | .clipSetTranspose id semitones =>
    if semitones < -48 ∨ 48 < semitones then .refused
    else s.editClipField id .transforms fun clip =>
      { clip with transforms := { clip.transforms with transpose := semitones } }
  | .mixerTrackSetGain id gain =>
    if gain.lt 0 then .refused
    else s.editTrack id .gain fun track => { track with gain := gain.toFloat }
  | .mixerTrackSetPan id pan => s.editTrack id .pan fun track => { track with pan := pan.toFloat }
  | .mixerTrackSetMuted id muted => s.editTrack id .muted fun track => { track with muted }
  | .mixerTrackSetSoloed id soloed => s.editTrack id .soloed fun track => { track with soloed }
  | .mixerEffectAdd id track plugin index =>
    -- a negative index asks for the end of the chain
    .model ((s.project.mixerTracks.get? track).bind fun live =>
      addEffect s.project id track plugin (if index < 0 then live.effects.length else index.toNat))
  | .mixerEffectRemove track effect => .model (removeEffect s.project track effect)
  | .mixerEffectMove track effect index =>
    if index < 0 then .refused else .model (moveEffect s.project track effect index.toNat)
  | .mixerEffectSetBypassed track effect bypassed =>
    .model (setEffectBypassed s.project track effect bypassed)
  | .mixerEffectSetParam track effect parameter value =>
    .model (setEffectParam s.project track effect parameter value.toFloat)
  | .setTempo tempo =>
    if !(Double.le (.finite 20) tempo && tempo.le (.finite 999)) then .done
    else s.editTransport (tempoDiffers s.project.transport.tempo tempo)
      { s.project.transport with tempo }
  | .setMetronome enabled =>
    s.editTransport (s.project.transport.metronomeEnabled ≠ enabled)
      { s.project.transport with metronomeEnabled := enabled }
  | .setLoop enabled =>
    s.editTransport (s.project.transport.loopEnabled ≠ enabled)
      { s.project.transport with loopEnabled := enabled }

/-- Call an entry point: whether it succeeded, and the session after it. -/
def edit (host : InstrumentId → HostAnswer) (edit : Edit) : Bool × Session :=
  match s.reply edit with
  | .refused => (false, s)
  | .done => (true, s)
  | .model command => s.executeModel host command

end Session

end OneBeat
