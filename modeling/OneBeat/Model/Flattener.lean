import OneBeat.Core.Schedule
import OneBeat.Core.TimeMap
import OneBeat.Model.Project

/-!
# The flattener

`model/flattener.cpp`: from references to a schedule.  Every note of every audible clip is resolved
onto the timeline in ticks, notes that overlap on one key of one instrument are cut, and ticks
become frames once, at the end.

`std::sort` leaves the order of equivalent elements open; they are kept in the order they were
collected.  The hash of the events and the measured time are not modelled.
-/

namespace OneBeat

/-- A note on the timeline, in ticks. -/
structure ResolvedNote where
  start : ℤ
  stop : ℤ
  instrument : ℕ
  key : ℤ
  velocity : Double
  deriving DecidableEq

/-- A point of a curve on a parameter of an instrument or of an insert. -/
structure ResolvedParam where
  position : ℤ
  /-- A channel, or the dense index of an effect. -/
  target : ℕ
  parameter : ParamId
  value : Double
  deriving DecidableEq

/-- The start of an audio clip. -/
structure ResolvedAudio where
  start : ℤ
  channel : ℕ
  deriving DecidableEq

/-- Swing delays odd sixteenths; notes off the grid stay. -/
def swungPosition (position : ℤ) (swing : Double) : ℤ :=
  let grid := ticksPerQuarter / 4
  if swing.le 0 || position < 0 || position.tmod grid ≠ 0 then position
  else if position.tdiv grid % 2 = 0 then position
  else position + (swing.mul ((Double.ofInt grid).div (.finite 2))).truncate

/-- The lanes that may fire: not muted, and soloed if any is. -/
def audibleLanes (project : Tables) : List ArrangementLaneId :=
  let anySolo := project.lanes.entries.any fun entry => entry.2.soloed
  (project.lanes.entries.filter fun entry =>
    !entry.2.muted && (!anySolo || entry.2.soloed)).map Prod.fst

/-- `position`, `position + step`, … below `bound`; `fuel` positions at most. -/
def positionsFrom (step bound : ℤ) : ℕ → ℤ → List ℤ
  | 0, _ => []
  | fuel + 1, position =>
    if position < bound then position :: positionsFrom step bound fuel (position + step) else []

/-- The occurrences of a note inside a clip, in clip-relative ticks: start and end. -/
def collectOccurrences (note : Note) (clip : Clip) (patternLength : ℤ) : List (ℤ × ℤ) :=
  if patternLength ≤ 0 ∨ clip.length ≤ 0 ∨ note.length ≤ 0 then []
  else
    let window := clip.transforms.windowStart
    if !clip.transforms.loop then
      let offset := note.start - window
      if offset < 0 ∨ clip.length ≤ offset then []
      else
        let stop := min (offset + note.length)
          (min clip.length (offset + (patternLength - note.start)))
        if offset < stop then [(offset, stop)] else []
    else
      let first := ((note.start - window).tmod patternLength + patternLength).tmod patternLength
      -- at most one position for each tick of the clip
      (positionsFrom patternLength clip.length clip.length.toNat first).filterMap fun position =>
        let truncatedByPattern := patternLength - note.start
        let stop := min (position + note.length)
          (min (position + truncatedByPattern) clip.length)
        if position < stop then some (position, stop) else none

/-! ### Overlaps -/

/-- The order in which overlaps are resolved. -/
def ResolvedNote.before (a b : ResolvedNote) : Bool :=
  if a.instrument ≠ b.instrument then a.instrument < b.instrument
  else if a.key ≠ b.key then a.key < b.key
  else if a.start ≠ b.start then a.start < b.start
  else a.stop < b.stop

/-- `a` may stand before `b` when overlaps are resolved. -/
def ResolvedNote.le (a b : ResolvedNote) : Prop := b.before a = false

instance : DecidableRel ResolvedNote.le := fun _ _ => inferInstanceAs (Decidable (_ = _))

/-- The two notes are on one key of one instrument. -/
def ResolvedNote.sameVoice (a b : ResolvedNote) : Bool :=
  a.instrument = b.instrument && a.key = b.key

/-- The later note-on cuts the earlier note. -/
def cutOverlaps : List ResolvedNote → List ResolvedNote
  | current :: next :: notes =>
    (if current.sameVoice next && next.start < current.stop then
        { current with stop := next.start }
      else current) :: cutOverlaps (next :: notes)
  | notes => notes

/-- Sort, cut, and drop the notes that were cut to nothing. -/
def resolveOverlaps (notes : List ResolvedNote) : List ResolvedNote :=
  (cutOverlaps (notes.insertionSort ResolvedNote.le)).filter fun note => note.start < note.stop

/-! ### Dense indices -/

/-- Instruments in the order of their ids. -/
def instrumentIndex (project : Tables) : List (InstrumentId × ℕ) :=
  project.instruments.keys.zipIdx

/-- A channel for each audio clip, after the instruments. -/
def audioChannelIndex (project : Tables) : List (ClipId × ℕ) :=
  (project.clips.keysWhere fun clip => clip.audio.isSome).zipIdx project.instruments.size

/-- Inserts in track order, then chain order. -/
def effectIndex (project : Tables) : List ((MixerTrackId × EffectId) × ℕ) :=
  (project.mixerTracks.entries.flatMap fun entry =>
    entry.2.effects.map fun slot => (entry.1, slot.id)).zipIdx

/-! ### Clips -/

/-- What the clips give, before overlaps are resolved. -/
structure Resolved where
  notes : List ResolvedNote := []
  params : List ResolvedParam := []
  effectParams : List ResolvedParam := []
  audioStarts : List ResolvedAudio := []
  clipsFlattened : ℕ := 0
  notesDropped : ℕ := 0

/-- One after the other. -/
def Resolved.append (a b : Resolved) : Resolved where
  notes := a.notes ++ b.notes
  params := a.params ++ b.params
  effectParams := a.effectParams ++ b.effectParams
  audioStarts := a.audioStarts ++ b.audioStarts
  clipsFlattened := a.clipsFlattened + b.clipsFlattened
  notesDropped := a.notesDropped + b.notesDropped

def velocityToUnit (velocity : ℕ) : Double :=
  ((Double.ofInt velocity).div (Double.ofInt maxVelocity)).toFloat

/-- `std::clamp`, in single precision. -/
def clampUnit (value : Double) : Double :=
  if value.lt 0 then 0 else if Double.lt 1 value then 1 else value

/-- The occurrences of one note of a pattern in a clip; `none` when the transposed key is not one
the instrument plays. -/
def resolveNote (pattern : Pattern) (patternLength : ℤ) (clip : Clip)
    (settings : ChannelSettings) (index : ℕ) (note : Note) : Option (List ResolvedNote) :=
  let key := note.key + clip.transforms.transpose
  if key < 0 ∨ 127 < key then none
  else if key < settings.keyLow ∨ settings.keyHigh < key then none
  else
    let swungNote : Note :=
      { note with
        start := swungPosition note.start pattern.swing + settings.shiftTicks
        length := max 1 (((Double.ofInt note.length).mul (Double.ofInt settings.gatePercent)).div
          (.finite 100)).llround }
    let velocity := clampUnit ((velocityToUnit note.velocity).mul settings.velocityTracking).toFloat
    some ((collectOccurrences swungNote clip patternLength).map fun occurrence =>
      { start := clip.start + occurrence.1, stop := clip.start + occurrence.2,
        instrument := index, key, velocity })

/-- The points of a curve that fall into the clip. -/
def resolvePoints (clip : Clip) (target : ℕ) (automation : AutomationSource) :
    List ResolvedParam :=
  (automation.points.filter fun point =>
    !(point.position < 0 || clip.length ≤ point.position)).map fun point =>
      { position := clip.start + point.position, target, parameter := automation.parameter,
        value := point.value }

/-- A curve on an instrument or an insert that has an index; `none` for every other curve. -/
def resolveAutomation (project : Tables) (clip : Clip) (automation : AutomationSource) :
    Option Resolved :=
  match automation.targetKind with
  | .instrument =>
    (Entries.get? (instrumentIndex project) automation.instrument).map fun index =>
      { params := resolvePoints clip index automation }
  | .effect =>
    (Entries.get? (effectIndex project) (automation.mixerTrack, automation.effect)).map
      fun index => { effectParams := resolvePoints clip index automation }
  | .mixerTrack => none

/-- The notes an instrument has in a pattern, in a clip. -/
def resolveSequence (project : Tables) (pattern : Pattern) (patternLength : ℤ) (clip : Clip)
    (entry : InstrumentId × NoteSequence) : Resolved :=
  let anySolo := project.instruments.entries.any fun entry => entry.2.soloed
  match project.instruments.get? entry.1, Entries.get? (instrumentIndex project) entry.1 with
  | some instrument, some index =>
    if instrument.muted || (anySolo && !instrument.soloed) then {}
    else
      let resolved := entry.2.notes.map
        (resolveNote pattern patternLength clip instrument.channelSettings index)
      { notes := resolved.flatMap fun notes => notes.getD []
        notesDropped := resolved.countP Option.isNone }
  | _, _ => {}

/-- What one clip gives. -/
def resolveClip (project : Tables) (id : ClipId) (clip : Clip) : Resolved :=
  match clip.source with
  | .pattern patternId =>
    match project.patterns.get? patternId with
    | none => {}
    | some pattern =>
      let patternLength := patternEffectiveLength pattern
      if patternLength ≤ 0 then {}
      else
        let sequences := pattern.sequences.entries.map
          (resolveSequence project pattern patternLength clip)
        let curves := pattern.automation.map fun automation =>
          (resolveAutomation project clip automation).getD {}
        (sequences ++ curves).foldl Resolved.append { clipsFlattened := 1 }
  | .audio _ =>
    match Entries.get? (audioChannelIndex project) id with
    | none => {}
    | some channel => { audioStarts := [⟨clip.start, channel⟩], clipsFlattened := 1 }
  | .automation automation =>
    match resolveAutomation project clip automation with
    | none => {}
    | some resolved => { resolved with clipsFlattened := 1 }

/-- The clips that may sound: on an audible lane, not muted, and not empty. -/
def audibleClips (project : Tables) : List (ClipId × Clip) :=
  ((audibleLanes project).flatMap fun lane => project.clipsOnLane lane).filterMap fun id =>
    match project.clips.get? id with
    | none => none
    | some clip => if clip.muted || clip.length ≤ 0 then none else some (id, clip)

/-- What all audible clips give. -/
def resolveClips (project : Tables) : Resolved :=
  ((audibleClips project).map fun entry => resolveClip project entry.1 entry.2).foldl
    Resolved.append {}

/-- The end of the last audible clip. -/
def endTicks (project : Tables) : ℤ :=
  (audibleClips project).foldl (fun e entry => max e (entry.2.start + entry.2.length)) 0

/-! ### The schedule -/

/-- Parameters by position, then target, then parameter. -/
def ResolvedParam.le (a b : ResolvedParam) : Prop :=
  toLex (a.position, toLex (a.target, a.parameter)) ≤
    toLex (b.position, toLex (b.target, b.parameter))

instance : DecidableRel ResolvedParam.le := fun _ _ => inferInstanceAs (Decidable (_ ≤ _))

structure FlattenOptions where
  sampleRate : Double := .finite 48000
  generation : ℕ := 1

structure FlattenResult where
  schedule : Schedule
  instrumentIndex : List (InstrumentId × ℕ)
  audioChannelIndex : List (ClipId × ℕ)
  effectIndex : List ((MixerTrackId × EffectId) × ℕ)
  lengthFrames : ℤ
  eventCount : ℕ
  clipsFlattened : ℕ
  notesDropped : ℕ

/-- A note in frames; one that rounds to nothing gets one frame. -/
def scheduleNote (timeMap : TimeMap) (builder : ScheduleBuilder) (note : ResolvedNote) :
    ScheduleBuilder :=
  let startFrame := timeMap.toFrames note.start
  let endFrame := timeMap.toFrames note.stop
  builder.addNote note.instrument note.key note.velocity startFrame (max 1 (endFrame - startFrame))

/-- The events of what was resolved, in the order they are written. -/
def scheduleResolved (timeMap : TimeMap) (resolved : Resolved) : ScheduleBuilder :=
  let builder := (resolveOverlaps resolved.notes).foldl (scheduleNote timeMap) {}
  let builder := (resolved.params.insertionSort ResolvedParam.le).foldl
    (fun builder param => builder.addParamValue param.target param.parameter param.value
      (timeMap.toFrames param.position)) builder
  let builder := (resolved.effectParams.insertionSort ResolvedParam.le).foldl
    (fun builder param => builder.addEffectParam param.target param.parameter param.value
      (timeMap.toFrames param.position)) builder
  resolved.audioStarts.foldl
    (fun builder audio => builder.addAudioStart audio.channel (timeMap.toFrames audio.start))
    builder

def flatten (project : Tables) (options : FlattenOptions) : FlattenResult :=
  let timeMap := TimeMap.ofTempo options.sampleRate project.transport.tempo
  let resolved := resolveClips project
  let lengthFrames := timeMap.toFrames (endTicks project)
  let schedule := ((scheduleResolved timeMap resolved).setLengthFrames lengthFrames).build
    options.sampleRate options.generation
  { schedule
    instrumentIndex := instrumentIndex project
    audioChannelIndex := audioChannelIndex project
    effectIndex := effectIndex project
    lengthFrames
    eventCount := schedule.events.length
    clipsFlattened := resolved.clipsFlattened
    notesDropped := resolved.notesDropped }

end OneBeat
