import OneBeat.Lib.BinaryFloat
import OneBeat.Lib.OrderedMap
import OneBeat.Model.Ids
import OneBeat.Model.NoteSequence

/-!
# The domain entities

`model/entities.h`.  Two axes meet at one point: time is pattern, clip, lane; signal is
instrument, mixer track, master; an instrument is the join.

An entity carries no copy of its own id: `Project` stores every entity under its id, so the id is
the key of the map the entity is in.  A slot of an effect chain has its id, because a chain is a
list.
-/

namespace OneBeat

/-- `"#RRGGBB"`, never interpreted. -/
abbrev ColorHex := String

/-- A plug-in's own stable parameter id. -/
abbrev ParamId := ℕ

/-- An output port of a plug-in. -/
abbrev PortId := ℕ

def invalidParamId : ParamId := 0xFFFFFFFF

/-! ### Signal axis -/

inductive PluginFormat
  | unknown | builtin | clap | vst3 | audioUnit
  deriving DecidableEq, Inhabited

/-- What is needed to find a plug-in again. -/
structure PluginRef where
  format : PluginFormat := .unknown
  id : String := ""
  name : String := ""
  vendor : String := ""
  pathHint : String := ""
  stateRef : String := ""
  stateSha256 : String := ""
  deriving DecidableEq, Inhabited

/-- One output port of an instrument, routed to one mixer track. -/
structure OutputRoute where
  port : PortId := 0
  track : MixerTrackId
  deriving DecidableEq, Inhabited

/-- Defaults of notes that do not override them. -/
structure NoteDefaults where
  velocity : ℕ := defaultVelocity
  pan : Double := 0
  pitchOffset : ℤ := 0
  deriving DecidableEq, Inhabited

/-- Channel-level playback settings. -/
structure ChannelSettings where
  gatePercent : ℤ := 100
  shiftTicks : ℤ := 0
  cutGroup : ℤ := 0
  cutByGroup : ℤ := 0
  maxPolyphony : ℤ := 0
  mono : Bool := false
  portamento : Bool := false
  rootKey : ℤ := 60
  keyLow : ℤ := 0
  keyHigh : ℤ := 127
  fineTuneCents : ℤ := 0
  velocityTracking : Double := 1
  modX : ℤ := 0
  modY : ℤ := 0
  arpeggiator : Bool := false
  arpeggiatorTimeTicks : ℤ := 240
  arpeggiatorGatePercent : ℤ := 100
  echoTimeTicks : ℤ := 0
  echoFeedbackPercent : ℤ := 0
  deriving DecidableEq, Inhabited

/-- A sound source of the project. -/
structure Instrument where
  name : String := ""
  color : ColorHex := "#6C8CFF"
  /-- Presentation order, which is data and never the order of the map. -/
  order : ℤ := 0
  plugin : PluginRef := {}
  noteDefaults : NoteDefaults := {}
  channelSettings : ChannelSettings := {}
  routing : List OutputRoute := []
  muted : Bool := false
  soloed : Bool := false
  gain : Double := 1
  pan : Double := 0
  deriving DecidableEq, Inhabited

/-- One insert of a mixer track's chain. -/
structure EffectSlot where
  id : EffectId
  plugin : PluginRef := {}
  bypassed : Bool := false
  /-- Base parameter values; a parameter nobody touched is absent. -/
  params : OrderedMap ParamId Double := .empty
  deriving DecidableEq, Inhabited

/-- A signal path: `output` is another track, or nothing for the master. -/
structure MixerTrack where
  name : String := ""
  output : Option MixerTrackId := none
  gain : Double := 1
  pan : Double := 0
  muted : Bool := false
  soloed : Bool := false
  effects : List EffectSlot := []
  deriving DecidableEq, Inhabited

/-- The slot of an effect in the chain, the first that has the id. -/
def MixerTrack.findEffect (track : MixerTrack) (effect : EffectId) : Option EffectSlot :=
  track.effects.find? fun slot => slot.id = effect

/-! ### Time axis -/

structure TimeSignature where
  numerator : ℤ := 4
  denominator : ℤ := 4
  deriving DecidableEq, Inhabited

/-- A value at a position, relative to the clip. -/
structure AutomationPoint where
  position : ℤ := 0
  value : Double := 0
  deriving DecidableEq, Inhabited

/-- What an automation curve drives. -/
inductive TargetKind
  | instrument | mixerTrack | effect
  deriving DecidableEq, Inhabited

/-- A curve and its target, for pattern and arrangement automation alike. -/
structure AutomationSource where
  targetKind : TargetKind := .instrument
  instrument : InstrumentId := .none
  mixerTrack : MixerTrackId := .none
  effect : EffectId := .none
  parameter : ParamId := invalidParamId
  points : List AutomationPoint := []
  deriving DecidableEq, Inhabited

/-- A horizontal slice across instruments. -/
structure Pattern where
  name : String := ""
  color : ColorHex := "#6C8CFF"
  length : ℤ := ticksPerBarFourFour * 4
  order : ℤ := 0
  group : String := ""
  timeSignature : TimeSignature := {}
  swing : Double := 0
  /-- One sequence for each instrument the pattern uses. -/
  sequences : OrderedMap InstrumentId NoteSequence := .empty
  automation : List AutomationSource := []
  deriving DecidableEq, Inhabited

namespace Pattern

variable (pattern : Pattern)

/-- The notes of an instrument; an instrument the pattern does not use has none. -/
def notesOf (i : InstrumentId) : List Note :=
  ((pattern.sequences.get? i).map NoteSequence.notes).getD []

/-- Store a sequence; an empty one is not kept. -/
def withSequence (i : InstrumentId) (sequence : NoteSequence) (pattern : Pattern) : Pattern :=
  { pattern with
    sequences :=
      if sequence.empty then pattern.sequences.erase i else pattern.sequences.assign i sequence }

/-- No empty sequence is stored. -/
def Sparse : Prop := ∀ i sequence, pattern.sequences.get? i = some sequence → sequence.empty = false

variable {pattern}

theorem get?_withSequence (i k : InstrumentId) (sequence : NoteSequence) :
    (pattern.withSequence i sequence).sequences.get? k =
      if k = i then (if sequence.empty then none else some sequence)
      else pattern.sequences.get? k := by
  unfold withSequence
  split_ifs <;> simp [*]

theorem notesOf_withSequence (i : InstrumentId) (sequence : NoteSequence) :
    (pattern.withSequence i sequence).notesOf i = sequence.notes := by
  rw [notesOf, get?_withSequence, if_pos rfl]
  split_ifs with h
  · rw [NoteSequence.empty_iff.1 h]; rfl
  · rfl

theorem withSequence_withSequence (i : InstrumentId) (s s' : NoteSequence) :
    (pattern.withSequence i s).withSequence i s' = pattern.withSequence i s' := by
  unfold withSequence
  congr 1
  refine OrderedMap.ext_get? fun k => ?_
  split_ifs <;> simp only [OrderedMap.get?_erase, OrderedMap.get?_assign] <;> split_ifs <;> rfl

/-- Storing the notes that are there changes nothing. -/
theorem withSequence_notesOf (h : pattern.Sparse) {i : InstrumentId} {sequence : NoteSequence}
    (hs : sequence.notes = pattern.notesOf i) : pattern.withSequence i sequence = pattern := by
  have hsequences : (pattern.withSequence i sequence).sequences = pattern.sequences := by
    refine OrderedMap.ext_get? fun k => ?_
    rw [get?_withSequence]
    split_ifs with hk hempty
    · subst hk
      rw [NoteSequence.empty_iff.1 hempty] at hs
      unfold notesOf at hs
      cases hget : pattern.sequences.get? k with
      | none => rfl
      | some stored =>
        rw [hget] at hs
        have : stored.empty = true := NoteSequence.empty_iff.2 (NoteSequence.ext hs.symm)
        rw [h k stored hget] at this
        cases this
    · subst hk
      unfold notesOf at hs
      cases hget : pattern.sequences.get? k with
      | none =>
        rw [hget] at hs
        exact absurd (NoteSequence.empty_iff.2 (NoteSequence.ext hs)) hempty
      | some stored =>
        rw [hget] at hs
        rw [NoteSequence.ext hs]
    · rfl
  have : pattern.withSequence i sequence =
      { pattern with sequences := (pattern.withSequence i sequence).sequences } := rfl
  rw [this, hsequences]

theorem Sparse.withSequence (h : pattern.Sparse) (i : InstrumentId) (sequence : NoteSequence) :
    (pattern.withSequence i sequence).Sparse := by
  intro k stored hk
  rw [get?_withSequence] at hk
  split_ifs at hk with hi hempty
  · cases hk
    exact Bool.eq_false_of_not_eq_true hempty
  · exact h k stored hk

end Pattern

/-- A lane of the arrangement, purely organisational. -/
structure ArrangementLane where
  name : String := ""
  color : ColorHex := "#6C8CFF"
  height : ℤ := 88
  order : ℤ := 0
  collapsed : Bool := false
  muted : Bool := false
  soloed : Bool := false
  groupId : Option ArrangementLaneId := none
  deriving DecidableEq, Inhabited

/-! ### Clips -/

/-- How a clip reconciles its length with the length of its audio. -/
inductive StretchMode
  | off | resample | stretch
  deriving DecidableEq, Inhabited

/-- A window of a sample; offset and length are in source time, a length of `0` is the rest of the
file. -/
structure AudioSource where
  path : String := ""
  sourceOffset : ℤ := 0
  sourceLength : ℤ := 0
  gain : Double := 1
  reversed : Bool := false
  destination : MixerTrackId
  stretchMode : StretchMode := .off
  sourceBpm : Double := 0
  deriving DecidableEq, Inhabited

/-- What a clip plays. -/
inductive ClipSource
  | pattern (pattern : PatternId)
  | audio (source : AudioSource)
  | automation (source : AutomationSource)
  deriving DecidableEq, Inhabited

/-- Non-destructive variation of a placement. -/
structure ClipTransforms where
  transpose : ℤ := 0
  loop : Bool := false
  windowStart : ℤ := 0
  velocityScale : Double := 1
  timeNudge : ℤ := 0
  probability : Double := 1
  deriving DecidableEq, Inhabited

/-- A placement on the timeline. -/
structure Clip where
  lane : ArrangementLaneId
  start : ℤ := 0
  length : ℤ := 0
  muted : Bool := false
  source : ClipSource
  transforms : ClipTransforms := {}
  deriving DecidableEq, Inhabited

namespace Clip

/-- The pattern the clip plays, if it plays one. -/
def pattern (clip : Clip) : Option PatternId :=
  match clip.source with
  | .pattern pattern => some pattern
  | _ => none

/-- The audio the clip plays, if it plays audio. -/
def audio (clip : Clip) : Option AudioSource :=
  match clip.source with
  | .audio source => some source
  | _ => none

/-- The curve the clip plays, if it is an automation clip. -/
def automation (clip : Clip) : Option AutomationSource :=
  match clip.source with
  | .automation source => some source
  | _ => none

/-- The same clip with another length. -/
def withLength (clip : Clip) (length : ℤ) : Clip := { clip with length }

@[simp] theorem length_withLength (clip : Clip) (length : ℤ) :
    (clip.withLength length).length = length := rfl

@[simp] theorem withLength_withLength (clip : Clip) (l l' : ℤ) :
    (clip.withLength l).withLength l' = clip.withLength l' := rfl

@[simp] theorem withLength_length (clip : Clip) : clip.withLength clip.length = clip := rfl

@[simp] theorem pattern_withLength (clip : Clip) (length : ℤ) :
    (clip.withLength length).pattern = clip.pattern := rfl

@[simp] theorem audio_withLength (clip : Clip) (length : ℤ) :
    (clip.withLength length).audio = clip.audio := rfl

end Clip

/-- How much source a clip consumes. -/
def audioSourceSpan (source : AudioSource) (clipLength : ℤ) (sourceDuration : ℤ := 0) : ℤ :=
  if 0 < source.sourceLength then source.sourceLength
  else if source.sourceOffset < sourceDuration then sourceDuration - source.sourceOffset
  else clipLength

/-- Source time consumed per tick of the timeline. -/
def audioStretchRatio (source : AudioSource) (clipLength : ℤ) (sourceDuration : ℤ := 0) :
    Double :=
  if source.stretchMode = .off then 1
  else
    let span := audioSourceSpan source clipLength sourceDuration
    if span ≤ 0 ∨ clipLength ≤ 0 then 1
    else (Double.ofInt span).div (Double.ofInt clipLength)

/-- The timeline length that plays `source` at its recorded tempo; `0` when there is no telling. -/
def audioLengthAtTempo (source : AudioSource) (clipLength : ℤ) (projectBpm : Double)
    (sourceDuration : ℤ := 0) : ℤ :=
  if Double.le source.sourceBpm 0 || Double.le projectBpm 0 then 0
  else
    let span := audioSourceSpan source clipLength sourceDuration
    if span ≤ 0 then 0
    else
      let result := ((Double.ofInt span).mul (source.sourceBpm.div projectBpm)).llround
      if 0 < result then result else 1

/-! ### Pattern lengths -/

/-- The last tick any note of the pattern ends on. -/
def patternContentEnd (pattern : Pattern) : ℤ :=
  pattern.sequences.entries.foldl (fun e entry => max e entry.2.contentEnd) 0

/-- The shortest whole number of bars that holds everything in the pattern. -/
def patternLoopLength (pattern : Pattern) : ℤ :=
  let content := patternContentEnd pattern
  if content ≤ 0 then ticksPerBarFourFour
  else (content + ticksPerBarFourFour - 1) / ticksPerBarFourFour * ticksPerBarFourFour

/-- How long the pattern plays: the declared length, or whole bars when the notes need more. -/
def patternEffectiveLength (pattern : Pattern) : ℤ :=
  let declared := if 0 < pattern.length then pattern.length else ticksPerBarFourFour
  if patternContentEnd pattern ≤ declared then declared else patternLoopLength pattern

/-! ### Project-level state -/

structure TransportState where
  tempo : Double := .finite 120
  timeSignature : TimeSignature := {}
  metronomeEnabled : Bool := false
  loopEnabled : Bool := true
  loopStart : ℤ := 0
  loopEnd : ℤ := ticksPerBarFourFour * 8
  deriving DecidableEq, Inhabited

structure ProjectMeta where
  name : String := "Untitled"
  createdWith : String := ""
  deriving DecidableEq, Inhabited

end OneBeat
