import OneBeat.Core.Sampler
import OneBeat.Core.Schedule
import OneBeat.Core.TimeMap
import OneBeat.Plugin.Event

/-!
# Playback

`core/transport.h`, and of `core/engine.cpp` what decides which events a channel is told about: a
block is cut into chunks at the end of the loop, and in a chunk every channel gets its events of the
schedule.

What the channels render, the mixer and the metronome are not modelled.
-/

namespace OneBeat

def TimeMap.framesToBeats (timeMap : TimeMap) (frames : ℤ) : Double :=
  (Double.ofInt frames).div timeMap.framesPerBeat

/-- The clock of the engine. -/
structure Transport where
  timeMap : TimeMap := {}
  positionFrames : ℤ := 0
  loopStartBeats : Double := .finite 0
  loopEndBeats : Double := .finite 16
  loopEnabled : Bool := true

namespace Transport

variable (transport : Transport)

def loopStartFrames : ℤ := transport.timeMap.beatsToFrames transport.loopStartBeats
def loopEndFrames : ℤ := transport.timeMap.beatsToFrames transport.loopEndBeats

def seekFrames (frames : ℤ) : Transport :=
  { transport with positionFrames := if frames < 0 then 0 else frames }

/-- The position stays at its beat. -/
def setTempo (bpm : Double) : Transport :=
  let beats := transport.timeMap.framesToBeats transport.positionFrames
  let timeMap := { transport.timeMap with tempoBpm := TimeMap.clampTempo bpm }
  { transport with timeMap, positionFrames := timeMap.beatsToFrames beats }

def setLoop (startBeats endBeats : Double) (enabled : Bool) : Transport :=
  if startBeats.lt endBeats && (Double.finite 0).le startBeats then
    { transport with
      loopStartBeats := startBeats, loopEndBeats := endBeats, loopEnabled := enabled }
  else { transport with loopEnabled := enabled }

def advance (frames : ℤ) : Transport :=
  { transport with positionFrames := transport.positionFrames + frames }

/-- How many of the frames are left until the end of the loop. -/
def framesUntilLoopWrap (frames : ℤ) : ℤ :=
  if !transport.loopEnabled then frames
  else if transport.loopEndFrames ≤ transport.positionFrames then 0
  else min (transport.loopEndFrames - transport.positionFrames) frames

end Transport

/-! ### The schedule in a chunk -/

/-- The first event that is not before the frame, by bisection of `low` to `high`. -/
def lowerBoundIn (events : List ScheduleEvent) (frame : ℤ) (low high : ℕ) : ℕ :=
  if low < high then
    let mid := low + (high - low) / 2
    match events[mid]? with
    | some event =>
      if event.frame < frame then lowerBoundIn events frame (mid + 1) high
      else lowerBoundIn events frame low mid
    | none => low
  else low
termination_by high - low

namespace Schedule

variable (schedule : Schedule)

def lowerBound (frame : ℤ) : ℕ := lowerBoundIn schedule.events frame 0 schedule.events.length

/-- The events from a frame on, and before another. -/
def eventsIn (chunkStart chunkEnd : ℤ) : List ScheduleEvent :=
  (schedule.events.drop (schedule.lowerBound chunkStart)).takeWhile (·.frame < chunkEnd)

end Schedule

/-! ### The engine -/

namespace Engine

/-- Of a channel what decides about its events. -/
structure Channel where
  active : Bool := false
  /-- It plays an audio clip. -/
  oneShot : Bool := false
  sampleReady : Bool := true
  resetRequested : Bool := false
  /-- The clip was to start before its sample was there. -/
  deferredAudioStart : Bool := false
  deriving DecidableEq

/-- The channels of the rack, and the one for previews. -/
inductive ChannelId
  | rack (index : ℕ)
  | preview
  deriving DecidableEq

/-- The event that an event of the schedule is to its channel. -/
def pluginEvent (time : ℕ) (event : ScheduleEvent) : Option PluginEvent :=
  match event.type with
  | .noteOn => some (.noteOn time event.note event.value)
  | .audioStart => some (.noteOn time Sampler.rootNote event.value)
  | .noteOff => some (.noteOff time event.note)
  | .paramValue => some (.paramValue time event.reserved event.value)
  | .paramModulation => some (.paramModulation time event.reserved event.value)
  | .tempoChange => none
  | .effectParam => none

/-- The events of the schedule, for one channel. -/
structure Scheduled where
  pushed : List PluginEvent := []
  deferredAudioStart : Bool
  audioStart : Bool := false

/-- One event of the schedule: it is skipped when it is another channel's, or when the sample that it
would play is not there. -/
def Scheduled.step (channel : Channel) (index : ℕ) (chunkStart : ℤ) (s : Scheduled)
    (event : ScheduleEvent) : Scheduled :=
  if event.instrument ≠ index then s
  else if channel.oneShot && !channel.sampleReady then
    if event.type = .audioStart then { s with deferredAudioStart := true } else s
  else
    { s with
      pushed := s.pushed ++ (pluginEvent (event.frame - chunkStart).toNat event).toList
      audioStart := s.audioStart || event.type = .audioStart }

/-- The events of the block that a channel hears: a release is for all of them. -/
def hearsCommand (isAudition previewVoice : Bool) (event : PluginEvent) : Bool :=
  event.type = .noteOff && event.key = wildcard ||
    (if event.dontRecord then previewVoice else !previewVoice && isAudition)

/-- What a channel is told about a chunk, and what becomes of it.  `schedule` is the part of the
schedule in the chunk; the channel for previews has none. -/
def renderChannel (channel : Channel) (id : ChannelId) (auditionChannel : ℤ) (capacity : ℕ)
    (schedule : Option (List ScheduleEvent)) (chunkStart : ℤ) (blockEvents : List PluginEvent)
    (releaseAll : Bool) : EventList × Channel :=
  let index : ℕ := match id with
    | .rack index => index
    | .preview => 0
  let previewVoice : Bool := id = .preview
  let reset := if channel.resetRequested then [PluginEvent.allNotesOff 0] else []
  let channel := { channel with
    resetRequested := false
    deferredAudioStart := channel.oneShot && channel.deferredAudioStart }
  let release := if releaseAll then [PluginEvent.allNotesOff 0] else []
  let commands := blockEvents.filter (hearsCommand ((index : ℤ) = auditionChannel) previewVoice)
  let list : EventList := { capacity }
  let list := (reset ++ release ++ commands).foldl EventList.push list
  match (if previewVoice then none else schedule) with
  | none => (list.sortByTime, channel)
  | some events =>
    let s := events.foldl (Scheduled.step channel index chunkStart)
      { deferredAudioStart := channel.deferredAudioStart }
    let list := s.pushed.foldl EventList.push list
    if channel.oneShot && channel.sampleReady && s.deferredAudioStart && !s.audioStart then
      -- the sample has come since
      ((list.push (.noteOn 0 Sampler.rootNote (.finite 1))).sortByTime,
        { channel with deferredAudioStart := false })
    else
      (list.sortByTime,
        { channel with deferredAudioStart := s.deferredAudioStart && !s.audioStart })

end Engine

/-- The state of the engine between two chunks. -/
structure Engine where
  transport : Transport
  channels : List Engine.Channel
  preview : Engine.Channel := {}
  auditionChannel : ℤ := 0
  /-- The loop has wrapped, and the channels have not been told yet. -/
  pendingAllNotesOff : Bool := false
  chunkEventCapacity : ℕ

namespace Engine

/-- What the channels are told about a chunk that starts at an offset of the output. -/
structure Chunk where
  offset : ℕ
  numFrames : ℕ
  told : List (ChannelId × EventList)

/-- The active channels of the rack, from an index on. -/
def renderChannels (auditionChannel : ℤ) (capacity : ℕ) (schedule : Option (List ScheduleEvent))
    (chunkStart : ℤ) (blockEvents : List PluginEvent) (releaseAll : Bool) :
    ℕ → List Channel → List (ChannelId × EventList) × List Channel
  | _, [] => ([], [])
  | index, channel :: channels =>
    let rest := renderChannels auditionChannel capacity schedule chunkStart blockEvents releaseAll
      (index + 1) channels
    if !channel.active then (rest.1, channel :: rest.2)
    else
      let rendered := renderChannel channel (.rack index) auditionChannel capacity schedule
        chunkStart blockEvents releaseAll
      ((.rack index, rendered.1) :: rest.1, rendered.2 :: rest.2)

/-- One chunk: the tempo first, then the channels. -/
def processChunk (engine : Engine) (offset numFrames : ℕ) (schedule : Option Schedule)
    (chunkStart : ℤ) (blockEvents : List PluginEvent) : Option Chunk × Engine :=
  if numFrames = 0 then (none, engine)
  else
    let releaseAll := engine.pendingAllNotesOff
    let events := schedule.map fun schedule => schedule.eventsIn chunkStart (chunkStart + numFrames)
    let transport := (events.getD []).foldl (fun (transport : Transport) event =>
      if event.type = .tempoChange then transport.setTempo event.value else transport)
      engine.transport
    let rack := renderChannels engine.auditionChannel engine.chunkEventCapacity events chunkStart
      blockEvents releaseAll 0 engine.channels
    let preview := renderChannel engine.preview .preview engine.auditionChannel
      engine.chunkEventCapacity none chunkStart blockEvents releaseAll
    (some { offset, numFrames, told := rack.1 ++ [(.preview, preview.1)] },
      { engine with
        transport, channels := rack.2, preview := preview.2, pendingAllNotesOff := false })

/-- Back to the start of the loop; what sounds is released with the next chunk. -/
def wrap (engine : Engine) : Engine :=
  { engine with
    transport := engine.transport.seekFrames engine.transport.loopStartFrames
    pendingAllNotesOff := true }

/-- The rest of a block: chunk after chunk, and back to the start of the loop at its end.  The guard
is for a loop that has no frames. -/
def runLoop (schedule : Schedule) (blockEvents : List PluginEvent) (engine : Engine)
    (offset remaining wrapGuard : ℕ) : List Chunk × Engine :=
  if remaining = 0 then ([], engine)
  else
    let chunk := engine.transport.framesUntilLoopWrap remaining
    if chunk ≤ 0 then
      if 8 < wrapGuard + 1 then ([], engine.wrap)
      else runLoop schedule blockEvents engine.wrap offset remaining (wrapGuard + 1)
    else
      let processed := engine.processChunk offset chunk.toNat (some schedule)
        engine.transport.positionFrames blockEvents
      let engine := { processed.2 with transport := processed.2.transport.advance chunk }
      let engine :=
        if engine.transport.loopEnabled &&
            engine.transport.loopEndFrames ≤ engine.transport.positionFrames then engine.wrap
        else engine
      -- only the first chunk is told about the commands
      let rest := runLoop schedule [] engine (offset + chunk.toNat) (remaining - chunk.toNat) 0
      (processed.1.toList ++ rest.1, rest.2)
termination_by 10 * remaining + (9 - wrapGuard)

/-- A block of the device while the transport plays. -/
def runSchedule (engine : Engine) (schedule : Schedule) (numFrames : ℕ)
    (blockEvents : List PluginEvent) : List Chunk × Engine :=
  runLoop schedule blockEvents engine 0 numFrames 0

/-- Blocks of these sizes, without commands; the offsets count from the first. -/
def runBlocks (schedule : Schedule) : List ℕ → Engine → List Chunk × Engine
  | [], engine => ([], engine)
  | numFrames :: blocks, engine =>
    let block := engine.runSchedule schedule numFrames []
    let rest := runBlocks schedule blocks block.2
    (block.1 ++ rest.1.map fun chunk => { chunk with offset := numFrames + chunk.offset }, rest.2)

/-- What a channel is told, each event at its frame of the output. -/
def toldTo (id : ChannelId) (chunks : List Chunk) : List PluginEvent :=
  chunks.flatMap fun chunk => (chunk.told.filter (·.1 = id)).flatMap fun told =>
    told.2.events.map (PluginEvent.later chunk.offset)

end Engine

end OneBeat
