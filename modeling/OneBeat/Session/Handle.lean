import OneBeat.Core.LiveEngine
import OneBeat.Session.Calls

/-!
# The session and its engine

The transport's part of `publishModel` in `abi/onebeat_abi.cpp`: after the schedule has been handed
over, the tempo, the loop and the metronome of the model are posted to the engine, each unless it is
what was posted last (`PublishedTransport`).

The bounds are written as the source has them: a NaN is near nothing.
-/

namespace OneBeat

/-- `std::max`. -/
def maxDouble (a b : Double) : Double := if a.lt b then b else a

/-- Less than a millionth apart. -/
def near (a b : Double) : Bool :=
  let limit := BinaryFormat.double.ofRat (1 / 1000000)
  (a.sub b).lt limit && limit.neg.lt (a.sub b)

def ticksToBeats (ticks : ℤ) : Double := (Double.ofInt ticks).div (Double.ofInt ticksPerQuarter)

/-- What was last sent to the transport. -/
structure PublishedTransport where
  tempo : Double := .nan
  loopEnd : Double := .nan
  loopEnabled : Option Bool := none
  metronome : Option Bool := none

namespace Session

/-- Every clip, not only the audio ones, and at least four beats. -/
def clipsEndBeats (s : Session) : Double :=
  s.project.clips.entries.foldl
    (fun beats entry => maxDouble beats (ticksToBeats (entry.2.start + entry.2.length))) (.finite 4)

/-- Where the loop ends, when the schedule that was just built has a length. -/
def loopEndBeats (s : Session) (lengthFrames : ℤ) : Double :=
  if s.patternPreview then
    match s.currentPatternOf with
    | none => .finite 4
    | some (_, pattern) => maxDouble (.finite 4) (ticksToBeats (patternEffectiveLength pattern))
  else if 0 < lengthFrames then
    maxDouble s.clipsEndBeats
      ((TimeMap.ofTempo s.sampleRate s.project.transport.tempo).framesToBeats lengthFrames)
  else s.clipsEndBeats

/-- A preview loops, whatever the switch says. -/
def loopFlag (s : Session) : Bool := s.patternPreview || s.project.transport.loopEnabled

/-- What the publish that led to this session has flattened: a preview, or the project; the
scheduler counts those. -/
def flattenedBy (s after : Session) : Option FlattenResult :=
  match after.patternPreview, after.currentPattern with
  | true, some id => some (flatten (after.previewProject id) { sampleRate := after.sampleRate })
  | _, _ =>
    if s.generation < after.generation then
      some (flatten after.project
        { sampleRate := after.sampleRate, generation := after.generation })
    else none

/-- The session between the two publishes of a call that makes two. -/
def halfway (s : Session) : Call → Option Session
  | .instrumentReplace id plugin host _ =>
    let replaced := s.executeModel host (replaceInstrument s.project id plugin)
    if replaced.1 && !replaced.2.hosts id then some replaced.2 else none
  | .instanceAdd id track plugin host _ =>
    let added := s.executeModel host (some (addInstrumentNamed s.project true id track plugin))
    if added.1 && added.2.lastInstrument.any fun last => !added.2.hosts last then some added.2
    else none
  | .patternRemove id host _ =>
    if !s.project.patterns.contains id ∨ s.project.patterns.size ≤ 1 then none
    else
      let removed := s.executeModel host (some (removePattern id))
      if removed.1 && removed.2.currentPattern = some id then some removed.2 else none
  | _ => none

end Session

/-- The handle: the session, what it sent, and the engine. -/
structure Handle where
  session : Session
  sent : PublishedTransport := {}
  live : LiveEngine
  /-- A command was refused by a full queue; for the proofs only. -/
  overflowed : Bool := false

namespace Handle

def postCommand (command : EngineCommand) (h : Handle) : Handle :=
  { h with
    live := h.live.postCommand command
    overflowed := h.overflowed || commandQueueCapacity ≤ h.live.commands.length }

def publishTempo (h : Handle) : Handle :=
  let tempo := h.session.project.transport.tempo
  if near tempo h.sent.tempo then h
  else { h.postCommand (.setTempo tempo) with sent := { h.sent with tempo } }

def publishLoop (lengthFrames : ℤ) (h : Handle) : Handle :=
  let loopEnd := h.session.loopEndBeats lengthFrames
  let enabled := h.session.loopFlag
  if near loopEnd h.sent.loopEnd && h.sent.loopEnabled = some enabled then h
  else
    { h.postCommand (.setLoop 0 loopEnd enabled) with
      sent := { h.sent with loopEnd, loopEnabled := some enabled } }

def publishMetronome (h : Handle) : Handle :=
  let enabled := h.session.project.transport.metronomeEnabled
  if h.sent.metronome = some enabled then h
  else
    { h.postCommand (.setMetronome enabled) with
      sent := { h.sent with metronome := some enabled } }

/-- A session that was published, and its schedule. -/
def handOver (after : Session) (h : Handle) : Handle :=
  { h with
    session := after
    live := { h.live with
      schedule := ((h.session.flattenedBy after).map FlattenResult.schedule).getD
        h.live.schedule } }

/-- The length of the schedule that was flattened; nothing when none was. -/
def flattenedFrames (after : Session) (h : Handle) : ℤ :=
  ((h.session.flattenedBy after).map FlattenResult.lengthFrames).getD 0

/-- After the session, what belongs to the transport. -/
def tell (after : Session) (h : Handle) : Handle :=
  ((h.handOver after).publishTempo.publishLoop (h.flattenedFrames after)).publishMetronome

def publishModel (host : InstrumentId → HostAnswer) (h : Handle) (replaced : Bool := false) :
    Handle :=
  h.tell (h.session.publishModel host replaced)

/-- An engine that was just created, with a project in it. -/
def create (host : InstrumentId → HostAnswer) (ids : FreshIds) (sampleRate : Double)
    (live : LiveEngine) : Handle :=
  let session : Session :=
    { bus := .start (freshProject ids), sampleRate, currentPattern := some ids.pattern }
  publishModel host { session, live }

/-! ### Entry points -/

/-- The session that a call leaves; the engine is told if it was published. -/
def follow (after : Session) (h : Handle) : Handle :=
  if h.session.publishes.length < after.publishes.length then h.tell after
  else { h with session := after }

def call (call : Call) (h : Handle) : Handle :=
  let after := (h.session.call call).2
  match h.session.halfway call with
  | none => h.follow after
  | some between => (h.follow between).follow after

/-- The edit of the model that a command is. -/
def noted : EngineCommand → Option Edit
  | .setTempo bpm => some (.setTempo bpm)
  | .setLoop _ _ enabled => some (.setLoop enabled)
  | .setMetronome enabled => some (.setMetronome enabled)
  | _ => none

/-- The caller's value counts as sent; of a loop, only the switch. -/
def record (sent : PublishedTransport) : EngineCommand → PublishedTransport
  | .setTempo bpm => { sent with tempo := bpm }
  | .setLoop _ _ enabled => { sent with loopEnabled := some enabled }
  | .setMetronome enabled => { sent with metronome := some enabled }
  | _ => sent

/-- A command that changes the model is executed there, recorded, and published. -/
def note (host : InstrumentId → HostAnswer) (command : EngineCommand) (h : Handle) : Handle :=
  match (noted command).map h.session.reply with
  | some (.model change) =>
    { h with
      session := (h.session.execute change).2
      sent := record h.sent command }.publishModel host
  | _ => h

/-- `ob_engine_post_command`: in the end the command goes out as it is. -/
def post (host : InstrumentId → HostAnswer) (command : EngineCommand) (h : Handle) : Handle :=
  (h.note host command).postCommand command

/-- A block of the device. -/
def process (numFrames : ℕ) (h : Handle) : Handle :=
  { h with live := (h.live.process numFrames).2 }

end Handle

end OneBeat
