import OneBeat.Commands.TouchedPatterns
import OneBeat.Model.Flattener
import OneBeat.Session.Hosting

/-!
# The session

The handle of `abi/onebeat_abi.cpp`, as far as the project, its history, its schedule and its
plug-ins go: the project and its history (`CommandBus`), the scheduler's dirty flag
(`FlattenScheduler`), the selections, and what the engine was handed last.

`Session.publishModel` is the one place where the engine is told that the model moved; what the
machine answers when it loads plug-ins is its argument.  The mixer and the channels the engine gets
beside the schedule, and the commands posted to the transport, are left out.
-/

namespace OneBeat

structure Session where
  bus : CommandBus
  /-- `FlattenScheduler::dirty_`: something notified its listeners since the last flush. -/
  dirty : Bool := true
  generation : ℕ := 0
  sampleRate : Double
  selectedInstrument : Option InstrumentId := none
  currentPattern : Option PatternId := none
  patternPreview : Bool := false
  previewInstrument : Option InstrumentId := none
  rackGrids : OrderedMap InstrumentId ℤ := .empty
  /-- The effective length of each pattern at the last publish. -/
  patternLengths : OrderedMap PatternId ℤ := .empty
  audioChannelIndices : List (ClipId × ℕ) := []
  effectIndices : List ((MixerTrackId × EffectId) × ℕ) := []
  /-- What `publishSchedule` was handed last. -/
  published : Option Schedule := none
  hosting : Hosting := {}
  hasInstance : Bool := false
  /-- Every publish so far, as the plug-ins saw it; for the proofs only. -/
  publishes : List Publish := []

/-- The name a plug-in calls itself, for a lane that only knew an id. -/
def Instrument.named (name : String) (instrument : Instrument) : Instrument :=
  { instrument with
    plugin := { instrument.plugin with name }
    name := if instrument.name = instrument.plugin.id then name else instrument.name }

/-- Name the lanes whose plug-ins have introspected. -/
def Tables.nameLanes (names : List (InstrumentId × String)) (project : Tables) : Tables :=
  names.foldl (fun project entry =>
    (project.updateInstrument entry.1 (Instrument.named entry.2)).getD project) project

namespace Session

/-- The project that is open. -/
def project (s : Session) : Tables := s.bus.project

/-! ### Publishing -/

/-- The clips that fitted a pattern whose length has changed, with the length it has now. -/
def fittedClips (s : Session) : List (ClipId × ℤ) :=
  s.project.patterns.entries.flatMap fun entry =>
    let length := patternEffectiveLength entry.2
    match s.patternLengths.get? entry.1 with
    -- a pattern that is seen for the first time has no previous length
    | none => []
    | some previous =>
      if previous = length then []
      else (s.project.clips.keysWhere fun clip =>
        clip.pattern = some entry.1 && clip.length = previous).map (·, length)

def fitClipsToPatterns (s : Session) : Session :=
  { s with
    patternLengths := s.project.patterns.mapValues fun _ => patternEffectiveLength
    bus := { s.bus with project := s.project.setLengths s.fittedClips }
    dirty := s.dirty || !s.fittedClips.isEmpty }

/-- One clip of the pattern, from the start, and nothing else. -/
def previewClips (project : Tables) (id : PatternId) (pattern : Pattern) :
    OrderedMap ClipId Clip :=
  match project.clips.entries.find? fun entry => entry.2.pattern = some id with
  | none => .empty
  | some entry =>
    OrderedMap.empty.assign entry.1
      { entry.2 with start := 0, length := patternEffectiveLength pattern }

/-- The notes of one instrument. -/
def soloSequence (instrument : Option InstrumentId) (pattern : Pattern) : Pattern :=
  match instrument with
  | none => pattern
  | some instrument =>
    { pattern with sequences := pattern.sequences.filter fun id _ => id = instrument }

/-- The project that is heard while a pattern is previewed. -/
def previewProject (s : Session) (id : PatternId) : Tables :=
  match s.project.patterns.get? id with
  | none => { s.project with clips := .empty }
  | some pattern =>
    { s.project with
      clips := previewClips s.project id pattern
      patterns := s.project.patterns.modify id (soloSequence s.previewInstrument) }

/-- The schedule of a preview, or that of the project when it is dirty. -/
def reflatten (s : Session) : Option FlattenResult :=
  match s.patternPreview, s.currentPattern with
  | true, some id => some (flatten (s.previewProject id) { sampleRate := s.sampleRate })
  | _, _ =>
    if s.dirty then
      some (flatten s.project { sampleRate := s.sampleRate, generation := s.generation + 1 })
    else none

/-- The scheduler flattens the project, and not a preview. -/
def flushes (s : Session) : Bool := !(s.patternPreview && s.currentPattern.isSome) && s.dirty

/-- Keep a schedule and the tables of indices that go with it. -/
def adoptFlattened (s : Session) (flattened : Option FlattenResult) : Session :=
  match flattened with
  | none => s
  | some flattened =>
    { s with
      audioChannelIndices := flattened.audioChannelIndex
      effectIndices := flattened.effectIndex
      published := some flattened.schedule }

/-- Flatten what is to be heard. -/
def flush (s : Session) : Session :=
  let flushed : Session :=
    if s.flushes then { s with dirty := false, generation := s.generation + 1 } else s
  flushed.adoptFlattened s.reflatten

/-- A flush touches what it keeps, and the scheduler. -/
theorem flush_eq (s : Session) : ∃ dirty generation audio effects published,
    s.flush = { s with
      dirty, generation, audioChannelIndices := audio, effectIndices := effects, published } := by
  unfold flush adoptFlattened
  dsimp only
  split_ifs
  all_goals
    cases s.reflatten with
    | none | some flattened => exact ⟨_, _, _, _, _, rfl⟩

/-- The selected instrument has a plug-in that works. -/
def instanceView (s : Session) : Bool :=
  match s.selectedInstrument with
  | none => false
  | some id =>
    s.project.instruments.contains id &&
      match s.hosting.hosted.get? id with
      | none => false
      | some slot => !slot.failed

def refreshInstanceView (s : Session) : Session := { s with hasInstance := s.instanceView }

/-- Bring the plug-ins in line with the instruments, and the names of the instruments with the
plug-ins. -/
def syncHosted (host : InstrumentId → HostAnswer) (replaced : Bool) (s : Session) : Session :=
  let publish : Publish := ⟨replaced, s.project.instruments, host⟩
  let found := s.hosting.found publish
  let names := found.names s.project.instruments host
  { s with
    hosting := found.sync s.project.instruments host
    bus := { s.bus with project := s.project.nameLanes names }
    dirty := s.dirty || !names.isEmpty
    publishes := s.publishes ++ [publish] }

def publishModel (host : InstrumentId → HostAnswer) (s : Session) (replaced : Bool := false) :
    Session :=
  ((s.fitClipsToPatterns.flush).syncHosted host replaced).refreshInstanceView

/-! ### The history -/

/-- `CommandBus::execute`, with the scheduler listening. -/
def execute (command : Option Command) (s : Session) : Bool × Session :=
  let executed := s.bus.execute command
  (executed.1, { s with
    bus := executed.2
    dirty := s.dirty || (command.map fun command => command.emitsApply s.project).getD false })

def undo (s : Session) : Bool × Session :=
  let undone := s.bus.undo
  (undone.1, { s with
    bus := undone.2
    dirty := s.dirty ||
      (s.bus.undoStack.head?.map fun entry => entry.emitsRevert s.project).getD false })

def redo (s : Session) : Bool × Session :=
  let redone := s.bus.redo
  (redone.1, { s with
    bus := redone.2
    dirty := s.dirty ||
      (s.bus.redoStack.head?.map fun entry => entry.emitsApply s.project).getD false })

def beginTransaction (s : Session) : Session := { s with bus := s.bus.beginTransaction }

def commitTransaction (s : Session) : Session := { s with bus := s.bus.commitTransaction }

def abortTransaction (s : Session) : Session :=
  { s with
    bus := s.bus.abortTransaction
    dirty := s.dirty || (s.bus.opened.head?.map fun commands =>
      (Command.composite commands).emitsRevert s.project).getD false }

/-- Execute a command and publish what it did. -/
def executeModel (host : InstrumentId → HostAnswer) (command : Option Command) (s : Session) :
    Bool × Session :=
  let executed := s.execute command
  if executed.1 then (true, executed.2.publishModel host) else executed

/-- Build and execute commands one after the other, until one fails. -/
def executeAll : List (Tables → Option Command) → Session → Bool × Session
  | [], s => (true, s)
  | build :: builds, s =>
    let executed := s.execute (build s.project)
    if executed.1 then executeAll builds executed.2 else executed

/-- Execute commands as one entry of the history, or take all of them back. -/
def transact (builds : List (Tables → Option Command)) (s : Session) : Bool × Session :=
  let executed := s.beginTransaction.executeAll builds
  if executed.1 then (true, executed.2.commitTransaction)
  else (false, executed.2.abortTransaction)

end Session

end OneBeat
