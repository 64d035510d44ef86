import OneBeat.Commands.RackRoster
import OneBeat.Session.Clones

/-!
# The instance surface

What `abi/onebeat_abi.cpp` keeps about the selected instrument beside its id: the channel of the
engine that auditioned notes are played on (`Engine::setAuditionChannel`), and what the instance
calls report (`refreshInstanceView`).  Every entry point of the rack refreshes a part of it.

`Surface.call` is those entry points, `Surface.Follows` says that both are those of the selected
instrument, and `Surface.Refreshes` which calls see to it.
-/

namespace OneBeat

/-- What the instance calls report of a plug-in. -/
structure InstanceView where
  path : String := ""
  pluginId : String := ""
  name : String := ""
  vendor : String := ""
  format : PluginFormat := .clap
  missing : Bool := false
  deriving DecidableEq

/-- A session, the channel that is auditioned, and the instance that is reported. -/
structure Surface where
  session : Session
  auditionChannel : ℕ := 0
  view : InstanceView := {}

/-- A project that was read: the reader elects a master track, and refuses a null id. -/
structure OpenedProject where
  project : Tables
  validIds : ∀ id, project.instruments.contains id = true → id.valid = true
  master : project.mixerTracks.contains project.master = true

/-- An entry point that selects, adds, moves or removes instruments, or replaces the project. -/
inductive SurfaceCall
  | instrumentSelect (id : InstrumentId)
  | instrumentReorder (id : InstrumentId) (order : ℤ) (host : InstrumentId → HostAnswer)
  | instrumentReplace (id : InstrumentId) (plugin : PluginRef)
      (host again : InstrumentId → HostAnswer)
  | instrumentReplaceSample (id : InstrumentId) (name path : String)
      (host : InstrumentId → HostAnswer)
  | instrumentDuplicate (track : MixerTrackId) (copy id : InstrumentId)
      (host : InstrumentId → HostAnswer)
  | instrumentRemove (id : InstrumentId) (host : InstrumentId → HostAnswer)
  | instrumentAddEmpty (id : InstrumentId) (track : MixerTrackId) (name : String)
      (host : InstrumentId → HostAnswer)
  | instrumentAddSample (id : InstrumentId) (track : MixerTrackId) (name path : String)
      (host : InstrumentId → HostAnswer)
  | instanceAdd (id : InstrumentId) (track : MixerTrackId) (plugin : PluginRef)
      (host again : InstrumentId → HostAnswer)
  | instanceRemove (host : InstrumentId → HostAnswer)
  | projectUndo (host : InstrumentId → HostAnswer)
  | projectRedo (host : InstrumentId → HostAnswer)
  | projectNew (ids : FreshIds) (host : InstrumentId → HostAnswer)
  | projectOpen (loaded : Option OpenedProject) (host : InstrumentId → HostAnswer)

/-- The channel of an instrument. -/
def Session.channelOf (s : Session) (id : InstrumentId) : Option ℕ :=
  channelIndexOf s.project.instruments id

namespace Surface

variable (s : Surface) (host again : InstrumentId → HostAnswer)

/-! ### What is refreshed -/

/-- `Engine::setAuditionChannel`: an index that is none of the channels is ignored. -/
def setAuditionChannel (index : Option ℕ) : Surface :=
  match index with
  | none => s
  | some index => if index < maxRackChannels then { s with auditionChannel := index } else s

/-- What is reported of an instrument whose plug-in was not hosted, and of one whose was. -/
def viewOf (instrument : Instrument) (slot : Option HostedSlot) : InstanceView :=
  let named : InstanceView :=
    { path := instrument.plugin.pathHint
      pluginId := instrument.plugin.id
      name := instrument.plugin.name
      vendor := instrument.plugin.vendor
      format := instrument.plugin.format }
  match slot with
  | none => named
  | some slot =>
    if slot.failed then named
    else { named with
      name := if slot.name = "" then named.name else slot.name
      missing := slot.missing }

/-- `refreshInstanceView`, but for the flag the session keeps. -/
def refreshView : Surface :=
  match s.session.selectedInstrument with
  | none => { s with view := { s.view with missing := false } }
  | some id =>
    match s.session.project.instruments.get? id with
    | none => { s with view := { s.view with missing := false } }
    | some instrument =>
      { s with view := viewOf instrument (s.session.hosting.hosted.get? id) }

def refreshInstanceView : Surface :=
  { s with session := s.session.refreshInstanceView }.refreshView

/-- `syncChannels` moves the auditioned channel to the selected instrument. -/
def syncAudition : Surface :=
  s.setAuditionChannel (s.session.selectedInstrument.bind s.session.channelOf)

def publishModel (replaced : Bool := false) : Surface :=
  { s.syncAudition with session := s.session.publishModel host replaced }.refreshView

def executeModel (command : Option Command) : Bool × Surface :=
  let executed := s.session.execute command
  if executed.1 then (true, { s with session := executed.2 }.publishModel host)
  else (false, { s with session := executed.2 })

/-! ### The entry points -/

/-- A new engine, with a project in it. -/
def create (ids : FreshIds) (sampleRate : Double) : Surface :=
  { session := .create host ids sampleRate }

def instrumentSelect (id : InstrumentId) : Surface :=
  if !s.session.project.instruments.contains id then s
  else if s.session.selectedInstrument = some id then s
  else
    { s with session := { s.session with
        selectedInstrument := some id } }.refreshInstanceView.setAuditionChannel
      (s.session.channelOf id)

/-- Execute the command of an edit. -/
def edit (edit : Edit) : Surface :=
  match s.session.reply edit with
  | .refused => s
  | .done => s
  | .model command => (s.executeModel host command).2

/-- Take the last entry back and publish, whatever the undo says. -/
def takeBack : Surface := { s with session := s.session.undo.2 }.publishModel again

def instrumentReplace (id : InstrumentId) (plugin : PluginRef) : Surface :=
  let replaced := s.executeModel host (replaceInstrument s.session.project id plugin)
  if !replaced.1 then replaced.2
  else if replaced.2.session.hosts id then replaced.2
  else replaced.2.takeBack again

def instrumentReplaceSample (id : InstrumentId) (name path : String) : Surface :=
  let replaced := s.executeModel host
    (replaceInstrument s.session.project id (Session.samplePlugin name path))
  if !replaced.1 then replaced.2
  else
    { replaced.2 with session := { replaced.2.session with
        selectedInstrument := some id, hasInstance := false } }.setAuditionChannel
      (replaced.2.session.channelOf id)

/-- The copy is selected, and neither the channel nor the view follows. -/
def instrumentDuplicate (track : MixerTrackId) (copy id : InstrumentId) : Surface :=
  let added := s.executeModel host (duplicateInstrument s.session.project track copy id)
  if !added.1 then added.2
  else
    match added.2.session.orderedInstrument (added.2.session.project.instruments.size - 1) with
    | none => added.2
    | some duplicate =>
      { added.2 with session := { added.2.session with selectedInstrument := some duplicate } }

def instrumentRemove (id : InstrumentId) : Surface :=
  if !s.session.project.instruments.contains id then s
  else
    let left : Surface :=
      if s.session.selectedInstrument = some id then
        { s with session := { s.session with hasInstance := false, selectedInstrument := none } }
      else s
    let removed := left.executeModel host (some (removeInstrument id))
    if !removed.1 then removed.2
    else if removed.2.session.selectedInstrument.isSome then removed.2
    else
      match removed.2.session.orderedInstrument 0 with
      | none => removed.2
      | some first => removed.2.instrumentSelect first

def instrumentAddSample (id : InstrumentId) (track : MixerTrackId) (name path : String) :
    Surface :=
  let added := s.executeModel host (some
    (addInstrument s.session.project true id track name (Session.samplePlugin name path)))
  if !added.1 then added.2
  else
    match added.2.session.lastInstrument with
    | none => added.2
    | some last =>
      { added.2 with session := { added.2.session with
          selectedInstrument := some last, hasInstance := false } }.setAuditionChannel
        (added.2.session.channelOf last)

def instanceAdd (id : InstrumentId) (track : MixerTrackId) (plugin : PluginRef) : Surface :=
  let added := s.executeModel host
    (some (addInstrumentNamed s.session.project true id track plugin))
  if !added.1 then added.2
  else
    match added.2.session.lastInstrument with
    | none => added.2
    | some last =>
      if added.2.session.hosts last then
        { added.2 with session := { added.2.session with
            selectedInstrument := some last } }.refreshInstanceView.setAuditionChannel
          (added.2.session.channelOf last)
      else added.2.takeBack again

def instanceRemove : Surface :=
  match s.session.hasInstance, s.session.selectedInstrument with
  | true, some id =>
    let removed := s.executeModel host (some (removeInstrument id))
    if !removed.1 then removed.2
    else
      { removed.2 with session := { removed.2.session with
          selectedInstrument := none } }.refreshInstanceView
  | _, _ => s

def projectUndo : Surface :=
  let undone := s.session.undo
  if !undone.1 then { s with session := undone.2 }
  else { s with session := undone.2.repairSelection }.publishModel host

def projectRedo : Surface :=
  let redone := s.session.redo
  if !redone.1 then { s with session := redone.2 }
  else { s with session := redone.2.repairSelection }.publishModel host

def projectNew (ids : FreshIds) : Surface :=
  { s with session := s.session.replaceProject (freshProject ids) (some ids.pattern) }.publishModel
    host true

def projectOpen (loaded : Option Tables) : Surface :=
  match loaded with
  | none => { s with session := { s.session with patternLengths := .empty } }
  | some project =>
    { s with session := { s.session.replaceProject project project.patterns.keys.head? with
        dirty := true } }.publishModel host true

/-- Call an entry point. -/
def call : SurfaceCall → Surface
  | .instrumentSelect id => s.instrumentSelect id
  | .instrumentReorder id order host => s.edit host (.instrumentReorder id order)
  | .instrumentReplace id plugin host again => s.instrumentReplace host again id plugin
  | .instrumentReplaceSample id name path host => s.instrumentReplaceSample host id name path
  | .instrumentDuplicate track copy id host => s.instrumentDuplicate host track copy id
  | .instrumentRemove id host => s.instrumentRemove host id
  | .instrumentAddEmpty id track name host => s.edit host (.instrumentAddEmpty id track name)
  | .instrumentAddSample id track name path host => s.instrumentAddSample host id track name path
  | .instanceAdd id track plugin host again => s.instanceAdd host again id track plugin
  | .instanceRemove host => s.instanceRemove host
  | .projectUndo host => s.projectUndo host
  | .projectRedo host => s.projectRedo host
  | .projectNew ids host => s.projectNew host ids
  | .projectOpen loaded host => s.projectOpen host (loaded.map OpenedProject.project)

/-- The entry points, in any order. -/
def system : TransitionSystem Surface SurfaceCall where
  step s call := some (s.call call)

/-! ### What it should be -/

/-- The channel that parameters and the editor go to. -/
def instanceChannel : ℕ := (s.session.selectedInstrument.bind s.session.channelOf).getD 0

/-- What the instance calls report, if they report anything. -/
def shown : Option InstanceView := if s.session.hasInstance then some s.view else none

/-- The plug-in that works for an instrument, as it should be reported. -/
def instanceOf (id : InstrumentId) : Option InstanceView :=
  match s.session.project.instruments.get? id with
  | none => none
  | some instrument =>
    if s.session.hosts id then some (viewOf instrument (s.session.hosting.hosted.get? id)) else none

/-- Auditioned notes, parameters and the instance are those of the selected instrument. -/
def Follows : Prop :=
  ∀ id channel, s.session.selectedInstrument = some id → s.session.channelOf id = some channel →
    channel < maxRackChannels →
      s.auditionChannel = channel ∧ s.instanceChannel = channel ∧ s.shown = s.instanceOf id

/-- A call does not reach the defects: no instrument is duplicated, and where a sample is added no
instrument with a plug-in has the order the new one is looked up by. -/
def Refreshes : SurfaceCall → Prop
  | .instrumentDuplicate _ _ id _ => s.session.project.instruments.contains id = false
  | .instrumentAddSample .. =>
    ∀ entry ∈ s.session.project.instruments.entries,
      entry.2.order = s.session.project.instruments.size → isHostedInstrument entry.2 = false
  | _ => True

instance (call : SurfaceCall) : Decidable (s.Refreshes call) := by
  unfold Refreshes
  split <;> infer_instance

/-! ### The session underneath -/

variable {s host again}

@[simp] theorem session_setAuditionChannel (index : Option ℕ) :
    (s.setAuditionChannel index).session = s.session := by
  unfold setAuditionChannel
  split
  · rfl
  · split_ifs
    · rfl
    · rfl

@[simp] theorem session_refreshView : s.refreshView.session = s.session := by
  unfold refreshView
  split
  · rfl
  · split
    · rfl
    · rfl

@[simp] theorem session_publishModel (replaced : Bool) :
    (s.publishModel host replaced).session = s.session.publishModel host replaced := by
  rw [publishModel, session_refreshView]

@[simp] theorem session_refreshInstanceView :
    s.refreshInstanceView.session = s.session.refreshInstanceView := by
  rw [refreshInstanceView, session_refreshView]

end Surface

end OneBeat
