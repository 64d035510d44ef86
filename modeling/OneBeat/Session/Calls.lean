import OneBeat.Session.Edits

/-!
# The calls of a session

The entry points of `abi/onebeat_abi.cpp` that do more than one command, that select something, or
that replace the project; `Session.call` is all of them, and `Session.Reachable` what comes up when
they are called in any order.

Ids that are minted, what a file holds, and what the machine answers when plug-ins are loaded are
arguments of a call.  The scratch plug-in of a saved session, which belongs to no instrument, is
left out, and so are the calls that reach neither the project nor what is published.
-/

namespace OneBeat

/-- How many playlist lanes a project starts with. -/
def kDefaultLaneCount : ℕ := 60

/-- The ids a new project is made of. -/
structure FreshIds where
  master : MixerTrackId
  pattern : PatternId
  lane : ℕ → ArrangementLaneId
  clip : ClipId

/-- A project with one pattern, placed once. -/
def freshProject (ids : FreshIds) : Tables :=
  { newProject ids.master with
    patterns := OrderedMap.empty.assign ids.pattern
      { name := "Pattern 1", length := ticksPerBarFourFour, order := 0 }
    lanes := (List.range kDefaultLaneCount).foldl (fun lanes i => lanes.assign (ids.lane i)
      { name := if i = 0 then "Patterns" else "Track " ++ toString (i + 1), order := i }) .empty
    clips := OrderedMap.empty.assign ids.clip
      { lane := ids.lane 0, source := .pattern ids.pattern, start := 0
        length := ticksPerBarFourFour } }

/-- The ids a split by channel mints, for each channel. -/
structure SplitIds where
  pattern : ℕ → PatternId
  lane : ℕ → ArrangementLaneId
  clip : ℕ → ClipId

/-- An entry point and its arguments; `host` answers at the first publish, `again` at the second. -/
inductive Call
  | edit (edit : Edit) (host : InstrumentId → HostAnswer)
  | instrumentSelect (id : InstrumentId)
  | instrumentReplace (id : InstrumentId) (plugin : PluginRef)
      (host again : InstrumentId → HostAnswer)
  | instrumentReplaceSample (id : InstrumentId) (name path : String)
      (host : InstrumentId → HostAnswer)
  | instrumentDuplicate (track : MixerTrackId) (copy id : InstrumentId)
      (host : InstrumentId → HostAnswer)
  | instrumentRemove (id : InstrumentId) (host : InstrumentId → HostAnswer)
  | instrumentAddSample (id : InstrumentId) (track : MixerTrackId) (name path : String)
      (host : InstrumentId → HostAnswer)
  | instanceAdd (id : InstrumentId) (track : MixerTrackId) (plugin : PluginRef)
      (host again : InstrumentId → HostAnswer)
  | instanceRemove (host : InstrumentId → HostAnswer)
  | projectUndo (host : InstrumentId → HostAnswer)
  | projectRedo (host : InstrumentId → HostAnswer)
  | rackSetRowGrid (id : InstrumentId) (grid : ℤ)
  | rackSetLength (steps : ℤ) (host : InstrumentId → HostAnswer)
  | rackGestureBegin
  | rackGestureCommit (host : InstrumentId → HostAnswer)
  | rackGestureAbort (host : InstrumentId → HostAnswer)
  | patternSelect (id : PatternId) (host : InstrumentId → HostAnswer)
  | patternPreviewStart (id : PatternId) (host : InstrumentId → HostAnswer)
  | patternPreviewChannelStart (id : PatternId) (instrument : InstrumentId)
      (host : InstrumentId → HostAnswer)
  | patternPreviewStop (host : InstrumentId → HostAnswer)
  | patternCreate (id : PatternId) (name : String) (host : InstrumentId → HostAnswer)
  | patternDuplicate (copy id : PatternId) (host : InstrumentId → HostAnswer)
  | patternRemove (id : PatternId) (host again : InstrumentId → HostAnswer)
  | patternReorder (id : PatternId) (order : ℤ) (host : InstrumentId → HostAnswer)
  | clipDuplicate (copy id : ClipId) (lane : Option ArrangementLaneId) (start : ℤ)
      (host : InstrumentId → HostAnswer)
  | clipsMakeUnique (copy : PatternId) (ids : List ClipId) (host : InstrumentId → HostAnswer)
  | clipSplitByChannel (ids : SplitIds) (id : ClipId) (host : InstrumentId → HostAnswer)
  | projectNew (ids : FreshIds) (host : InstrumentId → HostAnswer)
  /-- What the file holds, if it can be read. -/
  | projectOpen (loaded : Option Tables) (host : InstrumentId → HostAnswer)
  /-- The references of the states that were written beside the project. -/
  | projectSave (states : List (InstrumentId × String × String))
  | projectSetName (name : String)

namespace Session

variable (s : Session) (host again : InstrumentId → HostAnswer)

/-- An engine that was just created, with a project in it. -/
def create (ids : FreshIds) (sampleRate : Double) : Session :=
  publishModel host
    { bus := .start (freshProject ids), sampleRate, currentPattern := some ids.pattern }

/-! ### Instruments -/

/-- The instrument at a position of the rack. -/
def orderedInstrument (index : ℕ) : Option InstrumentId :=
  let entries := s.project.instruments.entries
  (entries.find? fun entry =>
    entries.countP (fun other => other.2.order < entry.2.order) = index).map Prod.fst

/-- The instrument that was added last. -/
def lastInstrument : Option InstrumentId :=
  (s.project.instruments.entries.find? fun entry =>
    entry.2.order = (s.project.instruments.size : ℤ) - 1).map Prod.fst

/-- The plug-in of an instrument was hosted. -/
def hosts (id : InstrumentId) : Bool :=
  match s.hosting.hosted.get? id with
  | none => false
  | some slot => !slot.failed

def samplePlugin (name path : String) : PluginRef :=
  { format := .builtin, id := kSamplePluginId, name, vendor := "OneBeat", pathHint := path }

def instrumentSelect (id : InstrumentId) : Bool × Session :=
  if !s.project.instruments.contains id then (false, s)
  else if s.selectedInstrument = some id then (true, s)
  else (true, { s with selectedInstrument := some id }.refreshInstanceView)

/-- Take the last entry back and publish, whatever the undo says. -/
def takeBack : Session := s.undo.2.publishModel again

def instrumentReplace (id : InstrumentId) (plugin : PluginRef) : Bool × Session :=
  let replaced := s.executeModel host (replaceInstrument s.project id plugin)
  if !replaced.1 then replaced
  else if replaced.2.hosts id then replaced
  else (false, replaced.2.takeBack again)

def instrumentReplaceSample (id : InstrumentId) (name path : String) : Bool × Session :=
  let replaced := s.executeModel host (replaceInstrument s.project id (samplePlugin name path))
  if !replaced.1 then replaced
  else (true, { replaced.2 with selectedInstrument := some id, hasInstance := false })

def instrumentDuplicate (track : MixerTrackId) (copy id : InstrumentId) : Bool × Session :=
  let added := s.executeModel host (duplicateInstrument s.project track copy id)
  if !added.1 then added
  else
    match added.2.orderedInstrument (added.2.project.instruments.size - 1) with
    | none => added
    | some duplicate => (true, { added.2 with selectedInstrument := some duplicate })

def instrumentRemove (id : InstrumentId) : Bool × Session :=
  if !s.project.instruments.contains id then (false, s)
  else
    let left : Session :=
      if s.selectedInstrument = some id then
        { s with hasInstance := false, selectedInstrument := none }
      else s
    let removed := left.executeModel host (some (removeInstrument id))
    if !removed.1 then removed
    else if removed.2.selectedInstrument.isSome then removed
    else
      match removed.2.orderedInstrument 0 with
      | none => removed
      | some first => (true, (removed.2.instrumentSelect first).2)

def instrumentAddSample (id : InstrumentId) (track : MixerTrackId) (name path : String) :
    Bool × Session :=
  let added := s.executeModel host
    (some (addInstrument s.project true id track name (samplePlugin name path)))
  if !added.1 then added
  else
    match added.2.lastInstrument with
    | none => (false, added.2)
    | some last => (true, { added.2 with selectedInstrument := some last, hasInstance := false })

def instanceAdd (id : InstrumentId) (track : MixerTrackId) (plugin : PluginRef) :
    Bool × Session :=
  let added := s.executeModel host (some (addInstrumentNamed s.project true id track plugin))
  if !added.1 then added
  else
    match added.2.lastInstrument with
    | none => (false, added.2)
    | some last =>
      if added.2.hosts last then
        (true, { added.2 with selectedInstrument := some last }.refreshInstanceView)
      else (false, added.2.takeBack again)

def instanceRemove : Bool × Session :=
  match s.hasInstance, s.selectedInstrument with
  | true, some id =>
    let removed := s.executeModel host (some (removeInstrument id))
    if !removed.1 then removed
    else (true, { removed.2 with selectedInstrument := none }.refreshInstanceView)
  | _, _ => (false, s)

/-! ### The history -/

/-- The selected lane was undone out of existence. -/
def repairSelection : Session :=
  match s.selectedInstrument with
  | none => s
  | some id =>
    if s.project.instruments.contains id then s
    else { s with hasInstance := false, selectedInstrument := none }

def projectUndo : Bool × Session :=
  let undone := s.undo
  if !undone.1 then undone else (true, undone.2.repairSelection.publishModel host)

def projectRedo : Bool × Session :=
  let redone := s.redo
  if !redone.1 then redone else (true, redone.2.repairSelection.publishModel host)

/-! ### The rack -/

def rackSetRowGrid (id : InstrumentId) (grid : ℤ) : Bool × Session :=
  if grid ∉ [120, 240, 480] ∨ !s.project.instruments.contains id then (false, s)
  else (true, { s with rackGrids := s.rackGrids.assign id grid })

/-- What the pattern will play once its declared length is `length`. -/
def lengthToBe (pattern : Pattern) (length : ℤ) : ℤ :=
  if patternContentEnd pattern ≤ length then length else patternLoopLength pattern

/-- Every placement that fits the pattern is resized by an edit of its own. -/
def rackSetLength (steps : ℤ) : Bool × Session :=
  if steps < 0 ∨ 512 < steps then (false, s)
  else
    match s.currentPatternOf with
    | none => (false, s)
    | some (id, pattern) =>
      let length := if steps = 0 then 0 else steps * ticksPerQuarter / 4
      let fitting := s.project.clips.keysWhere fun clip =>
        clip.pattern = some id && clip.length = patternEffectiveLength pattern
      let resized := fitting.foldl (fun s clip => (s.execute (editClip s.project clip .length
        fun live => { live with length := lengthToBe pattern length })).2) s
      resized.executeModel host
        (editPatternMeta resized.project id .length fun value => { value with length })

def rackGestureBegin : Bool × Session :=
  if s.bus.opened ≠ [] then (false, s) else (true, s.beginTransaction)

def rackGestureCommit : Bool × Session :=
  if s.bus.opened = [] then (false, s) else (true, s.commitTransaction.publishModel host)

def rackGestureAbort : Bool × Session :=
  if s.bus.opened = [] then (false, s) else (true, s.abortTransaction.publishModel host)

/-! ### Patterns -/

/-- `base 2`, `base 3`, …, the first that no pattern is called. -/
def derivedPatternName (project : Tables) (base : String) : String :=
  let names := project.patterns.entries.map fun entry => entry.2.name
  (((List.range 998).map fun i => base ++ " " ++ toString (i + 2)).find? fun candidate =>
    candidate ∉ names).getD (base ++ " copy")

def uniquePatternName (project : Tables) (base : String) : String :=
  if base ∈ project.patterns.entries.map fun entry => entry.2.name then
    derivedPatternName project base
  else base

def patternSelect (id : PatternId) : Bool × Session :=
  if !s.project.patterns.contains id then (false, s)
  else (true, { s with currentPattern := some id }.publishModel host)

def patternPreviewStart (id : PatternId) : Bool × Session :=
  if !s.project.patterns.contains id then (false, s)
  else (true, { s with
    currentPattern := some id, patternPreview := true, previewInstrument := none }.publishModel
      host)

def patternPreviewChannelStart (id : PatternId) (instrument : InstrumentId) : Bool × Session :=
  if !s.project.patterns.contains id ∨ !s.project.instruments.contains instrument then (false, s)
  else (true, { s with
    currentPattern := some id, patternPreview := true
    previewInstrument := some instrument }.publishModel host)

def patternPreviewStop : Bool × Session :=
  if s.patternPreview then
    (true, { s with patternPreview := false, previewInstrument := none, dirty := true }.publishModel
      host)
  else (true, s)

/-- Go on with the pattern that was just made, and publish. -/
def continueWith (id : PatternId) (done : Bool × Session) : Bool × Session :=
  if done.1 then (true, { done.2 with currentPattern := some id }.publishModel host)
  else (false, done.2)

def patternCreate (id : PatternId) (name : String) : Bool × Session :=
  continueWith host id (s.execute (some (addPattern s.project id
    (if name = "" then derivedPatternName s.project "Pattern" else name) ticksPerBarFourFour)))

/-- `clonePattern`: the settings of a pattern and every sequence, into a new one. -/
def clonePattern (copy : PatternId) (source : Pattern) (name : String) :
    List (Tables → Option Command) :=
  [fun project => some (addPattern project copy name source.length),
    fun project => editPatternMeta project copy .color fun value =>
      { value with
        color := source.color
        swing := source.swing
        group := source.group
        timeSignature := source.timeSignature }] ++
  (source.sequences.entries.filter fun entry => !entry.2.empty).map fun entry _ =>
    some (.note (insertNotes copy entry.1 entry.2.notes))

def patternDuplicate (copy id : PatternId) : Bool × Session :=
  match s.project.patterns.get? id with
  | none => (false, s)
  | some source =>
    continueWith host copy
      (s.transact (clonePattern copy source (derivedPatternName s.project source.name)))

/-- Patterns in the order they are shown in. -/
def orderedPatterns (project : Tables) : List (PatternId × Pattern) :=
  project.patterns.entries.insertionSort fun a b => a.2.order ≤ b.2.order

/-- The selection has to land somewhere real. -/
def patternRemove (id : PatternId) : Bool × Session :=
  if !s.project.patterns.contains id ∨ s.project.patterns.size ≤ 1 then (false, s)
  else
    let removed := s.executeModel host (some (removePattern id))
    if !removed.1 then removed
    else if removed.2.currentPattern = some id then
      let first := (orderedPatterns removed.2.project).head?.map Prod.fst
      (true, { removed.2 with
        currentPattern := first.or removed.2.currentPattern }.publishModel again)
    else removed

def patternReorder (id : PatternId) (order : ℤ) : Bool × Session :=
  if order < 0 ∨ !s.project.patterns.contains id then (false, s)
  else
    let before := orderedPatterns s.project
    let target := min order.toNat (before.length - 1)
    match before.findIdx? fun entry => entry.1 = id, s.project.patterns.get? id with
    | some source, some pattern =>
      if source = target then (true, s)
      else
        let after := (before.eraseIdx source).insertIdx target (id, pattern)
        let moving := after.zipIdx.filter fun entry => entry.1.2.order ≠ entry.2
        let done := s.transact (moving.map fun entry project =>
          editPatternMeta project entry.1.1 .order fun value => { value with order := entry.2 })
        if done.1 then (true, done.2.publishModel host) else (false, done.2)
    | _, _ => (false, s)

/-! ### Clips -/

/-- A copy keeps the transforms. -/
def clipDuplicate (copy id : ClipId) (lane : Option ArrangementLaneId) (start : ℤ) :
    Bool × Session :=
  match s.project.clips.get? id with
  | none => (false, s)
  | some source =>
    let lane := lane.getD source.lane
    if start < 0 ∨ !s.project.lanes.contains lane then (false, s)
    else
      let done := s.transact
        [fun _ => some (addClip copy lane source.source start source.length),
          fun project => editClip project copy .transforms fun clip =>
            { clip with transforms := source.transforms, muted := source.muted }]
      if done.1 then (true, done.2.publishModel host) else (false, done.2)

/-- The one pattern that all of the clips play. -/
def sharedPattern (ids : List ClipId) : Option PatternId :=
  match ids.map fun id => (s.project.clips.get? id).bind Clip.pattern with
  | [] => none
  | first :: rest => if rest.all (· = first) then first else none

/-- One clone for the whole selection. -/
def clipsMakeUnique (copy : PatternId) (ids : List ClipId) : Bool × Session :=
  match (s.sharedPattern ids).bind s.project.patterns.get? with
  | none => (false, s)
  | some source =>
    continueWith host copy (s.transact
      (clonePattern copy source (derivedPatternName s.project source.name) ++
        ids.map fun id project => editClip project id .source fun clip =>
          { clip with source := .pattern copy }))

/-- The channels a pattern uses, in rack order. -/
def usedChannels (pattern : Pattern) : List (InstrumentId × NoteSequence) :=
  (pattern.sequences.entries.filter fun entry => !entry.2.empty).insertionSort fun a b =>
    ((s.project.instruments.get? a.1).map Instrument.order).getD 0 ≤
      ((s.project.instruments.get? b.1).map Instrument.order).getD 0

/-- The steps for one channel: its own pattern, its lane, and its clip. -/
def splitChannel (ids : SplitIds) (pattern : Pattern) (original : Clip) (sourceOrder : ℤ)
    (entry : (InstrumentId × NoteSequence) × ℕ) : List (Tables → Option Command) :=
  let instrument := s.project.instruments.get? entry.1.1
  let name := match instrument with
    | some instrument => if instrument.name = "" then "Channel" else instrument.name
    | none => "Channel"
  let color := (instrument.map Instrument.color).getD pattern.color
  let copy := ids.pattern entry.2
  let lane := if entry.2 = 0 then original.lane else ids.lane entry.2
  [fun project => some (addPattern project copy (uniquePatternName project name)
      (patternEffectiveLength pattern)),
    fun project => editPatternMeta project copy .color fun value =>
      { value with
        color
        swing := pattern.swing
        group := pattern.group
        timeSignature := pattern.timeSignature },
    fun _ => some (.note (insertNotes copy entry.1.1 entry.1.2.notes))] ++
  (if entry.2 = 0 then []
    else [fun project => some (addLane project lane name),
      fun project => editLane project lane .order fun live =>
        { live with order := sourceOrder + entry.2, color }]) ++
  [fun _ => some (addClip (ids.clip entry.2) lane (.pattern copy) original.start original.length),
    fun project => editClip project (ids.clip entry.2) .all fun clip =>
      { clip with muted := original.muted, transforms := original.transforms }]

/-- Lanes in the order they are drawn in. -/
def orderedLanes (project : Tables) : List (ArrangementLaneId × ArrangementLane) :=
  project.lanes.entries.insertionSort fun a b => a.2.order ≤ b.2.order

/-- Open a gap below the source lane, the bottom lane first. -/
def openGap (sourceOrder extra : ℤ) : List (Tables → Option Command) :=
  ((orderedLanes s.project).reverse.filter fun entry => sourceOrder < entry.2.order).map
    fun entry project => editLane project entry.1 .order fun lane =>
      { lane with order := entry.2.order + extra }

def clipSplitByChannel (ids : SplitIds) (id : ClipId) : Bool × Session :=
  match s.project.clips.get? id with
  | none => (false, s)
  | some original =>
    match original.pattern.bind s.project.patterns.get? with
    | none => (false, s)
    | some pattern =>
      let channels := s.usedChannels pattern
      if channels.length < 2 then (true, s)
      else
        let sourceOrder :=
          ((s.project.lanes.get? original.lane).map ArrangementLane.order).getD 0
        continueWith host (ids.pattern 0) (s.transact
          (s.openGap sourceOrder (channels.length - 1) ++
            channels.zipIdx.flatMap (s.splitChannel ids pattern original sourceOrder) ++
            [fun _ => some (removeClip id)]))

/-! ### Projects -/

/-- Another project takes the place of the one that is open. -/
def replaceProject (project : Tables) (current : Option PatternId) : Session :=
  { s with
    bus := .start project
    rackGrids := .empty
    selectedInstrument := none
    currentPattern := current
    patternLengths := .empty
    hasInstance := false }

/-- The tables are adopted; nobody is notified. -/
def projectNew (ids : FreshIds) : Bool × Session :=
  (true, (s.replaceProject (freshProject ids) (some ids.pattern)).publishModel host true)

def projectOpen (loaded : Option Tables) : Bool × Session :=
  match loaded with
  | none => (false, { s with patternLengths := .empty })
  | some project =>
    (true, { s.replaceProject project project.patterns.keys.head? with dirty := true }.publishModel
      host true)

/-- The reference of the state that was saved for an instrument. -/
def stateSaved (stateRef sha256 : String) (instrument : Instrument) : Instrument :=
  { instrument with plugin := { instrument.plugin with stateRef, stateSha256 := sha256 } }

/-- Fold the references that were written into the model, without a command. -/
def projectSave (states : List (InstrumentId × String × String)) : Bool × Session :=
  (true, { s with
    bus := { s.bus with project := states.foldl (fun project entry =>
      (project.updateInstrument entry.1 (stateSaved entry.2.1 entry.2.2)).getD project) s.project }
    dirty := s.dirty || states.any fun entry => s.project.instruments.contains entry.1 })

def projectSetName (name : String) : Bool × Session :=
  if name = "" then (false, s)
  else if s.project.metadata.name = name then (true, s)
  else
    let named := s.execute (some (setProjectMeta s.project { s.project.metadata with name }))
    (named.1, { named.2 with bus := named.2.bus.sealHistory })

/-! ### All of them -/

/-- Call an entry point: whether it succeeded, and the session after it. -/
def call : Call → Bool × Session
  | .edit edit host => s.edit host edit
  | .instrumentSelect id => s.instrumentSelect id
  | .instrumentReplace id plugin host again => s.instrumentReplace host again id plugin
  | .instrumentReplaceSample id name path host => s.instrumentReplaceSample host id name path
  | .instrumentDuplicate track copy id host => s.instrumentDuplicate host track copy id
  | .instrumentRemove id host => s.instrumentRemove host id
  | .instrumentAddSample id track name path host => s.instrumentAddSample host id track name path
  | .instanceAdd id track plugin host again => s.instanceAdd host again id track plugin
  | .instanceRemove host => s.instanceRemove host
  | .projectUndo host => s.projectUndo host
  | .projectRedo host => s.projectRedo host
  | .rackSetRowGrid id grid => s.rackSetRowGrid id grid
  | .rackSetLength steps host => s.rackSetLength host steps
  | .rackGestureBegin => s.rackGestureBegin
  | .rackGestureCommit host => s.rackGestureCommit host
  | .rackGestureAbort host => s.rackGestureAbort host
  | .patternSelect id host => s.patternSelect host id
  | .patternPreviewStart id host => s.patternPreviewStart host id
  | .patternPreviewChannelStart id instrument host =>
    s.patternPreviewChannelStart host id instrument
  | .patternPreviewStop host => s.patternPreviewStop host
  | .patternCreate id name host => s.patternCreate host id name
  | .patternDuplicate copy id host => s.patternDuplicate host copy id
  | .patternRemove id host again => s.patternRemove host again id
  | .patternReorder id order host => s.patternReorder host id order
  | .clipDuplicate copy id lane start host => s.clipDuplicate host copy id lane start
  | .clipsMakeUnique copy ids host => s.clipsMakeUnique host copy ids
  | .clipSplitByChannel ids id host => s.clipSplitByChannel host ids id
  | .projectNew ids host => s.projectNew host ids
  | .projectOpen loaded host => s.projectOpen host loaded
  | .projectSave states => s.projectSave states
  | .projectSetName name => s.projectSetName name

/-- What holds of the session whichever way a call answers. -/
theorem of_ite {P : Session → Prop} {c : Prop} [Decidable c] {first second : Bool × Session}
    (h : P first.2) (h' : P second.2) : P (if c then first else second).2 := by
  split_ifs
  · exact h
  · exact h'

/-- The calls of a session, in any order. -/
def system : TransitionSystem Session Call where
  step s call := some (s.call call).2

end Session

end OneBeat
