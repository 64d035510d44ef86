import OneBeat.Session.Export
import OneBeat.Session.HostedRuns

/-!
# Nobody else drives the engine

`exportSong` on its thread, step by step, between the calls of the user's thread and the blocks of
the device.  What a call does to the command ring, to the device and to the slots of the plug-ins
is kept (`Touch`) while the export is running.

`ob_engine_post_command` looks at the state of the export; what `publishModel` posts and hosts, the
pattern previews, the device and the scratch session do not.  Two publishes of one call are taken
together: what they do to the slots, then what they post.

* `exclusive_iff` : **nobody else drives the engine in a run exactly when every call that is made
  while the export is running is harmless.**
-/

namespace OneBeat.ExclusiveExport

/-! ### What a call does to the engine -/

inductive Touch
  | push (command : EngineCommand)
  | start
  | stop
  /-- Plug-ins go to other slots, or are dropped. -/
  | move
  | install (channel : ℕ)
  | remove (channel : ℕ)

/-- What has been done so far, and whether the device runs. -/
structure Doing where
  touches : List Touch := []
  running : Bool

namespace Doing

/-- Change the slots; a device that runs is stopped meanwhile. -/
def change (touch : Touch) (restarts : Bool) (doing : Doing) : Doing :=
  if doing.running then
    { touches := doing.touches ++ [.stop, touch, .start], running := restarts }
  else { doing with touches := doing.touches ++ [touch] }

def push (doing : Doing) (command : EngineCommand) : Doing :=
  { doing with touches := doing.touches ++ [.push command] }

def installOne (host : InstrumentId → HostAnswer) (doing : Doing) (entry : Hosting.ToHost) :
    Doing :=
  if (host entry.id).installed then doing.change (.install entry.channel) (host entry.id).started
  else doing

/-- `syncHostedInstruments`: the plug-ins that stay are moved, and the new ones are loaded. -/
def sync (restarts : Bool) (publish : Publish) (hosting : Hosting) (doing : Doing) : Doing :=
  let found := hosting.found publish
  let moved :=
    if Hosting.movesAnything found.slots (Hosting.destination publish.rack found.hosted) then
      doing.change .move restarts
    else doing
  (Hosting.toHost publish.rack (Hosting.kept publish.rack found.hosted)).foldl
    (installOne publish.host) moved

/-- One publish after the other. -/
def syncAll (restarts : Bool) : List Publish → Hosting → Doing → Doing
  | [], _, doing => doing
  | publish :: publishes, hosting, doing =>
    syncAll restarts publishes ((hosting.found publish).sync publish.rack publish.host)
      (doing.sync restarts publish hosting)

end Doing

/-- What is posted when a session has been published. -/
def posts (after : Session) (h : Handle) : List EngineCommand :=
  let transport := after.project.transport
  let loopEnd := after.loopEndBeats (h.flattenedFrames after)
  (if near transport.tempo h.sent.tempo then [] else [.setTempo transport.tempo]) ++
    (if near loopEnd h.sent.loopEnd && h.sent.loopEnabled = some after.loopFlag then []
      else [.setLoop 0 loopEnd after.loopFlag]) ++
    (if h.sent.metronome = some transport.metronomeEnabled then []
      else [.setMetronome transport.metronomeEnabled])

def followPosts (after : Session) (h : Handle) : List EngineCommand :=
  if h.session.publishes.length < after.publishes.length then posts after h else []

/-- What the pattern previews post after their publish. -/
def previewPosts : Call → List EngineCommand
  | .patternPreviewStart .. | .patternPreviewChannelStart .. => [.seekBeats 0, .transportPlay]
  | _ => []

def callPosts (call : Call) (h : Handle) : List EngineCommand :=
  let after := (h.session.call call).2
  (match h.session.halfway call with
    | none => followPosts after h
    | some between => followPosts between h ++ followPosts after (h.follow between)) ++
  (if (h.session.call call).1 then previewPosts call else [])

/-- The publishes of a call. -/
def newPublishes (before after : Session) : List Publish :=
  after.publishes.drop before.publishes.length

/-- The channel of the selected instrument, or the first. -/
def instanceChannel (s : Session) : ℕ :=
  match s.selectedInstrument with
  | none => 0
  | some id => (channelIndexOf s.project.instruments id).getD 0

/-- `restoreBuiltinInstrument` finds a plug-in to take out. -/
def restores (s : Session) : Bool :=
  let channel := instanceChannel s
  channel < maxRackChannels && (s.hosting.slots channel).isSome

/-- The scratch plug-in, which belongs to no instrument, is removed. -/
def removesScratch (s : Session) : Call → Bool
  | .instanceRemove _ => s.hasInstance && s.selectedInstrument.isNone
  | _ => false

/-- What a call does. -/
def doCall (call : Call) (restarts : Bool) (h : Handle) (running : Bool) : Doing :=
  let synced := Doing.syncAll restarts (newPublishes h.session (h.session.call call).2)
    h.session.hosting { running }
  let restored :=
    if removesScratch h.session call && restores h.session then
      synced.change (.remove (instanceChannel h.session)) restarts
    else synced
  (callPosts call h).foldl Doing.push restored

/-! ### The handle -/

def setSlot (channel : ℕ) (plugin : Option HostedPlugin) (s : Session) : Session :=
  { s with hosting := { s.hosting with slots := Function.update s.hosting.slots channel plugin } }

/-- `restoreBuiltinInstrument`, and what its callers note when it answers. -/
def restoreBuiltin (answers : Bool) (s : Session) : Session :=
  let restored := if restores s then setSlot (instanceChannel s) none s else s
  if restores s && !answers then restored else { restored with hasInstance := false }

/-- A call, with what the handle's own model of it leaves out. -/
def callHandle (call : Call) (answers : Bool) (h : Handle) : Handle :=
  let called := h.call call
  let restored :=
    if removesScratch h.session call then
      { called with session := restoreBuiltin answers h.session }
    else called
  (if (h.session.call call).1 then previewPosts call else []).foldl
    (fun h command => h.postCommand command) restored

/-- The plug-in of a scratch session. -/
structure Scratch where
  pluginId : String
  path : String
  name : String

/-- `ob_engine_session_load`, of a file that could be read. -/
def doSessionLoad (scratch : Option Scratch) (answer : HostAnswer) (s : Session) (running : Bool) :
    Doing :=
  match scratch with
  | none =>
    if s.hasInstance && restores s then
      Doing.change (.remove (instanceChannel s)) answer.started { running }
    else { running }
  | some _ =>
    if instanceChannel s < maxRackChannels && answer.installed then
      Doing.change (.install (instanceChannel s)) answer.started { running }
    else { running }

/-- `stateLoaded`: the plug-in took the state that was saved for it. -/
def sessionLoad (scratch : Option Scratch) (answer : HostAnswer) (stateLoaded : Bool)
    (s : Session) : Session :=
  let channel := instanceChannel s
  match scratch with
  | none => if s.hasInstance then restoreBuiltin answer.started s else s
  | some scratch =>
    if channel < maxRackChannels && answer.installed then
      let owner := s.selectedInstrument.getD .none
      let installed := setSlot channel (some ⟨owner, scratch.pluginId, scratch.path⟩) s
      if !answer.started || (answer.bundle && !stateLoaded) then installed
      else
        let slot : HostedSlot :=
          { channel, path := scratch.path, pluginId := scratch.pluginId, name := scratch.name
            missing := !answer.bundle, failed := false }
        let hosted := match s.selectedInstrument with
          | none => s.hosting.hosted
          | some id => s.hosting.hosted.assign id slot
        { installed with
          hosting := { installed.hosting with hosted }
          hasInstance := true }
    else s

/-! ### The export -/

inductive ExportState
  | idle | running | done | cancelled | failed
  deriving DecidableEq

/-- Where `exportSong` is, with whether the device ran, and the transport it has to put back. -/
inductive ExportPc
  | opening
  | stopping
  | preparing (wasRunning : Bool)
  | rendering (wasRunning : Bool) (before : LiveEngine) (index remaining : ℕ)
  | restoring (wasRunning : Bool) (before : LiveEngine) (ok : Bool)
  | restarting (wasRunning : Bool) (ok : Bool)
  | ending (ok : Bool)
  | ended

structure State where
  handle : Handle
  running : Bool
  exportState : ExportState := .idle
  cancel : Bool := false
  /-- The export thread, until it is joined. -/
  worker : Option (SongExport × ExportPc) := none
  /-- What the calls of the user's thread did while the export was running; on record only. -/
  touches : List Touch := []

/-- The next step of the export thread; `restarts` is the device's answer. -/
def stepExport (restarts : Bool) (s : State) : Option State :=
  let live := s.handle.live
  match s.worker with
  | none => none
  | some (request, pc) =>
    let goTo (pc : ExportPc) (s : State) : State := { s with worker := some (request, pc) }
    let setLive (live : LiveEngine) : State := { s with handle := { s.handle with live } }
    match pc with
    | .opening => some (goTo (if request.starts then .stopping else .ending false) s)
    | .stopping => some (goTo (.preparing s.running) { s with running := false })
    | .preparing wasRunning =>
      some (goTo (.rendering wasRunning live 0 request.totalFrames.toNat)
        (setLive (SongExport.prepare live)))
    | .rendering wasRunning before index remaining =>
      if remaining = 0 then some (goTo (.restoring wasRunning before request.closes) s)
      else if s.cancel then some (goTo (.restoring wasRunning before false) s)
      else
        let frames := min request.blockFrames remaining
        let next :=
          if request.writes index then
            .rendering wasRunning before (index + 1) (remaining - frames)
          else .restoring wasRunning before false
        some (goTo next (setLive (live.process frames).2))
    | .restoring wasRunning before ok =>
      some (goTo (.restarting wasRunning ok) (setLive (SongExport.restore before live)))
    | .restarting wasRunning ok =>
      some (goTo (.ending ok) { s with running := (wasRunning && restarts) || s.running })
    | .ending ok =>
      some (goTo .ended
        { s with exportState := if ok then .done else if s.cancel then .cancelled else .failed })
    | .ended => none

/-! ### The threads -/

/-- How much arrangement there is to render. -/
def songEndBeats (s : Session) : Double :=
  s.project.clips.entries.foldl
    (fun beats entry => maxDouble beats (ticksToBeats (entry.2.start + entry.2.length))) (.finite 0)

/-- The frames of the request are those of the song, and two seconds. -/
def exportRequest (h : Handle) (request : SongExport) : SongExport :=
  { request with
    lengthFrames := h.live.engine.transport.timeMap.beatsToFrames (songEndBeats h.session)
    tailFrames := (h.session.sampleRate.mul (.finite 2)).truncate }

/-- A call of the user's thread, a step of the export, or a block of the device. -/
inductive Label
  | call (call : Call) (restarts : Bool)
  | postCommand (host : InstrumentId → HostAnswer) (command : EngineCommand) (restarts : Bool)
  | start (starts : Bool)
  | stop
  | setStepPattern (schedule : Schedule) (loopEnd : Double)
  | sessionLoad (scratch : Option Scratch) (answer : HostAnswer) (stateLoaded : Bool)
  | exportStart (request : SongExport) (folder : Bool)
  | exportStatus (host : InstrumentId → HostAnswer) (restarts : Bool)
  | exportCancel
  | exportSong (restarts : Bool)
  | block (numFrames : ℕ)

/-- A publish outside of `call`. -/
def doPublish (after : Session) (restarts : Bool) (h : Handle) (running : Bool) : Doing :=
  (followPosts after h).foldl Doing.push
    (Doing.syncAll restarts (newPublishes h.session after) h.session.hosting { running })

/-- What the user's thread does to the engine in a step. -/
def doStep (s : State) : Label → Doing
  | .call call restarts => doCall call restarts s.handle s.running
  | .postCommand host command restarts =>
    if s.exportState = .running then { running := s.running }
    else
      let recorded := { s.handle with sent := Handle.record s.handle.sent command }
      (doPublish (s.handle.note host command).session restarts recorded s.running).push command
  | .start starts => ⟨[.start], if starts then true else s.running⟩
  | .stop => if s.running then ⟨[.stop], false⟩ else { running := s.running }
  | .setStepPattern _ loopEnd => Doing.push { running := s.running } (.setLoop 0 loopEnd true)
  | .sessionLoad scratch answer _ => doSessionLoad scratch answer s.handle.session s.running
  | .exportStatus host restarts =>
    if s.exportState ≠ .running ∧ s.worker.isSome then
      doPublish (s.handle.collect host).session restarts s.handle s.running
    else { running := s.running }
  | _ => { running := s.running }

/-- The handle after a call of the user's thread. -/
def handleAfter (s : State) : Label → Handle
  | .call call restarts => callHandle call restarts s.handle
  | .postCommand host command _ =>
    if s.exportState = .running then s.handle else s.handle.post host command
  | .setStepPattern schedule loopEnd =>
    { s.handle with live := { s.handle.live with schedule } }.postCommand (.setLoop 0 loopEnd true)
  | .sessionLoad scratch answer stateLoaded =>
    { s.handle with session := sessionLoad scratch answer stateLoaded s.handle.session }
  | .exportStatus host _ =>
    if s.exportState ≠ .running ∧ s.worker.isSome then s.handle.collect host else s.handle
  | _ => s.handle

/-- A call of the user's thread, with its record. -/
def drive (s : State) (l : Label) : State :=
  let doing := doStep s l
  { s with
    handle := handleAfter s l
    running := doing.running
    touches := if s.exportState = .running then s.touches ++ doing.touches else s.touches }

def stepUser (s : State) (l : Label) : State :=
  let driven := drive s l
  match l with
  | .exportStart request folder =>
    if s.exportState = .running then driven
    else if folder && !(songEndBeats s.handle.session).le 0 then
      { driven with
        exportState := .running, cancel := false
        worker := some (exportRequest s.handle request, .opening) }
    else { driven with worker := none }
  | .exportStatus _ _ => if s.exportState ≠ .running then { driven with worker := none } else driven
  | .exportCancel => { driven with cancel := true }
  | _ => driven

def system : TransitionSystem State Label where
  step s
    | .exportSong restarts => stepExport restarts s
    | .block numFrames =>
      if s.running then some { s with handle := s.handle.process numFrames } else none
    | l => some (stepUser s l)

/-! ### Harmless calls -/

/-- A publish finds every plug-in where it belongs, and nothing new is loaded. -/
structure Settled (publish : Publish) (hosting : Hosting) : Prop where
  stays : Hosting.movesAnything (hosting.found publish).slots
    (Hosting.destination publish.rack (hosting.found publish).hosted) = false
  loads : ∀ entry ∈ Hosting.toHost publish.rack
    (Hosting.kept publish.rack (hosting.found publish).hosted),
      (publish.host entry.id).installed = false

def AllSettled : List Publish → Hosting → Prop
  | [], _ => True
  | publish :: publishes, hosting => Settled publish hosting ∧
    AllSettled publishes ((hosting.found publish).sync publish.rack publish.host)

/-- The tempo, the loop and the metronome are what was sent last. -/
structure Told (after : Session) (h : Handle) : Prop where
  tempo : near after.project.transport.tempo h.sent.tempo = true
  loopEnd : near (after.loopEndBeats (h.flattenedFrames after)) h.sent.loopEnd = true
  loopEnabled : h.sent.loopEnabled = some after.loopFlag
  metronome : h.sent.metronome = some after.project.transport.metronomeEnabled

/-- So they are, if there is a publish. -/
def FollowTold (after : Session) (h : Handle) : Prop :=
  h.session.publishes.length < after.publishes.length → Told after h

def CallTold (call : Call) (h : Handle) : Prop :=
  let after := (h.session.call call).2
  match h.session.halfway call with
  | none => FollowTold after h
  | some between => FollowTold between h ∧ FollowTold after (h.follow between)

structure HarmlessCall (call : Call) (h : Handle) : Prop where
  settled : AllSettled (newPublishes h.session (h.session.call call).2) h.session.hosting
  told : CallTold call h
  preview : (h.session.call call).1 = true → previewPosts call = []
  scratch : (removesScratch h.session call && restores h.session) = false

/-- What may be called while an export is running. -/
def Harmless (s : State) : Label → Prop
  | .call call _ => HarmlessCall call s.handle
  | .start _ | .setStepPattern .. => False
  | .stop => s.running = false
  | .sessionLoad none _ _ => (s.handle.session.hasInstance && restores s.handle.session) = false
  | .sessionLoad (some _) answer _ =>
    instanceChannel s.handle.session < maxRackChannels → answer.installed = false
  | _ => True

/-! ### The trace -/

namespace Doing

variable (doing : Doing) (restarts : Bool)

theorem touches_change_ne (touch : Touch) : (doing.change touch restarts).touches ≠ [] := by
  rw [change]
  split_ifs <;> exact List.append_ne_nil_of_right_ne_nil _ (List.cons_ne_nil _ _)

theorem touches_push (commands : List EngineCommand) :
    (commands.foldl push doing).touches = doing.touches ++ commands.map Touch.push := by
  induction commands generalizing doing with
  | nil => exact (List.append_nil _).symm
  | cons command commands ih =>
    rw [List.foldl_cons, ih, push, List.append_assoc]
    rfl

/-- Nothing is done exactly when nothing new can be loaded. -/
theorem touches_installs_eq_nil (host : InstrumentId → HostAnswer) (entries : List Hosting.ToHost) :
    (entries.foldl (installOne host) doing).touches = [] ↔
      doing.touches = [] ∧ ∀ entry ∈ entries, (host entry.id).installed = false := by
  induction entries generalizing doing with
  | nil => simp
  | cons entry entries ih =>
    rw [List.foldl_cons, ih, List.forall_mem_cons, installOne]
    split_ifs with hinstalled
    · simp [touches_change_ne, hinstalled]
    · simp [hinstalled]

variable {publish : Publish} {hosting : Hosting}

theorem touches_sync_eq_nil : (doing.sync restarts publish hosting).touches = [] ↔
    doing.touches = [] ∧ Settled publish hosting := by
  rw [sync]
  rw [touches_installs_eq_nil]
  split_ifs with hmoves
  · refine iff_of_false (fun h => touches_change_ne _ _ _ h.1) fun h => ?_
    rw [h.2.stays] at hmoves
    cases hmoves
  · exact and_congr_right fun _ =>
      ⟨fun hloads => ⟨Bool.eq_false_of_not_eq_true hmoves, hloads⟩, fun h => h.loads⟩

theorem touches_syncAll_eq_nil {publishes : List Publish} :
    (syncAll restarts publishes hosting doing).touches = [] ↔
      doing.touches = [] ∧ AllSettled publishes hosting := by
  induction publishes generalizing hosting doing with
  | nil => simp [syncAll, AllSettled]
  | cons publish publishes ih =>
    rw [syncAll, ih, touches_sync_eq_nil, AllSettled, and_assoc]

end Doing

theorem posts_eq_nil_iff {after : Session} {h : Handle} : posts after h = [] ↔ Told after h := by
  rw [posts]
  rw [List.append_eq_nil_iff, List.append_eq_nil_iff]
  constructor
  · rintro ⟨⟨htempo, hloop⟩, hmetronome⟩
    split_ifs at htempo hloop hmetronome with htempo' hloop' hmetronome'
    obtain ⟨hend, henabled⟩ := Bool.and_eq_true_iff.1 hloop'
    exact ⟨htempo', hend, of_decide_eq_true henabled, hmetronome'⟩
  · rintro ⟨htempo, hend, henabled, hmetronome⟩
    rw [if_pos htempo, if_pos hmetronome, if_pos (by rw [hend, henabled]; simp)]
    exact ⟨⟨rfl, rfl⟩, rfl⟩

theorem followPosts_eq_nil_iff {after : Session} {h : Handle} :
    followPosts after h = [] ↔ FollowTold after h := by
  rw [followPosts, FollowTold]
  split_ifs with hpublished
  · exact posts_eq_nil_iff.trans (by simp [hpublished])
  · exact iff_of_true rfl fun h => absurd h hpublished

theorem callPosts_eq_nil_iff {call : Call} {h : Handle} : callPosts call h = [] ↔
    CallTold call h ∧ ((h.session.call call).1 = true → previewPosts call = []) := by
  rw [callPosts, CallTold]
  rw [List.append_eq_nil_iff]
  refine and_congr ?_ (by simp)
  cases h.session.halfway call with
  | none => exact followPosts_eq_nil_iff
  | some between =>
    exact List.append_eq_nil_iff.trans (and_congr followPosts_eq_nil_iff followPosts_eq_nil_iff)

theorem touches_doCall_eq_nil {call : Call} {restarts : Bool} {h : Handle} {running : Bool} :
    (doCall call restarts h running).touches = [] ↔ HarmlessCall call h := by
  rw [doCall]
  rw [Doing.touches_push, List.append_eq_nil_iff, List.map_eq_nil_iff, callPosts_eq_nil_iff]
  split_ifs with hscratch
  · refine iff_of_false (fun h => Doing.touches_change_ne _ _ _ h.1) fun h => ?_
    rw [h.scratch] at hscratch
    cases hscratch
  · rw [Doing.touches_syncAll_eq_nil]
    constructor
    · rintro ⟨⟨-, hsettled⟩, htold, hpreview⟩
      exact ⟨hsettled, htold, hpreview, Bool.eq_false_of_not_eq_true hscratch⟩
    · rintro ⟨hsettled, htold, hpreview, -⟩
      exact ⟨⟨rfl, hsettled⟩, htold, hpreview⟩

variable {s s' : State} {l : Label}

/-- **A call leaves no trace exactly when it is harmless.** -/
theorem touches_doStep_eq_nil (hrunning : s.exportState = .running) :
    (doStep s l).touches = [] ↔ Harmless s l := by
  cases l with
  | call call restarts => exact touches_doCall_eq_nil
  | postCommand host command restarts =>
    rw [doStep, if_pos hrunning]
    exact iff_of_true rfl trivial
  | start starts | setStepPattern schedule loopEnd => exact iff_of_false (List.cons_ne_nil _ _) id
  | stop =>
    rw [doStep, Harmless]
    split_ifs with hdevice
    · simp [hdevice]
    · simp [hdevice]
  | sessionLoad scratch answer stateLoaded =>
    cases scratch with
    | none =>
      rw [doStep, doSessionLoad, Harmless]
      split_ifs with hrestores
      · exact iff_of_false (Doing.touches_change_ne _ _ _) (by simp [hrestores])
      · exact iff_of_true rfl (Bool.eq_false_of_not_eq_true hrestores)
    | some scratch =>
      rw [doStep, doSessionLoad, Harmless]
      split_ifs with hinstalls
      · refine iff_of_false (Doing.touches_change_ne _ _ _) fun h => ?_
        simp only [Bool.and_eq_true, decide_eq_true_eq] at hinstalls
        exact Bool.noConfusion ((h hinstalls.1).symm.trans hinstalls.2)
      · refine iff_of_true rfl fun hchannel => ?_
        simpa [hchannel] using hinstalls
  | exportStart request folder | exportCancel | exportSong restarts | block numFrames =>
    exact iff_of_true rfl trivial
  | exportStatus host restarts =>
    rw [doStep, if_neg fun h => h.1 hrunning]
    exact iff_of_true rfl trivial

/-! ### Whole runs -/

/-- The export thread and the device are not the user's calls. -/
theorem touches_stepExport {restarts : Bool} (hstep : stepExport restarts s = some s') :
    s'.touches = s.touches := by
  rw [stepExport] at hstep
  split at hstep
  · cases hstep
  next request pc _ =>
    cases pc with
    | ended => cases hstep
    | rendering wasRunning before index remaining =>
      dsimp only at hstep
      split_ifs at hstep <;> exact Option.some.inj hstep ▸ rfl
    | _ => exact Option.some.inj hstep ▸ rfl

theorem touches_stepUser : (stepUser s l).touches =
    if s.exportState = .running then s.touches ++ (doStep s l).touches else s.touches := by
  cases l with
  | exportStart request folder | exportStatus host restarts =>
    simp only [stepUser]
    split_ifs <;> simp [drive, *]
  | _ => rfl

theorem touches_step (hstep : system.step s l = some s') : s'.touches = [] ↔
    s.touches = [] ∧ (s.exportState = .running → Harmless s l) := by
  have huser : ∀ l, stepUser s l = s' →
      (s'.touches = [] ↔ s.touches = [] ∧ (s.exportState = .running → Harmless s l)) := by
    rintro l rfl
    rw [touches_stepUser]
    split_ifs with hrunning
    · rw [List.append_eq_nil_iff, touches_doStep_eq_nil hrunning]
      exact and_congr_right' ⟨fun h _ => h, fun h => h hrunning⟩
    · exact (and_iff_left fun h => absurd h hrunning).symm
  cases l with
  | exportSong restarts =>
    rw [touches_stepExport hstep]
    exact (and_iff_left fun _ => trivial).symm
  | block numFrames =>
    have hblock : s'.touches = s.touches := by
      simp only [system] at hstep
      split_ifs at hstep
      exact Option.some.inj hstep ▸ rfl
    rw [hblock]
    exact (and_iff_left fun _ => trivial).symm
  | _ => exact huser _ (Option.some.inj hstep)

/-- **While an export runs nothing else drives the engine**, exactly when every call that is made
meanwhile is harmless: its publishes find the tempo, the loop, the metronome and the plug-ins as the
engine has them, and it neither previews a pattern, nor sets one, nor touches the device or the
scratch plug-in. -/
theorem exclusive_iff {handle : Handle} {running : Bool} {ls : List Label}
    (hrun : system.run { handle, running } ls = some s) :
    s.touches = [] ↔ ∀ before l t, before ++ [l] <+: ls →
      system.run { handle, running } before = some t →
        t.exportState = .running → Harmless t l :=
  TransitionSystem.holds_iff_all_steps (fun s => s.touches = [])
    (fun t l => t.exportState = .running → Harmless t l) rfl (fun _ _ _ => touches_step) hrun

/-- A new session, whose device runs. -/
def newState : State where
  handle := Handle.newHandle
  running := true

/-- An undo after the tempo was set, while a song is exported. -/
def undoMeanwhile : List Label :=
  [.postCommand Session.noPlugins (.setTempo (.finite 150)) true,
    .exportStart Handle.twoBars true, .call (.projectUndo Session.noPlugins) true]

/-- The old tempo is posted while the export is running. -/
theorem not_exclusive_undoMeanwhile : ¬∀ (handle : Handle) (running : Bool) (ls : List Label)
    (s : State), system.run { handle, running } ls = some s → s.touches = [] := by
  intro h
  have hpushed : (system.run newState undoMeanwhile).map (fun s => s.touches.isEmpty) =
      some false := by decide +kernel
  obtain ⟨s, hrun, htouches⟩ := Option.map_eq_some_iff.1 hpushed
  rw [h Handle.newHandle true undoMeanwhile s hrun] at htouches
  cases htouches

/-- A pattern is selected and a command refused, while a song is exported. -/
def selectMeanwhile : List Label :=
  [.exportStart Handle.twoBars true, .exportSong true,
    .call (.patternSelect ⟨2⟩ Session.noPlugins) true, .exportSong true,
    .postCommand Session.noPlugins .transportPlay true, .exportStatus Session.noPlugins true]

theorem exclusive_iff_selectMeanwhile : ∃ s, system.run newState selectMeanwhile = some s ∧
    s.touches = [] ∧ ∀ before l t, before ++ [l] <+: selectMeanwhile →
      system.run newState before = some t → t.exportState = .running → Harmless t l := by
  have hnothing : (system.run newState selectMeanwhile).map (fun s => s.touches.isEmpty) =
      some true := by decide +kernel
  obtain ⟨s, hrun, hempty⟩ := Option.map_eq_some_iff.1 hnothing
  have htouches : s.touches = [] := List.isEmpty_iff.1 hempty
  exact ⟨s, hrun, htouches, (exclusive_iff hrun).1 htouches⟩

end OneBeat.ExclusiveExport
