import OneBeat.Session.Clones
import OneBeat.Session.Handle

/-!
# Exporting the song

`exportSong` of `core/audio_export.cpp` drives the live engine through the song block by block, and
puts the transport back; `ob_engine_export_status` publishes the model when it collects the result.

**Main theorem** (`Handle.restored_iff`): the engine is back where it was exactly when nothing was
rendered, or when it was stopped and its metronome, with the commands that waited, was off (or the
queue too full to switch it off).

What is written to the file is left out, and so is the device, which is stopped meanwhile.
-/

namespace OneBeat

/-- A request, and what becomes of it. -/
structure SongExport where
  lengthFrames : ℤ
  tailFrames : ℤ
  /-- The frames of a block, as the engine was configured. -/
  configuredFrames : ℤ
  /-- The file can be created. -/
  opens : Bool := true
  /-- The user has cancelled before this block. -/
  cancelled : ℕ → Bool := fun _ => false
  /-- The frames of this block could be written. -/
  writes : ℕ → Bool := fun _ => true
  /-- The last frames could be written, and the file closed. -/
  closes : Bool := true

/-- How a render ends. -/
inductive SongExport.Ending
  | finished | cancelled | failed
  deriving DecidableEq

namespace SongExport

variable (request : SongExport)

def totalFrames : ℤ := request.lengthFrames + request.tailFrames

def blockFrames : ℕ :=
  if 0 < request.configuredFrames then request.configuredFrames.toNat else 512

theorem blockFrames_pos : 0 < request.blockFrames := by
  rw [blockFrames]
  split_ifs <;> omega

/-- The blocks that are left, from the one with this index on. -/
def renderBlocks (index remaining : ℕ) (live : LiveEngine) : Ending × LiveEngine :=
  if remaining = 0 then (.finished, live)
  else if request.cancelled index then (.cancelled, live)
  else
    let frames := min request.blockFrames remaining
    let live := (live.process frames).2
    if !request.writes index then (.failed, live)
    else renderBlocks (index + 1) (remaining - frames) live
termination_by remaining
decreasing_by
  have := request.blockFrames_pos
  omega

/-- Something is rendered. -/
def starts : Bool := 0 < request.totalFrames && request.opens

/-- The song from its first frame, with neither loop nor metronome. -/
def prepare (live : LiveEngine) : LiveEngine :=
  let transport := live.engine.transport
  let live := live.setTransport
    ((transport.setLoop transport.loopStartBeats transport.loopEndBeats false).seekFrames 0)
  { live with playing := true }.postCommand (.setMetronome false)

/-- Whatever happened to the render, the session goes back to where it was. -/
def restore (before live : LiveEngine) : LiveEngine :=
  let transport := before.engine.transport
  let live := { live with playing := false }.setTransport
    ((live.engine.transport.seekFrames transport.positionFrames).setLoop transport.loopStartBeats
      transport.loopEndBeats transport.loopEnabled)
  live.postCommand (.event (.allNotesOff 0))

/-- Whether the file was written, and the engine afterwards. -/
def exportSong (live : LiveEngine) : Bool × LiveEngine :=
  if !request.starts then (false, live)
  else
    let rendered := request.renderBlocks 0 request.totalFrames.toNat (prepare live)
    (rendered.1 = .finished && request.closes, restore live rendered.2)

end SongExport

namespace Handle

def exportSong (request : SongExport) (h : Handle) : Handle :=
  { h with live := (request.exportSong h.live).2 }

/-- `ob_engine_export_status`, when the export has ended. -/
def collect (host : InstrumentId → HostAnswer) (h : Handle) : Handle := h.publishModel host

end Handle

/-- The engine is where it was; the metronome, as soon as the queue has been applied. -/
structure LiveEngine.Restored (before after : LiveEngine) : Prop where
  positionFrames :
    after.engine.transport.positionFrames = before.engine.transport.positionFrames
  playing : after.playing = before.playing
  loopEnabled : after.engine.transport.loopEnabled = before.engine.transport.loopEnabled
  loopStartBeats : after.engine.transport.loopStartBeats = before.engine.transport.loopStartBeats
  loopEndBeats : after.engine.transport.loopEndBeats = before.engine.transport.loopEndBeats
  metronomeEnabled : after.settled.metronomeEnabled = before.settled.metronomeEnabled

/-! ### What the export does to the switches -/

namespace LiveEngine

variable (live : LiveEngine) (command : EngineCommand)

@[simp] theorem engine_postCommand : (live.postCommand command).engine = live.engine := by
  rw [postCommand]
  split_ifs <;> rfl

@[simp] theorem playing_postCommand : (live.postCommand command).playing = live.playing := by
  rw [postCommand]
  split_ifs <;> rfl

/-- Only one command switches the metronome. -/
theorem metronomeEnabled_settled_postCommand {command : EngineCommand}
    (h : ∀ enabled, command ≠ .setMetronome enabled) :
    (live.postCommand command).settled.metronomeEnabled = live.settled.metronomeEnabled := by
  rw [settled_postCommand]
  split_ifs
  · cases command with
    | setMetronome enabled => exact absurd rfl (h enabled)
    | setLoop => rw [Controls.apply]; split_ifs <;> rfl
    | _ => rfl
  · rfl

theorem metronomeEnabled_settled_setTransport (transport : Transport) :
    (live.setTransport transport).settled.metronomeEnabled = live.settled.metronomeEnabled := by
  have hcontrols : (live.setTransport transport).controls.metronomeEnabled =
    live.controls.metronomeEnabled := rfl
  exact Controls.metronomeEnabled_foldl hcontrols live.commands

end LiveEngine

namespace SongExport

variable (request : SongExport) (live : LiveEngine)

/-- No block touches the metronome. -/
theorem metronomeEnabled_renderBlocks (index remaining : ℕ) :
    (request.renderBlocks index remaining live).2.settled.metronomeEnabled =
      live.settled.metronomeEnabled := by
  fun_induction renderBlocks request index remaining live with
  | case1 => rfl
  | case2 => rfl
  | case3 => exact LiveEngine.settled_process_metronomeEnabled _ _
  | case4 _ _ _ _ _ _ _ _ ih => exact ih.trans (LiveEngine.settled_process_metronomeEnabled _ _)

theorem metronomeEnabled_prepare : (prepare live).settled.metronomeEnabled =
    if live.commands.length < commandQueueCapacity then false
    else live.settled.metronomeEnabled := by
  rw [prepare, LiveEngine.settled_postCommand]
  split_ifs with hroom hfull hfull
  · rfl
  · exact absurd hroom hfull
  · exact absurd hfull hroom
  · exact live.metronomeEnabled_settled_setTransport _

variable {request live}

/-- What the render leaves, once it is put back. -/
theorem restored_restore_iff (hvalid : live.engine.transport.Valid) (rendered : LiveEngine) :
    live.Restored (restore live rendered) ↔ live.playing = false ∧
      rendered.settled.metronomeEnabled = live.settled.metronomeEnabled := by
  have htransport : (restore live rendered).engine.transport =
      { rendered.engine.transport with
        positionFrames := live.engine.transport.positionFrames
        loopStartBeats := live.engine.transport.loopStartBeats
        loopEndBeats := live.engine.transport.loopEndBeats
        loopEnabled := live.engine.transport.loopEnabled } := by
    rw [restore, LiveEngine.engine_postCommand]
    simp only [LiveEngine.setTransport]
    rw [hvalid.setLoop_self, Transport.seekFrames, if_neg (not_lt.2 hvalid.position)]
  have hplaying : (restore live rendered).playing = false := by
    rw [restore, LiveEngine.playing_postCommand]
    rfl
  have hmetronome : (restore live rendered).settled.metronomeEnabled =
      rendered.settled.metronomeEnabled := by
    have hevent : ∀ enabled, EngineCommand.event (.allNotesOff 0) ≠ .setMetronome enabled := by
      simp
    rw [restore, LiveEngine.metronomeEnabled_settled_postCommand _ hevent]
    exact rendered.metronomeEnabled_settled_setTransport _
  constructor
  · intro h
    exact ⟨h.playing.symm.trans hplaying, hmetronome.symm.trans h.metronomeEnabled⟩
  · -- the position and the loop are always put back
    rintro ⟨hstopped, hkept⟩
    refine ⟨?_, hplaying.trans hstopped.symm, ?_, ?_, ?_, hmetronome.trans hkept⟩
    all_goals rw [htransport]

/-- What the export leaves, before its status is collected. -/
theorem restored_exportSong_iff (hvalid : live.engine.transport.Valid) :
    live.Restored (request.exportSong live).2 ↔ request.starts = false ∨ live.playing = false ∧
      (live.settled.metronomeEnabled = false ∨ commandQueueCapacity ≤ live.commands.length) := by
  rw [exportSong]
  cases hstarts : request.starts with
  | false => exact iff_of_true ⟨rfl, rfl, rfl, rfl, rfl, rfl⟩ (.inl rfl)
  | true =>
    -- a full queue does not take the command that switches the metronome off
    rw [Bool.not_true, if_neg Bool.false_ne_true, or_iff_right (by decide)]
    rw [restored_restore_iff hvalid, metronomeEnabled_renderBlocks, metronomeEnabled_prepare]
    split_ifs with hroom
    · rw [or_iff_left (not_le.2 hroom)]
      exact and_congr_right' eq_comm
    · exact and_congr_right' (iff_of_true rfl (.inr (not_lt.1 hroom)))

end SongExport

/-! ### Collecting the status -/

namespace Handle

variable {h : Handle}

theorem transport_publishModel (s : Session) (host : InstrumentId → HostAnswer) (replaced : Bool) :
    (s.publishModel host replaced).project.transport = s.project.transport := by
  obtain ⟨names, hproject⟩ := s.project_publishModel host replaced
  obtain ⟨instruments, hnamed⟩ := Session.nameLanes_eq names
    (s.project.setLengths s.fittedClips)
  rw [hproject, hnamed, Tables.setLengths_eq]
  rfl

/-- Nothing that is restored has moved. -/
structure Rests (live live' : LiveEngine) : Prop where
  engine : live'.engine = live.engine
  playing : live'.playing = live.playing
  metronomeEnabled : live'.settled.metronomeEnabled = live.settled.metronomeEnabled

theorem Rests.trans {live live' live'' : LiveEngine} (h : Rests live live')
    (h' : Rests live' live'') : Rests live live'' :=
  ⟨h'.engine.trans h.engine, h'.playing.trans h.playing,
    h'.metronomeEnabled.trans h.metronomeEnabled⟩

theorem Rests.restored_congr {before live live' : LiveEngine} (h : Rests live live') :
    before.Restored live' ↔ before.Restored live := by
  constructor
  · rintro ⟨hposition, hplaying, henabled, hstart, hend, hmetronome⟩
    rw [h.engine] at hposition henabled hstart hend
    exact ⟨hposition, h.playing.symm.trans hplaying, henabled, hstart, hend,
      h.metronomeEnabled.symm.trans hmetronome⟩
  · rintro ⟨hposition, hplaying, henabled, hstart, hend, hmetronome⟩
    rw [← h.engine] at hposition henabled hstart hend
    exact ⟨hposition, h.playing.trans hplaying, henabled, hstart, hend,
      h.metronomeEnabled.trans hmetronome⟩

theorem rests_postCommand {live : LiveEngine} {command : EngineCommand}
    (hcommand : ∀ enabled, command ≠ .setMetronome enabled) :
    Rests live (live.postCommand command) :=
  ⟨live.engine_postCommand command, live.playing_postCommand command,
    live.metronomeEnabled_settled_postCommand hcommand⟩

theorem publishTempo_keeps (h : Handle) : h.publishTempo.session = h.session ∧
    h.publishTempo.sent.metronome = h.sent.metronome := by
  rw [publishTempo]
  dsimp only
  split_ifs <;> exact ⟨rfl, rfl⟩

theorem publishLoop_keeps (h : Handle) (lengthFrames : ℤ) :
    (h.publishLoop lengthFrames).session = h.session ∧
      (h.publishLoop lengthFrames).sent.metronome = h.sent.metronome := by
  rw [publishLoop]
  dsimp only
  split_ifs <;> exact ⟨rfl, rfl⟩

theorem rests_publishTempo (h : Handle) : Rests h.live h.publishTempo.live := by
  rw [publishTempo]
  dsimp only
  split_ifs
  · exact ⟨rfl, rfl, rfl⟩
  · exact rests_postCommand fun _ => nofun

theorem rests_publishLoop (h : Handle) (lengthFrames : ℤ) :
    Rests h.live (h.publishLoop lengthFrames).live := by
  rw [publishLoop]
  dsimp only
  split_ifs
  · exact ⟨rfl, rfl, rfl⟩
  · exact rests_postCommand fun _ => nofun

theorem rests_publishLoop_handOver (h : Handle) (after : Session) :
    Rests h.live
      ((h.handOver after).publishTempo.publishLoop (h.flattenedFrames after)).live := by
  have hstart : Rests h.live (h.handOver after).live := ⟨rfl, rfl, rfl⟩
  exact (hstart.trans (rests_publishTempo _)).trans (rests_publishLoop _ _)

/-- A publish that finds the metronome as it was sent does not switch it. -/
theorem rests_publishModel (host : InstrumentId → HostAnswer)
    (hsent : h.sent.metronome = some h.session.project.transport.metronomeEnabled) :
    Rests h.live (h.publishModel host).live := by
  have hloop := rests_publishLoop_handOver h (h.session.publishModel host)
  obtain ⟨hsession, hmetronome⟩ := publishLoop_keeps
    (h.handOver (h.session.publishModel host)).publishTempo
    (h.flattenedFrames (h.session.publishModel host))
  obtain ⟨hsession', hmetronome'⟩ :=
    publishTempo_keeps (h.handOver (h.session.publishModel host))
  have htransport : (h.handOver (h.session.publishModel host)).session.project.transport =
    h.session.project.transport := transport_publishModel h.session host false
  rw [publishModel, tell, publishMetronome]
  dsimp only
  rw [if_pos]
  · exact hloop
  · rw [hmetronome, hmetronome', hsession, hsession', htransport]
    exact hsent

/-- **The engine is back where it was exactly when nothing was rendered, or when there was nothing
to stop and no metronome to switch off.** -/
theorem restored_iff (host : InstrumentId → HostAnswer) (request : SongExport)
    (hvalid : h.live.engine.transport.Valid)
    (hsent : h.sent.metronome = some h.session.project.transport.metronomeEnabled) :
    h.live.Restored ((h.exportSong request).collect host).live ↔ request.starts = false ∨
      h.live.playing = false ∧ (h.live.settled.metronomeEnabled = false ∨
        commandQueueCapacity ≤ h.live.commands.length) := by
  have hcollected : Rests (h.exportSong request).live ((h.exportSong request).collect host).live :=
    rests_publishModel host hsent
  exact hcollected.restored_congr.trans (SongExport.restored_exportSong_iff hvalid)

/-- An engine without channels. -/
def newEngine : LiveEngine where
  engine := { transport := {}, channels := [], chunkEventCapacity := 64 }
  schedule := { events := [], lengthFrames := 0, sampleRate := .finite 48000, generation := 0 }

def newHandle : Handle := create Session.noPlugins Session.smallIds (.finite 48000) newEngine

/-- A session that was just created, after a command and a block. -/
def afterCommand (command : EngineCommand) : Handle :=
  (newHandle.post Session.noPlugins command).process 512

theorem engine_tell (after : Session) (h : Handle) :
    (h.tell after).live.engine = h.live.engine := by
  have hloop := (rests_publishLoop_handOver h after).engine
  rw [tell, publishMetronome]
  split_ifs
  · exact hloop
  · exact (LiveEngine.engine_postCommand _ _).trans hloop

theorem engine_post (host : InstrumentId → HostAnswer) (command : EngineCommand) (h : Handle) :
    (h.post host command).live.engine = h.live.engine := by
  rw [post, postCommand]
  dsimp only
  rw [LiveEngine.engine_postCommand, note]
  split
  · exact engine_tell _ _
  · rfl

theorem valid_afterCommand (command : EngineCommand) :
    (afterCommand command).live.engine.transport.Valid := by
  refine LiveEngine.valid_process ?_ _
  rw [engine_post, newHandle, create, publishModel, engine_tell]
  exact Transport.valid_initial

/-- Two bars and a tail, cancelled after a block. -/
def twoBars : SongExport where
  lengthFrames := 192000
  tailFrames := 96000
  configuredFrames := 512
  cancelled index := index = 1

/-- The metronome was on, and stays off: the session takes it for sent. -/
theorem not_restored_metronome : ¬(afterCommand (.setMetronome true)).live.Restored
    (((afterCommand (.setMetronome true)).exportSong twoBars).collect Session.noPlugins).live := by
  have hsent : ((afterCommand (.setMetronome true)).exportSong twoBars).sent.metronome =
      some ((afterCommand (.setMetronome true)).exportSong
        twoBars).session.project.transport.metronomeEnabled := by
    decide +kernel
  rw [collect, (rests_publishModel Session.noPlugins hsent).restored_congr, exportSong,
    SongExport.restored_exportSong_iff (valid_afterCommand _)]
  decide +kernel

theorem restored_iff_stopped :
    (afterCommand .transportStop).live.Restored
        (((afterCommand .transportStop).exportSong twoBars).collect Session.noPlugins).live ↔
      twoBars.starts = false ∨ (afterCommand .transportStop).live.playing = false ∧
        ((afterCommand .transportStop).live.settled.metronomeEnabled = false ∨
          commandQueueCapacity ≤ (afterCommand .transportStop).live.commands.length) :=
  restored_iff Session.noPlugins twoBars (valid_afterCommand _) (by decide +kernel)

end Handle

end OneBeat
