import OneBeat.Core.Playback

/-!
# The engine and its commands

What `core/engine.cpp` does with the commands that are posted to it: they wait in a queue, a block
takes up to 256 of them before it renders, and each one acts on the transport, on the metronome or
on what the instruments are told.

Levels are left out, and so is what the instruments make of what they are told.

* `LiveEngine.settled` : the tempo, the loop and the metronome once the queue has been applied;
* `Transport.Valid` : what holds of every transport, and what every command keeps.
-/

namespace OneBeat

/-- A command for the audio thread. -/
inductive EngineCommand
  | transportPlay
  | transportStop
  | seekFrames (frames : ℤ)
  | seekBeats (beats : Double)
  | setTempo (bpm : Double)
  | setLoop (startBeats endBeats : Double) (enabled : Bool)
  | setMetronome (enabled : Bool)
  /-- A note, a parameter or a release. -/
  | event (event : PluginEvent)
  /-- A gain or a pan. -/
  | level

def commandQueueCapacity : ℕ := 1024

/-- How many commands a block takes: a runaway producer does not extend it. -/
def drainLimit : ℕ := 256

/-- The engine with its queue. -/
structure LiveEngine where
  engine : Engine
  schedule : Schedule
  playing : Bool := false
  metronomeEnabled : Bool := false
  commands : List EngineCommand := []

namespace LiveEngine

def setTransport (live : LiveEngine) (transport : Transport) : LiveEngine :=
  { live with engine := { live.engine with transport } }

/-- A queue that is full takes nothing. -/
def postCommand (command : EngineCommand) (live : LiveEngine) : LiveEngine :=
  if live.commands.length < commandQueueCapacity then
    { live with commands := live.commands ++ [command] }
  else live

/-- One command, and what it adds to the events of the block. -/
def applyCommand (drained : LiveEngine × List PluginEvent) (command : EngineCommand) :
    LiveEngine × List PluginEvent :=
  let (live, events) := drained
  let transport := live.engine.transport
  match command with
  | .transportPlay => ({ live with playing := true }, events)
  | .transportStop => ({ live with playing := false }, events ++ [.allNotesOff 0])
  | .seekFrames frames =>
    (live.setTransport (transport.seekFrames frames), events ++ [.allNotesOff 0])
  | .seekBeats beats =>
    let frames := transport.timeMap.beatsToFrames (if beats.lt 0 then 0 else beats)
    (live.setTransport (transport.seekFrames frames), events ++ [.allNotesOff 0])
  | .setTempo bpm => (live.setTransport (transport.setTempo bpm), events)
  | .setLoop startBeats endBeats enabled =>
    (live.setTransport (transport.setLoop startBeats endBeats enabled), events)
  | .setMetronome enabled => ({ live with metronomeEnabled := enabled }, events)
  | .event event => (live, events ++ [event])
  | .level => (live, events)

def drainCommands (live : LiveEngine) : LiveEngine × List PluginEvent :=
  (live.commands.take drainLimit).foldl applyCommand
    ({ live with commands := live.commands.drop drainLimit }, [])

/-- A block: the commands first.  While the transport is stopped the instruments still hear them. -/
def process (numFrames : ℕ) (live : LiveEngine) : List Engine.Chunk × LiveEngine :=
  let (live, events) := live.drainCommands
  if live.playing then
    let block := live.engine.runSchedule live.schedule numFrames events
    (block.1, { live with engine := block.2 })
  else
    let chunk := live.engine.processChunk 0 numFrames none 0 events
    (chunk.1.toList, { live with engine := chunk.2 })

/-! ### Controls -/

end LiveEngine

/-- What is set by commands, and by nothing else while a schedule keeps its tempo. -/
@[ext] structure Controls where
  tempoBpm : Double
  loopStartBeats : Double
  loopEndBeats : Double
  loopEnabled : Bool
  metronomeEnabled : Bool
  deriving DecidableEq

namespace Controls

/-- The controls after a command. -/
def apply (controls : Controls) : EngineCommand → Controls
  | .setTempo bpm => { controls with tempoBpm := TimeMap.clampTempo bpm }
  | .setLoop startBeats endBeats enabled =>
    if startBeats.lt endBeats && (Double.finite 0).le startBeats then
      { controls with
        loopStartBeats := startBeats, loopEndBeats := endBeats, loopEnabled := enabled }
    else { controls with loopEnabled := enabled }
  | .setMetronome enabled => { controls with metronomeEnabled := enabled }
  | _ => controls

/-- Nothing else decides about the metronome. -/
theorem metronomeEnabled_foldl {controls controls' : Controls}
    (h : controls.metronomeEnabled = controls'.metronomeEnabled) (commands : List EngineCommand) :
    (commands.foldl apply controls).metronomeEnabled =
      (commands.foldl apply controls').metronomeEnabled := by
  induction commands generalizing controls controls' with
  | nil => exact h
  | cons command commands ih =>
    refine ih ?_
    -- the region of a loop is looked at, and the metronome is not
    cases command with
    | setLoop => simp only [apply]; split_ifs <;> exact h
    | setMetronome => rfl
    | _ => exact h

end Controls

/-- The controls of a transport, and a metronome. -/
def Transport.controls (transport : Transport) (metronomeEnabled : Bool) : Controls where
  tempoBpm := transport.timeMap.tempoBpm
  loopStartBeats := transport.loopStartBeats
  loopEndBeats := transport.loopEndBeats
  loopEnabled := transport.loopEnabled
  metronomeEnabled := metronomeEnabled

namespace LiveEngine

def controls (live : LiveEngine) : Controls := live.engine.transport.controls live.metronomeEnabled

/-- The controls once the commands that wait have been applied. -/
def settled (live : LiveEngine) : Controls := live.commands.foldl Controls.apply live.controls

theorem controls_applyCommand (drained : LiveEngine × List PluginEvent)
    (command : EngineCommand) :
    (applyCommand drained command).1.controls = drained.1.controls.apply command := by
  cases command with
  | setLoop startBeats endBeats enabled =>
    simp only [applyCommand, controls, setTransport, Transport.setLoop, Controls.apply]
    split_ifs <;> rfl
  | _ => rfl

theorem commands_applyCommand (drained : LiveEngine × List PluginEvent)
    (command : EngineCommand) :
    (applyCommand drained command).1.commands = drained.1.commands := by
  cases command <;> rfl

theorem foldl_applyCommand (commands : List EngineCommand)
    (drained : LiveEngine × List PluginEvent) :
    (commands.foldl applyCommand drained).1.controls =
        commands.foldl Controls.apply drained.1.controls ∧
      (commands.foldl applyCommand drained).1.commands = drained.1.commands := by
  induction commands generalizing drained with
  | nil => exact ⟨rfl, rfl⟩
  | cons command commands ih =>
    obtain ⟨hcontrols, hcommands⟩ := ih (applyCommand drained command)
    rw [controls_applyCommand] at hcontrols
    rw [commands_applyCommand] at hcommands
    exact ⟨hcontrols, hcommands⟩

theorem drainCommands_commands (live : LiveEngine) :
    live.drainCommands.1.commands = live.commands.drop drainLimit :=
  (foldl_applyCommand _ _).2

/-- A drain applies some of what waits. -/
theorem settled_drainCommands (live : LiveEngine) :
    live.drainCommands.1.settled = live.settled := by
  have hcontrols : live.drainCommands.1.controls =
      (live.commands.take drainLimit).foldl Controls.apply live.controls :=
    (foldl_applyCommand _ _).1
  -- what is taken and what is left are the queue, one after the other
  rw [settled, drainCommands_commands, hcontrols, ← List.foldl_append, List.take_append_drop,
    settled]

theorem settled_postCommand (command : EngineCommand) (live : LiveEngine) :
    (live.postCommand command).settled =
      if live.commands.length < commandQueueCapacity then live.settled.apply command
      else live.settled := by
  rw [postCommand]
  split_ifs
  · rw [settled, List.foldl_append]
    rfl
  · rfl

theorem process_commands (numFrames : ℕ) (live : LiveEngine) :
    (live.process numFrames).2.commands = live.commands.drop drainLimit := by
  rw [process]
  dsimp only
  split_ifs <;> exact drainCommands_commands live

theorem process_metronomeEnabled (numFrames : ℕ) (live : LiveEngine) :
    (live.process numFrames).2.metronomeEnabled = live.drainCommands.1.metronomeEnabled := by
  rw [process]
  dsimp only
  split_ifs <;> rfl

/-- Rendering does not touch the metronome. -/
theorem settled_process_metronomeEnabled (numFrames : ℕ) (live : LiveEngine) :
    (live.process numFrames).2.settled.metronomeEnabled = live.settled.metronomeEnabled := by
  rw [← settled_drainCommands live, settled, settled, process_commands, drainCommands_commands]
  exact Controls.metronomeEnabled_foldl (process_metronomeEnabled numFrames live) _

end LiveEngine

/-! ### Transports -/

namespace Double

/-- Not below zero, where it is a number. -/
def NonNegative : Double → Prop
  | .finite value => 0 ≤ value
  | .infinite negative => negative = false
  | .nan => True

variable {a b : Double}

theorem nonNegative_ofRat (f : BinaryFormat) {q : ℚ} (hq : 0 ≤ q) : NonNegative (f.ofRat q) := by
  rw [BinaryFormat.ofRat]
  split_ifs
  · exact decide_eq_false hq.not_gt
  · have hpos : ∀ e, 0 ≤ twoPow e := fun e => by
      rw [twoPow]
      split_ifs <;> positivity
    change 0 ≤ f.round q
    rw [BinaryFormat.round]
    split_ifs
    · exact le_rfl
    · have hquotient := div_nonneg hq
        (hpos (max (leadingExponent |q| - (f.precision - 1)) f.minExponent))
      have hfloor := Int.floor_nonneg.2 hquotient
      refine mul_nonneg (Int.cast_nonneg ?_) (hpos _)
      rw [roundHalfEven]
      split_ifs <;> omega

theorem NonNegative.mul (ha : NonNegative a) (hb : NonNegative b) : NonNegative (a.mul b) := by
  cases a with
  | nan => cases b <;> trivial
  | finite q =>
    cases b with
    | nan => trivial
    | finite r => exact nonNegative_ofRat _ (mul_nonneg ha hb)
    | infinite t =>
      obtain rfl : t = false := hb
      simp only [Double.mul]
      split_ifs
      · trivial
      · simpa [NonNegative] using ha
  | infinite s =>
    obtain rfl : s = false := ha
    cases b with
    | nan => trivial
    | infinite t =>
      obtain rfl : t = false := hb
      rfl
    | finite r =>
      simp only [Double.mul]
      split_ifs
      · trivial
      · simpa [NonNegative] using hb

theorem NonNegative.div (ha : NonNegative a) (hb : NonNegative b) : NonNegative (a.div b) := by
  cases a with
  | nan => cases b <;> trivial
  | finite q =>
    cases b with
    | nan => trivial
    | infinite t => exact le_refl (0 : ℚ)
    | finite r =>
      simp only [Double.div]
      split_ifs
      · trivial
      · simpa [NonNegative] using ha
      · exact nonNegative_ofRat _ (div_nonneg ha hb)
  | infinite s =>
    obtain rfl : s = false := ha
    cases b with
    | nan => trivial
    | infinite t => trivial
    | finite r => simpa [NonNegative, Double.div] using hb

theorem NonNegative.llround (ha : NonNegative a) : 0 ≤ a.llround := by
  cases a with
  | finite q =>
    have hq : 0 ≤ q := ha
    simp only [Double.llround, roundHalfAway, if_pos hq]
    exact Int.floor_nonneg.2 (by linarith)
  | infinite s | nan => exact le_refl 0

end Double

namespace Transport

/-- What holds of every transport: time does not run backwards, and the loop has a length. -/
structure Valid (transport : Transport) : Prop where
  sampleRate : transport.timeMap.sampleRate.NonNegative
  tempo : transport.timeMap.tempoBpm.NonNegative
  position : 0 ≤ transport.positionFrames
  loop : (transport.loopStartBeats.lt transport.loopEndBeats &&
    (Double.finite 0).le transport.loopStartBeats) = true

theorem valid_initial : ({} : Transport).Valid :=
  ⟨(by decide : (0 : ℚ) ≤ 48000), (by decide : (0 : ℚ) ≤ 120), le_rfl, by decide +kernel⟩

namespace Valid

variable {transport : Transport}

theorem seekFrames (h : transport.Valid) (frames : ℤ) : (transport.seekFrames frames).Valid := by
  refine ⟨h.sampleRate, h.tempo, ?_, h.loop⟩
  rw [Transport.seekFrames]
  dsimp only
  split_ifs <;> omega

theorem setTempo (h : transport.Valid) (bpm : Double) : (transport.setTempo bpm).Valid := by
  have htempo : (TimeMap.clampTempo bpm).NonNegative := by
    rw [TimeMap.clampTempo]
    split_ifs with hlow hhigh
    · exact (by decide : (0 : ℚ) ≤ 20)
    · exact (by decide : (0 : ℚ) ≤ 999)
    · cases bpm with
      | nan => trivial
      | infinite negative =>
        cases negative with
        | false => rfl
        | true => exact absurd rfl hlow
      | finite value =>
        have hlow : (20 : ℚ) < value := by simpa [minTempoBpm, Double.lt] using hlow
        exact (by linarith : (0 : ℚ) ≤ value)
  have hsixty : (Double.finite 60).NonNegative := (by decide : (0 : ℚ) ≤ 60)
  have hposition : (Double.ofInt transport.positionFrames).NonNegative :=
    Double.nonNegative_ofRat _ (by exact_mod_cast h.position)
  have hbeats : (transport.timeMap.framesToBeats transport.positionFrames).NonNegative :=
    hposition.div ((h.sampleRate.mul hsixty).div h.tempo)
  exact ⟨h.sampleRate, htempo, (hbeats.mul ((h.sampleRate.mul hsixty).div htempo)).llround, h.loop⟩

theorem setLoop (h : transport.Valid) (startBeats endBeats : Double) (enabled : Bool) :
    (transport.setLoop startBeats endBeats enabled).Valid := by
  rw [Transport.setLoop]
  split_ifs with hloop
  · exact ⟨h.sampleRate, h.tempo, h.position, hloop⟩
  · exact ⟨h.sampleRate, h.tempo, h.position, h.loop⟩

theorem advance (h : transport.Valid) {frames : ℤ} (hframes : 0 ≤ frames) :
    (transport.advance frames).Valid :=
  ⟨h.sampleRate, h.tempo, add_nonneg h.position hframes, h.loop⟩

/-- A region that was read back from the transport goes in again. -/
theorem setLoop_self (h : transport.Valid) (other : Transport) (enabled : Bool) :
    other.setLoop transport.loopStartBeats transport.loopEndBeats enabled =
      { other with
        loopStartBeats := transport.loopStartBeats, loopEndBeats := transport.loopEndBeats
        loopEnabled := enabled } := by
  rw [Transport.setLoop, if_pos h.loop]

end Valid

end Transport

namespace Engine

variable {engine : Engine} {schedule : Schedule}

theorem valid_processChunk (h : engine.transport.Valid) (offset numFrames : ℕ)
    (schedule : Option Schedule) (chunkStart : ℤ) (blockEvents : List PluginEvent) :
    (engine.processChunk offset numFrames schedule chunkStart blockEvents).2.transport.Valid := by
  rw [processChunk]
  split_ifs
  · exact h
  · dsimp only
    -- whatever the events of the chunk are, they only set the tempo
    generalize ((schedule.map fun schedule =>
      schedule.eventsIn chunkStart (chunkStart + numFrames)).getD []) = events
    generalize engine.transport = transport at h
    induction events generalizing transport with
    | nil => exact h
    | cons event events ih =>
      rw [List.foldl_cons]
      refine ih _ ?_
      split_ifs
      · exact h.setTempo event.value
      · exact h

theorem valid_runLoop (h : engine.transport.Valid) (blockEvents : List PluginEvent)
    (offset remaining wrapGuard : ℕ) :
    (runLoop schedule blockEvents engine offset remaining wrapGuard).2.transport.Valid := by
  fun_induction runLoop schedule blockEvents engine offset remaining wrapGuard with
  | case1 => exact h
  | case2 => exact h.seekFrames _
  | case3 =>
    rename_i ih
    exact ih (h.seekFrames _)
  | case4 blockEvents engine offset remaining wrapGuard hremaining chunk hchunk processed engine₁
      engine₂ rest ih =>
    have hadvanced : engine₁.transport.Valid :=
      (valid_processChunk h _ _ _ _ _).advance (not_le.1 hchunk).le
    refine ih ?_
    simp only [engine₂]
    split_ifs
    · exact hadvanced.seekFrames _
    · exact hadvanced

end Engine

namespace LiveEngine

variable {live : LiveEngine}

theorem valid_applyCommand {drained : LiveEngine × List PluginEvent}
    (h : drained.1.engine.transport.Valid) (command : EngineCommand) :
    (applyCommand drained command).1.engine.transport.Valid := by
  cases command with
  | seekFrames frames => exact h.seekFrames frames
  | seekBeats beats => exact h.seekFrames _
  | setTempo bpm => exact h.setTempo bpm
  | setLoop startBeats endBeats enabled => exact h.setLoop startBeats endBeats enabled
  | _ => exact h

/-- **Every block leaves a transport that is one.** -/
theorem valid_process (h : live.engine.transport.Valid) (numFrames : ℕ) :
    (live.process numFrames).2.engine.transport.Valid := by
  have hdrained : live.drainCommands.1.engine.transport.Valid := by
    rw [drainCommands]
    have hstart : ({ live with commands := live.commands.drop drainLimit } :
        LiveEngine).engine.transport.Valid := h
    -- the induction is on the commands that are taken, from any engine and any events
    generalize live.commands.take drainLimit = commands
    generalize ({ live with commands := live.commands.drop drainLimit } : LiveEngine) = start
      at hstart
    generalize ([] : List PluginEvent) = events
    induction commands generalizing start events with
    | nil => exact hstart
    | cons command commands ih =>
      rw [List.foldl_cons]
      have hnext : (applyCommand (start, events) command).1.engine.transport.Valid :=
        valid_applyCommand hstart command
      exact ih _ hnext _
  rw [process]
  dsimp only
  split_ifs
  · exact Engine.valid_runLoop hdrained _ _ _ _
  · exact Engine.valid_processChunk hdrained _ _ _ _ _

end LiveEngine

end OneBeat
