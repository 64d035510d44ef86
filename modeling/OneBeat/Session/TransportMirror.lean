import OneBeat.Core.PlaybackBlocks
import OneBeat.Session.Export

/-!
# The transport of the engine and the model's

The same command is read twice, by the model and by the audio thread, and what was sent already is
not sent again.

**Main theorem** (`Handle.mirrors_run`): once the queue has been drained, the tempo, the metronome
and, outside a preview, the loop of the engine are the model's, in every run whose steps are faithful
(`Handle.Faithful`) and in which no queue overflows.  A posted tempo that the model does not take, or
a posted loop with a region of its own, is not (`Handle.not_mirrors_posted`).
-/

namespace OneBeat

/-! ### Blocks and the controls -/

namespace ScheduleBuilder

variable {builder : ScheduleBuilder}

/-- What is built so far does not change the tempo. -/
def KeepsTempo (builder : ScheduleBuilder) : Prop :=
  ∀ event ∈ builder.events, event.type ≠ .tempoChange

theorem KeepsTempo.addEvent (h : builder.KeepsTempo) {event : ScheduleEvent}
    (hevent : event.type ≠ .tempoChange) : (builder.addEvent event).KeepsTempo := by
  intro e he
  rcases List.mem_append.1 he with he | he
  · exact h e he
  · obtain rfl := List.mem_singleton.1 he
    exact hevent

theorem KeepsTempo.foldl {α : Type*} {add : ScheduleBuilder → α → ScheduleBuilder}
    (h : builder.KeepsTempo) (hadd : ∀ builder : ScheduleBuilder, builder.KeepsTempo →
      ∀ a, (add builder a).KeepsTempo) (as : List α) : (as.foldl add builder).KeepsTempo :=
  List.foldlRecOn as add h fun builder hbuilder a _ => hadd builder hbuilder a

theorem keepsTempo_scheduleResolved (timeMap : TimeMap) (resolved : Resolved) :
    (scheduleResolved timeMap resolved).KeepsTempo := by
  have hnotes : ((resolveOverlaps resolved.notes).foldl (scheduleNote timeMap)
      ({} : ScheduleBuilder)).KeepsTempo := by
    refine KeepsTempo.foldl (fun _ he => absurd he List.not_mem_nil) (fun _ hbuilder _ => ?_) _
    rw [scheduleNote]
    refine (hbuilder.addEvent ?_).addEvent ?_ <;> simp
  rw [scheduleResolved]
  refine KeepsTempo.foldl (KeepsTempo.foldl (KeepsTempo.foldl hnotes ?_ _) ?_ _) ?_ _
  all_goals exact fun _ hbuilder _ => hbuilder.addEvent (by simp)

end ScheduleBuilder

/-- Nothing that the scheduler builds changes the tempo. -/
theorem keepsTempo_flatten (project : Tables) (options : FlattenOptions) :
    Engine.KeepsTempo (flatten project options).schedule := by
  intro event hevent
  have hevent := (List.perm_insertionSort ScheduleEvent.le _).mem_iff.1 hevent
  exact ScheduleBuilder.keepsTempo_scheduleResolved _ _ event hevent

namespace Engine

variable {engine : Engine} {schedule : Schedule}

theorem controls_processChunk (htempo : KeepsTempo schedule) (offset numFrames : ℕ)
    (played : Option Schedule) (hplayed : ∀ s, played = some s → s = schedule) (chunkStart : ℤ)
    (blockEvents : List PluginEvent) :
    (engine.processChunk offset numFrames played chunkStart blockEvents).2.transport =
      engine.transport := by
  rw [processChunk]
  split_ifs
  · rfl
  · cases played with
    | none => rfl
    | some s =>
      obtain rfl := hplayed s rfl
      exact keepsTempo_eventsIn htempo _ _ _

theorem controls_runLoop (htempo : KeepsTempo schedule) (metronomeEnabled : Bool)
    (blockEvents : List PluginEvent) (offset remaining wrapGuard : ℕ) :
    (runLoop schedule blockEvents engine offset remaining wrapGuard).2.transport.controls
        metronomeEnabled = engine.transport.controls metronomeEnabled := by
  fun_induction runLoop schedule blockEvents engine offset remaining wrapGuard with
  | case1 => rfl
  | case2 => rfl
  | case3 =>
    rename_i ih
    exact ih
  | case4 blockEvents engine offset remaining wrapGuard hremaining chunk hchunk processed engine₁
      engine₂ rest ih =>
    have hprocessed : processed.2.transport = engine.transport :=
      controls_processChunk htempo _ _ _ (fun s hs => (Option.some.inj hs).symm) _ _
    refine ih.trans ?_
    have hadvanced : engine₁.transport.controls metronomeEnabled =
        engine.transport.controls metronomeEnabled := by
      simp only [engine₁, hprocessed]
      rfl
    simp only [engine₂]
    split_ifs
    · exact hadvanced
    · exact hadvanced

end Engine

namespace LiveEngine

variable {live : LiveEngine}

theorem schedule_drainCommands (live : LiveEngine) :
    live.drainCommands.1.schedule = live.schedule := by
  have hfold : ∀ (commands : List EngineCommand) (drained : LiveEngine × List PluginEvent),
      (commands.foldl applyCommand drained).1.schedule = drained.1.schedule := by
    intro commands
    induction commands with
    | nil => exact fun _ => rfl
    | cons command commands ih =>
      intro drained
      rw [List.foldl_cons, ih]
      cases command <;> rfl
  exact hfold _ _

/-- **A block moves what waits into the controls, and nothing else.** -/
theorem settled_process (htempo : Engine.KeepsTempo live.schedule) (numFrames : ℕ) :
    (live.process numFrames).2.settled = live.settled := by
  have hcontrols : (live.process numFrames).2.controls = live.drainCommands.1.controls := by
    rw [process]
    dsimp only
    split_ifs
    · rw [schedule_drainCommands]
      exact Engine.controls_runLoop htempo _ _ _ _ _
    · rw [controls, Engine.controls_processChunk htempo _ _ none fun _ hs => by cases hs]
      rfl
  rw [← settled_drainCommands live, settled, process_commands, hcontrols, settled,
    drainCommands_commands]

end LiveEngine

/-! ### What the model says -/

namespace Session

variable (s : Session)

/-- At least four beats, to the end of the last clip and of the flattened schedule. -/
def regionEndBeats : Double :=
  let lengthFrames := (flatten s.project { sampleRate := s.sampleRate }).lengthFrames
  if 0 < lengthFrames then
    maxDouble s.clipsEndBeats
      ((TimeMap.ofTempo s.sampleRate s.project.transport.tempo).framesToBeats lengthFrames)
  else s.clipsEndBeats

end Session

/-- The controls are those of the model. -/
structure Session.Mirrored (s : Session) (controls : Controls) : Prop where
  tempo : controls.tempoBpm = s.project.transport.tempo
  metronome : controls.metronomeEnabled = s.project.transport.metronomeEnabled
  loop : s.patternPreview = false → controls.loopEnabled = s.project.transport.loopEnabled ∧
    controls.loopStartBeats = 0 ∧ controls.loopEndBeats = s.regionEndBeats

namespace Handle

/-- **The transport of the engine is the model's**, once the queue has been drained. -/
def Mirrors (h : Handle) : Prop := h.session.Mirrored h.live.settled

/-! ### Runs -/

/-- An entry point of the session is called, a command is posted, or a block is rendered. -/
inductive Label
  | call (call : Call)
  | post (command : EngineCommand) (host : InstrumentId → HostAnswer)
  | process (numFrames : ℕ)

def step (h : Handle) : Label → Handle
  | .call call => h.call call
  | .post command host => h.post host command
  | .process numFrames => h.process numFrames

def system : TransitionSystem Handle Label where
  step h label := some (h.step label)

/-! ### Faithful steps -/

/-- What a publish finds: a tempo that the engine takes, nothing that is almost what was sent, and
no schedule that is not flattened and ends after the clips. -/
structure Publishes (after : Session) (h : Handle) : Prop where
  tempo : TimeMap.clampTempo after.project.transport.tempo = after.project.transport.tempo
  nearTempo : near after.project.transport.tempo h.sent.tempo = true →
    h.sent.tempo = after.project.transport.tempo
  nearLoopEnd : near (after.loopEndBeats (h.flattenedFrames after)) h.sent.loopEnd = true →
    h.sent.loopEnd = after.loopEndBeats (h.flattenedFrames after)
  schedule : after.patternPreview = false →
    h.session.generation < after.generation ∨ after.regionEndBeats = after.clipsEndBeats

instance (after : Session) (h : Handle) : Decidable (h.Publishes after) :=
  decidable_of_iff (_ ∧ _ ∧ _ ∧ _)
    ⟨fun ⟨htempo, hnearTempo, hnearLoopEnd, hschedule⟩ =>
        Publishes.mk htempo hnearTempo hnearLoopEnd hschedule,
      fun ⟨htempo, hnearTempo, hnearLoopEnd, hschedule⟩ =>
        ⟨htempo, hnearTempo, hnearLoopEnd, hschedule⟩⟩

/-- What is left without a publish has the same transport, and ends where it did. -/
structure Leaves (after : Session) (h : Handle) : Prop where
  transport : after.project.transport = h.session.project.transport
  patternPreview : after.patternPreview = h.session.patternPreview
  regionEndBeats : after.patternPreview = false →
    after.regionEndBeats = h.session.regionEndBeats

/-- A session is published or left. -/
def Follows (after : Session) (h : Handle) : Prop :=
  if h.session.publishes.length < after.publishes.length then h.Publishes after
  else h.Leaves after

/-- What is posted is what the model says: a tempo that the model has taken, and a loop without a
region of its own. -/
def Agrees (h : Handle) : EngineCommand → Prop
  | .setTempo bpm => TimeMap.clampTempo bpm = h.session.project.transport.tempo
  | .setLoop startBeats endBeats enabled => enabled = h.session.loopFlag ∧
    ((startBeats.lt endBeats && (Double.finite 0).le startBeats) = true →
      startBeats = 0 ∧ endBeats = h.sent.loopEnd)
  | _ => True

/-- What a command is published with, when it changes the model. -/
def Notes (command : EngineCommand) (host : InstrumentId → HostAnswer) (h : Handle) : Prop :=
  ∀ change, (noted command).map h.session.reply = some (.model change) →
    Publishes ((h.session.execute change).2.publishModel host)
      { h with session := (h.session.execute change).2, sent := record h.sent command }

/-- The step keeps the transports together. -/
def Faithful (h : Handle) : Label → Prop
  | .call call =>
    match h.session.halfway call with
    | none => h.Follows (h.session.call call).2
    | some between =>
      h.Follows between ∧ (h.follow between).Follows (h.session.call call).2
  | .post command host => h.Notes command host ∧ (h.note host command).Agrees command
  | .process _ => True

/-! ### What a publish sends -/

/-- What the model wants. -/
def wanted (after : Session) (loopEnd : Double) : Controls where
  tempoBpm := after.project.transport.tempo
  loopStartBeats := 0
  loopEndBeats := loopEnd
  loopEnabled := after.loopFlag
  metronomeEnabled := after.project.transport.metronomeEnabled

/-- The record of what the controls were set to. -/
def sentFor (controls : Controls) : PublishedTransport where
  tempo := controls.tempoBpm
  loopEnd := controls.loopEndBeats
  loopEnabled := some controls.loopEnabled
  metronome := some controls.metronomeEnabled

/-- Whether the record has the loop that is wanted. -/
def hasLoop (sent : PublishedTransport) (want : Controls) : Bool :=
  near want.loopEndBeats sent.loopEnd && sent.loopEnabled = some want.loopEnabled

/-- The controls after a publish. -/
def told (sent : PublishedTransport) (want controls : Controls) : Controls where
  tempoBpm :=
    if near want.tempoBpm sent.tempo then controls.tempoBpm else TimeMap.clampTempo want.tempoBpm
  loopStartBeats := if hasLoop sent want then controls.loopStartBeats else want.loopStartBeats
  loopEndBeats := if hasLoop sent want then controls.loopEndBeats else want.loopEndBeats
  loopEnabled := if hasLoop sent want then controls.loopEnabled else want.loopEnabled
  metronomeEnabled :=
    if sent.metronome = some want.metronomeEnabled then controls.metronomeEnabled
    else want.metronomeEnabled

/-- The record after a publish. -/
def recorded (sent : PublishedTransport) (want : Controls) : PublishedTransport where
  tempo := if near want.tempoBpm sent.tempo then sent.tempo else want.tempoBpm
  loopEnd := if hasLoop sent want then sent.loopEnd else want.loopEndBeats
  loopEnabled := some want.loopEnabled
  metronome := some want.metronomeEnabled

variable {h : Handle} {after : Session}

theorem session_postCommand (h : Handle) (command : EngineCommand) :
    (h.postCommand command).session = h.session := rfl

theorem sent_postCommand (h : Handle) (command : EngineCommand) :
    (h.postCommand command).sent = h.sent := rfl

theorem live_postCommand (h : Handle) (command : EngineCommand) :
    (h.postCommand command).live = h.live.postCommand command := rfl

theorem settled_postCommand {command : EngineCommand}
    (hroom : (h.postCommand command).overflowed = false) : h.overflowed = false ∧
      (h.postCommand command).live.settled = h.live.settled.apply command := by
  rw [postCommand, Bool.or_eq_false_iff, decide_eq_false_iff_not, not_le] at hroom
  refine ⟨hroom.1, ?_⟩
  rw [postCommand, LiveEngine.settled_postCommand, if_pos hroom.2]

/-- What is the same on both sides of a publish. -/
structure Frame (h h' : Handle) : Prop where
  overflowed : h.overflowed = false
  session : h'.session = h.session
  schedule : h'.live.schedule = h.live.schedule

theorem schedule_postCommand (live : LiveEngine) (command : EngineCommand) :
    (live.postCommand command).schedule = live.schedule := by
  rw [LiveEngine.postCommand]
  split_ifs <;> rfl

theorem publishTempo_spec (hroom : h.publishTempo.overflowed = false) :
    Frame h h.publishTempo ∧
      h.publishTempo.live.settled = { h.live.settled with
        tempoBpm :=
          if near h.session.project.transport.tempo h.sent.tempo then h.live.settled.tempoBpm
          else TimeMap.clampTempo h.session.project.transport.tempo } ∧
      h.publishTempo.sent = { h.sent with
        tempo :=
          if near h.session.project.transport.tempo h.sent.tempo then h.sent.tempo
          else h.session.project.transport.tempo } := by
  rw [publishTempo] at hroom ⊢
  dsimp only at hroom ⊢
  split_ifs at hroom ⊢ with hnear
  · exact ⟨⟨hroom, rfl, rfl⟩, rfl, rfl⟩
  · obtain ⟨hbefore, hsettled⟩ := settled_postCommand hroom
    exact ⟨⟨hbefore, rfl, schedule_postCommand _ _⟩, hsettled, rfl⟩

/-- The loop has a length. -/
theorem lt_maxDouble {a b : Double} (ha : (0 : Double).lt a = true) :
    (0 : Double).lt (maxDouble a b) = true := by
  rw [maxDouble]
  split_ifs with hlt
  · cases a with
    | nan => cases ha
    | infinite negative =>
      cases negative with
      | false => cases hlt
      | true => cases ha
    | finite value =>
      cases b with
      | nan => cases hlt
      | infinite negative =>
        cases negative with
        | false => rfl
        | true => cases hlt
      | finite other =>
        have hpos : (0 : ℚ) < value := of_decide_eq_true ha
        exact decide_eq_true (hpos.trans (of_decide_eq_true hlt))
  · exact ha

theorem lt_loopEndBeats (s : Session) (lengthFrames : ℤ) :
    (0 : Double).lt (s.loopEndBeats lengthFrames) = true := by
  have hfour : (0 : Double).lt (.finite 4) = true := by decide +kernel
  have hclips : (0 : Double).lt s.clipsEndBeats = true :=
    List.foldlRecOn (motive := fun beats => (0 : Double).lt beats = true) s.project.clips.entries _
      hfour fun _ hbeats _ _ => lt_maxDouble hbeats
  rw [Session.loopEndBeats]
  split_ifs
  · split
    · exact hfour
    · exact lt_maxDouble hfour
  · exact lt_maxDouble hclips
  · exact hclips

theorem publishLoop_spec {lengthFrames : ℤ}
    (hroom : (h.publishLoop lengthFrames).overflowed = false) :
    let want := wanted h.session (h.session.loopEndBeats lengthFrames)
    Frame h (h.publishLoop lengthFrames) ∧
      (h.publishLoop lengthFrames).live.settled = { h.live.settled with
        loopStartBeats :=
          if hasLoop h.sent want then h.live.settled.loopStartBeats else want.loopStartBeats
        loopEndBeats :=
          if hasLoop h.sent want then h.live.settled.loopEndBeats else want.loopEndBeats
        loopEnabled :=
          if hasLoop h.sent want then h.live.settled.loopEnabled else want.loopEnabled } ∧
      (h.publishLoop lengthFrames).sent = { h.sent with
        loopEnd := if hasLoop h.sent want then h.sent.loopEnd else want.loopEndBeats
        loopEnabled := some want.loopEnabled } := by
  intro want
  rw [publishLoop] at hroom ⊢
  dsimp only at hroom ⊢
  have hhas : hasLoop h.sent want = (near (h.session.loopEndBeats lengthFrames) h.sent.loopEnd &&
    decide (h.sent.loopEnabled = some h.session.loopFlag)) := rfl
  rw [hhas]
  split_ifs at hroom ⊢ with hsame
  · refine ⟨⟨hroom, rfl, rfl⟩, rfl, ?_⟩
    rw [Bool.and_eq_true, decide_eq_true_eq] at hsame
    rw [show some want.loopEnabled = h.sent.loopEnabled from hsame.2.symm]
  · obtain ⟨hbefore, hsettled⟩ := settled_postCommand hroom
    refine ⟨⟨hbefore, rfl, schedule_postCommand _ _⟩, hsettled.trans ?_, rfl⟩
    rw [Controls.apply, if_pos]
    · rfl
    · rw [lt_loopEndBeats]
      decide +kernel

theorem publishMetronome_spec (hroom : h.publishMetronome.overflowed = false) :
    let enabled := h.session.project.transport.metronomeEnabled
    Frame h h.publishMetronome ∧
      h.publishMetronome.live.settled = { h.live.settled with
        metronomeEnabled :=
          if h.sent.metronome = some enabled then h.live.settled.metronomeEnabled else enabled } ∧
      h.publishMetronome.sent = { h.sent with metronome := some enabled } := by
  intro enabled
  rw [publishMetronome] at hroom ⊢
  dsimp only at hroom ⊢
  split_ifs at hroom ⊢ with hsame
  · refine ⟨⟨hroom, rfl, rfl⟩, rfl, ?_⟩
    rw [← hsame]
  · obtain ⟨hbefore, hsettled⟩ := settled_postCommand hroom
    exact ⟨⟨hbefore, rfl, schedule_postCommand _ _⟩, hsettled, rfl⟩

/-- The session after it was published, with the loop that was computed. -/
def wantedAt (after : Session) (h : Handle) : Controls :=
  wanted after (after.loopEndBeats (h.flattenedFrames after))

/-- **What a publish does to the controls, and to the record.** -/
theorem tell_spec (hroom : (h.tell after).overflowed = false) :
    h.overflowed = false ∧ (h.tell after).session = after ∧
      (h.tell after).live.schedule = (h.handOver after).live.schedule ∧
      (h.tell after).live.settled = told h.sent (h.wantedAt after) h.live.settled ∧
      (h.tell after).sent = recorded h.sent (h.wantedAt after) := by
  rw [tell] at hroom ⊢
  -- a queue that did not overflow at the end did not before
  obtain ⟨hframe₃, hsettled₃, hsent₃⟩ := publishMetronome_spec hroom
  obtain ⟨hframe₂, hsettled₂, hsent₂⟩ := publishLoop_spec hframe₃.overflowed
  obtain ⟨hframe₁, hsettled₁, hsent₁⟩ := publishTempo_spec hframe₂.overflowed
  have hsession₁ : (h.handOver after).publishTempo.session = after := hframe₁.session
  have hsession₂ := hframe₂.session.trans hsession₁
  rw [hsession₁, hsent₁] at hsettled₂ hsent₂
  rw [hsession₂, hsent₂] at hsettled₃ hsent₃
  rw [hsettled₂, hsettled₁] at hsettled₃
  refine ⟨hframe₁.overflowed, hframe₃.session.trans hsession₂,
    (hframe₃.schedule.trans hframe₂.schedule).trans hframe₁.schedule, hsettled₃.trans ?_,
    hsent₃.trans rfl⟩
  rfl

/-! ### In step -/

/-- The controls are what was sent, and what was sent is the model's. -/
structure InStep (h : Handle) : Prop where
  sent : h.sent = sentFor h.live.settled
  tempo : h.live.settled.tempoBpm = h.session.project.transport.tempo
  metronome : h.live.settled.metronomeEnabled = h.session.project.transport.metronomeEnabled
  loopStart : h.live.settled.loopStartBeats = 0
  loopEnabled : h.live.settled.loopEnabled = h.session.loopFlag
  loopEnd : h.session.patternPreview = false →
    h.live.settled.loopEndBeats = h.session.regionEndBeats
  keepsTempo : Engine.KeepsTempo h.live.schedule

theorem InStep.mirrors (hstep : h.InStep) : h.Mirrors := by
  refine ⟨hstep.tempo, hstep.metronome, fun hpreview => ⟨?_, hstep.loopStart, hstep.loopEnd hpreview⟩⟩
  rw [hstep.loopEnabled, Session.loopFlag, hpreview, Bool.false_or]

/-- A record that is what the controls were set to, or that is empty. -/
def Records (h : Handle) : Prop :=
  h.sent = {} ∨ h.sent = sentFor h.live.settled ∧ h.live.settled.loopStartBeats = 0

theorem InStep.records (hstep : h.InStep) : h.Records := .inr ⟨hstep.sent, hstep.loopStart⟩

theorem near_nan (a : Double) : near a .nan = false := by
  cases a <;> rfl

/-- The loop that a publish computes is the one that the model describes. -/
theorem loopEndBeats_eq (hpublishes : h.Publishes after) (hpreview : after.patternPreview = false) :
    after.loopEndBeats (h.flattenedFrames after) = after.regionEndBeats := by
  rw [Session.loopEndBeats, hpreview, if_neg Bool.false_ne_true]
  by_cases hflattened : h.session.generation < after.generation
  · have hframes : h.flattenedFrames after =
        (flatten after.project { sampleRate := after.sampleRate }).lengthFrames := by
      rw [flattenedFrames, Session.flattenedBy, hpreview]
      dsimp only
      rw [if_pos hflattened]
      rfl
    rw [hframes, Session.regionEndBeats]
  · -- the schedule was not flattened again
    have hframes : h.flattenedFrames after = 0 := by
      rw [flattenedFrames, Session.flattenedBy, hpreview]
      dsimp only
      rw [if_neg hflattened]
      rfl
    rw [hframes, if_neg (lt_irrefl 0)]
    exact ((hpublishes.schedule hpreview).resolve_left hflattened).symm

theorem recorded_eq {sent : PublishedTransport} {want : Controls}
    (htempo : near want.tempoBpm sent.tempo = true → sent.tempo = want.tempoBpm)
    (hloopEnd : near want.loopEndBeats sent.loopEnd = true → sent.loopEnd = want.loopEndBeats) :
    recorded sent want = sentFor want := by
  rw [recorded, sentFor]
  congr 1
  · split_ifs with hnear
    · exact htempo hnear
    · rfl
  · split_ifs with hhas
    · exact hloopEnd (Bool.and_eq_true_iff.1 hhas).1
    · rfl

section

variable {sent : PublishedTransport} {want controls : Controls}

theorem told_tempoBpm (hclamp : TimeMap.clampTempo want.tempoBpm = want.tempoBpm)
    (hnear : near want.tempoBpm sent.tempo = true → controls.tempoBpm = want.tempoBpm) :
    (told sent want controls).tempoBpm = want.tempoBpm := by
  rw [told]
  dsimp only
  split_ifs with h
  · exact hnear h
  · exact hclamp

theorem told_loopBounds
    (hloop : hasLoop sent want = true → controls.loopStartBeats = want.loopStartBeats ∧
      controls.loopEndBeats = want.loopEndBeats) :
    (told sent want controls).loopStartBeats = want.loopStartBeats ∧
      (told sent want controls).loopEndBeats = want.loopEndBeats := by
  rw [told]
  dsimp only
  split_ifs with h
  · exact hloop h
  · exact ⟨rfl, rfl⟩

theorem told_loopEnabled
    (hloop : hasLoop sent want = true → controls.loopEnabled = want.loopEnabled) :
    (told sent want controls).loopEnabled = want.loopEnabled := by
  rw [told]
  dsimp only
  split_ifs with h
  · exact hloop h
  · rfl

theorem told_metronomeEnabled (hsame : sent.metronome = some want.metronomeEnabled →
      controls.metronomeEnabled = want.metronomeEnabled) :
    (told sent want controls).metronomeEnabled = want.metronomeEnabled := by
  rw [told]
  dsimp only
  split_ifs with h
  · exact hsame h
  · rfl

end

theorem hasLoop_iff {sent : PublishedTransport} {want : Controls} :
    hasLoop sent want = true ↔
      near want.loopEndBeats sent.loopEnd = true ∧ sent.loopEnabled = some want.loopEnabled := by
  rw [hasLoop, Bool.and_eq_true, decide_eq_true_eq]

/-- **A publish brings the controls to what is wanted.** -/
theorem told_eq (hrecords : h.Records) (hpublishes : h.Publishes after) :
    told h.sent (h.wantedAt after) h.live.settled = h.wantedAt after := by
  have hloop : hasLoop h.sent (h.wantedAt after) = true →
      h.live.settled.loopStartBeats = (h.wantedAt after).loopStartBeats ∧
        h.live.settled.loopEndBeats = (h.wantedAt after).loopEndBeats ∧
        h.live.settled.loopEnabled = (h.wantedAt after).loopEnabled := by
    intro hhas
    obtain ⟨hnear, hsame⟩ := hasLoop_iff.1 hhas
    -- an empty record has no loop
    rcases hrecords with hempty | ⟨hsent, hstart⟩
    · rw [hempty] at hsame
      cases hsame
    · have hend := hpublishes.nearLoopEnd hnear
      rw [hsent] at hend hsame
      exact ⟨hstart, hend, Option.some.inj hsame⟩
  have hbounds := told_loopBounds fun hhas => ⟨(hloop hhas).1, (hloop hhas).2.1⟩
  refine Controls.ext (told_tempoBpm hpublishes.tempo fun hnear => ?_) hbounds.1 hbounds.2
    (told_loopEnabled fun hhas => (hloop hhas).2.2) (told_metronomeEnabled fun hsame => ?_)
  · rcases hrecords with hempty | ⟨hsent, -⟩
    · rw [hempty, near_nan] at hnear
      cases hnear
    · have htempo := hpublishes.nearTempo hnear
      rw [hsent] at htempo
      exact htempo
  · rcases hrecords with hempty | ⟨hsent, -⟩
    · rw [hempty] at hsame
      cases hsame
    · rw [hsent] at hsame
      exact Option.some.inj hsame

/-! ### Steps -/

theorem keepsTempo_handOver (hkeeps : h.session.flattenedBy after = none →
    Engine.KeepsTempo h.live.schedule) : Engine.KeepsTempo (h.handOver after).live.schedule := by
  rw [handOver]
  dsimp only
  cases hflattened : h.session.flattenedBy after with
  | none => exact hkeeps hflattened
  | some flattened =>
    rw [Session.flattenedBy] at hflattened
    split at hflattened
    · obtain rfl := Option.some.inj hflattened
      exact keepsTempo_flatten _ _
    · split_ifs at hflattened
      obtain rfl := Option.some.inj hflattened
      exact keepsTempo_flatten _ _

/-- A handle that has what is wanted is in step. -/
theorem Publishes.inStep (hpublishes : h.Publishes after) {h' : Handle}
    (hsession : h'.session = after) (hcontrols : h'.live.settled = h.wantedAt after)
    (hsent : h'.sent = recorded h.sent (h.wantedAt after))
    (hkeeps : Engine.KeepsTempo h'.live.schedule) : h'.InStep := by
  refine ⟨?_, ?_, ?_, ?_, ?_, fun hpreview => ?_, hkeeps⟩
  · rw [hsent, hcontrols]
    exact recorded_eq hpublishes.nearTempo hpublishes.nearLoopEnd
  · rw [hcontrols, hsession]
    rfl
  · rw [hcontrols, hsession]
    rfl
  · rw [hcontrols]
    rfl
  · rw [hcontrols, hsession]
    rfl
  · rw [hsession] at hpreview ⊢
    rw [hcontrols]
    exact loopEndBeats_eq hpublishes hpreview

/-- **What is published is in step.** -/
theorem Records.tell (hrecords : h.Records) (hpublishes : h.Publishes after)
    (hkeeps : h.session.flattenedBy after = none → Engine.KeepsTempo h.live.schedule)
    (hroom : (h.tell after).overflowed = false) : (h.tell after).InStep := by
  obtain ⟨-, hsession, hschedule, hcontrols, hsent⟩ := tell_spec hroom
  refine hpublishes.inStep hsession (hcontrols.trans (told_eq hrecords hpublishes)) hsent ?_
  rw [hschedule]
  exact keepsTempo_handOver hkeeps

theorem InStep.follow (hstep : h.InStep) (hfollows : h.Follows after)
    (hroom : (h.follow after).overflowed = false) : (h.follow after).InStep := by
  rw [Follows] at hfollows
  rw [Handle.follow] at hroom ⊢
  split_ifs at hfollows hroom ⊢
  · exact hstep.records.tell hfollows (fun _ => hstep.keepsTempo) hroom
  · refine ⟨hstep.sent, ?_, ?_, hstep.loopStart, ?_, fun hpreview => ?_, hstep.keepsTempo⟩
    · exact hstep.tempo.trans (congrArg TransportState.tempo hfollows.transport.symm)
    · exact hstep.metronome.trans
        (congrArg TransportState.metronomeEnabled hfollows.transport.symm)
    · rw [Session.loopFlag, hfollows.transport, hfollows.patternPreview]
      exact hstep.loopEnabled
    · have hpreview' : h.session.patternPreview = false := by
        rw [← hfollows.patternPreview]
        exact hpreview
      exact (hstep.loopEnd hpreview').trans (hfollows.regionEndBeats hpreview).symm

theorem overflowed_of_follow (hroom : (h.follow after).overflowed = false) :
    h.overflowed = false := by
  rw [follow] at hroom
  split_ifs at hroom
  · exact (tell_spec hroom).1
  · exact hroom

theorem InStep.call (hstep : h.InStep) {call : Call} (hfaithful : h.Faithful (.call call))
    (hroom : (h.call call).overflowed = false) : (h.call call).InStep := by
  rw [Faithful] at hfaithful
  rw [Handle.call] at hroom ⊢
  cases hhalfway : h.session.halfway call with
  | none =>
    rw [hhalfway] at hfaithful hroom
    exact hstep.follow hfaithful hroom
  | some between =>
    rw [hhalfway] at hfaithful hroom
    exact (hstep.follow hfaithful.1 (overflowed_of_follow hroom)).follow hfaithful.2 hroom

theorem schedule_process (live : LiveEngine) (numFrames : ℕ) :
    (live.process numFrames).2.schedule = live.schedule := by
  rw [LiveEngine.process]
  dsimp only
  split_ifs <;> exact LiveEngine.schedule_drainCommands live

theorem InStep.process (hstep : h.InStep) (numFrames : ℕ) : (h.process numFrames).InStep := by
  have hsettled : (h.process numFrames).live.settled = h.live.settled :=
    LiveEngine.settled_process hstep.keepsTempo numFrames
  have hschedule : (h.process numFrames).live.schedule = h.live.schedule :=
    schedule_process h.live numFrames
  obtain ⟨hsent, htempo, hmetronome, hstart, henabled, hend, hkeeps⟩ := hstep
  rw [← hsettled] at hsent htempo hmetronome hstart henabled hend
  rw [← hschedule] at hkeeps
  exact ⟨hsent, htempo, hmetronome, hstart, henabled, hend, hkeeps⟩

/-! ### Posted commands -/

theorem transport_execute_setTransport (s : Session) (transport : TransportState) :
    (s.execute (some (setTransport s.project transport))).2.project.transport = transport := by
  rw [(Session.execute_some s _).2, setTransport, Command.apply, TransportCommand.apply,
    TransportCommand.rescaleAudioClips_eq]
  rfl

/-- A command that says what the model says does nothing to controls that are in step. -/
theorem InStep.apply_eq (hstep : h.InStep) {command : EngineCommand} (hagrees : h.Agrees command)
    (hmetronome : ∀ enabled, command = .setMetronome enabled →
      enabled = h.session.project.transport.metronomeEnabled) :
    h.live.settled.apply command = h.live.settled := by
  cases command with
  | setTempo bpm => exact Controls.ext (hagrees.trans hstep.tempo.symm) rfl rfl rfl rfl
  | setLoop startBeats endBeats enabled =>
    obtain ⟨henabled, hregion⟩ := hagrees
    have henabled := henabled.trans hstep.loopEnabled.symm
    rw [Controls.apply]
    split_ifs with hvalid
    · obtain ⟨hstart, hend⟩ := hregion hvalid
      rw [hstep.sent] at hend
      exact Controls.ext rfl (hstart.trans hstep.loopStart.symm) hend henabled rfl
    · exact Controls.ext rfl rfl rfl henabled rfl
  | setMetronome enabled =>
    exact Controls.ext rfl rfl rfl rfl ((hmetronome enabled rfl).trans hstep.metronome.symm)
  | _ => rfl

theorem InStep.posted (hstep : h.InStep) {command : EngineCommand}
    (hsettled : (h.postCommand command).live.settled = h.live.settled) :
    (h.postCommand command).InStep := by
  obtain ⟨hsent, htempo, hmetronome, hstart, henabled, hend, hkeeps⟩ := hstep
  rw [← hsettled] at hsent htempo hmetronome hstart henabled hend
  rw [← schedule_postCommand h.live command] at hkeeps
  exact ⟨hsent, htempo, hmetronome, hstart, henabled, hend, hkeeps⟩

/-- A metronome that the model does not note is as it was. -/
theorem metronome_of_not_noted {s : Session} {enabled : Bool}
    (hnot : ∀ change, s.reply (.setMetronome enabled) ≠ .model change) :
    enabled = s.project.transport.metronomeEnabled := by
  by_contra hne
  exact hnot _ (if_pos (decide_eq_true (Ne.symm hne)))

/-- One that it notes is what is published. -/
theorem metronome_of_noted {s : Session} {enabled : Bool} {change : Option Command}
    (hreply : s.reply (.setMetronome enabled) = .model change)
    (host : InstrumentId → HostAnswer) :
    enabled = ((s.execute change).2.publishModel host).project.transport.metronomeEnabled := by
  rw [Session.reply, Session.editTransport] at hreply
  split_ifs at hreply
  obtain rfl := Reply.model.inj hreply
  rw [transport_publishModel, transport_execute_setTransport]

theorem loopEnd_record (sent : PublishedTransport) (command : EngineCommand) :
    (record sent command).loopEnd = sent.loopEnd := by
  cases command <;> rfl

/-- What a noted command is published from. -/
def noting (change : Option Command) (command : EngineCommand) (h : Handle) : Handle :=
  { h with session := (h.session.execute change).2, sent := record h.sent command }

/-- What the command does not set, the publish has. -/
theorem InStep.told_noting (hstep : h.InStep) {command : EngineCommand} {change : Option Command}
    (hpublishes : (h.noting change command).Publishes after) :
    let want := (h.noting change command).wantedAt after
    let controls := told (h.noting change command).sent want h.live.settled
    (controls.loopStartBeats = want.loopStartBeats ∧ controls.loopEndBeats = want.loopEndBeats) ∧
      ((record h.sent command).tempo = h.sent.tempo → controls.tempoBpm = want.tempoBpm) ∧
      ((record h.sent command).loopEnabled = h.sent.loopEnabled →
        controls.loopEnabled = want.loopEnabled) ∧
      ((record h.sent command).metronome = h.sent.metronome →
        controls.metronomeEnabled = want.metronomeEnabled) := by
  refine ⟨told_loopBounds fun hhas => ?_, fun hsame => told_tempoBpm hpublishes.tempo fun hnear => ?_,
    fun hsame => told_loopEnabled fun hhas => ?_, fun hsame => told_metronomeEnabled fun hsent => ?_⟩
  · -- no command records the end of the loop
    have hend := hpublishes.nearLoopEnd (hasLoop_iff.1 hhas).1
    rw [noting, loopEnd_record, hstep.sent] at hend
    exact And.intro hstep.loopStart hend
  · have htempo := hpublishes.nearTempo hnear
    rw [noting, hsame, hstep.sent] at htempo
    exact htempo
  · have henabled := (hasLoop_iff.1 hhas).2
    rw [noting, hsame, hstep.sent] at henabled
    exact Option.some.inj henabled
  · rw [noting, hsame, hstep.sent] at hsent
    exact Option.some.inj hsent

/-- The command finishes what the publish has left to it. -/
theorem InStep.apply_noted (hstep : h.InStep) {command : EngineCommand} {change : Option Command}
    {host : InstrumentId → HostAnswer}
    (hreply : (noted command).map h.session.reply = some (.model change))
    (hafter : after = (h.session.execute change).2.publishModel host)
    (hpublishes : (h.noting change command).Publishes after)
    (hroom : ((h.noting change command).tell after).overflowed = false)
    (hagrees : ((h.noting change command).tell after).Agrees command) :
    ((h.noting change command).tell after).live.settled.apply command =
      (h.noting change command).wantedAt after := by
  obtain ⟨-, hsession, -, hcontrols, hsent⟩ := tell_spec hroom
  rw [recorded_eq hpublishes.nearTempo hpublishes.nearLoopEnd] at hsent
  rw [hcontrols]
  obtain ⟨hbounds, htempo, henabled, hmetronome⟩ := hstep.told_noting hpublishes
  cases command with
  | setTempo bpm =>
    rw [Agrees, hsession] at hagrees
    exact Controls.ext hagrees hbounds.1 hbounds.2 (henabled rfl) (hmetronome rfl)
  | setLoop startBeats endBeats enabled =>
    rw [Agrees, hsession, hsent] at hagrees
    obtain ⟨hflag, hregion⟩ := hagrees
    rw [Controls.apply]
    split_ifs with hvalid
    · obtain ⟨hstart, hend⟩ := hregion hvalid
      exact Controls.ext (htempo rfl) hstart hend hflag (hmetronome rfl)
    · exact Controls.ext (htempo rfl) hbounds.1 hbounds.2 hflag (hmetronome rfl)
  | setMetronome enabled =>
    have hmodel := metronome_of_noted (Option.some.inj hreply) host
    rw [← hafter] at hmodel
    exact Controls.ext (htempo rfl) hbounds.1 hbounds.2 (henabled rfl) hmodel
  | _ => cases hreply

theorem InStep.post (hstep : h.InStep) {command : EngineCommand}
    {host : InstrumentId → HostAnswer} (hfaithful : h.Faithful (.post command host))
    (hroom : (h.post host command).overflowed = false) : (h.post host command).InStep := by
  obtain ⟨hnotes, hagrees⟩ := hfaithful
  rw [Handle.post] at hroom ⊢
  obtain ⟨hnoteRoom, hsettled⟩ := settled_postCommand hroom
  -- either the command changes the model and is published, or the session stays
  have hnote : (∃ change, (noted command).map h.session.reply = some (.model change) ∧
      h.note host command = (h.noting change command).tell
        ((h.session.execute change).2.publishModel host)) ∨
      (∀ change, (noted command).map h.session.reply ≠ some (.model change)) ∧
        h.note host command = h := by
    rw [note]
    split
    · rename_i change hreply
      exact .inl ⟨change, hreply, rfl⟩
    · rename_i hnot
      exact .inr ⟨hnot, rfl⟩
  rcases hnote with ⟨change, hreply, hnote⟩ | ⟨hnot, hnote⟩
  · have hpublishes : (h.noting change command).Publishes
        ((h.session.execute change).2.publishModel host) := hnotes change hreply
    rw [hnote] at hagrees hsettled hnoteRoom ⊢
    obtain ⟨-, hsession, hschedule, -, hsent⟩ := tell_spec hnoteRoom
    have hcontrols := hstep.apply_noted hreply rfl hpublishes hnoteRoom hagrees
    refine hpublishes.inStep ((session_postCommand _ _).trans hsession) (hsettled.trans hcontrols)
      ((sent_postCommand _ _).trans hsent) ?_
    rw [live_postCommand, schedule_postCommand, hschedule]
    exact keepsTempo_handOver fun _ => hstep.keepsTempo
  · rw [hnote] at hagrees hsettled ⊢
    refine hstep.posted (hsettled.trans (hstep.apply_eq hagrees fun enabled heq => ?_))
    subst heq
    exact metronome_of_not_noted fun change hchange => hnot change (congrArg some hchange)

/-- A step in which no queue overflows. -/
theorem overflowed_of_step {label : Label} (hroom : (h.step label).overflowed = false) :
    h.overflowed = false := by
  cases label with
  | call call =>
    rw [step, Handle.call] at hroom
    cases hhalfway : h.session.halfway call with
    | none =>
      rw [hhalfway] at hroom
      exact overflowed_of_follow hroom
    | some between =>
      rw [hhalfway] at hroom
      exact overflowed_of_follow (overflowed_of_follow hroom)
  | post command host =>
    have hnote := (settled_postCommand (h := h.note host command) hroom).1
    rw [note] at hnote
    split at hnote
    · exact (tell_spec (h := h.noting _ command) hnote).1
    · exact hnote
  | process numFrames => exact hroom

theorem InStep.step (hstep : h.InStep) {label : Label} (hfaithful : h.Faithful label)
    (hroom : (h.step label).overflowed = false) : (h.step label).InStep := by
  cases label with
  | call call => exact hstep.call hfaithful hroom
  | post command host => exact hstep.post hfaithful hroom
  | process numFrames => exact hstep.process numFrames

/-! ### Runs -/

/-- The first publish sends everything. -/
theorem inStep_create (host : InstrumentId → HostAnswer) (ids : FreshIds) (sampleRate : Double)
    (live : LiveEngine) (hroom : (create host ids sampleRate live).overflowed = false) :
    (create host ids sampleRate live).InStep := by
  rw [create, publishModel] at hroom ⊢
  refine Records.tell (.inl rfl) ⟨?_, fun hnear => ?_, fun hnear => ?_, fun _ => .inl ?_⟩
    (fun hnone => ?_) hroom
  · have hclamp : TimeMap.clampTempo (.finite 120) = .finite 120 := by decide +kernel
    rw [transport_publishModel]
    exact hclamp
  · rw [near_nan] at hnear
    cases hnear
  · rw [near_nan] at hnear
    cases hnear
  · exact Nat.zero_lt_one
  · cases hnone

/-- Every step of a run is faithful. -/
def FaithfulAll : Handle → List Label → Prop
  | _, [] => True
  | h, label :: labels => h.Faithful label ∧ FaithfulAll (h.step label) labels

theorem overflowed_of_run {h' : Handle} {labels : List Label} (hrun : system.run h labels = some h')
    (hroom : h'.overflowed = false) : h.overflowed = false := by
  induction labels generalizing h with
  | nil =>
    obtain rfl := Option.some_inj.1 hrun
    exact hroom
  | cons label labels ih => exact overflowed_of_step (ih hrun)

theorem InStep.run {h' : Handle} {labels : List Label} (hstep : h.InStep)
    (hfaithful : h.FaithfulAll labels) (hrun : system.run h labels = some h')
    (hroom : h'.overflowed = false) : h'.InStep := by
  induction labels generalizing h with
  | nil =>
    obtain rfl := Option.some_inj.1 hrun
    exact hstep
  | cons label labels ih =>
    have hnext : (h.step label).overflowed = false := overflowed_of_run hrun hroom
    exact ih (hstep.step hfaithful.1 hnext) hfaithful.2 hrun

/-- **In a run whose steps are faithful, and in which no queue overflows, the transport of the
engine is the model's** once the queue has been drained. -/
theorem mirrors_run {host : InstrumentId → HostAnswer} {ids : FreshIds} {sampleRate : Double}
    {live : LiveEngine} {labels : List Label}
    (hfaithful : (create host ids sampleRate live).FaithfulAll labels)
    (hrun : system.run (create host ids sampleRate live) labels = some h)
    (hroom : h.overflowed = false) : h.Mirrors :=
  ((inStep_create host ids sampleRate live (overflowed_of_run hrun hroom)).run hfaithful hrun
    hroom).mirrors

theorem engine_follow (after : Session) (h : Handle) :
    (h.follow after).live.engine = h.live.engine := by
  rw [follow]
  split_ifs
  · exact engine_tell after h
  · rfl

/-- Only blocks change the engine. -/
theorem valid_step (hvalid : h.live.engine.transport.Valid) (label : Label) :
    (h.step label).live.engine.transport.Valid := by
  cases label with
  | call call =>
    rw [step, Handle.call]
    cases h.session.halfway call with
    | none => exact (engine_follow _ h).symm ▸ hvalid
    | some between =>
      exact ((engine_follow _ (h.follow between)).trans (engine_follow between h)).symm ▸ hvalid
  | post command host => exact (engine_post host command h).symm ▸ hvalid
  | process numFrames => exact LiveEngine.valid_process hvalid numFrames

/-- A tempo that only the engine takes, or a loop that only the engine knows. -/
theorem not_mirrors_posted :
    (∃ h, system.run newHandle
        [.post (.setTempo (.finite 5)) Session.noPlugins, .process 512] = some h ∧
      h.overflowed = false ∧ h.live.commands = [] ∧ ¬h.Mirrors) ∧
    ∃ h, system.run newHandle
        [.post (.setLoop (.finite 4) (.finite 8) true) Session.noPlugins, .process 512] = some h ∧
      h.overflowed = false ∧ h.live.commands = [] ∧ ¬h.Mirrors := by
  constructor
  · have hslow : ∃ h, system.run newHandle [.post (.setTempo (.finite 5)) Session.noPlugins,
        .process 512] = some h ∧ (h.overflowed = false ∧ h.live.commands.isEmpty = true ∧
          h.live.settled.tempoBpm ≠ h.session.project.transport.tempo) :=
      ⟨_, rfl, by decide +kernel⟩
    obtain ⟨h, hrun, hroom, hdrained, hne⟩ := hslow
    exact ⟨h, hrun, hroom, List.isEmpty_iff.1 hdrained, fun hmirrors => hne hmirrors.tempo⟩
  · have hregion : ∃ h, system.run newHandle
        [.post (.setLoop (.finite 4) (.finite 8) true) Session.noPlugins, .process 512] = some h ∧
          (h.overflowed = false ∧ h.live.commands.isEmpty = true ∧
            h.session.patternPreview = false ∧ h.live.settled.loopStartBeats ≠ 0) :=
      ⟨_, rfl, by decide +kernel⟩
    obtain ⟨h, hrun, hroom, hdrained, hpreview, hne⟩ := hregion
    exact ⟨h, hrun, hroom, List.isEmpty_iff.1 hdrained,
      fun hmirrors => hne (hmirrors.loop hpreview).2.1⟩

/-- A metronome that is switched on. -/
def metronomeOn : List Label :=
  [.post (.setMetronome true) Session.noPlugins, .process 512]

theorem mirrors_run_metronomeOn :
    ∃ h, system.run newHandle metronomeOn = some h ∧ h.Mirrors := by
  have hreply : newHandle.session.reply (.setMetronome true) =
      .model (some (setTransport newHandle.session.project
        { newHandle.session.project.transport with metronomeEnabled := true })) := by
    have hoff : newHandle.session.project.transport.metronomeEnabled = false := by decide +kernel
    rw [Session.reply, Session.editTransport, hoff]
    rfl
  have hnotes : newHandle.Notes (.setMetronome true) Session.noPlugins := by
    intro change hchange
    obtain rfl := Reply.model.inj (hreply.symm.trans (Option.some.inj hchange))
    decide +kernel
  have hfaithful : newHandle.FaithfulAll metronomeOn := ⟨⟨hnotes, trivial⟩, trivial, trivial⟩
  exact ⟨_, rfl, mirrors_run hfaithful rfl (by decide +kernel)⟩

end Handle

end OneBeat
