import OneBeat.Core.Playback
import OneBeat.Lib.SortedLists

/-!
# Playback in blocks

What a channel is told does not depend on how the output is cut into blocks: at every frame of the
output it is told about the events of the schedule at the position of that frame.

* `Clock` : the position frame by frame, and where the loop wraps;
* `heard` : what a channel is to be told about some frames;
* `told_runBlocks` : **and what it is told**, in whatever blocks;
* `not_told_alike_late` : an audio clip whose sample was late starts, or does not, depending on the
  first block.
-/

namespace OneBeat

/-! ### The schedule in a chunk -/

/-- By frame. -/
def Schedule.Sorted (schedule : Schedule) : Prop :=
  schedule.events.Pairwise fun a b => a.frame ≤ b.frame

section Bisection

variable {events : List ScheduleEvent} {frame : ℤ} {low high : ℕ}

theorem front_before (h : events.Pairwise fun a b => a.frame ≤ b.frame) (frame : ℤ) :
    Front (fun event : ScheduleEvent => event.frame < frame) events :=
  h.imp fun hle hlt => by
    simp only [decide_eq_true_eq] at hlt ⊢
    omega

/-- Bisection finds how many events are before the frame. -/
theorem lowerBoundIn_eq (h : events.Pairwise fun a b => a.frame ≤ b.frame)
    (hlow : low ≤ events.countP (·.frame < frame)) (hhigh : events.countP (·.frame < frame) ≤ high)
    (hlength : high ≤ events.length) :
    lowerBoundIn events frame low high = events.countP (·.frame < frame) := by
  fun_induction lowerBoundIn events frame low high with
  | case1 low high hlt mid event hevent hbefore ih =>
    have hmid := ((front_before h frame).getElem_iff hevent).1 (by simpa using hbefore)
    exact ih (by omega) hhigh hlength
  | case2 low high hlt mid event hevent hnot ih =>
    have hmid := ((front_before h frame).getElem_iff hevent).not.1 (by simpa using hnot)
    exact ih hlow (by omega) (by omega)
  | case3 low high hlt mid hnone =>
    have hlength' := List.getElem?_eq_none_iff.1 hnone
    omega
  | case4 low high hnot => omega

theorem Schedule.eventsIn_eq {schedule : Schedule} (h : schedule.Sorted) (chunkStart chunkEnd : ℤ) :
    schedule.eventsIn chunkStart chunkEnd =
      schedule.events.filter fun event => chunkStart ≤ event.frame && event.frame < chunkEnd := by
  have hcount : schedule.lowerBound chunkStart = schedule.events.countP (·.frame < chunkStart) :=
    lowerBoundIn_eq h (Nat.zero_le _) List.countP_le_length (Nat.le_refl _)
  have hafter := (front_before h chunkStart).drop_countP
  have hsorted : (schedule.events.filter fun event => !decide (event.frame < chunkStart)).Pairwise
      fun a b => a.frame ≤ b.frame := h.filter _
  rw [eventsIn, hcount, hafter, (front_before hsorted chunkEnd).takeWhile_eq_filter,
    List.filter_filter]
  refine List.filter_congr fun event _ => ?_
  rw [Bool.and_comm, ← decide_not]
  exact congrArg (· && _) (decide_eq_decide.2 Int.not_lt)

end Bisection

namespace Engine

/-! ### One chunk -/

/-- The sample of the clip is not there yet: the channel is not told about its events. -/
def Channel.waits (channel : Channel) : Bool := channel.oneShot && !channel.sampleReady

/-- The clip of the channel starts with the event. -/
def startsAudio (index : ℕ) (event : ScheduleEvent) : Bool :=
  event.instrument = index && event.type = .audioStart

/-- The event as its channel is told about it. -/
def toldAt (index : ℕ) (time : ScheduleEvent → ℕ) (event : ScheduleEvent) : Option PluginEvent :=
  if event.instrument = index then pluginEvent (time event) event else none

theorem Scheduled.step_eq (channel : Channel) (index : ℕ) (chunkStart : ℤ) (s : Scheduled)
    (event : ScheduleEvent) :
    s.step channel index chunkStart event =
      { pushed := s.pushed ++ if channel.waits then [] else
          (toldAt index (fun event => (event.frame - chunkStart).toNat) event).toList
        deferredAudioStart := s.deferredAudioStart || channel.waits && startsAudio index event
        audioStart := s.audioStart || !channel.waits && startsAudio index event } := by
  unfold Scheduled.step toldAt startsAudio
  change (if event.instrument ≠ index then s else if channel.waits = true then _ else _) = _
  by_cases hindex : event.instrument = index
  · cases channel.waits with
    | true => by_cases htype : event.type = .audioStart <;> simp [hindex, htype]
    | false => simp [hindex]
  · simp [hindex]

theorem scheduled_eq (channel : Channel) (index : ℕ) (chunkStart : ℤ) (s : Scheduled)
    (events : List ScheduleEvent) :
    events.foldl (Scheduled.step channel index chunkStart) s =
      { pushed := s.pushed ++ if channel.waits then [] else
          events.filterMap (toldAt index fun event => (event.frame - chunkStart).toNat)
        deferredAudioStart :=
          s.deferredAudioStart || channel.waits && events.any (startsAudio index)
        audioStart := s.audioStart || !channel.waits && events.any (startsAudio index) } := by
  induction events generalizing s with
  | nil => simp
  | cons event events ih =>
    rw [List.foldl_cons, ih, Scheduled.step_eq]
    cases channel.waits with
    | true => simp [Bool.or_assoc]
    | false =>
      cases htold : toldAt index (fun event => (event.frame - chunkStart).toNat) event <;>
        simp [htold, Bool.or_assoc]

/-- The sample of the clip has come since it was to start, and nothing of the chunk starts it. -/
def startsLate (channel : Channel) (id : ChannelId) (events : List ScheduleEvent) : Bool :=
  match id with
  | .rack index =>
    channel.oneShot && channel.sampleReady && channel.deferredAudioStart &&
      !events.any (startsAudio index)
  | .preview => false

/-- The events of a chunk for a channel, in the order in which they are found. -/
def pushedFor (channel : Channel) (id : ChannelId) (events : List ScheduleEvent) (chunkStart : ℤ)
    (releaseAll : Bool) : List PluginEvent :=
  (if channel.resetRequested then [.allNotesOff 0] else []) ++
  (if releaseAll then [.allNotesOff 0] else []) ++
  (match id with
    | .rack index => if channel.waits then [] else
        events.filterMap (toldAt index fun event => (event.frame - chunkStart).toNat)
    | .preview => []) ++
  if startsLate channel id events then [.noteOn 0 Sampler.rootNote (.finite 1)] else []

/-- What a chunk leaves of a channel: a late start is not due any more. -/
structure Channel.Rendered (id : ChannelId) (channel channel' : Channel) : Prop where
  active : channel'.active = channel.active
  oneShot : channel'.oneShot = channel.oneShot
  sampleReady : channel'.sampleReady = channel.sampleReady
  resetRequested : channel'.resetRequested = false
  late : ∀ events, startsLate channel' id events = false

theorem Channel.Rendered.trans {id : ChannelId} {channel channel' channel'' : Channel}
    (h : channel.Rendered id channel') (h' : channel'.Rendered id channel'') :
    channel.Rendered id channel'' :=
  ⟨h'.active.trans h.active, h'.oneShot.trans h.oneShot, h'.sampleReady.trans h.sampleReady,
    h'.resetRequested, h'.late⟩

/-- What a block tells a channel, and what it leaves of it. -/
theorem renderChannel_spec (channel : Channel) (id : ChannelId) (auditionChannel : ℤ) (capacity : ℕ)
    (events : List ScheduleEvent) (chunkStart : ℤ) (releaseAll : Bool) :
    (renderChannel channel id auditionChannel capacity (some events) chunkStart [] releaseAll).1 =
        ((pushedFor channel id events chunkStart releaseAll).foldl EventList.push
          { capacity }).sortByTime ∧
      channel.Rendered id (renderChannel channel id auditionChannel capacity (some events)
        chunkStart [] releaseAll).2 := by
  unfold renderChannel pushedFor startsLate
  cases id with
  | preview => exact ⟨by simp, rfl, rfl, rfl, rfl, fun _ => rfl⟩
  | rack index =>
    simp only [List.filter_nil, List.append_nil, reduceCtorEq, decide_false, Bool.false_eq_true,
      if_false, scheduled_eq]
    rcases channel with ⟨active, _ | _, _ | _, reset, _ | _⟩ <;>
      rcases Bool.eq_false_or_eq_true (events.any (startsAudio index)) with hstarts | hstarts <;>
      simp only [hstarts] <;>
      exact ⟨by simp [Channel.waits], rfl, rfl, rfl, rfl,
        fun _ => by simp [startsLate, Channel.waits]⟩

/-! ### Frame by frame -/

/-- The start of the loop, as the transport seeks it. -/
def loopFrom (transport : Transport) : ℤ :=
  (transport.seekFrames transport.loopStartFrames).positionFrames

/-- A frame of the output: its position, and whether what sounds is released at it. -/
structure Clock where
  position : ℤ
  release : Bool
  deriving DecidableEq

/-- At the end of the loop, back to its start. -/
def Clock.seam (transport : Transport) (clock : Clock) : Clock :=
  if transport.loopEnabled && transport.loopEndFrames ≤ clock.position then
    { position := loopFrom transport, release := true }
  else clock

/-- One frame on. -/
def Clock.tick (transport : Transport) (clock : Clock) : Clock :=
  { position := (clock.seam transport).position + 1, release := false }

/-- The clock at a frame of the output. -/
def clockAt (transport : Transport) (clock : Clock) (frame : ℕ) : Clock :=
  ((Clock.tick transport)^[frame] clock).seam transport

/-- What the schedule has for a channel at a position. -/
def dueAt (schedule : Schedule) (channel : Channel) (id : ChannelId) (position : ℤ) :
    List PluginEvent :=
  match id with
  | .rack index =>
    if channel.waits then []
    else (schedule.events.filter (·.frame = position)).filterMap (toldAt index fun _ => 0)
  | .preview => []

/-- What a channel is to be told at a frame. -/
def heardAt (schedule : Schedule) (channel : Channel) (id : ChannelId) (clock : Clock) :
    List PluginEvent :=
  (if clock.release then [.allNotesOff 0] else []) ++ dueAt schedule channel id clock.position

/-- What a channel is to be told about some frames: at each of them what is due.  At the first, a
reset comes before it, and a late start after it. -/
def heard (schedule : Schedule) (transport : Transport) (channel : Channel) (id : ChannelId)
    (late : Bool) (clock : Clock) (numFrames : ℕ) : List PluginEvent :=
  (List.range numFrames).flatMap fun frame =>
    ((if frame = 0 ∧ channel.resetRequested then [PluginEvent.allNotesOff 0] else []) ++
      heardAt schedule channel id (clockAt transport clock frame) ++
      if frame = 0 ∧ late then [PluginEvent.noteOn 0 Sampler.rootNote (.finite 1)] else []).map
        (PluginEvent.later frame)

section Chunk

variable {schedule : Schedule} {transport : Transport} {channel : Channel} {id : ChannelId}
  {clock : Clock} {m n : ℕ}

/-- No frame of the chunk is behind the end of the loop. -/
def Fits (transport : Transport) (clock : Clock) (m : ℕ) : Prop :=
  transport.loopEnabled = true → clock.position + m ≤ transport.loopEndFrames

theorem seam_of_fits (h : Fits transport clock m) (hm : 0 < m) : clock.seam transport = clock := by
  refine if_neg fun hend => ?_
  obtain ⟨henabled, hle⟩ := (Bool.and_eq_true _ _).mp hend
  have hfits := h henabled
  have hle' := of_decide_eq_true hle
  omega

theorem Fits.tick (h : Fits transport clock (m + 1)) : Fits transport (clock.tick transport) m := by
  intro henabled
  have hfits := h henabled
  simp only [Clock.tick, seam_of_fits h (Nat.succ_pos m)]
  push_cast at hfits
  omega

theorem tick_of_fits (h : Fits transport clock m) {t : ℕ} (ht : t + 1 ≤ m) :
    (Clock.tick transport)^[t + 1] clock = { position := clock.position + (t + 1), release := false } := by
  induction t generalizing clock m with
  | zero =>
    simp [Clock.tick, seam_of_fits h (by omega)]
  | succ t ih =>
    obtain ⟨m, rfl⟩ : ∃ k, m = k + 1 := ⟨m - 1, by omega⟩
    rw [Function.iterate_succ_apply, ih h.tick (by omega)]
    simp only [Clock.tick, seam_of_fits h (Nat.succ_pos m), Clock.mk.injEq, and_true]
    push_cast
    omega

/-- In a chunk the position goes on from frame to frame. -/
theorem clockAt_of_fits (h : Fits transport clock m) {t : ℕ} (ht : t < m) :
    clockAt transport clock t =
      { position := clock.position + t, release := decide (t = 0) && clock.release } := by
  unfold clockAt
  cases t with
  | zero => simp [seam_of_fits h ht]
  | succ t =>
    rw [tick_of_fits h (by omega)]
    have hrest : Fits transport { position := clock.position + (t + 1), release := false }
        (m - (t + 1)) := by
      intro henabled
      have hfits := h henabled
      simp only
      omega
    rw [seam_of_fits hrest (by omega)]
    simp

theorem pluginEvent_eq (time : ℕ) (event : ScheduleEvent) :
    pluginEvent time event = (pluginEvent 0 event).map (PluginEvent.later time) := by
  unfold pluginEvent
  cases event.type <;> rfl

theorem time_pluginEvent {time : ℕ} {event : ScheduleEvent} {told : PluginEvent}
    (h : pluginEvent time event = some told) : told.time = time := by
  unfold pluginEvent at h
  cases htype : event.type <;> rw [htype] at h <;> cases h <;> rfl

/-- Of what is found in a chunk, what is at one of its frames. -/
theorem ties_scheduled (hsorted : schedule.Sorted) (index : ℕ) (position : ℤ) {t : ℕ} (ht : t < m) :
    ties PluginEvent.time t ((schedule.eventsIn position (position + m)).filterMap
        (toldAt index fun event => (event.frame - position).toNat)) =
      ((schedule.events.filter (·.frame = position + t)).filterMap (toldAt index fun _ => 0)).map
        (PluginEvent.later t) := by
  rw [Schedule.eventsIn_eq hsorted, ties, List.filterMap_filter, List.filterMap_filter,
    List.filter_filterMap, List.map_filterMap]
  refine List.filterMap_congr fun event _ => ?_
  by_cases hindex : event.instrument = index
  · have htold : ∀ time, toldAt index time event = pluginEvent (time event) event :=
      fun _ => if_pos hindex
    simp only [htold]
    by_cases hframe : event.frame = position + t
    · have hin : (decide (position ≤ event.frame) && decide (event.frame < position + m)) = true := by
        simp only [Bool.and_eq_true, decide_eq_true_eq]
        omega
      have htime : (event.frame - position).toNat = t := by omega
      rw [if_pos hin, if_pos (decide_eq_true hframe), htime, pluginEvent_eq t event]
      cases hplugin : pluginEvent 0 event with
      | none => rfl
      | some told => simp [PluginEvent.later, time_pluginEvent hplugin]
    · rw [if_neg (show ¬ decide (event.frame = position + t) = true by simpa using hframe)]
      split
      · rename_i hin
        simp only [Bool.and_eq_true, decide_eq_true_eq] at hin
        have htime : (event.frame - position).toNat ≠ t := by omega
        cases hplugin : pluginEvent (event.frame - position).toNat event with
        | none => rfl
        | some told => simp [time_pluginEvent hplugin, htime]
      · rfl
  · have htold : ∀ time, toldAt index time event = none := fun _ => if_neg hindex
    simp [htold]

/-- What is pushed for a frame of a chunk is what is to be heard at it. -/
theorem ties_pushedFor (hsorted : schedule.Sorted) (hfits : Fits transport clock m) {t : ℕ}
    (ht : t < m) :
    let events := schedule.eventsIn clock.position (clock.position + m)
    ties PluginEvent.time t (pushedFor channel id events clock.position clock.release) =
      ((if t = 0 ∧ channel.resetRequested then [PluginEvent.allNotesOff 0] else []) ++
        heardAt schedule channel id (clockAt transport clock t) ++
        if t = 0 ∧ startsLate channel id events then
          [PluginEvent.noteOn 0 Sampler.rootNote (.finite 1)] else []).map
          (PluginEvent.later t) := by
  have hone : ∀ (c : Bool) (event : PluginEvent), event.time = 0 →
      ties PluginEvent.time t (if c then [event] else []) =
        (if t = 0 ∧ c then [event] else []).map (PluginEvent.later t) := by
    intro c event htime
    cases c with
    | false => simp
    | true =>
      cases t with
      | zero | succ t => simp [ties, htime]
  have hdue : ties PluginEvent.time t (match id with
      | .rack index => if channel.waits then [] else
          (schedule.eventsIn clock.position (clock.position + m)).filterMap
            (toldAt index fun event => (event.frame - clock.position).toNat)
      | .preview => []) =
      (dueAt schedule channel id (clock.position + t)).map (PluginEvent.later t) := by
    cases id with
    | preview => rfl
    | rack index =>
      rw [dueAt]
      dsimp only
      split
      · rfl
      · exact ties_scheduled hsorted index clock.position ht
  unfold pushedFor heardAt
  dsimp only
  rw [clockAt_of_fits hfits ht]
  simp only [ties_append, List.map_append]
  rw [hone _ _ rfl, hone _ _ rfl, hone _ _ rfl, hdue]
  simp [List.append_assoc]

theorem time_lt_of_pushed (hsorted : schedule.Sorted) (hm : 0 < m) {position : ℤ} {release : Bool}
    {event : PluginEvent} (h : event ∈ pushedFor channel id
      (schedule.eventsIn position (position + m)) position release) : event.time < m := by
  have hfirst : ∀ (c : Bool) (told : PluginEvent), told.time = 0 →
      event ∈ (if c then [told] else []) → event.time < m := by
    intro c told htime hmem
    cases c with
    | false => exact absurd hmem List.not_mem_nil
    | true =>
      rw [List.mem_singleton.1 hmem, htime]
      exact hm
  rcases List.mem_append.1 h with h | h
  · rcases List.mem_append.1 h with h | h
    · rcases List.mem_append.1 h with h | h
      · exact hfirst _ _ rfl h
      · exact hfirst _ _ rfl h
    · cases id with
      | preview => exact absurd h List.not_mem_nil
      | rack index =>
        dsimp only at h
        split at h
        · exact absurd h List.not_mem_nil
        · obtain ⟨e, he, htold⟩ := List.mem_filterMap.1 h
          rw [Schedule.eventsIn_eq hsorted] at he
          have hin := (List.mem_filter.1 he).2
          simp only [Bool.and_eq_true, decide_eq_true_eq] at hin
          rw [toldAt] at htold
          split at htold
          · rw [time_pluginEvent htold]
            omega
          · cases htold
  · exact hfirst _ _ rfl h

/-- **What a channel is told about a chunk** is what is due at its frames. -/
theorem told_chunk (hsorted : schedule.Sorted) (hfits : Fits transport clock m) (hm : 0 < m)
    (capacity : ℕ)
    (hoverflow : (((pushedFor channel id (schedule.eventsIn clock.position (clock.position + m))
      clock.position clock.release).foldl EventList.push { capacity }).sortByTime).overflow = 0) :
    let events := schedule.eventsIn clock.position (clock.position + m)
    (((pushedFor channel id events clock.position clock.release).foldl EventList.push
        { capacity }).sortByTime).events =
      heard schedule transport channel id (startsLate channel id events) clock m := by
  intro events
  obtain ⟨hpairwise, hties⟩ := EventList.sortByTime_spec
    ((pushedFor channel id events clock.position clock.release).foldl EventList.push { capacity })
  rw [EventList.events_pushed hoverflow] at hties
  have hlt : ∀ event ∈ (((pushedFor channel id events clock.position clock.release).foldl
      EventList.push { capacity }).sortByTime).events, event.time < m := by
    intro event hevent
    have hmem : event ∈ ties PluginEvent.time event.time _ := mem_ties.2 ⟨hevent, rfl⟩
    rw [hties] at hmem
    exact time_lt_of_pushed hsorted hm (mem_ties.1 hmem).1
  rw [eq_flatMap_ties hpairwise hlt, heard]
  refine List.flatMap_congr fun t ht => ?_
  exact (hties t).trans (ties_pushedFor hsorted hfits (List.mem_range.1 ht))

end Chunk

/-! ### All channels -/

/-- The channel, if it is active. -/
def channelAt (engine : Engine) : ChannelId → Option Channel
  | .rack index => engine.channels[index]?.filter Channel.active
  | .preview => some engine.preview

section Channels

variable (auditionChannel : ℤ) (capacity : ℕ) (events : List ScheduleEvent) (position : ℤ)
  (releaseAll : Bool) (channels : List Channel) (i : ℕ)

/-- What the rack is told, one active channel after the other. -/
theorem told_renderChannels (k : ℕ) :
    (renderChannels auditionChannel capacity (some events) position [] releaseAll i channels).1.filter
        (·.1 = .rack k) =
      if i ≤ k then
        ((channels[k - i]?.filter Channel.active).map fun channel => (ChannelId.rack k,
          (renderChannel channel (.rack k) auditionChannel capacity (some events) position []
            releaseAll).1)).toList
      else [] := by
  induction channels generalizing i with
  | nil => simp [renderChannels]
  | cons channel channels ih =>
    rw [renderChannels]
    dsimp only
    rcases Nat.lt_trichotomy k i with hlt | rfl | hgt
    · have hrest := ih (i + 1)
      rw [if_neg (show ¬ i + 1 ≤ k by omega)] at hrest
      rw [if_neg (show ¬ i ≤ k by omega)]
      split
      · exact hrest
      · rw [List.filter_cons_of_neg (by simpa using Nat.ne_of_gt hlt)]
        exact hrest
    · have hrest := ih (k + 1)
      rw [if_neg (show ¬ k + 1 ≤ k by omega)] at hrest
      cases hactive : channel.active with
      | false | true => simp [hactive, hrest, Option.filter]
    · obtain ⟨j, rfl⟩ : ∃ j, k = i + (j + 1) := ⟨k - i - 1, by omega⟩
      have hindex : i + (j + 1) - (i + 1) = j := by omega
      have hrest := ih (i + 1)
      rw [if_pos (show i + 1 ≤ i + (j + 1) by omega), hindex] at hrest
      rw [if_pos (show i ≤ i + (j + 1) by omega), Nat.add_sub_cancel_left, List.getElem?_cons_succ,
        ← hrest]
      split
      · rfl
      · rw [List.filter_cons_of_neg (by simp)]

theorem preview_renderChannels :
    (renderChannels auditionChannel capacity (some events) position [] releaseAll i channels).1.filter
      (·.1 = .preview) = [] := by
  induction channels generalizing i with
  | nil => rfl
  | cons channel channels ih =>
    rw [renderChannels]
    dsimp only
    split
    · exact ih (i + 1)
    · simp [ih]

theorem channels_renderChannels (k : ℕ) :
    (renderChannels auditionChannel capacity (some events) position [] releaseAll i
        channels).2[k]?.filter Channel.active =
      (channels[k]?.filter Channel.active).map fun channel =>
        (renderChannel channel (.rack (i + k)) auditionChannel capacity (some events) position []
          releaseAll).2 := by
  induction channels generalizing i k with
  | nil => rfl
  | cons channel channels ih =>
    rw [renderChannels]
    dsimp only
    have hrendered := (renderChannel_spec channel (.rack i) auditionChannel capacity events
      position releaseAll).2
    cases k with
    | zero =>
      cases hactive : channel.active with
      | false => simp [hactive, Option.filter]
      | true => simp [hactive, hrendered.active, Option.filter]
    | succ k =>
      have hrest := ih (i + 1) k
      rw [Nat.add_right_comm, Nat.add_assoc] at hrest
      split
      · exact hrest
      · exact hrest

end Channels

/-! ### The clock over many frames -/

section Clock

variable {schedule : Schedule} {transport : Transport} {channel channel' : Channel}
  {id : ChannelId} {clock : Clock}

/-- The loop has frames. -/
def LoopsAhead (transport : Transport) : Prop :=
  transport.loopEnabled = true → loopFrom transport < transport.loopEndFrames

theorem seam_seam (h : LoopsAhead transport) (clock : Clock) :
    (clock.seam transport).seam transport = clock.seam transport := by
  unfold Clock.seam
  split
  · rename_i hend
    have hlt := h ((Bool.and_eq_true _ _).mp hend).1
    exact if_neg fun hend' => absurd (of_decide_eq_true ((Bool.and_eq_true _ _).mp hend').2)
      (Int.not_le.2 hlt)
  · rfl

theorem clockAt_seam (h : LoopsAhead transport) (clock : Clock) (frame : ℕ) :
    clockAt transport (clock.seam transport) frame = clockAt transport clock frame := by
  unfold clockAt
  cases frame with
  | zero => exact seam_seam h clock
  | succ frame => rw [Function.iterate_succ_apply, Clock.tick, seam_seam h]; rfl

theorem clockAt_add (clock : Clock) (a frame : ℕ) :
    clockAt transport clock (a + frame) =
      clockAt transport ((Clock.tick transport)^[a] clock) frame := by
  unfold clockAt
  rw [Nat.add_comm, Function.iterate_add_apply]

theorem heard_seam (h : LoopsAhead transport) (late : Bool) (n : ℕ) :
    heard schedule transport channel id late (clock.seam transport) n =
      heard schedule transport channel id late clock n := by
  unfold heard
  simp only [clockAt_seam h]

theorem Channel.Rendered.heardAt_eq (h : channel.Rendered id channel') (clock : Clock) :
    heardAt schedule channel' id clock = heardAt schedule channel id clock := by
  unfold heardAt dueAt Channel.waits
  rw [h.oneShot, h.sampleReady]

/-- What is heard after some frames is heard as from the beginning. -/
theorem heard_add (h : channel.Rendered id channel') {a : ℕ} (ha : 0 < a) (late : Bool)
    (clock : Clock) (b : ℕ) :
    heard schedule transport channel id late clock (a + b) =
      heard schedule transport channel id late clock a ++
        (heard schedule transport channel' id false ((Clock.tick transport)^[a] clock) b).map
          (PluginEvent.later a) := by
  unfold heard
  rw [List.range_add, List.flatMap_append, List.flatMap_map, List.map_flatMap]
  refine congrArg _ (List.flatMap_congr fun frame _ => ?_)
  rw [h.heardAt_eq, h.resetRequested, clockAt_add]
  have hlater : PluginEvent.later a ∘ PluginEvent.later frame = PluginEvent.later (a + frame) :=
    funext (PluginEvent.later_later a frame)
  simp [Nat.ne_of_gt ha, hlater]

end Clock

/-! ### Chunk after chunk -/

def clock (engine : Engine) : Clock :=
  { position := engine.transport.positionFrames, release := engine.pendingAllNotesOff }

section Chunks

variable {schedule : Schedule} {engine : Engine} {channel : Channel} {id : ChannelId}
  {offset m n : ℕ}

/-- The schedule does not change the tempo. -/
def KeepsTempo (schedule : Schedule) : Prop :=
  ∀ event ∈ schedule.events, event.type ≠ .tempoChange

/-- What a chunk does for a channel. -/
structure Processed (schedule : Schedule) (id : ChannelId) (channel : Channel) (engine : Engine)
    (offset m : ℕ) (chunk : Option Chunk) (engine' : Engine) : Prop where
  transport : engine'.transport = engine.transport
  pending : engine'.pendingAllNotesOff = false
  told : ∃ chunk', chunk = some chunk' ∧ chunk'.offset = offset ∧ chunk'.numFrames = m ∧
    chunk'.told.filter (·.1 = id) = [(id, ((pushedFor channel id
      (schedule.eventsIn engine.clock.position (engine.clock.position + m)) engine.clock.position
      engine.clock.release).foldl EventList.push { capacity := engine.chunkEventCapacity }).sortByTime)]
  channel : ∃ channel', engine'.channelAt id = some channel' ∧ channel.Rendered id channel'

theorem keepsTempo_eventsIn (h : KeepsTempo schedule) (chunkStart chunkEnd : ℤ)
    (transport : Transport) :
    (schedule.eventsIn chunkStart chunkEnd).foldl (fun (transport : Transport) event =>
      if event.type = .tempoChange then transport.setTempo event.value else transport) transport =
      transport := by
  have hnone : ∀ event ∈ schedule.eventsIn chunkStart chunkEnd, event.type ≠ .tempoChange :=
    fun event hevent => h event (List.mem_of_mem_drop (List.takeWhile_subset _ hevent))
  generalize schedule.eventsIn chunkStart chunkEnd = events at hnone ⊢
  induction events with
  | nil => rfl
  | cons event events ih =>
    rw [List.foldl_cons, if_neg (hnone event List.mem_cons_self)]
    exact ih fun event hevent => hnone event (List.mem_cons_of_mem _ hevent)

theorem processChunk_processed (htempo : KeepsTempo schedule) (hm : 0 < m)
    (hchannel : engine.channelAt id = some channel) :
    Processed schedule id channel engine offset m
      (engine.processChunk offset m (some schedule) engine.transport.positionFrames []).1
      (engine.processChunk offset m (some schedule) engine.transport.positionFrames []).2 := by
  have htransport := keepsTempo_eventsIn htempo engine.transport.positionFrames
    (engine.transport.positionFrames + m) engine.transport
  rw [processChunk, if_neg (Nat.ne_of_gt hm)]
  refine ⟨htransport, rfl, ⟨_, rfl, rfl, rfl, ?_⟩, ?_⟩
  · cases id with
    | preview =>
      obtain rfl : engine.preview = channel := Option.some.inj hchannel
      rw [← (renderChannel_spec _ _ engine.auditionChannel _ _ _ _).1]
      simp only [Option.map_some, List.filter_append, preview_renderChannels]
      rfl
    | rack index =>
      have htold := told_renderChannels engine.auditionChannel engine.chunkEventCapacity
        (schedule.eventsIn engine.clock.position (engine.clock.position + m)) engine.clock.position
        engine.clock.release engine.channels 0 index
      rw [if_pos (Nat.zero_le _), Nat.sub_zero, show engine.channels[index]?.filter Channel.active =
        some channel from hchannel, Option.map_some, (renderChannel_spec ..).1] at htold
      rw [List.filter_append]
      exact congrArg (· ++ []) htold
  · cases id with
    | preview =>
      obtain rfl : engine.preview = channel := Option.some.inj hchannel
      exact ⟨_, rfl, (renderChannel_spec engine.preview .preview engine.auditionChannel
        engine.chunkEventCapacity [] engine.transport.positionFrames engine.pendingAllNotesOff).2⟩
    | rack index =>
      have hchannels := channels_renderChannels engine.auditionChannel engine.chunkEventCapacity
        (schedule.eventsIn engine.clock.position (engine.clock.position + m)) engine.clock.position
        engine.clock.release engine.channels 0 index
      rw [show engine.channels[index]?.filter Channel.active = some channel from hchannel,
        Option.map_some, Nat.zero_add] at hchannels
      exact ⟨_, hchannels, (renderChannel_spec ..).2⟩

/-- The start that was late, if the first chunk has it. -/
def lateStart (schedule : Schedule) (channel : Channel) (id : ChannelId) (position : ℤ)
    (chunks : List Chunk) : Bool :=
  match chunks with
  | [] => false
  | chunk :: _ => startsLate channel id (schedule.eventsIn position (position + chunk.numFrames))

/-- No event has been dropped. -/
def NoOverflow (chunks : List Chunk) : Prop :=
  ∀ chunk ∈ chunks, ∀ told ∈ chunk.told, told.2.overflow = 0

instance (chunks : List Chunk) : Decidable (NoOverflow chunks) :=
  inferInstanceAs (Decidable (∀ chunk ∈ chunks, ∀ told ∈ chunk.told, told.2.overflow = 0))

/-- What some frames do for a channel. -/
structure Plays (schedule : Schedule) (id : ChannelId) (channel : Channel) (engine : Engine)
    (offset n : ℕ) (chunks : List Chunk) (engine' : Engine) : Prop where
  transport : ∃ position, engine'.transport = { engine.transport with positionFrames := position }
  clock : engine'.clock.seam engine.transport =
    ((Clock.tick engine.transport)^[n] engine.clock).seam engine.transport
  told : toldTo id chunks = (heard schedule engine.transport channel id
    (lateStart schedule channel id (engine.clock.seam engine.transport).position chunks)
      engine.clock n).map (PluginEvent.later offset)
  channel : ∃ channel', engine'.channelAt id = some channel' ∧
    (n = 0 ∧ chunks = [] ∧ channel' = channel ∨ 0 < n ∧ chunks ≠ [] ∧ channel.Rendered id channel')

theorem Plays.none (hchannel : engine.channelAt id = some channel) :
    Plays schedule id channel engine offset 0 [] engine :=
  ⟨⟨_, rfl⟩, rfl, rfl, channel, hchannel, .inl ⟨rfl, rfl, rfl⟩⟩

theorem heard_position (schedule : Schedule) (transport : Transport) (position : ℤ)
    (channel : Channel) (id : ChannelId) (late : Bool) (clock : Clock) (n : ℕ) :
    heard schedule { transport with positionFrames := position } channel id late clock n =
      heard schedule transport channel id late clock n := rfl

/-- The engine at the end of the loop plays as it does from its start. -/
theorem Plays.of_wrap {chunks : List Chunk} {engine' : Engine}
    (hloops : LoopsAhead engine.transport) (hend : engine.clock.seam engine.transport = engine.wrap.clock)
    (h : Plays schedule id channel engine.wrap offset n chunks engine') :
    Plays schedule id channel engine offset n chunks engine' where
  transport := h.transport
  clock := by
    refine h.clock.trans ?_
    rw [← hend]
    exact clockAt_seam hloops engine.clock n
  told := by
    refine h.told.trans ?_
    rw [← hend]
    change (heard schedule engine.transport channel id (lateStart schedule channel id
      ((engine.clock.seam engine.transport).seam engine.transport).position chunks)
      (engine.clock.seam engine.transport) n).map _ = _
    rw [seam_seam hloops, heard_seam hloops]
  channel := h.channel

theorem Channel.Rendered.lateStart_eq {channel' : Channel} (h : channel.Rendered id channel')
    (position : ℤ) (chunks : List Chunk) :
    lateStart schedule channel' id position chunks = false := by
  cases chunks with
  | nil => rfl
  | cons chunk chunks => exact h.late _

theorem toldTo_cons {chunk : Chunk} {list : EventList} (h : chunk.told.filter (·.1 = id) = [(id, list)])
    (rest : List Chunk) :
    toldTo id (chunk :: rest) = list.events.map (PluginEvent.later chunk.offset) ++ toldTo id rest := by
  rw [toldTo, List.flatMap_cons, h]
  simp [toldTo]

/-- One chunk. -/
theorem Plays.of_chunk {k : ℕ} (hsorted : schedule.Sorted) {chunk : Option Chunk}
    {engine₁ engine₂ : Engine} (hk : 0 < k) (hfits : Fits engine.transport engine.clock k)
    (hchunk : Processed schedule id channel engine offset k chunk engine₁)
    (hclock : engine₂.clock = Clock.seam engine.transport
      { position := engine.clock.position + k, release := false })
    (htransport : ∃ position, engine₂.transport = { engine.transport with positionFrames := position })
    (hchannel : engine₂.channelAt id = engine₁.channelAt id)
    (hoverflow : NoOverflow chunk.toList) (hloops : LoopsAhead engine.transport) :
    Plays schedule id channel engine offset k chunk.toList engine₂ := by
  obtain ⟨chunk, rfl, rfl, rfl, htold⟩ := hchunk.told
  obtain ⟨channel', hchannel', hrendered⟩ := hchunk.channel
  have htick : (Clock.tick engine.transport)^[chunk.numFrames] engine.clock =
      { position := engine.clock.position + chunk.numFrames, release := false } := by
    obtain ⟨t, ht⟩ : ∃ t, chunk.numFrames = t + 1 := ⟨chunk.numFrames - 1, by omega⟩
    rw [ht] at hfits ⊢
    exact_mod_cast tick_of_fits hfits (Nat.le_refl _)
  refine ⟨htransport, ?_, ?_, channel', hchannel.trans hchannel', .inr ⟨hk, by simp, hrendered⟩⟩
  · rw [hclock, htick, seam_seam hloops]
  · have hmem : _ ∈ chunk.told.filter (·.1 = id) := htold ▸ List.mem_singleton_self _
    have hlist := told_chunk hsorted hfits hk engine.chunkEventCapacity
      (hoverflow chunk List.mem_cons_self _ (List.mem_filter.1 hmem).1)
    rw [Option.toList_some, toldTo_cons htold, hlist, seam_of_fits hfits hk]
    exact List.append_nil _

/-- Some frames, and what is played after them. -/
theorem Plays.append {a b : ℕ} {chunks rest : List Chunk} {engine₁ engine₂ : Engine}
    (hloops : LoopsAhead engine.transport)
    (h : Plays schedule id channel engine offset a chunks engine₁)
    (hrest : ∀ channel', engine₁.channelAt id = some channel' →
      Plays schedule id channel' engine₁ (offset + a) b rest engine₂) :
    Plays schedule id channel engine offset (a + b) (chunks ++ rest) engine₂ := by
  obtain ⟨position, htransport⟩ := h.transport
  obtain ⟨channel₁, hchannel₁, hcases⟩ := h.channel
  have hplays := hrest channel₁ hchannel₁
  obtain ⟨position', htransport'⟩ := hplays.transport
  obtain ⟨channel₂, hchannel₂, hcases'⟩ := hplays.channel
  have hclock := hplays.clock
  have htold := hplays.told
  rw [htransport] at htransport' hclock htold
  -- the second part starts where the first has stopped
  have hstart : ∀ frame, clockAt engine.transport engine₁.clock frame =
      clockAt engine.transport engine.clock (a + frame) := by
    intro frame
    rw [← clockAt_seam hloops engine₁.clock, h.clock, clockAt_seam hloops, clockAt_add]
  refine ⟨⟨position', htransport'⟩, hclock.trans (hstart b), ?_, channel₂, hchannel₂, ?_⟩
  · have hheard : heard schedule engine.transport channel₁ id
        (lateStart schedule channel₁ id (engine₁.clock.seam engine.transport).position rest)
        engine₁.clock b = heard schedule engine.transport channel₁ id
        (lateStart schedule channel₁ id (engine₁.clock.seam engine.transport).position rest)
        ((Clock.tick engine.transport)^[a] engine.clock) b := by
      rw [← heard_seam hloops, h.clock, heard_seam hloops]
    rw [heard_position] at htold
    change toldTo id rest = (heard schedule engine.transport channel₁ id
      (lateStart schedule channel₁ id (engine₁.clock.seam engine.transport).position rest)
      engine₁.clock b).map _ at htold
    rw [hheard] at htold
    rw [toldTo, List.flatMap_append, ← toldTo, ← toldTo, h.told, htold]
    rcases hcases with ⟨rfl, rfl, rfl⟩ | ⟨ha, hne, hrendered⟩
    · have hsame : engine₁.clock.seam engine.transport = engine.clock.seam engine.transport := h.clock
      rw [hsame, Nat.zero_add]
      rfl
    · have hlater : PluginEvent.later offset ∘ PluginEvent.later a = PluginEvent.later (offset + a) :=
        funext (PluginEvent.later_later _ _)
      have hlate : lateStart schedule channel id (engine.clock.seam engine.transport).position
          (chunks ++ rest) =
          lateStart schedule channel id (engine.clock.seam engine.transport).position chunks := by
        cases chunks with
        | nil => exact absurd rfl hne
        | cons chunk chunks => rfl
      rw [hrendered.lateStart_eq, hlate, heard_add hrendered ha, List.map_append, List.map_map, hlater]
  · rcases hcases with ⟨rfl, rfl, rfl⟩ | ⟨ha, hne, hrendered⟩
    · rw [Nat.zero_add]
      exact hcases'
    · refine .inr ⟨by omega, by simp [hne], ?_⟩
      rcases hcases' with ⟨_, _, rfl⟩ | ⟨_, _, hrendered'⟩
      · exact hrendered
      · exact hrendered.trans hrendered'

/-- Where the loop does not end, there are frames until it does. -/
theorem framesUntilLoopWrap_of_fits (h : Fits engine.transport engine.clock 1) (hn : 0 < n) :
    ∃ k : ℕ, engine.transport.framesUntilLoopWrap n = k ∧ 0 < k ∧ k ≤ n ∧
      Fits engine.transport engine.clock k := by
  unfold Transport.framesUntilLoopWrap
  cases henabled : engine.transport.loopEnabled with
  | false => exact ⟨n, rfl, hn, Nat.le_refl n, fun h => absurd (henabled.symm.trans h) (by simp)⟩
  | true =>
    have hfits := h henabled
    simp only [clock] at hfits
    rw [if_neg (by simp), if_neg (by omega)]
    refine ⟨(min (engine.transport.loopEndFrames - engine.transport.positionFrames) n).toNat, ?_⟩
    refine ⟨by omega, by omega, by omega, fun _ => ?_⟩
    simp only [clock]
    omega

/-- The engine when a chunk has been played: further on, or back at the start of the loop. -/
def afterChunk (engine : Engine) (k : ℤ) : Engine :=
  let advanced := { engine with transport := engine.transport.advance k }
  if advanced.transport.loopEnabled &&
      advanced.transport.loopEndFrames ≤ advanced.transport.positionFrames then advanced.wrap
  else advanced

theorem afterChunk_channelAt (engine : Engine) (k : ℤ) :
    (engine.afterChunk k).channelAt id = engine.channelAt id := by
  unfold afterChunk
  dsimp only
  split <;> cases id <;> rfl

theorem afterChunk_transport (engine : Engine) (k : ℤ) :
    ∃ position, (engine.afterChunk k).transport =
      { engine.transport with positionFrames := position } := by
  unfold afterChunk
  dsimp only
  split <;> exact ⟨_, rfl⟩

theorem afterChunk_clock (engine : Engine) (k : ℤ) (h : engine.pendingAllNotesOff = false) :
    (engine.afterChunk k).clock = Clock.seam engine.transport
      { position := engine.clock.position + k, release := false } := by
  unfold afterChunk Clock.seam
  dsimp only
  split
  · rename_i hend
    exact (if_pos hend).symm
  · rename_i hnot
    refine Eq.trans ?_ (if_neg hnot).symm
    simp only [clock, Transport.advance, h]

theorem runLoop_of_fits {k wrapGuard : ℕ} (hn : 0 < n)
    (hk : engine.transport.framesUntilLoopWrap n = k) (hpos : 0 < k) :
    runLoop schedule [] engine offset n wrapGuard =
      let processed := engine.processChunk offset k (some schedule) engine.transport.positionFrames []
      let rest := runLoop schedule [] (processed.2.afterChunk k) (offset + k) (n - k) 0
      (processed.1.toList ++ rest.1, rest.2) := by
  rw [runLoop, if_neg (Nat.ne_of_gt hn)]
  simp only [hk, Int.toNat_natCast]
  rw [if_neg (by omega)]
  rfl

theorem runLoop_plays (hsorted : schedule.Sorted) (htempo : KeepsTempo schedule)
    (hloops : LoopsAhead engine.transport) (hchannel : engine.channelAt id = some channel)
    (hoverflow : NoOverflow (runLoop schedule [] engine offset n 0).1) :
    Plays schedule id channel engine offset n (runLoop schedule [] engine offset n 0).1
      (runLoop schedule [] engine offset n 0).2 := by
  induction n using Nat.strong_induction_on generalizing engine channel offset with
  | _ n ih =>
  rcases Nat.eq_zero_or_pos n with rfl | hn
  · rw [runLoop, if_pos rfl]
    exact .none hchannel
  have hfirst : ∀ (e : Engine) (wrapGuard : ℕ), LoopsAhead e.transport →
      e.channelAt id = some channel → Fits e.transport e.clock 1 →
      NoOverflow (runLoop schedule [] e offset n wrapGuard).1 →
      Plays schedule id channel e offset n (runLoop schedule [] e offset n wrapGuard).1
        (runLoop schedule [] e offset n wrapGuard).2 := by
    intro e wrapGuard hloops hchannel hfits hoverflow
    obtain ⟨k, hk, hpos, hle, hfits⟩ := framesUntilLoopWrap_of_fits hfits hn
    obtain ⟨rest, rfl⟩ : ∃ rest, n = k + rest := ⟨n - k, by omega⟩
    rw [runLoop_of_fits hn hk hpos] at hoverflow ⊢
    dsimp only at hoverflow ⊢
    rw [Nat.add_sub_cancel_left] at hoverflow ⊢
    have hprocessed : Processed schedule id channel e offset k _ _ :=
      processChunk_processed htempo hpos hchannel
    generalize e.processChunk offset k (some schedule) e.transport.positionFrames [] = processed at *
    have hnext := afterChunk_clock processed.2 k hprocessed.pending
    have htransport := afterChunk_transport processed.2 k
    have hsame : processed.2.clock.position = e.clock.position :=
      congrArg Transport.positionFrames hprocessed.transport
    rw [hprocessed.transport, hsame] at hnext
    rw [hprocessed.transport] at htransport
    have hchunk := Plays.of_chunk hsorted hpos hfits hprocessed hnext htransport
      (afterChunk_channelAt processed.2 k)
      (fun chunk hmem => hoverflow chunk (List.mem_append_left _ hmem)) hloops
    refine hchunk.append hloops ?_
    intro channel' hchannel'
    obtain ⟨position, hposition⟩ := htransport
    refine ih rest (by omega) ?_ hchannel' ?_
    · rw [hposition]
      exact hloops
    · exact fun chunk hmem => hoverflow chunk (List.mem_append_right _ hmem)
  by_cases hend : engine.transport.loopEnabled = true ∧
      engine.transport.loopEndFrames ≤ engine.transport.positionFrames
  · -- the loop wraps before the first frame
    have hwrap : runLoop schedule [] engine offset n 0 = runLoop schedule [] engine.wrap offset n 1 := by
      rw [runLoop, if_neg (Nat.ne_of_gt hn)]
      simp [Transport.framesUntilLoopWrap, hend]
    have hseam : engine.clock.seam engine.transport = engine.wrap.clock :=
      if_pos ((Bool.and_eq_true _ _).mpr ⟨hend.1, decide_eq_true hend.2⟩)
    rw [hwrap] at hoverflow ⊢
    refine Plays.of_wrap hloops hseam (hfirst engine.wrap 1 hloops ?_ ?_ hoverflow)
    · cases id <;> exact hchannel
    · intro henabled
      have hlt := hloops henabled
      change loopFrom engine.transport + 1 ≤ engine.transport.loopEndFrames
      omega
  · refine hfirst engine 0 hloops hchannel (fun henabled => ?_) hoverflow
    have hnot : ¬ engine.transport.loopEndFrames ≤ engine.transport.positionFrames :=
      fun hle => hend ⟨henabled, hle⟩
    simp only [clock]
    omega

/-! ### Block after block -/

theorem Plays.shift {chunks : List Chunk} {engine' : Engine}
    (h : Plays schedule id channel engine 0 n chunks engine') (a : ℕ) :
    Plays schedule id channel engine a n
      (chunks.map fun chunk => { chunk with offset := a + chunk.offset }) engine' := by
  have hlate : lateStart schedule channel id (engine.clock.seam engine.transport).position
      (chunks.map fun chunk => { chunk with offset := a + chunk.offset }) =
      lateStart schedule channel id (engine.clock.seam engine.transport).position chunks := by
    cases chunks <;> rfl
  refine ⟨h.transport, h.clock, ?_, ?_⟩
  · have hlater : ∀ offset, PluginEvent.later a ∘ PluginEvent.later offset =
        PluginEvent.later (a + offset) := fun offset => funext (PluginEvent.later_later a offset)
    have htold : toldTo id (chunks.map fun chunk => { chunk with offset := a + chunk.offset }) =
        (toldTo id chunks).map (PluginEvent.later a) := by
      simp only [toldTo, List.flatMap_map, List.map_flatMap, List.map_map, hlater]
    rw [htold, h.told, hlate, List.map_map, hlater]
    rfl
  · obtain ⟨channel', hchannel', hcases⟩ := h.channel
    exact ⟨channel', hchannel', by simpa using hcases⟩

theorem runBlocks_plays (hsorted : schedule.Sorted) (htempo : KeepsTempo schedule)
    (hloops : LoopsAhead engine.transport) (hchannel : engine.channelAt id = some channel)
    (blocks : List ℕ) (hoverflow : NoOverflow (runBlocks schedule blocks engine).1) :
    Plays schedule id channel engine 0 blocks.sum (runBlocks schedule blocks engine).1
      (runBlocks schedule blocks engine).2 := by
  induction blocks generalizing engine channel with
  | nil => exact .none hchannel
  | cons numFrames blocks ih =>
    rw [runBlocks, runSchedule] at hoverflow ⊢
    dsimp only at hoverflow ⊢
    have hblock := runLoop_plays hsorted htempo hloops hchannel
      fun chunk hmem => hoverflow chunk (List.mem_append_left _ hmem)
    rw [List.sum_cons]
    refine hblock.append hloops ?_
    intro channel' hchannel'
    obtain ⟨position, htransport⟩ := hblock.transport
    rw [Nat.zero_add]
    refine (ih ?_ hchannel' ?_).shift numFrames
    · rw [htransport]
      exact hloops
    · intro chunk hmem
      exact hoverflow { chunk with offset := numFrames + chunk.offset }
        (List.mem_append_right _ (List.mem_map_of_mem hmem))

end Chunks

/-- The sample of the clip has come after it was to start. -/
def Channel.LateStart (channel : Channel) : Prop :=
  channel.oneShot = true ∧ channel.sampleReady = true ∧ channel.deferredAudioStart = true

/-- **What a channel is told, frame by frame, does not depend on the blocks**: it is what is due at
the position of each frame, and a release at the first frame after the loop has wrapped.  Only a late
start depends on the first chunk. -/
theorem told_runBlocks (engine : Engine) (schedule : Schedule) (hsorted : schedule.Sorted)
    (htempo : KeepsTempo schedule) (hloops : LoopsAhead engine.transport) {id : ChannelId}
    {channel : Channel} (hchannel : engine.channelAt id = some channel) (blocks blocks' : List ℕ)
    (hsum : blocks.sum = blocks'.sum)
    (hoverflow : NoOverflow (runBlocks schedule blocks engine).1)
    (hoverflow' : NoOverflow (runBlocks schedule blocks' engine).1) :
    (¬ channel.LateStart → toldTo id (runBlocks schedule blocks engine).1 =
      toldTo id (runBlocks schedule blocks' engine).1) ∧
    toldTo id (runBlocks schedule blocks engine).1 =
      heard schedule engine.transport channel id (lateStart schedule channel id
        (engine.clock.seam engine.transport).position (runBlocks schedule blocks engine).1)
        engine.clock blocks.sum := by
  have hplays := runBlocks_plays hsorted htempo hloops hchannel blocks hoverflow
  have hplays' := runBlocks_plays hsorted htempo hloops hchannel blocks' hoverflow'
  have hzero : ∀ events : List PluginEvent, events.map (PluginEvent.later 0) = events := fun events =>
    (List.map_congr_left fun event _ => event.later_zero).trans (List.map_id' events)
  have htold := hplays.told.trans (hzero _)
  refine ⟨fun hlate => ?_, htold⟩
  have hnone : ∀ chunks, lateStart schedule channel id (engine.clock.seam engine.transport).position
      chunks = false := by
    intro chunks
    match chunks, id with
    | [], _ => rfl
    | _ :: _, .preview => rfl
    | chunk :: _, .rack index =>
      have hready : (channel.oneShot && channel.sampleReady && channel.deferredAudioStart) = false := by
        rw [← Bool.not_eq_true, Bool.and_eq_true, Bool.and_eq_true, and_assoc]
        exact hlate
      simp only [lateStart, startsLate, hready, Bool.false_and]
  rw [htold, hplays'.told.trans (hzero _), hnone, hnone, hsum]

/-- A clip starts at frame 1. -/
def clipAtOne : Schedule where
  events := [⟨1, 0, .audioStart, -1, .finite 1, 0⟩]
  lengthFrames := 2
  sampleRate := .finite 48000
  generation := 1

/-- One channel, and a loop of two frames. -/
def oneChannel (channel : Channel) : Engine where
  transport := { loopEndBeats := .finite (1 / 12000) }
  channels := [channel]
  chunkEventCapacity := 512

/-- A channel that plays notes; a clip whose sample has come late; and one whose sample has not. -/
def plainChannel : Channel := { active := true }

def lateChannel : Channel :=
  { active := true, oneShot := true, sampleReady := true, deferredAudioStart := true }

def waitingChannel : Channel := { active := true, oneShot := true, sampleReady := false }

theorem told_runBlocks_oneChannel :
    (¬ plainChannel.LateStart →
      toldTo (.rack 0) (runBlocks clipAtOne [5] (oneChannel plainChannel)).1 =
        toldTo (.rack 0) (runBlocks clipAtOne [1, 3, 1] (oneChannel plainChannel)).1) ∧
    toldTo (.rack 0) (runBlocks clipAtOne [5] (oneChannel plainChannel)).1 =
      heard clipAtOne (oneChannel plainChannel).transport plainChannel (.rack 0)
        (lateStart clipAtOne plainChannel (.rack 0)
          ((oneChannel plainChannel).clock.seam (oneChannel plainChannel).transport).position
          (runBlocks clipAtOne [5] (oneChannel plainChannel)).1)
        (oneChannel plainChannel).clock 5 :=
  told_runBlocks (oneChannel plainChannel) clipAtOne (by simp [Schedule.Sorted, clipAtOne])
    (by simp [KeepsTempo, clipAtOne]) (fun _ => by decide +kernel) rfl [5] [1, 3, 1] rfl
    (by decide +kernel) (by decide +kernel)

/-- The late clip starts at the first frame, if the first block does not start it anyway; as long as
its sample has not come it does not start. -/
theorem not_told_alike_late :
    clipAtOne.Sorted ∧ KeepsTempo clipAtOne ∧ LoopsAhead (oneChannel lateChannel).transport ∧
      NoOverflow (runBlocks clipAtOne [2] (oneChannel lateChannel)).1 ∧
      NoOverflow (runBlocks clipAtOne [1, 1] (oneChannel lateChannel)).1 ∧
      toldTo (.rack 0) (runBlocks clipAtOne [2] (oneChannel lateChannel)).1 =
        [.noteOn 1 60 (.finite 1)] ∧
      toldTo (.rack 0) (runBlocks clipAtOne [1, 1] (oneChannel lateChannel)).1 =
        [.noteOn 0 60 (.finite 1), .noteOn 1 60 (.finite 1)] ∧
      toldTo (.rack 0) (runBlocks clipAtOne [2] (oneChannel waitingChannel)).1 = [] := by
  refine ⟨by simp [Schedule.Sorted, clipAtOne], by simp [KeepsTempo, clipAtOne],
    fun _ => by decide +kernel, ?_⟩
  decide +kernel

end Engine

end OneBeat
