import OneBeat.Lib.TransitionSystem

/-!
# Sample clicks

`EngineController.previewSample` and `_onFrame` of the app against the worker of the engine, which
loads what was clicked (`Engine::loadSample`, `housekeepingLoop`).

The app remembers one flag, and the engine answers with an event that does not say what was loaded:
the sample of the click, that of an earlier click, or that of a channel.  The first answer that is
polled is taken for the newest click.

The log of a run is newest first: the clicks, and the notes that were sent, each with the sample the
preview voice held then.

**Main theorem** (`auditions_of_run`): every click is heard as it should be when each completion
that is polled while a click waits comes after the load of that click and as it came out, and the
completion of that load finds room in the ring.
-/

namespace OneBeat.SampleAudition

/-- What `_onFrame` tells events apart by. -/
inductive Event
  | sampleLoaded
  | error
  | other
  deriving DecidableEq

/-- A frame of the app: it polls all events first and handles them after. -/
inductive Frame
  | idle
  | polling (polled : List Event)
  | handling (polled : List Event)
  deriving DecidableEq

/-- A pass of the worker: the channels first, then the samples it took from the queue. -/
inductive Worker
  | waiting
  | syncing (pending : List String)
  | loading (pending : List String)
  deriving DecidableEq

/-- The samples the worker has taken and not loaded. -/
def Worker.taken : Worker → List String
  | waiting => []
  | syncing pending => pending
  | loading pending => pending

/-- What is seen of a run from outside. -/
inductive Entry
  | click (path : String)
  | noteOn (held : Option String)
  | noteOff
  deriving DecidableEq

structure State where
  /-- `_previewAfterSampleLoad`. -/
  waits : Bool := false
  /-- `_samplePreviewTimer` is running. -/
  timer : Bool := false
  frame : Frame := .idle
  /-- `pending_sample_loads_`. -/
  pendingSampleLoads : List String := []
  worker : Worker := .waiting
  /-- The event of a load that is over, before it is pushed. -/
  report : Option Event := none
  /-- `preview_loaded_path_`. -/
  previewLoadedPath : String := ""
  /-- The sample the preview voice holds, once it has been given one. -/
  held : Option String := none
  /-- `events_`. -/
  events : List Event := []
  log : List Entry := []
  /-- How the load of the newest click came out, once it is over. -/
  outcome : Option Bool := none
  /-- The report is about the newest click. -/
  reportsClick : Bool := false

/-- `events_` has room for as many. -/
def eventCapacity : ℕ := 256

namespace State

/-- `tryPush`: what finds no room is dropped. -/
def pushEvent (s : State) (event : Event) : State :=
  if s.events.length < eventCapacity then { s with events := s.events ++ [event] } else s

/-- `previewSample`. -/
def previewSample (s : State) (path : String) : State :=
  { s with
    timer := false
    waits := true
    pendingSampleLoads := s.pendingSampleLoads ++ [path]
    log := .click path :: .noteOff :: s.log
    outcome := none
    reportsClick := false }

/-- One event of `_onFrame`. -/
def onEvent (s : State) : Event → State
  | .sampleLoaded =>
    if s.waits then
      { s with waits := false, timer := true, log := .noteOn s.held :: s.log }
    else s
  | .error => { s with waits := false }
  | .other => s

/-- `Engine::loadSample`: what the voice holds already is not read again, and no path stands for the
built-in sound. -/
def loadSample (s : State) (path : String) (decodes : Bool) : State :=
  if path ≠ "" ∧ path = s.previewLoadedPath then { s with report := some .sampleLoaded }
  else if path = "" ∨ decodes = true then
    { s with report := some .sampleLoaded, held := some path, previewLoadedPath := path }
  else { s with report := some .error, previewLoadedPath := "" }

/-- The load of the newest click is over. -/
def concludes (s : State) (rest : List String) : State :=
  if rest = [] ∧ s.pendingSampleLoads = [] then
    { s with outcome := some (decide (s.report = some .sampleLoaded)), reportsClick := true }
  else { s with reportsClick := false }

end State

/-- What happens next. -/
inductive Label
  | click (path : String)
  | noteOffTimer
  | frame
  | poll
  | handle
  | take
  | channelLoad (decodes : Bool)
  | startLoads
  | load (decodes : Bool)
  | push
  | otherEvent
  deriving DecidableEq

/-- The app is one thread, and so is the worker. -/
def step (s : State) : Label → Option State
  | .click path => if s.frame = .idle then some (s.previewSample path) else none
  | .noteOffTimer =>
    if s.frame = .idle ∧ s.timer = true then
      some { s with timer := false, log := .noteOff :: s.log }
    else none
  | .frame => if s.frame = .idle then some { s with frame := .polling [] } else none
  | .poll =>
    match s.frame with
    | .polling polled =>
      match s.events with
      | [] => some { s with frame := .handling polled }
      | event :: events => some { s with frame := .polling (polled ++ [event]), events }
    | _ => none
  | .handle =>
    match s.frame with
    | .handling [] => some { s with frame := .idle }
    | .handling (event :: polled) => some ({ s with frame := .handling polled }.onEvent event)
    | _ => none
  | .take =>
    if s.worker = .waiting ∧ s.report = none then
      some { s with worker := .syncing s.pendingSampleLoads, pendingSampleLoads := [] }
    else none
  | .channelLoad decodes =>
    match s.worker, s.report with
    | .syncing _, none =>
      some { s with
        report := some (if decodes then .sampleLoaded else .error), reportsClick := false }
    | _, _ => none
  | .startLoads =>
    match s.worker, s.report with
    | .syncing pending, none => some { s with worker := .loading pending }
    | _, _ => none
  | .load decodes =>
    match s.worker, s.report with
    | .loading [], none => some { s with worker := .waiting }
    | .loading (path :: rest), none =>
      some (({ s with worker := .loading rest }.loadSample path decodes).concludes rest)
    | _, _ => none
  | .push => s.report.map fun event => { s.pushEvent event with report := none }
  | .otherEvent => some (s.pushEvent .other)

/-- The app and the engine. -/
def protocol : TransitionSystem State Label where
  step := step

/-! ### The log -/

/-- The newest click. -/
def lastClick : List Entry → Option String
  | [] => none
  | .click path :: _ => some path
  | _ :: log => lastClick log

/-- The notes since the newest click. -/
def notesSinceClick : List Entry → ℕ
  | [] => 0
  | .click _ :: _ => 0
  | .noteOn _ :: log => notesSinceClick log + 1
  | .noteOff :: log => notesSinceClick log

/-- Every note found the voice with the sample of the newest click. -/
def Truthful : List Entry → Prop
  | [] => True
  | .noteOn held :: log => held.isSome = true ∧ held = lastClick log ∧ Truthful log
  | _ :: log => Truthful log

/-- The newest note has not been taken back. -/
def sounding : List Entry → Bool
  | [] => false
  | .click _ :: log => sounding log
  | .noteOn _ :: _ => true
  | .noteOff :: _ => false

/-- What is neither idle nor answered: nothing is under way that a click could wait for. -/
structure Settled (s : State) : Prop where
  queue : s.worker.taken ++ s.pendingSampleLoads = []
  report : s.report = none
  events : ∀ event ∈ s.events, event = .other
  frame : s.frame = .idle

/-- Clicks are heard as they should be: every note found the voice with the sample of the newest
click; there is one note for it at most, and one when its load succeeded and everything has been
polled; and every note is followed by its end, or the timer runs that will end it. -/
structure Auditions (s : State) : Prop where
  truthful : Truthful s.log
  once : notesSinceClick s.log ≤ 1
  answered : Settled s → s.outcome = some true → notesSinceClick s.log = 1
  ended : ∀ later held earlier, s.log = later ++ .noteOn held :: earlier →
    .noteOff ∈ later ∨ s.timer = true

/-- A completion that is handled while a click waits comes after the load of that click and as it
came out, and the completion of that load finds room in the ring. -/
def Answers (s : State) : Label → Prop
  | .handle =>
    match s.frame with
    | .handling (event :: _) => s.waits = true → event ≠ .other →
        s.outcome = some (decide (event = .sampleLoaded))
    | _ => True
  | .push => s.reportsClick = true → s.events.length < eventCapacity
  | _ => True

instance (s : State) (l : Label) : Decidable (Answers s l) := by
  unfold Answers
  split
  · split <;> infer_instance
  · infer_instance
  · infer_instance

/-! ### The invariant -/

def Frame.polled : Frame → List Event
  | idle => []
  | polling polled => polled
  | handling polled => polled

/-- A completion is on its way to the app. -/
def Completing (s : State) : Prop :=
  (s.reportsClick = true ∧ ∃ event, s.report = some event ∧ event ≠ .other) ∨
    ∃ event ∈ s.events ++ s.frame.polled, event ≠ Event.other

/-- The samples that are still to be loaded. -/
def State.queue (s : State) : List String := s.worker.taken ++ s.pendingSampleLoads

/-- The load of the newest click: still the last one in the queue, or over. -/
def Queued (s : State) : Prop :=
  match lastClick s.log with
  | none => s.queue = [] ∧ s.outcome = none ∧ s.waits = false
  | some path => (s.outcome = none ∧ ∃ before, s.queue = before ++ [path]) ∨
      (s.outcome.isSome = true ∧ s.queue = [] ∧ (s.outcome = some true → s.held = some path))

/-- What holds as long as clicks are answered. -/
structure Answered (s : State) : Prop where
  truthful : Truthful s.log
  queued : Queued s
  waiting : s.waits = true → notesSinceClick s.log = 0
  idle : s.waits = false → (lastClick s.log = none ∧ notesSinceClick s.log = 0) ∨
    notesSinceClick s.log = 1 ∨ (notesSinceClick s.log = 0 ∧ s.outcome = some false)
  completing : s.waits = true → s.outcome.isSome = true → Completing s
  ended : sounding s.log = true → s.timer = true
  loaded : s.previewLoadedPath ≠ "" → s.held = some s.previewLoadedPath

theorem answered_init : Answered {} :=
  ⟨trivial, ⟨rfl, rfl, rfl⟩, fun h => Bool.noConfusion h, fun _ => .inl ⟨rfl, rfl⟩, fun h => Bool.noConfusion h,
    fun h => Bool.noConfusion h, fun h => absurd rfl h⟩

variable {s s' : State}

/-- An answered click stays answered while neither the log, the loads nor the flag change. -/
theorem Answered.congr (h : Answered s) (hlog : s'.log = s.log) (hqueue : s'.queue = s.queue)
    (houtcome : s'.outcome = s.outcome) (hwaits : s'.waits = s.waits) (htimer : s'.timer = s.timer)
    (hheld : s'.held = s.held) (hpath : s'.previewLoadedPath = s.previewLoadedPath)
    (hcompleting : Completing s → Completing s') : Answered s' := by
  obtain ⟨htruthful, hqueued, hwaiting, hidle, hcomp, hended, hloaded⟩ := h
  refine ⟨?_, ?_, ?_, ?_, ?_, ?_, ?_⟩
  · rwa [hlog]
  · unfold Queued at hqueued ⊢
    rwa [hlog, hqueue, houtcome, hwaits, hheld]
  · rwa [hlog, hwaits]
  · rwa [hlog, hwaits, houtcome]
  · rw [hwaits, houtcome]
    exact fun h₁ h₂ => hcompleting (hcomp h₁ h₂)
  · rwa [hlog, htimer]
  · rwa [hpath, hheld]

theorem Answered.previewSample (h : Answered s) (path : String) :
    Answered (s.previewSample path) := by
  refine ⟨h.truthful, .inl ⟨rfl, s.queue, ?_⟩, fun _ => rfl, fun hw => Bool.noConfusion hw,
    fun _ ho => Bool.noConfusion ho, fun hs => Bool.noConfusion hs, h.loaded⟩
  simp only [State.queue, State.previewSample, List.append_assoc]

/-- The end of a note leaves everything else. -/
theorem Answered.noteOff (h : Answered s) :
    Answered { s with timer := false, log := .noteOff :: s.log } :=
  ⟨h.truthful, h.queued, h.waiting, h.idle, h.completing, fun hs => Bool.noConfusion hs, h.loaded⟩

/-- An event that is not about a load changes nothing, and what is taken off the list of polled
events was not a completion the click waits for. -/
theorem Answered.onEvent (h : Answered s) {event : Event} {polled : List Event}
    (hframe : s.frame = .handling (event :: polled))
    (hanswers : s.waits = true → event ≠ .other →
      s.outcome = some (decide (event = .sampleLoaded))) :
    Answered ({ s with frame := .handling polled }.onEvent event) := by
  -- once nothing waits, the rest of the frame makes no difference
  have hquiet : s.waits = false → Answered { s with frame := .handling polled } := fun hwaits =>
    ⟨h.truthful, h.queued, h.waiting, h.idle, fun hw => by simp [hwaits] at hw, h.ended, h.loaded⟩
  cases event with
  | other =>
    refine h.congr rfl rfl rfl rfl rfl rfl rfl ?_
    rintro (hreport | ⟨event, hevent, hne⟩)
    · exact .inl hreport
    · refine .inr ⟨event, ?_, hne⟩
      rw [hframe] at hevent
      simp only [Frame.polled, List.mem_append, List.mem_cons] at hevent ⊢
      rcases hevent with hevent | rfl | hevent
      · exact .inl hevent
      · exact absurd rfl hne
      · exact .inr hevent
  | error =>
    by_cases hwaits : s.waits = true
    · have houtcome : s.outcome = some false := hanswers hwaits (by decide)
      have hqueued := h.queued
      refine ⟨h.truthful, ?_, fun hw => Bool.noConfusion hw,
        fun _ => .inr (.inr ⟨h.waiting hwaits, houtcome⟩), fun hw => Bool.noConfusion hw, h.ended,
        h.loaded⟩
      unfold Queued at hqueued ⊢
      simp only [State.onEvent]
      cases hclick : lastClick s.log with
      | none =>
        rw [hclick] at hqueued
        exact ⟨hqueued.1, hqueued.2.1, trivial⟩
      | some path =>
        rw [hclick] at hqueued
        exact hqueued
    · have hsilent := Bool.eq_false_iff.2 hwaits
      exact (hquiet hsilent).congr rfl rfl rfl hsilent.symm rfl rfl rfl id
  | sampleLoaded =>
    by_cases hwaits : s.waits = true
    · have houtcome : s.outcome = some true := hanswers hwaits (by decide)
      have hqueued := h.queued
      unfold Queued at hqueued
      have hnotes := h.waiting hwaits
      rw [State.onEvent, if_pos hwaits]
      cases hclick : lastClick s.log with
      | none =>
        rw [hclick] at hqueued
        rw [hqueued.2.1] at houtcome
        cases houtcome
      | some path =>
        rw [hclick] at hqueued
        -- the load is over, so the voice holds the sample
        obtain ⟨hnone, -⟩ | ⟨-, hempty, hheld⟩ := hqueued
        · rw [hnone] at houtcome
          cases houtcome
        have hsample := hheld houtcome
        refine ⟨⟨?_, ?_, h.truthful⟩, ?_, fun hw => Bool.noConfusion hw, fun _ => .inr (.inl ?_),
          fun hw => Bool.noConfusion hw, fun _ => rfl, h.loaded⟩
        · rw [hsample]
          rfl
        · rw [hsample, hclick]
        · unfold Queued
          simp only [lastClick, hclick]
          exact .inr ⟨by rw [houtcome]; rfl, hempty, hheld⟩
        · simp only [notesSinceClick, hnotes]
    · rw [State.onEvent, if_neg hwaits]
      exact hquiet (Bool.eq_false_iff.2 hwaits)

/-- After a load the report says how it came out, and the voice holds the sample if it did. -/
theorem loadSample_cases (hloaded : s.previewLoadedPath ≠ "" → s.held = some s.previewLoadedPath)
    (path : String) (decodes : Bool) :
    ∃ event held loaded, s.loadSample path decodes =
        { s with report := some event, held, previewLoadedPath := loaded } ∧
      event ≠ .other ∧ (event = .sampleLoaded → held = some path) ∧
      (loaded ≠ "" → held = some loaded) := by
  rw [State.loadSample]
  split_ifs with hsame hdecodes
  · refine ⟨.sampleLoaded, s.held, s.previewLoadedPath, rfl, by decide, fun _ => ?_, hloaded⟩
    rw [hsame.2]
    exact hloaded fun hempty => hsame.1 (hsame.2.trans hempty)
  · exact ⟨.sampleLoaded, some path, path, rfl, by decide, fun _ => rfl, fun _ => rfl⟩
  · exact ⟨.error, s.held, "", rfl, by decide, Event.noConfusion, fun h => absurd rfl h⟩

/-- The worker makes the first load of its batch. -/
theorem Answered.load (h : Answered s) {path : String} {rest : List String}
    (hworker : s.worker = .loading (path :: rest)) (decodes : Bool) :
    Answered (({ s with worker := .loading rest }.loadSample path decodes).concludes rest) := by
  obtain ⟨event, held, loaded, heq, hne, hheld, hloaded⟩ :=
    @loadSample_cases { s with worker := .loading rest } h.loaded path decodes
  have hqueue : s.queue = path :: (rest ++ s.pendingSampleLoads) := by
    rw [State.queue, hworker]
    rfl
  have hqueued := h.queued
  unfold Queued at hqueued
  rw [heq, State.concludes]
  cases hclick : lastClick s.log with
  | none =>
    rw [hclick, hqueue] at hqueued
    exact absurd hqueued.1 (List.cons_ne_nil _ _)
  | some newest =>
    simp only [hclick] at hqueued
    -- there is a load left, so that of the newest click is not over
    obtain ⟨hnone, before, hbefore⟩ | ⟨-, hempty, -⟩ := hqueued
    swap
    · rw [hqueue] at hempty
      exact absurd hempty (List.cons_ne_nil _ _)
    rw [hqueue] at hbefore
    split_ifs with hlast
    · obtain ⟨hrest, hpending⟩ := hlast
      simp only at hpending
      rw [hrest, hpending, List.append_nil] at hbefore
      obtain rfl : path = newest := by
        have := congrArg List.getLast? hbefore
        simpa using this
      refine ⟨h.truthful, ?_, h.waiting, fun hw => ?_, fun _ _ => .inl ⟨rfl, event, rfl, hne⟩, h.ended,
        hloaded⟩
      · unfold Queued
        simp only [hclick]
        refine .inr ⟨rfl, ?_, fun hsome => hheld ?_⟩
        · simp only [State.queue, Worker.taken, hrest, hpending, List.append_nil]
        · simpa using hsome
      · rcases h.idle hw with hidle | hnote | ⟨-, hfailed⟩
        · exact .inl hidle
        · exact .inr (.inl hnote)
        · rw [hnone] at hfailed
          cases hfailed
    · refine ⟨h.truthful, ?_, h.waiting, h.idle, fun _ hsome => ?_, h.ended, hloaded⟩
      · unfold Queued
        simp only [hclick]
        refine .inl ⟨hnone, ?_⟩
        cases before with
        | nil =>
          rw [List.nil_append, List.cons.injEq, List.append_eq_nil_iff] at hbefore
          exact absurd hbefore.2 hlast
        | cons first before =>
          rw [List.cons_append, List.cons.injEq] at hbefore
          exact ⟨before, hbefore.2⟩
      · simp [hnone] at hsome

/-- What is pushed stays behind what is there. -/
theorem mem_pushEvent {event : Event} (h : event ∈ s.events) (pushed : Event) :
    event ∈ (s.pushEvent pushed).events := by
  rw [State.pushEvent]
  split_ifs
  · exact List.mem_append_left _ h
  · exact h

/-- A push keeps what was on its way, if what it drops is not about the newest click. -/
theorem Answered.pushEvent (h : Answered s) {event : Event} {report : Option Event}
    (hreport : s.reportsClick = true → report = s.report ∨
      (s.report = some event ∧ s.events.length < eventCapacity)) :
    Answered { s.pushEvent event with report } := by
  have hsame : { s.pushEvent event with report } =
      { s with events := (s.pushEvent event).events, report } := by
    rw [State.pushEvent]
    split_ifs <;> rfl
  rw [hsame]
  refine h.congr rfl rfl rfl rfl rfl rfl rfl ?_
  rintro (⟨hclick, own, hown, hne⟩ | ⟨waiting, hwaiting, hne⟩)
  · rcases hreport hclick with rfl | ⟨hevent, hroom⟩
    · exact .inl ⟨hclick, own, hown, hne⟩
    · obtain rfl : event = own := Option.some_inj.1 (hevent.symm.trans hown)
      refine .inr ⟨event, List.mem_append_left _ ?_, hne⟩
      simp only [State.pushEvent, if_pos hroom]
      exact List.mem_append_right _ List.mem_cons_self
  · refine .inr ⟨waiting, ?_, hne⟩
    rcases List.mem_append.1 hwaiting with hwaiting | hwaiting
    · exact List.mem_append_left _ (mem_pushEvent hwaiting event)
    · exact List.mem_append_right _ hwaiting

/-- **One step keeps clicks answered.** -/
theorem Answered.step (h : Answered s) {l : Label} (hanswers : Answers s l)
    (hstep : step s l = some s') : Answered s' := by
  cases l with
  | click path =>
    simp only [SampleAudition.step] at hstep
    split_ifs at hstep
    obtain rfl := Option.some.inj hstep
    exact h.previewSample path
  | noteOffTimer =>
    simp only [SampleAudition.step] at hstep
    split_ifs at hstep
    obtain rfl := Option.some.inj hstep
    exact h.noteOff
  | frame =>
    simp only [SampleAudition.step] at hstep
    split_ifs at hstep with hidle
    obtain rfl := Option.some.inj hstep
    refine h.congr rfl rfl rfl rfl rfl rfl rfl ?_
    rw [Completing, Completing, hidle]
    exact id
  | poll =>
    simp only [SampleAudition.step] at hstep
    cases hframe : s.frame with
    | idle | handling polled => simp [hframe] at hstep
    | polling polled =>
      simp only [hframe] at hstep
      cases hevents : s.events with
      | nil =>
        simp only [hevents, Option.some_inj] at hstep
        subst hstep
        refine h.congr rfl rfl rfl rfl rfl rfl rfl ?_
        rw [Completing, Completing, hframe, hevents]
        exact id
      | cons event events =>
        simp only [hevents, Option.some_inj] at hstep
        subst hstep
        refine h.congr rfl rfl rfl rfl rfl rfl rfl ?_
        rw [Completing, Completing, hframe, hevents]
        refine Or.imp_right fun ⟨waiting, hwaiting, hne⟩ => ⟨waiting, ?_, hne⟩
        simp only [Frame.polled, List.mem_append, List.mem_cons, List.not_mem_nil,
          or_false] at hwaiting ⊢
        tauto
  | handle =>
    simp only [SampleAudition.step] at hstep
    cases hframe : s.frame with
    | idle | polling polled => simp [hframe] at hstep
    | handling polled =>
      cases polled with
      | nil =>
        simp only [hframe, Option.some_inj] at hstep
        subst hstep
        refine h.congr rfl rfl rfl rfl rfl rfl rfl ?_
        rw [Completing, Completing, hframe]
        exact id
      | cons event polled =>
        simp only [hframe, Option.some_inj] at hstep
        subst hstep
        simp only [Answers, hframe] at hanswers
        exact h.onEvent hframe hanswers
  | take =>
    simp only [SampleAudition.step] at hstep
    split_ifs at hstep with hwaiting
    obtain rfl := Option.some.inj hstep
    refine h.congr rfl ?_ rfl rfl rfl rfl rfl id
    simp only [State.queue, hwaiting.1, Worker.taken, List.append_nil, List.nil_append]
  | channelLoad decodes =>
    simp only [SampleAudition.step] at hstep
    split at hstep
    · rename_i hreport
      obtain rfl := Option.some.inj hstep
      refine h.congr rfl rfl rfl rfl rfl rfl rfl ?_
      rintro (⟨-, event, hevent, -⟩ | hevents)
      · rw [hreport] at hevent
        cases hevent
      · exact .inr hevents
    · cases hstep
  | startLoads =>
    simp only [SampleAudition.step] at hstep
    split at hstep
    · rename_i pending hworker _
      obtain rfl := Option.some.inj hstep
      refine h.congr rfl ?_ rfl rfl rfl rfl rfl id
      simp only [State.queue, hworker, Worker.taken]
    · cases hstep
  | load decodes =>
    simp only [SampleAudition.step] at hstep
    split at hstep
    · rename_i hworker _
      obtain rfl := Option.some.inj hstep
      refine h.congr rfl ?_ rfl rfl rfl rfl rfl id
      simp only [State.queue, hworker, Worker.taken]
    · rename_i path rest hworker _
      obtain rfl := Option.some.inj hstep
      exact h.load hworker decodes
    · cases hstep
  | push =>
    simp only [SampleAudition.step, Option.map_eq_some_iff] at hstep
    obtain ⟨event, hreport, rfl⟩ := hstep
    exact h.pushEvent fun hclick => .inr ⟨hreport, hanswers hclick⟩
  | otherEvent =>
    obtain rfl := Option.some.inj hstep
    have hsame : s.pushEvent .other = { s.pushEvent .other with report := s.report } := by
      rw [State.pushEvent]
      split_ifs <;> rfl
    rw [hsame]
    exact h.pushEvent fun _ => .inl rfl

/-! ### Runs -/

/-- The newest note has been taken back, or the timer runs; so have the others, by what came after
them. -/
theorem ended_of_sounding : ∀ {log : List Entry} {timer : Bool},
    (sounding log = true → timer = true) → ∀ later held earlier,
      log = later ++ .noteOn held :: earlier → .noteOff ∈ later ∨ timer = true := by
  intro log timer hsounding later held earlier hlog
  subst hlog
  induction later with
  | nil => exact .inr (hsounding rfl)
  | cons entry later ih =>
    cases entry with
    | click path => exact (ih hsounding).imp_left (List.mem_cons_of_mem _)
    | noteOn held => exact .inr (hsounding rfl)
    | noteOff => exact .inl List.mem_cons_self

theorem Answered.auditions (h : Answered s) : Auditions s := by
  refine ⟨h.truthful, ?_, fun hsettled houtcome => ?_, ended_of_sounding h.ended⟩
  · cases hwaits : s.waits with
    | true =>
      rw [h.waiting hwaits]
      exact Nat.zero_le 1
    | false => rcases h.idle hwaits with hidle | hnote | hfailed <;> omega
  · cases hwaits : s.waits with
    | true =>
      -- the completion of the load would still be on its way
      rcases h.completing hwaits (by rw [houtcome]; rfl) with ⟨-, event, hevent, -⟩ | ⟨event, hmem, hne⟩
      · rw [hsettled.report] at hevent
        cases hevent
      · rw [hsettled.frame, Frame.polled, List.append_nil] at hmem
        exact absurd (hsettled.events event hmem) hne
    | false =>
      rcases h.idle hwaits with ⟨hnone, -⟩ | hnote | ⟨-, hfailed⟩
      · have hqueued := h.queued
        unfold Queued at hqueued
        rw [hnone] at hqueued
        rw [hqueued.2.1] at houtcome
        cases houtcome
      · exact hnote
      · rw [houtcome] at hfailed
        cases hfailed

/-- **Clicks are heard as they should be as long as every completion that is handled answers the
newest click.** -/
theorem auditions_of_run {ls : List Label} (hrun : protocol.run {} ls = some s)
    (hanswers : ∀ before l s', before ++ [l] <+: ls → protocol.run {} before = some s' →
      Answers s' l) : Auditions s := by
  refine Answered.auditions ?_
  refine TransitionSystem.invariant (I := fun ls s =>
    (∀ before l s', before ++ [l] <+: ls → protocol.run {} before = some s' → Answers s' l) →
      Answered s) (fun _ => answered_init) ?_ hrun hanswers
  intro ls s l s' hrun ih hstep hall
  refine (ih fun before l' s'' hpre => hall before l' s'' (hpre.trans ?_)).step ?_ hstep
  · exact List.prefix_append _ _
  · exact hall ls l s (List.prefix_refl _) hrun

/-- A click, its load, its note and the end of that. -/
def oneClick : List Label :=
  [.click "kick.wav", .take, .startLoads, .load true, .push, .load true, .frame, .poll, .poll,
    .handle, .handle, .noteOffTimer]

/-- A click on its own is heard as it should be. -/
theorem auditions_oneClick : ∃ s, protocol.run {} oneClick = some s ∧
    s.log = [.noteOff, .noteOn (some "kick.wav"), .click "kick.wav", .noteOff] ∧ Auditions s := by
  obtain ⟨s, hrun⟩ : ∃ s, protocol.run {} oneClick = some s :=
    Option.isSome_iff_exists.1 (by decide +kernel)
  have hlog : (protocol.run {} oneClick).map State.log =
      some [.noteOff, .noteOn (some "kick.wav"), .click "kick.wav", .noteOff] := by decide +kernel
  rw [hrun, Option.map_some, Option.some_inj] at hlog
  refine ⟨s, hrun, hlog, auditions_of_run hrun ?_⟩
  exact TransitionSystem.forall_steps_of_stepsMeet (by decide +kernel)

/-- The samples of the channels are loaded when the project is opened, and a sample is clicked. -/
def channelLoadFirst : List Label :=
  [.take, .channelLoad true, .push, .startLoads, .load true, .click "kick.wav", .frame, .poll, .poll,
    .handle]

/-- **The completion of a channel's sample starts the note of a click**, before the clicked sample
has been read: what is heard is what the voice held before. -/
theorem not_auditions_channelLoadFirst : ∃ s, protocol.run {} channelLoadFirst = some s ∧
    s.log = [.noteOn none, .click "kick.wav", .noteOff] ∧
    s.pendingSampleLoads = ["kick.wav"] ∧ ¬Auditions s := by
  obtain ⟨s, hrun⟩ : ∃ s, protocol.run {} channelLoadFirst = some s :=
    Option.isSome_iff_exists.1 (by decide +kernel)
  have hlog : (protocol.run {} channelLoadFirst).map (fun s => (s.log, s.pendingSampleLoads)) =
      some ([.noteOn none, .click "kick.wav", .noteOff], ["kick.wav"]) := by decide +kernel
  rw [hrun, Option.map_some, Option.some_inj, Prod.mk.injEq] at hlog
  refine ⟨s, hrun, hlog.1, hlog.2, fun h => ?_⟩
  have htruthful := h.truthful
  rw [hlog.1] at htruthful
  exact Bool.noConfusion htruthful.1

end OneBeat.SampleAudition
