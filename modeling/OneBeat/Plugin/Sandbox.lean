import Mathlib.Data.Int.Notation
import OneBeat.Lib.TransitionSystem
import Mathlib.Algebra.Group.Nat.Defs

/-!
# The sandbox protocol

`plugin/sandbox/sandboxed_plugin_proxy.cpp` and `plugin/sandbox/runtime_host.cpp`: the audio thread
of the host hands a block to the helper process and waits for the answer.  The two share a memory
and two counting semaphores.

`Host` and `Helper` are the two parties with their program counters, and `step` is what either of
them does next: every access to the shared words and every operation on a semaphore is a step of
its own, so the steps interleave as they may.  A timed wait may time out whenever it is waiting.

The plug-in is a parameter.  Starting and tearing down the helper is not modelled: `init` is what a
launch leaves, with the sequence number of earlier launches.
-/

namespace OneBeat.Sandbox

def runtimeMaxFrames : ℕ := 2048
def runtimeMaxChannels : ℕ := 2
def runtimeMaxEvents : ℕ := 2048

section Data

variable (Sample Event Transport : Type)

/-- A view of the channels of a port. -/
structure AudioView where
  numChannels : ℕ
  channel : ℕ → ℕ → Sample

/-- A block as the engine asks for it; of an output port only its channels count. -/
structure ProcessBlock where
  frames : ℕ
  audioInputs : List (AudioView Sample)
  audioOutputs : List ℕ
  inEvents : List Event
  transport : Transport
  steadyTime : ℤ

/-- A block as the plug-in in the helper sees it. -/
structure HelperBlock where
  frames : ℕ
  inputChannels : ℕ
  outputChannels : ℕ
  audioIn : List (List Sample)
  events : List Event
  transport : Transport
  steadyTime : ℤ

/-- The shared memory: `events` are those that count. -/
structure RuntimeShared where
  request : ℕ := 0
  response : ℕ := 0
  frames : ℕ := 0
  inputChannels : ℕ := 0
  outputChannels : ℕ := 0
  audioIn : ℕ → ℕ → Sample
  audioOut : ℕ → ℕ → Sample
  events : List Event := []
  transport : Transport
  steadyTime : ℤ := -1

/-- A plug-in: what starting and processing do to its state, and the samples it leaves in the
output, given those that are there; `none` when processing fails. -/
structure PluginModel (State : Type) where
  isSysex : Event → Bool
  silence : Sample
  hasOutput : Bool
  startProcessing : State → State × Bool
  process : State → HelperBlock Sample Event Transport → (ℕ → ℕ → Sample) →
    State × Option (ℕ → ℕ → Sample)

end Data

variable {Sample Event Transport State : Type}

/-- The samples of the first channels and frames. -/
def samples (channels frames : ℕ) (channel : ℕ → ℕ → Sample) : List (List Sample) :=
  (List.range channels).map fun c => (List.range frames).map fun f => channel c f

/-! ### The parties -/

section Parties

variable (Sample Event Transport State)

/-- Where the host is in `process`. -/
inductive HostPc
  | idle
  /-- About to look at `response`. -/
  | gate (block : ProcessBlock Sample Event Transport)
  | writing (block : ProcessBlock Sample Event Transport)
  | issuing (block : ProcessBlock Sample Event Transport)
  | signalling (block : ProcessBlock Sample Event Transport) (request : ℕ)
  | waiting (block : ProcessBlock Sample Event Transport) (request : ℕ)
  | copying (block : ProcessBlock Sample Event Transport) (request : ℕ)

/-- What a call of `process` returned. -/
inductive Outcome
  /-- `Continue`, with silence: the editor is in transition. -/
  | silent
  /-- `Error`, with silence. -/
  | error
  /-- `Continue`, with what was copied. -/
  | copied (audio : List (List Sample))

structure Host where
  pc : HostPc Sample Event Transport := .idle
  sequence : ℕ
  inFlight : ℕ := 0
  consecutiveMisses : ℕ := 0
  dead : Bool := false
  editorTransition : Bool := false
  returned : Option (Outcome Sample) := none

/-- Where the helper is in its loop. -/
inductive HelperPc
  | waiting
  /-- About to read the request. -/
  | reading
  | processing
  | responding
  | signalling
  /-- The plug-in did not start. -/
  | stopped
  deriving DecidableEq

structure Helper where
  pc : HelperPc := .waiting
  seen : ℕ := 0
  processing : Bool := false
  plugin : State

/-- Both parties, what they share, and the tokens of the two semaphores. -/
structure System where
  host : Host Sample Event Transport
  helper : Helper State
  shared : RuntimeShared Sample Event Transport
  toHelper : ℕ := 0
  toHost : ℕ := 0

/-- The steps: of the host, of the main thread, of the helper. -/
inductive Label
  | call (block : ProcessBlock Sample Event Transport)
  /-- The last request is still not answered. -/
  | skip
  | pass
  | write
  | issue
  | signalHelper
  | wake
  | timeout
  | copy
  | editor (transition : Bool)
  | helperWake
  | read
  | process
  | respond
  | signalHost

end Parties

variable (plugin : PluginModel Sample Event Transport State)

/-! ### The host -/

/-- The channels of the first port, as many as the memory has room for. -/
def sharedChannels : List ℕ → ℕ
  | channels :: _ => min channels runtimeMaxChannels
  | [] => 0

/-- Write a block into the shared memory. -/
def writeBlock (shared : RuntimeShared Sample Event Transport)
    (block : ProcessBlock Sample Event Transport) : RuntimeShared Sample Event Transport :=
  let inputChannels := sharedChannels (block.audioInputs.map AudioView.numChannels)
  { shared with
    frames := block.frames
    inputChannels
    outputChannels := sharedChannels block.audioOutputs
    audioIn := fun c f =>
      match block.audioInputs with
      | view :: _ =>
        if c < inputChannels ∧ f < block.frames then view.channel c f else shared.audioIn c f
      | [] => shared.audioIn c f
    events := (block.inEvents.filter fun event => !plugin.isSysex event).take runtimeMaxEvents
    transport := block.transport
    steadyTime := block.steadyTime }

/-- The call returns. -/
def Host.return (host : Host Sample Event Transport) (outcome : Outcome Sample) :
    Host Sample Event Transport :=
  { host with pc := .idle, returned := some outcome }

/-- The wait was not answered. -/
def Host.miss (host : Host Sample Event Transport) (request : ℕ) : Host Sample Event Transport :=
  { host with inFlight := request, consecutiveMisses := 1 }.return .error

/-- The last request is not answered yet. -/
def unanswered (s : System Sample Event Transport State) : Bool :=
  s.host.inFlight ≠ 0 && s.shared.response ≠ s.host.inFlight

def stepHost (s : System Sample Event Transport State) :
    Label Sample Event Transport → Option (System Sample Event Transport State)
  | .call block =>
    match s.host.pc with
    | .idle =>
      if s.host.editorTransition then some { s with host := s.host.return .silent }
      else if s.host.dead || runtimeMaxFrames < block.frames then
        some { s with host := s.host.return .error }
      else some { s with host := { s.host with pc := .gate block } }
    | _ => none
  | .skip =>
    match s.host.pc with
    | .gate _ =>
      if unanswered s then
        let misses := s.host.consecutiveMisses + 1
        some { s with
          host := { s.host with
            consecutiveMisses := misses, dead := s.host.dead || 2 ≤ misses }.return .error }
      else none
    | _ => none
  | .pass =>
    match s.host.pc with
    | .gate block =>
      if unanswered s then none
      else some { s with
        host := { s.host with pc := .writing block, inFlight := 0, consecutiveMisses := 0 } }
    | _ => none
  | .write =>
    match s.host.pc with
    | .writing block =>
      some { s with
        host := { s.host with pc := .issuing block }
        shared := writeBlock plugin s.shared block }
    | _ => none
  | .issue =>
    match s.host.pc with
    | .issuing block =>
      let request := (s.host.sequence + 1) % 2 ^ 32
      some { s with
        host := { s.host with pc := .signalling block request, sequence := request }
        shared := { s.shared with request } }
    | _ => none
  | .signalHelper =>
    match s.host.pc with
    | .signalling block request =>
      some { s with
        host := { s.host with pc := .waiting block request }, toHelper := s.toHelper + 1 }
    | _ => none
  | .wake =>
    match s.host.pc with
    | .waiting block request =>
      if 0 < s.toHost then
        let host := if s.shared.response = request then
            { s.host with pc := .copying block request }
          else s.host.miss request
        some { s with host, toHost := s.toHost - 1 }
      else none
    | _ => none
  | .timeout =>
    match s.host.pc with
    | .waiting _ request => some { s with host := s.host.miss request }
    | _ => none
  | .copy =>
    match s.host.pc with
    | .copying block _ =>
      some { s with
        host := s.host.return
          (.copied (samples s.shared.outputChannels block.frames s.shared.audioOut)) }
    | _ => none
  | .editor transition => some { s with host := { s.host with editorTransition := transition } }
  | _ => none

/-! ### The helper -/

/-- What the plug-in is given. -/
def helperBlock (shared : RuntimeShared Sample Event Transport) :
    HelperBlock Sample Event Transport :=
  let frames := min shared.frames runtimeMaxFrames
  { frames
    inputChannels := shared.inputChannels
    outputChannels := shared.outputChannels
    audioIn := samples shared.inputChannels frames shared.audioIn
    events := shared.events.take runtimeMaxEvents
    transport := shared.transport
    steadyTime := shared.steadyTime }

/-- The output after processing: the plug-in writes the channels and frames of the view, and on an
error these are cleared. -/
def processed (shared : RuntimeShared Sample Event Transport)
    (result : Option (ℕ → ℕ → Sample)) (c f : ℕ) : Sample :=
  if c < shared.outputChannels ∧ f < min shared.frames runtimeMaxFrames then
    match result with
    | none => plugin.silence
    | some audio => if plugin.hasOutput then audio c f else shared.audioOut c f
  else shared.audioOut c f

/-- Start the plug-in if it is not processing yet. -/
def Helper.start (helper : Helper State) : State × Bool :=
  if helper.processing then (helper.plugin, true) else plugin.startProcessing helper.plugin

/-- The plug-in handles a block. -/
def Helper.handle (helper : Helper State) (shared : RuntimeShared Sample Event Transport) :
    Helper State × RuntimeShared Sample Event Transport :=
  let result := plugin.process helper.plugin (helperBlock shared) shared.audioOut
  ({ helper with pc := .responding, processing := true, plugin := result.1 },
    { shared with audioOut := processed plugin shared result.2 })

def stepHelper (s : System Sample Event Transport State) :
    Label Sample Event Transport → Option (System Sample Event Transport State)
  | .helperWake =>
    if s.helper.pc = .waiting ∧ 0 < s.toHelper then
      some { s with helper := { s.helper with pc := .reading }, toHelper := s.toHelper - 1 }
    else none
  | .read =>
    if s.helper.pc = .reading then
      if s.shared.request = s.helper.seen then
        some { s with helper := { s.helper with pc := .waiting } }
      else
        some { s with helper := { s.helper with pc := .processing, seen := s.shared.request } }
    else none
  | .process =>
    if s.helper.pc = .processing then
      let (state, started) := s.helper.start plugin
      if started then
        let (helper, shared) := { s.helper with plugin := state }.handle plugin s.shared
        some { s with helper, shared }
      else some { s with helper := { s.helper with pc := .stopped, plugin := state } }
    else none
  | .respond =>
    if s.helper.pc = .responding then
      some { s with
        helper := { s.helper with pc := .signalling }
        shared := { s.shared with response := s.helper.seen } }
    else none
  | .signalHost =>
    if s.helper.pc = .signalling then
      some { s with helper := { s.helper with pc := .waiting }, toHost := s.toHost + 1 }
    else none
  | _ => none

/-- The protocol. -/
def protocol : TransitionSystem (System Sample Event Transport State)
    (Label Sample Event Transport) where
  step s l := (stepHost plugin s l).or (stepHelper plugin s l)

/-- After a launch. -/
def init (sequence : ℕ) (transport : Transport) (state : State) :
    System Sample Event Transport State where
  host := { sequence }
  helper := { plugin := state }
  shared := { audioIn := fun _ _ => plugin.silence, audioOut := fun _ _ => plugin.silence,
              transport }

/-! ### What a step can do -/

/-- The steps of the two parties, one for each branch. -/
inductive Step :
    System Sample Event Transport State → Label Sample Event Transport →
      System Sample Event Transport State → Prop
  | callSilent {s block} (hpc : s.host.pc = .idle) (heditor : s.host.editorTransition = true) :
    Step s (.call block) { s with host := s.host.return .silent }
  | callError {s block} (hpc : s.host.pc = .idle)
    (hdead : s.host.dead = true ∨ runtimeMaxFrames < block.frames) :
    Step s (.call block) { s with host := s.host.return .error }
  | call {s block} (hpc : s.host.pc = .idle) (hframes : block.frames ≤ runtimeMaxFrames) :
    Step s (.call block) { s with host := { s.host with pc := .gate block } }
  | skip {s block dead} (hpc : s.host.pc = .gate block) (hun : unanswered s = true) :
    Step s .skip { s with
      host := { s.host with
        consecutiveMisses := s.host.consecutiveMisses + 1, dead }.return .error }
  | pass {s block} (hpc : s.host.pc = .gate block) (hun : unanswered s = false) :
    Step s .pass { s with
      host := { s.host with pc := .writing block, inFlight := 0, consecutiveMisses := 0 } }
  | write {s block} (hpc : s.host.pc = .writing block) :
    Step s .write { s with
      host := { s.host with pc := .issuing block }
      shared := writeBlock plugin s.shared block }
  | issue {s block request} (hpc : s.host.pc = .issuing block)
    (hrequest : request = (s.host.sequence + 1) % 2 ^ 32) :
    Step s .issue { s with
      host := { s.host with pc := .signalling block request, sequence := request }
      shared := { s.shared with request } }
  | signalHelper {s block request} (hpc : s.host.pc = .signalling block request) :
    Step s .signalHelper { s with
      host := { s.host with pc := .waiting block request }, toHelper := s.toHelper + 1 }
  | answered {s block request} (hpc : s.host.pc = .waiting block request) (htoken : 0 < s.toHost)
    (hresponse : s.shared.response = request) :
    Step s .wake { s with
      host := { s.host with pc := .copying block request }, toHost := s.toHost - 1 }
  | missed {s block request} (hpc : s.host.pc = .waiting block request) (htoken : 0 < s.toHost)
    (hresponse : s.shared.response ≠ request) :
    Step s .wake { s with host := s.host.miss request, toHost := s.toHost - 1 }
  | timeout {s block request} (hpc : s.host.pc = .waiting block request) :
    Step s .timeout { s with host := s.host.miss request }
  | copy {s block request} (hpc : s.host.pc = .copying block request) :
    Step s .copy { s with
      host := s.host.return
        (.copied (samples s.shared.outputChannels block.frames s.shared.audioOut)) }
  | editor {s transition} :
    Step s (.editor transition) { s with
      host := { s.host with editorTransition := transition } }
  | helperWake {s} (hpc : s.helper.pc = .waiting) (htoken : 0 < s.toHelper) :
    Step s .helperWake { s with
      helper := { s.helper with pc := .reading }, toHelper := s.toHelper - 1 }
  | ignore {s} (hpc : s.helper.pc = .reading) (hseen : s.shared.request = s.helper.seen) :
    Step s .read { s with helper := { s.helper with pc := .waiting } }
  | read {s} (hpc : s.helper.pc = .reading) (hseen : s.shared.request ≠ s.helper.seen) :
    Step s .read { s with
      helper := { s.helper with pc := .processing, seen := s.shared.request } }
  | process {s} (hpc : s.helper.pc = .processing) (hstart : (s.helper.start plugin).2 = true) :
    Step s .process { s with
      helper := ({ s.helper with plugin := (s.helper.start plugin).1 }.handle plugin s.shared).1
      shared := ({ s.helper with plugin := (s.helper.start plugin).1 }.handle plugin s.shared).2 }
  | stop {s} (hpc : s.helper.pc = .processing) :
    Step s .process { s with
      helper := { s.helper with pc := .stopped, plugin := (s.helper.start plugin).1 } }
  | respond {s} (hpc : s.helper.pc = .responding) :
    Step s .respond { s with
      helper := { s.helper with pc := .signalling }
      shared := { s.shared with response := s.helper.seen } }
  | signalHost {s} (hpc : s.helper.pc = .signalling) :
    Step s .signalHost { s with
      helper := { s.helper with pc := .waiting }, toHost := s.toHost + 1 }

variable {plugin} {s s' : System Sample Event Transport State}
  {l : Label Sample Event Transport} {ls : List (Label Sample Event Transport)}

theorem step_host (hl : stepHelper plugin s l = none)
    (h : (protocol plugin).step s l = some s') : stepHost plugin s l = some s' :=
  (Option.or_none.symm.trans (congrArg ((stepHost plugin s l).or ·) hl.symm)).trans h

theorem step_helper (hl : stepHost plugin s l = none)
    (h : (protocol plugin).step s l = some s') : stepHelper plugin s l = some s' :=
  (congrArg (Option.or · (stepHelper plugin s l)) hl.symm).trans h

/-- **There are no other steps.** -/
theorem step_cases (h : (protocol plugin).step s l = some s') : Step plugin s l s' := by
  cases l with
  | call block =>
    have h := step_host rfl h
    rw [stepHost] at h
    split at h
    next hpc =>
      split_ifs at h with heditor hdead
      · obtain rfl := Option.some.inj h
        exact .callSilent hpc heditor
      · obtain rfl := Option.some.inj h
        exact .callError hpc (by simpa using hdead)
      · obtain rfl := Option.some.inj h
        exact .call hpc (by simp_all)
    · cases h
  | skip =>
    have h := step_host rfl h
    rw [stepHost] at h
    split at h
    next block hpc =>
      split_ifs at h with hun
      obtain rfl := Option.some.inj h
      exact .skip hpc hun
    · cases h
  | pass =>
    have h := step_host rfl h
    rw [stepHost] at h
    split at h
    next block hpc =>
      split_ifs at h with hun
      obtain rfl := Option.some.inj h
      exact .pass hpc (by simpa using hun)
    · cases h
  | write =>
    have h := step_host rfl h
    rw [stepHost] at h
    split at h
    next block hpc =>
      obtain rfl := Option.some.inj h
      exact .write hpc
    · cases h
  | issue =>
    have h := step_host rfl h
    rw [stepHost] at h
    split at h
    next block hpc =>
      obtain rfl := Option.some.inj h
      exact .issue hpc rfl
    · cases h
  | signalHelper =>
    have h := step_host rfl h
    rw [stepHost] at h
    split at h
    next block request hpc =>
      obtain rfl := Option.some.inj h
      exact .signalHelper hpc
    · cases h
  | wake =>
    have h := step_host rfl h
    rw [stepHost] at h
    split at h
    next block request hpc =>
      split_ifs at h with htoken hresponse
      · obtain rfl := Option.some.inj h
        exact .answered hpc htoken hresponse
      · obtain rfl := Option.some.inj h
        exact .missed hpc htoken hresponse
    · cases h
  | timeout =>
    have h := step_host rfl h
    rw [stepHost] at h
    split at h
    next block request hpc =>
      obtain rfl := Option.some.inj h
      exact .timeout hpc
    · cases h
  | copy =>
    have h := step_host rfl h
    rw [stepHost] at h
    split at h
    next block request hpc =>
      obtain rfl := Option.some.inj h
      exact .copy hpc
    · cases h
  | editor transition =>
    obtain rfl := Option.some.inj h
    exact .editor
  | helperWake =>
    have h := step_helper rfl h
    rw [stepHelper] at h
    split_ifs at h with hpc
    obtain rfl := Option.some.inj h
    exact .helperWake hpc.1 hpc.2
  | read =>
    have h := step_helper rfl h
    rw [stepHelper] at h
    split_ifs at h with hpc hseen
    · obtain rfl := Option.some.inj h
      exact .ignore hpc hseen
    · obtain rfl := Option.some.inj h
      exact .read hpc hseen
  | process =>
    have h := step_helper rfl h
    simp only [stepHelper] at h
    split_ifs at h with hpc hstart
    · obtain rfl := Option.some.inj h
      exact .process hpc hstart
    · obtain rfl := Option.some.inj h
      exact .stop hpc
  | respond =>
    have h := step_helper rfl h
    rw [stepHelper] at h
    split_ifs at h with hpc
    obtain rfl := Option.some.inj h
    exact .respond hpc
  | signalHost =>
    have h := step_helper rfl h
    rw [stepHelper] at h
    split_ifs at h with hpc
    obtain rfl := Option.some.inj h
    exact .signalHost hpc

/-! ### A call returns -/

/-- How many steps of its own the host still takes in this call, at most. -/
def Host.stepsLeft (host : Host Sample Event Transport) : ℕ :=
  match host.pc with
  | .idle => 0
  | .gate _ => 6
  | .writing _ => 5
  | .issuing _ => 4
  | .signalling _ _ => 3
  | .waiting _ _ => 2
  | .copying _ _ => 1

def Label.isCall : Label Sample Event Transport → Bool
  | .call _ => true
  | _ => false

/-- A step of the host inside a call. -/
def Label.inCall : Label Sample Event Transport → Bool
  | .skip | .pass | .write | .issue | .signalHelper | .wake | .timeout | .copy => true
  | _ => false

/-- Every step of the host uses one up, and only a call brings new ones. -/
theorem stepsLeft_step (h : (protocol plugin).step s l = some s') :
    s'.host.stepsLeft + l.inCall.toNat ≤ s.host.stepsLeft + 6 * l.isCall.toNat := by
  cases step_cases h <;>
    simp_all [Host.stepsLeft, Label.inCall, Label.isCall, Host.return, Host.miss]

/-- The bound on the steps of the host is one on whole runs. -/
theorem stepsLeft_run {s₀ : System Sample Event Transport State}
    (h : (protocol plugin).run s₀ ls = some s) :
    s.host.stepsLeft + ls.countP Label.inCall ≤
      s₀.host.stepsLeft + 6 * ls.countP Label.isCall := by
  refine TransitionSystem.invariant
    (I := fun ls s => s.host.stepsLeft + ls.countP Label.inCall ≤
      s₀.host.stepsLeft + 6 * ls.countP Label.isCall) (Nat.le_refl _) ?_ h
  intro ls s l s' _ ih hs
  have hstep := stepsLeft_step hs
  simp only [List.countP_append, List.countP_singleton]
  cases hcall : l.isCall <;> cases hin : l.inCall <;> simp_all <;> omega

/-- The way back from a call, if nothing more is heard of the helper. -/
def giveUp (s : System Sample Event Transport State) : List (Label Sample Event Transport) :=
  match s.host.pc with
  | .idle => []
  | .gate _ =>
    if unanswered s then [.skip] else [.pass, .write, .issue, .signalHelper, .timeout]
  | .writing _ => [.write, .issue, .signalHelper, .timeout]
  | .issuing _ => [.issue, .signalHelper, .timeout]
  | .signalling _ _ => [.signalHelper, .timeout]
  | .waiting _ _ => [.timeout]
  | .copying _ _ => [.copy]

theorem giveUp_spec (plugin : PluginModel Sample Event Transport State)
    (s : System Sample Event Transport State) :
    (giveUp s).all Label.inCall = true ∧ (giveUp s).length ≤ s.host.stepsLeft ∧
      ∃ t, (protocol plugin).run s (giveUp s) = some t ∧ t.host.pc = .idle := by
  cases hpc : s.host.pc with
  | gate block =>
    -- the last request is looked at once
    cases hun : unanswered s <;>
      simp [giveUp, hpc, hun, Label.inCall, Host.stepsLeft, TransitionSystem.run, protocol,
        stepHost, Host.return, Host.miss]
  | _ =>
    simp [giveUp, hpc, Label.inCall, Host.stepsLeft, TransitionSystem.run, protocol, stepHost,
      Host.return, Host.miss]

/-- **`process` is wait-free**: in every run the host takes at most six steps for a call, and
wherever it stands in one it can return on its own, whatever the helper does. -/
theorem process_waitFree (sequence : ℕ) (transport : Transport) (state : State)
    (h : (protocol plugin).run (init plugin sequence transport state) ls = some s) :
    s.host.stepsLeft + ls.countP Label.inCall ≤ 6 * ls.countP Label.isCall ∧
      ∃ rest t, rest.all Label.inCall = true ∧ rest.length ≤ s.host.stepsLeft ∧
        (protocol plugin).run s rest = some t ∧ t.host.pc = .idle := by
  obtain ⟨hall, hlength, t, hrun, hidle⟩ := giveUp_spec plugin s
  refine ⟨?_, giveUp s, t, hall, hlength, hrun, hidle⟩
  have hsteps := stepsLeft_run h
  rwa [show (init plugin sequence transport state).host.stepsLeft = 0 from rfl,
    Nat.zero_add] at hsteps

/-! ### A plug-in and its calls -/

/-- A plug-in that passes its input on. -/
def passThrough : PluginModel ℕ Unit Unit Unit where
  isSysex _ := false
  silence := 0
  hasOutput := true
  startProcessing state := (state, true)
  process state block _ :=
    (state, some fun c f => ((block.audioIn[c]?).bind fun channel => channel[f]?).getD 0)

/-- A block of one frame. -/
def oneFrame (sample : ℕ) : ProcessBlock ℕ Unit Unit :=
  { frames := 1, audioInputs := [⟨1, fun _ _ => sample⟩], audioOutputs := [1], inEvents := [],
    transport := (), steadyTime := 0 }

/-- A call that is answered in time, up to its copying. -/
def promptCall (block : ProcessBlock ℕ Unit Unit) : List (Label ℕ Unit Unit) :=
  [.call block, .pass, .write, .issue, .signalHelper, .helperWake, .read, .process, .respond,
    .signalHost, .wake]

theorem process_waitFree_promptCall :
    ∃ s : System ℕ Unit Unit Unit, 1 + 5 ≤ 6 * 1 ∧
      ∃ rest t, rest.all Label.inCall = true ∧ rest.length ≤ 1 ∧
        (protocol passThrough).run s rest = some t ∧ t.host.pc = .idle :=
  ⟨_, process_waitFree 0 () () (rfl : (protocol passThrough).run _ (promptCall (oneFrame 7)) = _)⟩

end OneBeat.Sandbox
