import OneBeat.Plugin.SandboxBlocks

/-!
# The events of the sandbox protocol

What becomes of the events that are handed to `SandboxedPluginProxy::process`.  A call that goes on
to write its block brings its events to the plug-in, however late the answer is; a call that
returns before that drops them.

* `Ledger` : the protocol with the events on record, `logged` its steps;
* `Relay` : what the host knows about the helper, whatever the sequence numbers do;
* `Delivery` : what has been accepted is with the plug-in or on its way;
* `given_eq_handed_iff` : **every event arrives exactly when no call with events is dropped.**
-/

namespace OneBeat.Sandbox

variable {Sample Event Transport State : Type}
  (plugin : PluginModel Sample Event Transport State)

/-! ### The record -/

/-- The events that can be passed on. -/
def passable (block : ProcessBlock Sample Event Transport) : List Event :=
  block.inEvents.filter fun event => !plugin.isSysex event

/-- The call returns without a look at the helper. -/
def Dropped (host : Host Sample Event Transport) (block : ProcessBlock Sample Event Transport) :
    Prop :=
  host.editorTransition = true ∨ host.dead = true ∨ runtimeMaxFrames < block.frames

instance (host : Host Sample Event Transport) (block : ProcessBlock Sample Event Transport) :
    Decidable (Dropped host block) :=
  inferInstanceAs (Decidable (_ ∨ _ ∨ _))

variable (Sample Event Transport State) in
/-- The system, with the events on record. -/
structure Ledger where
  system : System Sample Event Transport State
  /-- Handed to `process`. -/
  handed : List Event := []
  /-- Of the calls that go on to write their block. -/
  accepted : List Event := []
  /-- Of the calls that return before that. -/
  lost : List Event := []
  /-- Handed to the `process` of the plug-in. -/
  given : List Event := []

/-- What a step puts on record. -/
def Ledger.record (s : Ledger Sample Event Transport State) (l : Label Sample Event Transport)
    (next : System Sample Event Transport State) : Ledger Sample Event Transport State :=
  match l with
  | .call block =>
    { s with
      system := next
      handed := s.handed ++ passable plugin block
      lost := if Dropped s.system.host block then s.lost ++ passable plugin block else s.lost }
  | .skip =>
    match s.system.host.pc with
    | .gate block => { s with system := next, lost := s.lost ++ passable plugin block }
    | _ => { s with system := next }
  | .pass =>
    match s.system.host.pc with
    | .gate block => { s with system := next, accepted := s.accepted ++ passable plugin block }
    | _ => { s with system := next }
  | .process =>
    { s with
      system := next
      given := if (s.system.helper.start plugin).2 then
          s.given ++ (helperBlock s.system.shared).events
        else s.given }
  | _ => { s with system := next }

/-- The protocol, with the record. -/
def logged : TransitionSystem (Ledger Sample Event Transport State)
    (Label Sample Event Transport) where
  step s l := ((protocol plugin).step s.system l).map (s.record plugin l)

/-- After a launch. -/
def Ledger.launched (sequence : ℕ) (transport : Transport) (state : State) :
    Ledger Sample Event Transport State where
  system := init plugin sequence transport state

variable {plugin} {s s' : System Sample Event Transport State} {l : Label Sample Event Transport}

/-! ### What the host knows -/

/-- The helper is between reading a request and answering it, or will not answer. -/
def Working (s : System Sample Event Transport State) : Prop :=
  s.helper.pc = .processing ∨ s.helper.pc = .responding ∨ s.helper.pc = .stopped

/-- The helper has answered what it was asked. -/
def Done (s : System Sample Event Transport State) : Prop :=
  s.helper.seen = s.shared.request ∧ ¬Working s

/-- What the host can tell from where it is. -/
def HostSees (s : System Sample Event Transport State) : Prop :=
  match s.host.pc with
  | .idle | .gate _ => Done s ∨ s.host.inFlight = s.shared.request ∧ s.shared.request ≠ 0
  | .writing _ | .issuing _ => Done s
  | .signalling _ request | .waiting _ request => s.shared.request = request
  | .copying _ request => s.shared.request = request ∧ s.shared.response = request

/-- The two parties, without a word on how the sequence numbers are ordered. -/
structure Relay (s : System Sample Event Transport State) : Prop where
  /-- The next number is not the last one. -/
  fresh : (s.host.sequence + 1) % 2 ^ 32 ≠ s.shared.request
  working : Working s → s.helper.seen = s.shared.request ∧ s.shared.response ≠ s.shared.request
  resting : ¬Working s → s.shared.response = s.helper.seen
  host : HostSees s

theorem Relay.done (h : Relay s) (hanswered : s.shared.response = s.shared.request) : Done s := by
  have hrest : ¬Working s := fun hw => (h.working hw).2 hanswered
  exact ⟨(h.resting hrest).symm.trans hanswered, hrest⟩

/-- No wait for the request numbered 0 runs out: 0 is how the host says that nothing is in
flight. -/
def MissesNoZero (s : System Sample Event Transport State) (l : Label Sample Event Transport) :
    Prop :=
  ∀ block, s.host.pc = .waiting block 0 → l ≠ .timeout ∧ (l = .wake → s.shared.response = 0)

theorem fresh_succ (n : ℕ) : ((n + 1) % 2 ^ 32 + 1) % 2 ^ 32 ≠ (n + 1) % 2 ^ 32 := by
  omega

theorem HostSees.of_helper (h : HostSees s) (hhost : s'.host = s.host)
    (hrequest : s'.shared.request = s.shared.request)
    (hresponse : s'.shared.response = s.shared.response) (hdone : Done s → Done s') :
    HostSees s' := by
  unfold HostSees at h ⊢
  rw [hhost, hrequest, hresponse]
  cases hpc : s.host.pc <;> simp only [hpc] at h ⊢
  case idle => exact h.imp_left hdone
  case gate => exact h.imp_left hdone
  case writing => exact hdone h
  case issuing => exact hdone h
  all_goals exact h

/-- A step that moves the host only, and not what the relay says of it. -/
theorem Relay.of_host (h : Relay s) (hsequence : s'.host.sequence = s.host.sequence)
    (hhelper : s'.helper = s.helper) (hrequest : s'.shared.request = s.shared.request)
    (hresponse : s'.shared.response = s.shared.response) (hhost : HostSees s') : Relay s' := by
  refine ⟨?_, ?_, ?_, hhost⟩
  · rw [hsequence, hrequest]
    exact h.fresh
  · rw [Working, hhelper, hrequest, hresponse]
    exact h.working
  · rw [Working, hhelper, hresponse]
    exact h.resting

theorem Relay.step (h : Relay s) (hstep : Step plugin s l s') (hzero : MissesNoZero s l) :
    Relay s' := by
  have hhost := h.host
  cases hstep with
  | callSilent hpc | callError hpc | skip hpc =>
    refine h.of_host rfl rfl rfl rfl ?_
    simpa [HostSees, hpc, Host.return, Done, Working] using hhost
  | call hpc _ =>
    refine h.of_host rfl rfl rfl rfl ?_
    simpa [HostSees, hpc, Done, Working] using hhost
  | pass hpc hun =>
    refine h.of_host rfl rfl rfl rfl ?_
    simp only [HostSees, hpc] at hhost
    refine hhost.elim id fun hmissed => h.done ?_
    obtain ⟨hflight, hne⟩ := hmissed
    -- the last request is not outstanding any more
    by_contra hnot
    simp [unanswered, hflight, hne, hnot] at hun
  | write hpc =>
    refine h.of_host rfl rfl rfl rfl ?_
    simpa [HostSees, hpc, Done, Working, writeBlock] using hhost
  | issue hpc hrequest =>
    subst hrequest
    simp only [HostSees, hpc] at hhost
    refine ⟨fresh_succ _, fun hw => absurd hw hhost.2, fun _ => h.resting hhost.2, rfl⟩
  | signalHelper hpc =>
    refine h.of_host rfl rfl rfl rfl ?_
    simpa [HostSees, hpc] using hhost
  | answered hpc _ hresponse =>
    refine h.of_host rfl rfl rfl rfl ?_
    simp only [HostSees, hpc] at hhost
    exact ⟨hhost, hresponse⟩
  | @missed block request hpc _ hresponse =>
    refine h.of_host rfl rfl rfl rfl (.inr ?_)
    simp only [HostSees, hpc] at hhost
    refine ⟨hhost.symm, fun hz => hresponse ?_⟩
    obtain rfl : request = 0 := hhost.symm.trans hz
    exact (hzero block hpc).2 rfl
  | @timeout block request hpc =>
    refine h.of_host rfl rfl rfl rfl (.inr ?_)
    simp only [HostSees, hpc] at hhost
    refine ⟨hhost.symm, fun hz => ?_⟩
    obtain rfl : request = 0 := hhost.symm.trans hz
    exact (hzero block hpc).1 rfl
  | copy hpc =>
    refine h.of_host rfl rfl rfl rfl (.inl ?_)
    simp only [HostSees, hpc] at hhost
    exact h.done (hhost.2.trans hhost.1.symm)
  | editor => exact ⟨h.fresh, h.working, h.resting, hhost⟩
  | helperWake hpc | ignore hpc | signalHost hpc =>
    refine ⟨h.fresh, by simp [Working], fun _ => h.resting (by simp [Working, hpc]), ?_⟩
    exact hhost.of_helper rfl rfl rfl fun hd => ⟨hd.1, by simp [Working]⟩
  | read hpc hnew =>
    have hresponse := h.resting (by simp [Working, hpc])
    refine ⟨h.fresh, fun _ => ⟨rfl, fun heq => hnew (heq.symm.trans hresponse)⟩,
      fun hrest => absurd (.inl rfl) hrest, ?_⟩
    exact hhost.of_helper rfl rfl rfl fun hd => absurd hd.1.symm hnew
  | process hpc _ =>
    have hw : Working s := .inl hpc
    refine ⟨h.fresh, fun _ => h.working hw, fun hrest => absurd (.inr (.inl rfl)) hrest, ?_⟩
    exact hhost.of_helper rfl rfl rfl fun hd => absurd hw hd.2
  | stop hpc =>
    have hw : Working s := .inl hpc
    refine ⟨h.fresh, fun _ => h.working hw, fun hrest => absurd (.inr (.inr rfl)) hrest, ?_⟩
    exact hhost.of_helper rfl rfl rfl fun hd => absurd hw hd.2
  | respond hpc =>
    have hw : Working s := .inr (.inl hpc)
    refine ⟨h.fresh, by simp [Working], fun _ => rfl, ?_⟩
    have hseen := (h.working hw).1
    unfold HostSees at hhost ⊢
    cases hpc' : s.host.pc <;> simp only [hpc'] at hhost ⊢
    case idle => exact .inl ⟨hseen, by simp [Working]⟩
    case gate => exact .inl ⟨hseen, by simp [Working]⟩
    case writing => exact ⟨hseen, by simp [Working]⟩
    case issuing => exact ⟨hseen, by simp [Working]⟩
    case copying => exact ⟨hhost.1, hseen.trans hhost.1⟩
    all_goals exact hhost

/-! ### What is on its way -/

/-- The request in the shared memory has not been processed. -/
def Unprocessed (s : System Sample Event Transport State) : Prop :=
  s.shared.request ≠ s.helper.seen ∨ s.helper.pc = .processing ∨ s.helper.pc = .stopped

instance (s : System Sample Event Transport State) : Decidable (Unprocessed s) :=
  inferInstanceAs (Decidable (_ ∨ _ ∨ _))

variable (plugin) in
/-- The events that have been accepted and that the plug-in has not got. -/
def onWay (s : System Sample Event Transport State) : List Event :=
  match s.host.pc with
  | .writing block => passable plugin block
  | .issuing _ => s.shared.events
  | _ => if Unprocessed s then s.shared.events else []

variable (plugin) in
/-- The events of the call that is about to look at the last response. -/
def atGate (s : System Sample Event Transport State) : List Event :=
  match s.host.pc with
  | .gate block => passable plugin block
  | _ => []

variable (plugin) in
/-- The block of the call the host is in, up to its writing, has room in the shared memory. -/
def Fits (s : System Sample Event Transport State) : Prop :=
  match s.host.pc with
  | .gate block | .writing block => (passable plugin block).length ≤ runtimeMaxEvents
  | _ => True

variable (plugin) in
/-- What has been accepted is with the plug-in or on its way, and nothing else was handed in but
what was lost. -/
structure Delivery (s : Ledger Sample Event Transport State) : Prop where
  relay : Relay s.system
  room : s.system.shared.events.length ≤ runtimeMaxEvents
  fits : Fits plugin s.system
  given : s.given ++ onWay plugin s.system = s.accepted
  kept : s.lost = [] → s.handed = s.accepted ++ atGate plugin s.system
  length : s.handed.length = s.accepted.length + (atGate plugin s.system).length + s.lost.length

/-- A step of the helper that processes nothing. -/
theorem onWay_congr (hhost : s'.host = s.host) (hevents : s'.shared.events = s.shared.events)
    (hun : Unprocessed s' ↔ Unprocessed s) : onWay plugin s' = onWay plugin s := by
  simp only [onWay, hhost, hevents, hun]

theorem Done.processed (h : Done s) : ¬Unprocessed s := by
  rintro (hseen | hpc | hpc)
  · exact hseen h.1.symm
  · exact h.2 (.inl hpc)
  · exact h.2 (.inr (.inr hpc))

/-- A call is dropped, or it goes on to look at the last response. -/
theorem call_cases {block : ProcessBlock Sample Event Transport}
    (h : (protocol plugin).step s (.call block) = some s') :
    s.host.pc = .idle ∧
      ((Dropped s.host block ∧ ∃ outcome, s' = { s with host := s.host.return outcome }) ∨
        (¬Dropped s.host block ∧ s' = { s with host := { s.host with pc := .gate block } })) := by
  have h := step_host rfl h
  rw [stepHost] at h
  split at h
  next hpc =>
    refine ⟨hpc, ?_⟩
    split_ifs at h with heditor hdead
    · exact .inl ⟨.inl heditor, _, (Option.some.inj h).symm⟩
    · exact .inl ⟨.inr (by simpa using hdead), _, (Option.some.inj h).symm⟩
    · refine .inr ⟨?_, (Option.some.inj h).symm⟩
      simpa [Dropped, heditor] using hdead
  · cases h

theorem Delivery.call {s s' : Ledger Sample Event Transport State} (h : Delivery plugin s)
    {block : ProcessBlock Sample Event Transport}
    (hstep : (logged plugin).step s (.call block) = some s')
    (hevents : (passable plugin block).length ≤ runtimeMaxEvents) : Delivery plugin s' := by
  obtain ⟨next, hnext, rfl⟩ := Option.map_eq_some_iff.1 hstep
  have hrelay := h.relay.step (step_cases hnext) fun _ _ => ⟨nofun, nofun⟩
  obtain ⟨hidle, ⟨hdropped, outcome, rfl⟩ | ⟨hdropped, rfl⟩⟩ := call_cases hnext
  · -- the events are lost
    have hgiven := h.given
    have hkept := h.kept
    have hlength := h.length
    simp only [onWay, atGate, hidle] at hgiven hkept hlength
    refine ⟨hrelay, h.room, trivial, hgiven, ?_, ?_⟩
    · simp only [Ledger.record, hdropped, if_true, List.append_eq_nil_iff]
      rintro ⟨hlost, hnone⟩
      rw [hnone, List.append_nil]
      exact hkept hlost
    · simp only [Ledger.record, hdropped, if_true, List.length_append, atGate, Host.return]
      simp only [List.length_nil] at hlength ⊢
      omega
  · have hgiven := h.given
    have hkept := h.kept
    have hlength := h.length
    simp only [onWay, atGate, hidle] at hgiven hkept hlength
    refine ⟨hrelay, h.room, hevents, hgiven, ?_, ?_⟩
    · simp only [Ledger.record, hdropped, if_false, atGate]
      intro hlost
      rw [hkept hlost, List.append_nil]
    · simp only [Ledger.record, hdropped, if_false, List.length_append, atGate]
      simp only [List.length_nil] at hlength
      omega

/-- The plug-in processes the block, or it does not start. -/
theorem process_cases (h : (protocol plugin).step s .process = some s') :
    s.helper.pc = .processing ∧
      (((s.helper.start plugin).2 = true ∧ s'.helper.pc = .responding) ∨
        ((s.helper.start plugin).2 = false ∧ s'.helper.pc = .stopped)) ∧
      s'.host = s.host ∧ s'.helper.seen = s.helper.seen ∧ s'.shared.request = s.shared.request ∧
      s'.shared.events = s.shared.events := by
  have h := step_helper rfl h
  simp only [stepHelper] at h
  split_ifs at h with hpc hstart
  · obtain rfl := Option.some.inj h
    exact ⟨hpc, .inl ⟨hstart, rfl⟩, rfl, rfl, rfl, rfl⟩
  · obtain rfl := Option.some.inj h
    exact ⟨hpc, .inr ⟨by simpa using hstart, rfl⟩, rfl, rfl, rfl, rfl⟩

/-- While the helper works the host does not write. -/
theorem onWay_working (hhost : HostSees s) (hw : Working s) :
    onWay plugin s = if Unprocessed s then s.shared.events else [] := by
  unfold onWay
  unfold HostSees at hhost
  cases hpc : s.host.pc <;> simp only [hpc] at hhost ⊢
  case writing => exact absurd hw hhost.2
  case issuing => exact absurd hw hhost.2

theorem Delivery.process {s s' : Ledger Sample Event Transport State} (h : Delivery plugin s)
    (hstep : (logged plugin).step s .process = some s') : Delivery plugin s' := by
  obtain ⟨next, hnext, rfl⟩ := Option.map_eq_some_iff.1 hstep
  have hrelay := h.relay.step (step_cases hnext) fun _ _ => ⟨nofun, nofun⟩
  obtain ⟨hpc, hcases, hhost, hseen, hrequest, hevents⟩ := process_cases hnext
  have hw : Working s.system := .inl hpc
  have hgiven := h.given
  rw [onWay_working h.relay.host hw, if_pos (.inr (.inl hpc))] at hgiven
  have hgate : atGate plugin next = atGate plugin s.system := by
    simp only [atGate, hhost]
  have hfits : Fits plugin next := by
    have := h.fits
    simp only [Fits, hhost] at this ⊢
    exact this
  refine ⟨hrelay, hevents ▸ h.room, hfits, ?_, hgate ▸ h.kept, hgate ▸ h.length⟩
  rcases hcases with ⟨hstart, hpc'⟩ | ⟨hstart, hpc'⟩
  · -- what was on its way is what the plug-in gets
    have hnot : ¬Unprocessed next := by
      simp [Unprocessed, hpc', hseen, hrequest, (h.relay.working hw).1]
    have hall : (helperBlock s.system.shared).events = s.system.shared.events :=
      List.take_of_length_le h.room
    rw [Ledger.record, onWay_working hrelay.host (.inr (.inl hpc')), if_neg hnot]
    simp only [hstart, if_true, hall, List.append_nil]
    exact hgiven
  · have hun : Unprocessed next := .inr (.inr hpc')
    rw [Ledger.record, onWay_working hrelay.host (.inr (.inr hpc')), if_pos hun, hevents]
    simp only [hstart, Bool.false_eq_true, if_false]
    exact hgiven

/-- A step that puts nothing on record. -/
theorem Delivery.of_quiet {s : Ledger Sample Event Transport State} (h : Delivery plugin s)
    {next : System Sample Event Transport State} (hrelay : Relay next)
    (hroom : next.shared.events.length ≤ runtimeMaxEvents) (hfits : Fits plugin next)
    (hway : onWay plugin next = onWay plugin s.system)
    (hgate : atGate plugin next = atGate plugin s.system) :
    Delivery plugin { s with system := next } := by
  refine ⟨hrelay, hroom, hfits, ?_, ?_, ?_⟩
  · rw [hway]
    exact h.given
  · rw [hgate]
    exact h.kept
  · rw [hgate]
    exact h.length

theorem Delivery.step {s s' : Ledger Sample Event Transport State} (h : Delivery plugin s)
    (hstep : (logged plugin).step s l = some s') (hzero : MissesNoZero s.system l)
    (hevents : ∀ block, l = .call block → (passable plugin block).length ≤ runtimeMaxEvents) :
    Delivery plugin s' := by
  obtain ⟨next, hnext, rfl⟩ := Option.map_eq_some_iff.1 hstep
  have hnext := step_cases hnext
  have hrelay := h.relay.step hnext hzero
  have hhost := h.relay.host
  have hfits := h.fits
  have hgiven := h.given
  have hkept := h.kept
  have hlength := h.length
  have hroom := h.room
  cases hnext with
  | callSilent | callError | call => exact h.call hstep (hevents _ rfl)
  | skip hpc hun =>
    simp only [onWay, atGate, hpc] at hgiven hkept hlength
    simp only [Ledger.record, hpc]
    refine ⟨hrelay, hroom, trivial, hgiven, ?_, ?_⟩
    · simp only [List.append_eq_nil_iff]
      rintro ⟨hlost, hnone⟩
      rw [hkept hlost, hnone]
      rfl
    · simp only [List.length_append, atGate, Host.return, List.length_nil]
      omega
  | pass hpc hun =>
    simp only [onWay, atGate, hpc] at hgiven hkept hlength
    simp only [Fits, hpc] at hfits
    have hdone : Done s.system := by
      simpa [HostSees, Done, Working] using hrelay.host
    simp only [Ledger.record, hpc]
    refine ⟨hrelay, hroom, hfits, ?_, ?_, ?_⟩
    · rw [if_neg hdone.processed, List.append_nil] at hgiven
      rw [hgiven]
      rfl
    · intro hlost
      rw [hkept hlost]
      simp [atGate]
    · simp only [List.length_append, atGate, List.length_nil]
      omega
  | @write block hpc =>
    simp only [Fits, hpc] at hfits
    refine h.of_quiet hrelay ?_ trivial ?_ ?_
    · simp only [writeBlock, List.length_take]
      omega
    · simp only [onWay, hpc, writeBlock]
      exact List.take_of_length_le hfits
    · simp only [atGate, hpc]
  | issue hpc hrequest =>
    have hseen : s.system.helper.seen = s.system.shared.request := by
      simp only [HostSees, hpc] at hhost
      exact hhost.1
    refine h.of_quiet hrelay hroom trivial ?_ ?_
    · -- the new number is one that the helper has not seen
      have hfresh := h.relay.fresh
      simp only [onWay, hpc]
      rw [if_pos]
      left
      rw [hrequest, hseen]
      exact hfresh
    · simp only [atGate, hpc]
  | signalHelper hpc | answered hpc =>
    refine h.of_quiet hrelay hroom trivial ?_ ?_
    · simp only [onWay, hpc]
      rfl
    · simp only [atGate, hpc]
  | missed hpc | timeout hpc =>
    refine h.of_quiet hrelay hroom trivial ?_ ?_
    · simp only [onWay, hpc, Host.miss, Host.return]
      rfl
    · simp only [atGate, hpc, Host.miss, Host.return]
  | copy hpc =>
    refine h.of_quiet hrelay hroom trivial ?_ ?_
    · simp only [onWay, hpc, Host.return]
      rfl
    · simp only [atGate, hpc, Host.return]
  | editor => exact h.of_quiet hrelay hroom hfits rfl rfl
  | helperWake hpc | ignore hpc | respond hpc | signalHost hpc =>
    exact h.of_quiet hrelay hroom hfits (onWay_congr rfl rfl (by simp [Unprocessed, hpc])) rfl
  | read hpc hnew =>
    refine h.of_quiet hrelay hroom hfits (onWay_congr rfl rfl ?_) rfl
    exact iff_of_true (.inr (.inl rfl)) (.inl hnew)
  | process | stop => exact h.process hstep

/-! ### Whole runs -/

/-- The step drops no event: a call that returns early, or before it is answered, has none. -/
def DropsNone (plugin : PluginModel Sample Event Transport State)
    (s : System Sample Event Transport State) (l : Label Sample Event Transport) : Prop :=
  match l with
  | .call block => Dropped s.host block → passable plugin block = []
  | .skip => ∀ block, s.host.pc = .gate block → passable plugin block = []
  | _ => True

theorem lost_step {s s' : Ledger Sample Event Transport State}
    (hstep : (logged plugin).step s l = some s') :
    s'.lost = [] ↔ s.lost = [] ∧ DropsNone plugin s.system l := by
  obtain ⟨next, hnext, rfl⟩ := Option.map_eq_some_iff.1 hstep
  cases l with
  | call block => by_cases hdropped : Dropped s.system.host block <;>
      simp [Ledger.record, DropsNone, hdropped]
  | skip | pass =>
    obtain ⟨block, hpc⟩ : ∃ block, s.system.host.pc = .gate block := by
      cases step_cases hnext
      exact ⟨_, ‹_›⟩
    simp [Ledger.record, DropsNone, hpc]
  | _ => simp [Ledger.record, DropsNone]

section Run

variable {sequence : ℕ} {transport : Transport} {state : State}
  {ls : List (Label Sample Event Transport)} {s : Ledger Sample Event Transport State}

theorem delivery_of_run
    (hrun : (logged plugin).run (.launched plugin sequence transport state) ls = some s)
    (hlaunch : (sequence + 1) % 2 ^ 32 ≠ 0)
    (hevents : ∀ block, .call block ∈ ls → (passable plugin block).length ≤ runtimeMaxEvents)
    (hzero : ∀ before l t, before ++ [l] <+: ls →
      (logged plugin).run (.launched plugin sequence transport state) before = some t →
        MissesNoZero t.system l) : Delivery plugin s := by
  revert hevents hzero
  refine TransitionSystem.invariant (I := fun ls s =>
    (∀ block, .call block ∈ ls → (passable plugin block).length ≤ runtimeMaxEvents) →
    (∀ before l t, before ++ [l] <+: ls →
      (logged plugin).run (.launched plugin sequence transport state) before = some t →
        MissesNoZero t.system l) → Delivery plugin s) ?_ ?_ hrun
  · intro _ _
    have hrelay : Relay (init plugin sequence transport state) :=
      ⟨hlaunch, by simp [Working, init], fun _ => rfl, .inl ⟨rfl, by simp [Working, init]⟩⟩
    exact ⟨hrelay, Nat.zero_le _, trivial, rfl, fun _ => rfl, rfl⟩
  · intro ls t l t' hrun ih hstep hevents hzero
    refine (ih (fun block hmem => hevents block (List.mem_append_left _ hmem)) ?_).step hstep ?_ ?_
    · exact fun before l t hpre => hzero before l t (hpre.trans (List.prefix_append _ _))
    · exact hzero ls l t (List.prefix_refl _) hrun
    · rintro block rfl
      exact hevents block (List.mem_append_right _ (List.mem_singleton_self _))

theorem system_of_run (s₀ : Ledger Sample Event Transport State)
    (hrun : (logged plugin).run s₀ ls = some s) :
    (protocol plugin).run s₀.system ls = some s.system := by
  refine TransitionSystem.invariant
    (I := fun ls s => (protocol plugin).run s₀.system ls = some s.system) rfl ?_ hrun
  intro ls s l s' _ ih hstep
  obtain ⟨next, hnext, rfl⟩ := Option.map_eq_some_iff.1 hstep
  refine TransitionSystem.run_concat_eq_some.2 ⟨s.system, ih, hnext.trans ?_⟩
  cases l with
  | skip | pass => cases hpc : s.system.host.pc <;> simp only [Ledger.record, hpc]
  | _ => rfl

/-- Numbers that do not wrap do not come to 0. -/
theorem missesNoZero_of_run
    (hrun : (logged plugin).run (.launched plugin sequence transport state) ls = some s)
    (hwrap : sequence + issues ls < 2 ^ 32) (l : Label Sample Event Transport) :
    MissesNoZero s.system l := by
  have hexchange := (exchange_of_run (system_of_run _ hrun) hwrap).1
  intro block hpc
  have hknows := hexchange.host
  simp only [HostKnows, hpc] at hknows
  exact absurd rfl hknows.2.2

/-- **No event is lost on the way.**  Once every request is answered and the host is between two
calls, the plug-in has been given, in order, what was handed in, exactly when no call with events
was dropped: one during an editor transition, after the helper was declared dead, with a block too
long, or before the last request was answered. -/
theorem given_eq_handed_iff
    (hrun : (logged plugin).run (.launched plugin sequence transport state) ls = some s)
    (hlaunch : (sequence + 1) % 2 ^ 32 ≠ 0)
    (hevents : ∀ block, .call block ∈ ls → (passable plugin block).length ≤ runtimeMaxEvents)
    (hzero : ∀ before l t, before ++ [l] <+: ls →
      (logged plugin).run (.launched plugin sequence transport state) before = some t →
        MissesNoZero t.system l)
    (hidle : s.system.host.pc = .idle)
    (hanswered : s.system.shared.response = s.system.shared.request) :
    s.given = s.handed ↔
      ∀ before l t, before ++ [l] <+: ls →
        (logged plugin).run (.launched plugin sequence transport state) before = some t →
          DropsNone plugin t.system l := by
  have hdelivery := delivery_of_run hrun hlaunch hevents hzero
  have hlost := TransitionSystem.holds_iff_all_steps (fun s => s.lost = [])
    (fun s l => DropsNone plugin s.system l) rfl (fun _ _ _ => lost_step) hrun
  have hgiven := hdelivery.given
  have hkept := hdelivery.kept
  have hlength := hdelivery.length
  have hdone := hdelivery.relay.done hanswered
  simp only [onWay, atGate, hidle, hdone.processed, if_false, List.append_nil,
    List.length_nil] at hgiven hkept hlength
  rw [← hlost]
  constructor
  · intro heq
    rw [← heq, hgiven] at hlength
    exact List.eq_nil_of_length_eq_zero (by omega)
  · exact fun hnone => hgiven.trans (hkept hnone).symm

end Run

/-! ### A call and its event -/

/-- A block of one frame, with one event. -/
def oneEvent : ProcessBlock ℕ Unit Unit := { oneFrame 0 with inEvents := [()] }

/-- In a call that is answered in time. -/
theorem given_eq_handed_iff_prompt : ∃ s,
    (logged passThrough).run (.launched passThrough 0 () ()) (promptCall oneEvent ++ [.copy]) =
        some s ∧ s.given = s.handed ∧
      ∀ before l t, before ++ [l] <+: promptCall oneEvent ++ [.copy] →
        (logged passThrough).run (.launched passThrough 0 () ()) before = some t →
          DropsNone passThrough t.system l := by
  refine ⟨_, rfl, rfl, (@given_eq_handed_iff _ _ _ _ passThrough 0 () ()
    (promptCall oneEvent ++ [.copy]) _ rfl (by decide) ?_ ?_ rfl rfl).1 rfl⟩
  · intro block hmem
    simp only [promptCall, List.cons_append, List.nil_append, List.mem_cons, Label.call.injEq,
      reduceCtorEq, List.not_mem_nil, or_false] at hmem
    subst hmem
    decide
  · intro before l t hpre hrun
    have hissues : issues before ≤ issues (promptCall oneEvent ++ [.copy]) :=
      ((List.prefix_append before [l]).trans hpre).sublist.countP_le
    refine missesNoZero_of_run hrun (Nat.lt_of_le_of_lt (Nat.add_le_add_left hissues 0) ?_) l
    decide

/-- While the editor is being opened, the event of a call is gone. -/
theorem not_given_eq_handed_editor :
    ¬∀ (ls : List (Label ℕ Unit Unit)) (s : Ledger ℕ Unit Unit Unit),
      (logged passThrough).run (.launched passThrough 0 () ()) ls = some s →
      (∀ block, .call block ∈ ls → (passable passThrough block).length ≤ runtimeMaxEvents) →
      s.system.host.dead = false → s.system.host.pc = .idle →
      s.system.shared.response = s.system.shared.request → s.given = s.handed := by
  intro h
  have hlost := h [.editor true, .call oneEvent, .editor false] _ rfl ?_ rfl rfl rfl
  · exact absurd hlost (by decide)
  · intro block hmem
    simp only [List.mem_cons, Label.call.injEq, reduceCtorEq, List.not_mem_nil, or_false,
      false_or] at hmem
    subst hmem
    decide

end OneBeat.Sandbox
