import OneBeat.Plugin.Sandbox

/-!
# The blocks of the sandbox protocol

The host writes the shared block only when the helper is done with the last one, and what it copies
is the answer to what it wrote.

* `Exchange` : how `inFlight`, the shared words and what the helper has seen are related;
* `exchange_of_run` : it holds after every run in which the sequence numbers do not wrap;
* `Answered` : the moment of the run at which the helper processed the block of this call;
* `sandbox_blocks` : **blocks are exclusive, and never mixed up.**
-/

namespace OneBeat.Sandbox

variable {Sample Event Transport State : Type}
  {plugin : PluginModel Sample Event Transport State}
  {s s' s₀ : System Sample Event Transport State} {l : Label Sample Event Transport}
  {ls : List (Label Sample Event Transport)}

/-! ### Exclusion -/

/-- The helper is between reading a request and storing its response. -/
def Busy (s : System Sample Event Transport State) : Prop :=
  s.helper.pc = .processing ∨ s.helper.pc = .responding

/-- Nothing is outstanding. -/
def Settled (s : System Sample Event Transport State) : Prop :=
  s.host.inFlight = 0 ∧ s.helper.seen = s.shared.request ∧ ¬Busy s

/-- The request of the call is the one in the shared memory. -/
def Asked (s : System Sample Event Transport State) (request : ℕ) : Prop :=
  s.host.inFlight = 0 ∧ s.shared.request = request ∧ request ≠ 0

/-- What the host knows about the helper. -/
def HostKnows (s : System Sample Event Transport State) : Prop :=
  match s.host.pc with
  | .idle | .gate _ =>
    Settled s ∨ s.host.inFlight = s.shared.request ∧ s.shared.request ≠ 0
  | .writing _ | .issuing _ => Settled s
  | .signalling _ request | .waiting _ request => Asked s request
  | .copying _ request => Asked s request ∧ s.shared.response = request

structure Exchange (s : System Sample Event Transport State) : Prop where
  request_le : s.shared.request ≤ s.host.sequence
  response_le : s.shared.response ≤ s.host.sequence
  seen_le : s.helper.seen ≤ s.host.sequence
  /-- Before the first request there is nothing to see. -/
  unasked : s.shared.request = 0 → s.helper.seen = 0
  /-- An answered request has been seen, and the helper is done with it. -/
  done : s.shared.request ≠ 0 → s.shared.response = s.shared.request →
    s.helper.seen = s.shared.request ∧ ¬Busy s
  /-- A busy helper works on the last request. -/
  busy : Busy s → s.helper.seen = s.shared.request ∧ s.shared.request ≠ 0
  host : HostKnows s

/-- A step of the helper that takes up no request. -/
theorem HostKnows.of_helper (h : HostKnows s) (hhost : s'.host = s.host)
    (hrequest : s'.shared.request = s.shared.request)
    (hresponse : s'.shared.response = s.shared.response)
    (hseen : s'.helper.seen = s.helper.seen) (hbusy : Busy s' → Busy s) : HostKnows s' := by
  unfold HostKnows at h ⊢
  rw [hhost]
  cases hpc : s.host.pc <;> simp only [hpc, Settled, Asked, hhost, hrequest, hresponse, hseen] at h ⊢
  case idle => exact h.imp (fun h => ⟨h.1, h.2.1, fun hb => h.2.2 (hbusy hb)⟩) fun h => h
  case gate => exact h.imp (fun h => ⟨h.1, h.2.1, fun hb => h.2.2 (hbusy hb)⟩) fun h => h
  case writing => exact ⟨h.1, h.2.1, fun hb => h.2.2 (hbusy hb)⟩
  case issuing => exact ⟨h.1, h.2.1, fun hb => h.2.2 (hbusy hb)⟩
  all_goals exact h

theorem Exchange.step (h : Exchange s) (hstep : Step plugin s l s')
    (hwrap : l = .issue → s.host.sequence + 1 < 2 ^ 32) : Exchange s' := by
  obtain ⟨hrequest, hresponse, hseen, hunasked, hdone, hbusy, hhost⟩ := h
  cases hstep with
  | callSilent hpc | callError hpc | skip hpc =>
    refine ⟨hrequest, hresponse, hseen, hunasked, hdone, hbusy, ?_⟩
    simpa [HostKnows, hpc, Host.return, Settled, Busy] using hhost
  | call hpc _ =>
    refine ⟨hrequest, hresponse, hseen, hunasked, hdone, hbusy, ?_⟩
    simpa [HostKnows, hpc, Settled, Busy] using hhost
  | pass hpc hun =>
    refine ⟨hrequest, hresponse, hseen, hunasked, hdone, hbusy, ?_⟩
    simp only [HostKnows, hpc] at hhost
    rcases hhost with ⟨-, hsettled⟩ | ⟨hflight, hne⟩
    · exact ⟨rfl, hsettled⟩
    · -- the last request was answered, so the helper is done with it
      have hanswered : s.shared.response = s.shared.request := by
        by_contra hnot
        simp [unanswered, hnot, hflight, hne] at hun
      exact ⟨rfl, hdone hne hanswered⟩
  | write hpc =>
    refine ⟨hrequest, hresponse, hseen, hunasked, hdone, hbusy, ?_⟩
    simpa [HostKnows, hpc, Settled, Busy, writeBlock] using hhost
  | @issue block request hpc hr =>
    have hlt := hwrap rfl
    rw [Nat.mod_eq_of_lt hlt] at hr
    subst hr
    simp only [HostKnows, hpc] at hhost
    obtain ⟨hflight, -, hidle⟩ := hhost
    refine ⟨Nat.le_refl _, Nat.le_succ_of_le hresponse, Nat.le_succ_of_le hseen, fun h => ?_,
      fun _ h => ?_, fun h => absurd h hidle, hflight, rfl, Nat.succ_ne_zero _⟩
    · exact absurd h (Nat.succ_ne_zero _)
    · have : s.shared.response = s.host.sequence + 1 := h
      omega
  | signalHelper hpc =>
    refine ⟨hrequest, hresponse, hseen, hunasked, hdone, hbusy, ?_⟩
    simpa [HostKnows, hpc, Asked] using hhost
  | answered hpc _ hanswer =>
    refine ⟨hrequest, hresponse, hseen, hunasked, hdone, hbusy, ?_⟩
    simpa [HostKnows, hpc, Asked, hanswer] using hhost
  | missed hpc | timeout hpc =>
    refine ⟨hrequest, hresponse, hseen, hunasked, hdone, hbusy, ?_⟩
    simp only [HostKnows, hpc, Asked] at hhost
    exact .inr ⟨hhost.2.1.symm, hhost.2.1 ▸ hhost.2.2⟩
  | copy hpc =>
    refine ⟨hrequest, hresponse, hseen, hunasked, hdone, hbusy, ?_⟩
    simp only [HostKnows, hpc, Asked] at hhost
    obtain ⟨⟨hflight, hasked, hne⟩, hanswer⟩ := hhost
    exact .inl ⟨hflight, hdone (hasked ▸ hne) (hanswer.trans hasked.symm)⟩
  | editor => exact ⟨hrequest, hresponse, hseen, hunasked, hdone, hbusy, hhost⟩
  | helperWake hpc | ignore hpc | stop hpc | signalHost hpc =>
    refine ⟨hrequest, hresponse, hseen, hunasked, fun hne ha => ⟨(hdone hne ha).1, by simp [Busy]⟩,
      fun hb => by simp [Busy] at hb, hhost.of_helper rfl rfl rfl rfl fun hb => by simp [Busy] at hb⟩
  | read hpc hnew =>
    have hne : s.shared.request ≠ 0 := fun h => hnew (by rw [h, hunasked h])
    have hnotyet : s.shared.response ≠ s.shared.request := fun h => hnew (hdone hne h).1.symm
    refine ⟨hrequest, hresponse, hrequest, fun h => h, fun _ h => absurd h hnotyet,
      fun _ => ⟨rfl, hne⟩, ?_⟩
    -- where nothing is outstanding there is no new request
    unfold HostKnows at hhost ⊢
    cases hpc' : s.host.pc <;> simp only [hpc', Settled] at hhost ⊢
    case idle => exact .inr (hhost.resolve_left fun h => hnew h.2.1.symm)
    case gate => exact .inr (hhost.resolve_left fun h => hnew h.2.1.symm)
    case writing => exact absurd hhost.2.1.symm hnew
    case issuing => exact absurd hhost.2.1.symm hnew
    case signalling => exact hhost
    case waiting => exact hhost
    case copying => exact hhost
  | process hpc _ =>
    have hb : Busy s := .inl hpc
    refine ⟨hrequest, hresponse, hseen, hunasked, fun hne ha => absurd hb (hdone hne ha).2,
      fun _ => hbusy hb, hhost.of_helper rfl rfl rfl rfl fun _ => hb⟩
  | respond hpc =>
    have hb : Busy s := .inr hpc
    obtain ⟨hasked, hne⟩ := hbusy hb
    refine ⟨hrequest, hseen, hseen, hunasked, fun _ _ => ⟨hasked, by simp [Busy]⟩,
      fun hb => by simp [Busy] at hb, ?_⟩
    unfold HostKnows at hhost ⊢
    cases hpc' : s.host.pc <;> simp only [hpc', Settled] at hhost ⊢
    case idle => exact .inr (hhost.resolve_left fun h => h.2.2 hb)
    case gate => exact .inr (hhost.resolve_left fun h => h.2.2 hb)
    case writing => exact absurd hb hhost.2.2
    case issuing => exact absurd hb hhost.2.2
    case signalling => exact hhost
    case waiting => exact hhost
    case copying => exact ⟨hhost.1, hasked.trans hhost.1.2.1⟩

/-- How many requests a run issues. -/
def issues (ls : List (Label Sample Event Transport)) : ℕ :=
  ls.countP fun l =>
    match l with
    | .issue => true
    | _ => false

theorem sequence_eq (hstep : Step plugin s l s') (hwrap : l = .issue → s.host.sequence + 1 < 2 ^ 32) :
    s'.host.sequence = s.host.sequence + issues [l] := by
  cases hstep with
  | issue hpc hr =>
    rw [Nat.mod_eq_of_lt (hwrap rfl)] at hr
    exact hr
  | _ => rfl

section Run

variable {sequence : ℕ} {transport : Transport} {state : State}

/-- **The parties' views agree after every run in which the sequence numbers do not wrap.** -/
theorem exchange_of_run
    (hrun : (protocol plugin).run (init plugin sequence transport state) ls = some s)
    (hwrap : sequence + issues ls < 2 ^ 32) :
    Exchange s ∧ s.host.sequence = sequence + issues ls := by
  revert hwrap
  refine TransitionSystem.invariant (I := fun ls s => sequence + issues ls < 2 ^ 32 →
    Exchange s ∧ s.host.sequence = sequence + issues ls) ?_ ?_ hrun
  · exact fun _ => ⟨⟨Nat.zero_le _, Nat.zero_le _, Nat.zero_le _, fun _ => rfl, fun h => absurd rfl h,
      fun hb => by simp [Busy, init] at hb, .inl ⟨rfl, rfl, by simp [Busy, init]⟩⟩, rfl⟩
  · intro ls s l s' _ ih h hwrap
    have hsum : issues (ls ++ [l]) = issues ls + issues [l] := List.countP_append
    obtain ⟨hexchange, hsequence⟩ := ih (by omega)
    have hstep := step_cases h
    have hnext : l = .issue → s.host.sequence + 1 < 2 ^ 32 := by
      rintro rfl
      have : issues [(.issue : Label Sample Event Transport)] = 1 := rfl
      omega
    refine ⟨hexchange.step hstep hnext, ?_⟩
    rw [sequence_eq hstep hnext, hsequence, hsum, Nat.add_assoc]

/-! ### Answers -/

/-- A block as the helper is to see it: the channels of the first port that there is room for, and
the events that can be passed on. -/
def blockFor (plugin : PluginModel Sample Event Transport State)
    (block : ProcessBlock Sample Event Transport) : HelperBlock Sample Event Transport :=
  let frames := min block.frames runtimeMaxFrames
  let inputChannels := sharedChannels (block.audioInputs.map AudioView.numChannels)
  { frames
    inputChannels
    outputChannels := sharedChannels block.audioOutputs
    audioIn :=
      match block.audioInputs with
      | view :: _ => samples inputChannels frames view.channel
      | [] => []
    events := (block.inEvents.filter fun event => !plugin.isSysex event).take runtimeMaxEvents
    transport := block.transport
    steadyTime := block.steadyTime }

theorem samples_congr {channels frames : ℕ} {a b : ℕ → ℕ → Sample}
    (h : ∀ c f, c < channels → f < frames → a c f = b c f) :
    samples channels frames a = samples channels frames b := by
  refine List.map_congr_left fun c hc => List.map_congr_left fun f hf => ?_
  exact h c f (List.mem_range.1 hc) (List.mem_range.1 hf)

/-- **What the helper sees of a written block does not depend on what was there before.** -/
theorem helperBlock_writeBlock (shared : RuntimeShared Sample Event Transport)
    (block : ProcessBlock Sample Event Transport) :
    helperBlock (writeBlock plugin shared block) = blockFor plugin block := by
  unfold helperBlock writeBlock blockFor
  cases hinputs : block.audioInputs with
  | nil => simp [sharedChannels, samples, List.take_take]
  | cons view views =>
    dsimp only
    rw [List.take_take, Nat.min_self]
    congr 1
    refine samples_congr fun c f hc hf => ?_
    rw [if_pos ⟨hc, Nat.lt_of_lt_of_le hf (Nat.min_le_left _ _)⟩]

/-- What the helper leaves in the output when it processes what is in the shared memory. -/
def helperOutput (plugin : PluginModel Sample Event Transport State)
    (s : System Sample Event Transport State) : ℕ → ℕ → Sample :=
  processed plugin s.shared
    (plugin.process (s.helper.start plugin).1 (helperBlock s.shared) s.shared.audioOut).2

/-- The block and the request of the call that the host is in, from when it issues. -/
def HostPc.inCall : HostPc Sample Event Transport →
    Option (ProcessBlock Sample Event Transport × ℕ)
  | .signalling block request | .waiting block request | .copying block request =>
    some (block, request)
  | _ => none

/-- The block of the call that the host is in, from when it has looked at it. -/
def HostPc.block : HostPc Sample Event Transport → Option (ProcessBlock Sample Event Transport)
  | .gate block | .writing block | .issuing block | .signalling block _ | .waiting block _
  | .copying block _ => some block
  | .idle => none

/-- The block that the host has written. -/
def HostPc.written : HostPc Sample Event Transport → Option (ProcessBlock Sample Event Transport)
  | .issuing block | .signalling block _ | .waiting block _ | .copying block _ => some block
  | _ => none

/-- The helper processed the block of the call, after the call had written it: at the moment `s₁` of
the run the plug-in was given just this block, and `audioOut` is what it left. -/
def Answered (plugin : PluginModel Sample Event Transport State)
    (s₀ : System Sample Event Transport State) (ls : List (Label Sample Event Transport))
    (block : ProcessBlock Sample Event Transport) (request : ℕ) (audioOut : ℕ → ℕ → Sample) :
    Prop :=
  ∃ before after s₁, ls = before ++ .process :: after ∧
    (protocol plugin).run s₀ before = some s₁ ∧ s₁.host.pc.inCall = some (block, request) ∧
    (∀ block', .call block' ∉ after) ∧ helperBlock s₁.shared = blockFor plugin block ∧
    audioOut = helperOutput plugin s₁

theorem Answered.concat {block : ProcessBlock Sample Event Transport} {request : ℕ}
    {audioOut : ℕ → ℕ → Sample} (h : Answered plugin s₀ ls block request audioOut)
    (hl : ∀ block', l ≠ .call block') : Answered plugin s₀ (ls ++ [l]) block request audioOut := by
  obtain ⟨before, after, s₁, rfl, hrun, hin, hcalls, hblock, haudio⟩ := h
  refine ⟨before, after ++ [l], s₁, ?_, hrun, hin, fun block' hmem => ?_, hblock, haudio⟩
  · rw [List.append_assoc, List.cons_append]
  · rcases List.mem_append.1 hmem with hmem | hmem
    · exact hcalls block' hmem
    · exact hl block' (List.mem_singleton.1 hmem).symm

/-- What is in the shared memory, and where it comes from. -/
structure Memory (plugin : PluginModel Sample Event Transport State)
    (s₀ : System Sample Event Transport State) (ls : List (Label Sample Event Transport))
    (s : System Sample Event Transport State) : Prop where
  frames : ∀ block, s.host.pc.block = some block → block.frames ≤ runtimeMaxFrames
  written : ∀ block, s.host.pc.written = some block →
    helperBlock s.shared = blockFor plugin block
  answered : ∀ block request, s.host.pc.inCall = some (block, request) →
    s.shared.response = request ∨ s.helper.pc = .responding →
      Answered plugin s₀ ls block request s.shared.audioOut

theorem Memory.step (h : Memory plugin s₀ ls s) (hexchange : Exchange s)
    (hrun : (protocol plugin).run s₀ ls = some s) (hstep : Step plugin s l s')
    (hwrap : l = .issue → s.host.sequence + 1 < 2 ^ 32) : Memory plugin s₀ (ls ++ [l]) s' := by
  obtain ⟨hframes, hwritten, hanswered⟩ := h
  cases hstep with
  | callSilent hpc | callError hpc | skip hpc | missed hpc | timeout hpc | copy hpc =>
    exact ⟨nofun, nofun, nofun⟩
  | call hpc hle => exact ⟨fun block hblock => Option.some.inj hblock ▸ hle, nofun, nofun⟩
  | pass hpc _ =>
    simp only [hpc] at hframes
    exact ⟨hframes, nofun, nofun⟩
  | write hpc =>
    simp only [hpc] at hframes
    refine ⟨hframes, fun block hblock => ?_, nofun⟩
    obtain rfl := Option.some.inj hblock
    exact helperBlock_writeBlock _ _
  | issue hpc hr =>
    rw [Nat.mod_eq_of_lt (hwrap rfl)] at hr
    have hsettled := hexchange.host
    simp only [HostKnows, hpc] at hframes hwritten hsettled
    refine ⟨hframes, hwritten, fun block request hin hdone => ?_⟩
    obtain ⟨rfl, rfl⟩ := Prod.mk.inj (Option.some.inj hin)
    -- nobody has answered a request that has just been made
    rcases hdone with hdone | hdone
    · have hle := hexchange.response_le
      have : s.shared.response = _ := hdone
      omega
    · exact absurd (.inr hdone) hsettled.2.2
  | signalHelper hpc | answered hpc =>
    simp only [hpc] at hframes hwritten hanswered
    exact ⟨hframes, hwritten, fun block request hin hdone =>
      (hanswered block request hin hdone).concat nofun⟩
  | editor =>
    exact ⟨hframes, hwritten, fun block request hin hdone =>
      (hanswered block request hin hdone).concat nofun⟩
  | helperWake hpc | ignore hpc | read hpc | stop hpc | signalHost hpc =>
    exact ⟨hframes, hwritten, fun block request hin hdone =>
      (hanswered block request hin (.inl (hdone.resolve_right nofun))).concat nofun⟩
  | process hpc hstart =>
    refine ⟨hframes, hwritten, fun block request hin _ => ?_⟩
    have hblock : s.host.pc.written = some block := by
      revert hin
      cases s.host.pc <;> simp [HostPc.inCall, HostPc.written] <;> exact fun h _ => h
    exact ⟨ls, [], s, rfl, hrun, hin, nofun, hwritten block hblock, rfl⟩
  | respond hpc =>
    exact ⟨hframes, hwritten, fun block request hin _ =>
      (hanswered block request hin (.inr hpc)).concat nofun⟩

theorem memory_of_run
    (hrun : (protocol plugin).run (init plugin sequence transport state) ls = some s)
    (hwrap : sequence + issues ls < 2 ^ 32) :
    Memory plugin (init plugin sequence transport state) ls s := by
  revert hwrap
  refine TransitionSystem.invariant (I := fun ls s => sequence + issues ls < 2 ^ 32 →
    Memory plugin (init plugin sequence transport state) ls s) ?_ ?_ hrun
  · exact fun _ => ⟨nofun, nofun, nofun⟩
  · intro ls s l s' hrun ih h hwrap
    have hsum : issues (ls ++ [l]) = issues ls + issues [l] := List.countP_append
    obtain ⟨hexchange, hsequence⟩ := exchange_of_run hrun (by omega)
    refine (ih (by omega)).step hexchange hrun (step_cases h) ?_
    rintro rfl
    have : issues [(.issue : Label Sample Event Transport)] = 1 := rfl
    omega

/-- A call that returns what it copied was at its copying. -/
theorem copied_of_step {audio : List (List Sample)} (hstep : Step plugin s l s')
    (hcall : s.host.pc ≠ .idle) (hidle : s'.host.pc = .idle)
    (hcopied : s'.host.returned = some (.copied audio)) :
    ∃ block request, s.host.pc = .copying block request ∧
      audio = samples s.shared.outputChannels block.frames s.shared.audioOut := by
  cases hstep with
  | copy hpc =>
    obtain rfl := Outcome.copied.inj (Option.some.inj hcopied)
    exact ⟨_, _, hpc, rfl⟩
  | callSilent hpc | callError hpc => exact absurd hpc hcall
  | skip _ _ => cases hcopied
  | missed _ _ _ => cases hcopied
  | timeout _ => cases hcopied
  | call _ _ => cases hidle
  | pass _ _ => cases hidle
  | write _ => cases hidle
  | issue _ _ => cases hidle
  | signalHelper _ => cases hidle
  | answered _ _ _ => cases hidle
  | _ => exact absurd hidle hcall

/-- **Blocks are exclusive and never mixed up**: the host writes only when the helper is done, and
what a call returns with `Continue` is the output of the helper for the block that this call
wrote. -/
theorem sandbox_blocks
    (hrun : (protocol plugin).run (init plugin sequence transport state) ls = some s)
    (hwrap : sequence + issues ls < 2 ^ 32) :
    (∀ block, s.host.pc = .writing block → ¬Busy s) ∧
      ∀ l s' audio, (protocol plugin).step s l = some s' → s.host.pc ≠ .idle →
        s'.host.pc = .idle → s'.host.returned = some (.copied audio) →
          ∃ block request audioOut, s.host.pc = .copying block request ∧
            Answered plugin (init plugin sequence transport state) ls block request audioOut ∧
            audio = samples (blockFor plugin block).outputChannels block.frames audioOut := by
  obtain ⟨hexchange, -⟩ := exchange_of_run hrun hwrap
  have hmemory := memory_of_run hrun hwrap
  refine ⟨fun block hpc => ?_, fun l s' audio h hcall hidle hcopied => ?_⟩
  · have hhost := hexchange.host
    simp only [HostKnows, hpc] at hhost
    exact hhost.2.2
  · obtain ⟨block, request, hpc, haudio⟩ := copied_of_step (step_cases h) hcall hidle hcopied
    have hhost := hexchange.host
    simp only [HostKnows, hpc] at hhost
    have hanswered := hmemory.answered block request (by rw [hpc]; rfl) (.inl hhost.2)
    have hwritten := hmemory.written block (by rw [hpc]; rfl)
    have hchannels : s.shared.outputChannels = (blockFor plugin block).outputChannels :=
      congrArg HelperBlock.outputChannels hwritten
    exact ⟨block, request, _, hpc, hanswered, hchannels ▸ haudio⟩

end Run

theorem sandbox_blocks_promptCall :
    ∃ s s', (protocol passThrough).run (init passThrough 0 () ()) (promptCall (oneFrame 7)) = some s ∧
      (protocol passThrough).step s .copy = some s' ∧
      s'.host.returned = some (.copied [[7]]) ∧
      ∃ block request audioOut, s.host.pc = .copying block request ∧
        Answered passThrough (init passThrough 0 () ()) (promptCall (oneFrame 7)) block request
          audioOut ∧
        [[7]] = samples (blockFor passThrough block).outputChannels block.frames audioOut := by
  refine ⟨_, _, rfl, rfl, rfl, ?_⟩
  exact (@sandbox_blocks _ _ _ _ passThrough _ (promptCall (oneFrame 7)) 0 () () rfl
    (by decide)).2 .copy _ _ rfl nofun rfl rfl

end OneBeat.Sandbox
