import OneBeat.Plugin.Sandbox

/-!
# The tokens of the sandbox protocol

A helper that answers after the host stopped waiting leaves a token, and nobody takes it away: the
next wait succeeds at once, with the answer to an older request.

* `LockStep` : where the tokens are while no wait has timed out;
* `no_stale_token` : **no token is left over as long as no call goes ahead after a wait timed out**;
* `stale_token` : a run in which one is.
-/

namespace OneBeat.Sandbox

variable {Sample Event Transport State : Type}
  {plugin : PluginModel Sample Event Transport State}
  {s s' : System Sample Event Transport State} {l : Label Sample Event Transport}
  {ls : List (Label Sample Event Transport)}

/-- No token is anywhere, and the helper waits. -/
def Quiet (s : System Sample Event Transport State) : Prop :=
  s.toHelper = 0 ∧ s.toHost = 0 ∧ s.helper.pc = .waiting

/-- The parties take turns: there is one token at most, and it goes round. -/
def LockStep (s : System Sample Event Transport State) : Prop :=
  match s.host.pc with
  | .signalling _ request => s.shared.request = request ∧ Quiet s
  | .waiting _ request =>
    s.shared.request = request ∧
      match s.helper.pc with
      | .waiting => s.toHelper + s.toHost ≤ 1 ∧ (0 < s.toHost → s.shared.response = request)
      | .reading => s.toHelper = 0 ∧ s.toHost = 0
      | .processing | .responding => s.helper.seen = request ∧ s.toHelper = 0 ∧ s.toHost = 0
      | .signalling => s.shared.response = request ∧ s.toHelper = 0 ∧ s.toHost = 0
      | .stopped => s.toHost = 0
  | _ => Quiet s

/-- A step that is not a timeout keeps the turns. -/
theorem LockStep.step (h : LockStep s) (hstep : Step plugin s l s') (hl : l ≠ .timeout) :
    LockStep s' := by
  cases hstep with
  | callSilent hpc | callError hpc | skip hpc | copy hpc =>
    simpa [LockStep, hpc, Host.return, Quiet] using h
  | call hpc | pass hpc | write hpc | issue hpc => simpa [LockStep, hpc, Quiet] using h
  | signalHelper hpc =>
    simp only [LockStep, hpc, Quiet] at h
    obtain ⟨hrequest, hhelper, hhost, hwaiting⟩ := h
    simp [LockStep, hwaiting, hrequest, hhelper, hhost]
  | answered hpc htoken _ =>
    -- a token for the host is there only when the helper is back at its wait
    simp only [LockStep, hpc] at h
    cases hhelper : s.helper.pc <;> simp only [hhelper] at h
    case waiting =>
      simp only [LockStep, Quiet]
      refine ⟨by omega, by omega, hhelper⟩
    all_goals omega
  | missed hpc htoken hresponse =>
    simp only [LockStep, hpc] at h
    cases hhelper : s.helper.pc <;> simp only [hhelper] at h
    case waiting => exact absurd (h.2.2 htoken) hresponse
    all_goals omega
  | timeout _ => exact absurd rfl hl
  | editor => exact h
  | helperWake hpc htoken =>
    unfold LockStep at h ⊢
    cases hhost : s.host.pc <;> simp only [hhost, hpc, Quiet] at h ⊢
    case waiting => omega
    all_goals omega
  | ignore hpc | read hpc | process hpc | respond hpc =>
    unfold LockStep at h ⊢
    cases hhost : s.host.pc <;> simp only [hhost, hpc, Quiet, reduceCtorEq, and_false] at h ⊢
    case waiting => first | exact h | omega
  | stop hpc =>
    unfold LockStep at h ⊢
    cases hhost : s.host.pc <;> simp only [hhost, hpc, Quiet, reduceCtorEq, and_false] at h ⊢
    case waiting => exact ⟨h.1, h.2.2.2⟩
  | signalHost hpc =>
    unfold LockStep at h ⊢
    cases hhost : s.host.pc <;> simp only [hhost, hpc, Quiet, reduceCtorEq, and_false] at h ⊢
    case waiting => exact ⟨h.1, by omega, fun _ => h.2.1⟩

/-- No call of `process` goes ahead after a wait of an earlier one timed out. -/
def Timely (ls : List (Label Sample Event Transport)) : Prop :=
  ∀ before after, ls = before ++ .pass :: after → .timeout ∉ before

theorem Timely.of_concat (h : Timely (ls ++ [l])) : Timely ls := fun before after hls =>
  h before (after ++ [l]) (by rw [hls, List.append_assoc, List.cons_append])

/-- The host does not go ahead any more. -/
def Held (s : System Sample Event Transport State) : Prop :=
  match s.host.pc with
  | .idle | .gate _ => True
  | _ => False

theorem Held.step (h : Held s) (hstep : Step plugin s l s') (hl : l ≠ .pass) : Held s' := by
  unfold Held at h ⊢
  cases hstep with
  | pass _ _ => exact absurd rfl hl
  | _ => simp_all [Host.return]

theorem held_of_timeout (hstep : Step plugin s .timeout s') : Held s' := by
  cases hstep
  trivial

/-- Either no wait has timed out, and the parties take turns, or the host does not go ahead. -/
theorem lockStep_or_held {sequence : ℕ} {transport : Transport} {state : State}
    (hrun : (protocol plugin).run (init plugin sequence transport state) ls = some s)
    (htimely : Timely ls) : (.timeout ∉ ls ∧ LockStep s) ∨ (.timeout ∈ ls ∧ Held s) := by
  revert htimely
  refine TransitionSystem.invariant (I := fun ls s => Timely ls →
    (.timeout ∉ ls ∧ LockStep s) ∨ (.timeout ∈ ls ∧ Held s)) ?_ ?_ hrun
  · exact fun _ => .inl ⟨List.not_mem_nil, rfl, rfl, rfl⟩
  · intro ls s l s' _ ih h htimely
    have hstep := step_cases h
    have hmem : .timeout ∈ ls ++ [l] ↔ .timeout ∈ ls ∨ .timeout = l := by
      rw [List.mem_append, List.mem_singleton]
    rw [hmem]
    rcases ih htimely.of_concat with ⟨hnone, hlock⟩ | ⟨hsome, hheld⟩
    · by_cases hl : l = .timeout
      · subst hl
        exact .inr ⟨.inr rfl, held_of_timeout hstep⟩
      · exact .inl ⟨by rintro (h | rfl) <;> contradiction, hlock.step hstep hl⟩
    · have hl : l ≠ .pass := by
        rintro rfl
        exact htimely ls [] rfl hsome
      exact .inr ⟨.inl hsome, hheld.step hstep hl⟩

/-- **When a request is issued no token is left over, and a wait that succeeds finds the answer.** -/
theorem no_stale_token {sequence : ℕ} {transport : Transport} {state : State}
    (hrun : (protocol plugin).run (init plugin sequence transport state) ls = some s)
    (htimely : Timely ls) :
    (∀ block, s.host.pc = .issuing block → s.toHost = 0) ∧
      ∀ block request, s.host.pc = .waiting block request → 0 < s.toHost →
        s.shared.response = request := by
  rcases lockStep_or_held hrun htimely with ⟨-, hlock⟩ | ⟨-, hheld⟩
  · refine ⟨fun block hpc => ?_, fun block request hpc htoken => ?_⟩
    · simp only [LockStep, hpc] at hlock
      exact hlock.2.1
    · simp only [LockStep, hpc] at hlock
      cases hhelper : s.helper.pc <;> simp only [hhelper] at hlock
      case waiting => exact hlock.2.2 htoken
      all_goals omega
  · refine ⟨fun block hpc => ?_, fun block request hpc => ?_⟩
    · simp [Held, hpc] at hheld
    · simp [Held, hpc] at hheld

/-! ### A late answer -/

/-- A call whose answer comes after its wait has timed out. -/
def lateCall (block : ProcessBlock ℕ Unit Unit) : List (Label ℕ Unit Unit) :=
  [.call block, .pass, .write, .issue, .signalHelper, .timeout, .helperWake, .read, .process,
    .respond, .signalHost]

theorem no_stale_token_promptCall :
    ∃ s, (protocol passThrough).run (init passThrough 0 () ())
        (promptCall (oneFrame 7) ++ [.copy, .call (oneFrame 8), .pass, .write]) = some s ∧
      s.host.pc = .issuing (oneFrame 8) ∧ s.toHost = 0 := by
  refine ⟨_, rfl, rfl, ?_⟩
  refine (@no_stale_token _ _ _ _ passThrough _
    (promptCall (oneFrame 7) ++ [.copy, .call (oneFrame 8), .pass, .write]) 0 () () rfl ?_).1
    (oneFrame 8) rfl
  intro before after hls hmem
  have : Label.timeout ∈ promptCall (oneFrame 7) ++ [.copy, .call (oneFrame 8), .pass, .write] :=
    hls ▸ List.mem_append_left _ hmem
  simp [promptCall] at this

/-- **A token is left over, and the next wait takes it for the answer.** -/
theorem stale_token :
    ∃ s s', (protocol passThrough).run (init passThrough 0 () ())
        (lateCall (oneFrame 7) ++ [.call (oneFrame 8), .pass, .write]) = some s ∧
      s.host.pc = .issuing (oneFrame 8) ∧ s.toHost = 1 ∧
      (protocol passThrough).run s [.issue, .signalHelper] = some s' ∧
      s'.host.pc = .waiting (oneFrame 8) 2 ∧ 0 < s'.toHost ∧ s'.shared.response = 1 :=
  ⟨_, _, rfl, rfl, rfl, rfl, rfl, Nat.one_pos, rfl⟩

end OneBeat.Sandbox
