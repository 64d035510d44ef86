import OneBeat.Core.Publisher

/-!
# Reclamation

When is what `collect` frees still held by a block in flight?

* `Accounted` : where a superseded object is, and with which epoch, while a block holds it;
* `Overtaken` : a pass that found the engine quiet is about to sweep, and in the meantime a block
  has taken up an object that has been published over and retired;
* `safe_iff_not_overtaken` : **no held object is freed as long as no such pass sweeps**, and the
  rule of the epochs never frees one;
* `not_safe_quietPass` : a run in which one does, with the device stopped;
* `freed_once` : no object is freed twice, and none that was current is lost.
-/

namespace OneBeat.Publisher

variable {P : Type} [DecidableEq P] {s s' : System P} {l : Label P} {ls : List (Label P)}

/-- Not freed while a block in flight holds it. -/
def Safe (s : System P) : Prop := ∀ x ∈ s.audio.held, x ∉ s.freed

/-- A quiet pass is about to sweep a list with an object that a block in flight holds. -/
def Overtaken (s : System P) : Prop :=
  (∃ epoch, s.housekeeper.pc = .sweeping false epoch) ∧ ∃ it ∈ s.retired, it.object ∈ s.audio.held

/-! ### The invariant -/

/-- `x` has been published and is not what `acquire` returns any more. -/
def Superseded (s : System P) (x : ℕ) : Prop := x < s.published ∧ s.current ≠ some x

/-- The books agree: an object is superseded before a publisher carries it, and it is retired with
the epoch of the last block that may hold it. -/
structure Accounted (s : System P) : Prop where
  current : ∀ x, s.current = some x → x < s.published
  held : ∀ x ∈ s.audio.held, x < s.published
  exchanged : ∀ p x, s.publishers p = .exchanged x → Superseded s x
  pushing : ∀ p x epoch, s.publishers p = .pushing x epoch →
    Superseded s x ∧ epoch ≤ s.rtEpoch ∧ (x ∈ s.audio.held → epoch = s.rtEpoch)
  retired : ∀ it ∈ s.retired,
    Superseded s it.object ∧ it.epoch ≤ s.rtEpoch ∧
      (it.object ∈ s.audio.held → it.epoch = s.rtEpoch)
  freed : ∀ x ∈ s.freed, Superseded s x
  sweeping : ∀ rtRunning epoch, s.housekeeper.pc = .sweeping rtRunning epoch → epoch ≤ s.rtEpoch

omit [DecidableEq P] in
theorem accounted_init : Accounted (init : System P) := by
  constructor <;> simp [init, AudioPc.held]

omit [DecidableEq P] in
/-- A step of the audio thread: what it holds it held before, in the same block, or has just taken
up. -/
theorem Accounted.audio (h : Accounted s) {audio : AudioPc} {rtEpoch renderSeq : ℕ}
    (hepoch : s.rtEpoch ≤ rtEpoch)
    (hheld : ∀ x ∈ audio.held, s.current = some x ∨ x ∈ s.audio.held ∧ rtEpoch = s.rtEpoch) :
    Accounted { s with audio, rtEpoch, renderSeq } := by
  -- a superseded object is not the one just taken up
  have hold : ∀ x epoch, Superseded s x → (x ∈ s.audio.held → epoch = s.rtEpoch) →
      x ∈ audio.held → epoch = rtEpoch := by
    intro x epoch hx heq hmem
    rcases hheld x hmem with hcurrent | ⟨hmem', hrt⟩
    · exact absurd hcurrent hx.2
    · rw [heq hmem', hrt]
  refine { h with held := ?_, pushing := ?_, retired := ?_, sweeping := ?_ }
  · intro x hx
    rcases hheld x hx with hcurrent | ⟨hmem, _⟩
    · exact h.current x hcurrent
    · exact h.held x hmem
  · intro p x epoch hpc
    obtain ⟨hx, hle, heq⟩ := h.pushing p x epoch hpc
    exact ⟨hx, Nat.le_trans hle hepoch, hold x epoch hx heq⟩
  · intro it hit
    obtain ⟨hx, hle, heq⟩ := h.retired it hit
    exact ⟨hx, Nat.le_trans hle hepoch, hold it.object it.epoch hx heq⟩
  · intro rtRunning epoch hpc
    exact Nat.le_trans (h.sweeping rtRunning epoch hpc) hepoch

/-- A publisher moves on: what it carries then is accounted for. -/
theorem Accounted.setPublisher (h : Accounted s) {p : P} {pc : PublisherPc}
    (hexchanged : ∀ x, pc = .exchanged x → Superseded s x)
    (hpushing : ∀ x epoch, pc = .pushing x epoch →
      Superseded s x ∧ epoch ≤ s.rtEpoch ∧ (x ∈ s.audio.held → epoch = s.rtEpoch)) :
    Accounted (s.setPublisher p pc) := by
  refine { h with exchanged := ?_, pushing := ?_ }
  · intro p' x hpc
    by_cases hp : p' = p
    · subst hp
      exact hexchanged x (by simpa [System.setPublisher] using hpc)
    · exact h.exchanged p' x (by simpa [System.setPublisher, hp] using hpc)
  · intro p' x epoch hpc
    by_cases hp : p' = p
    · subst hp
      exact hpushing x epoch (by simpa [System.setPublisher] using hpc)
    · exact h.pushing p' x epoch (by simpa [System.setPublisher, hp] using hpc)

omit [DecidableEq P] in
/-- Something is published: what was superseded still is, and so is what was current. -/
theorem Accounted.publish (h : Accounted s) {next : Option ℕ}
    (hnext : ∀ x ∈ next, x = s.published) :
    Accounted { s with current := next, published := s.published + 1 } ∧
      ∀ x < s.published,
        Superseded { s with current := next, published := s.published + 1 } x := by
  have hlt : ∀ x, x < s.published →
      Superseded { s with current := next, published := s.published + 1 } x := by
    intro x hx
    refine ⟨Nat.lt_succ_of_lt hx, ?_⟩
    intro hcurrent
    have := hnext x hcurrent
    omega
  refine ⟨{ h with current := ?_, held := ?_, exchanged := ?_, pushing := ?_, retired := ?_,
                   freed := ?_ }, hlt⟩
  · intro x hx
    have := hnext x hx
    exact Nat.lt_succ_of_le (Nat.le_of_eq this)
  · intro x hx
    exact Nat.lt_succ_of_lt (h.held x hx)
  · intro p x hpc
    exact hlt x (h.exchanged p x hpc).1
  · intro p x epoch hpc
    obtain ⟨hx, hepoch⟩ := h.pushing p x epoch hpc
    exact ⟨hlt x hx.1, hepoch⟩
  · intro it hit
    obtain ⟨hx, hepoch⟩ := h.retired it hit
    exact ⟨hlt it.object hx.1, hepoch⟩
  · intro x hx
    exact hlt x (h.freed x hx).1

theorem Accounted.step (h : Accounted s) (hstep : Step s l s') : Accounted s' := by
  cases hstep with
  | enter hpc | skipBlock hpc | leave hpc => exact h.audio (Nat.le_refl _) (by simp [AudioPc.held])
  | beginBlock hpc => exact h.audio (Nat.le_succ _) (by simp [AudioPc.held, System.begun])
  | acquire hpc =>
    refine h.audio (Nat.le_refl _) ?_
    intro x hx
    rw [hpc]
    simpa [AudioPc.held] using hx
  | exchangeFirst hpc hcurrent hnext =>
    exact (h.publish hnext).1.setPublisher (by simp) (by simp)
  | exchange hpc hcurrent hnext =>
    refine (h.publish hnext).1.setPublisher ?_ (by simp)
    rintro x ⟨⟩
    exact (h.publish hnext).2 _ (h.current _ hcurrent)
  | readEpoch hpc =>
    refine h.setPublisher (by simp) ?_
    rintro x epoch ⟨⟩
    exact ⟨h.exchanged _ _ hpc, Nat.le_refl _, fun _ => rfl⟩
  | @push p _ _ hpc =>
    have hidle : Accounted (s.setPublisher p .idle) := h.setPublisher (by simp) (by simp)
    refine { hidle with retired := ?_ }
    intro it hit
    rcases List.mem_append.1 hit with hit | hit
    · exact h.retired it hit
    · obtain rfl := List.mem_singleton.1 hit
      exact h.pushing _ _ _ hpc
  | sampleSeq hpc | sampleFlag hpc => exact { h with sweeping := by simp }
  | loadEpoch hpc =>
    refine { h with sweeping := ?_ }
    rintro rtRunning epoch ⟨⟩
    exact Nat.le_refl _
  | sweep hpc =>
    refine { h with retired := ?_, freed := ?_, sweeping := by simp }
    · intro it hit
      exact h.retired it (List.mem_filter.1 hit).1
    · intro x hx
      rcases List.mem_append.1 hx with hx | hx
      · exact h.freed x hx
      · obtain ⟨it, hit, rfl⟩ := List.mem_map.1 hx
        exact (h.retired it (List.mem_filter.1 hit).1).1
  | setRunning => exact { h with }

theorem accounted_run (hrun : system.run (init : System P) ls = some s) : Accounted s :=
  TransitionSystem.invariant (I := fun _ s => Accounted s) accounted_init
    (fun _ _ _ _ _ h hs => h.step (step_cases hs)) hrun

/-! ### Safety -/

omit [DecidableEq P] in
/-- What the rule of the epochs frees no block holds. -/
theorem Accounted.not_held_of_epoch (h : Accounted s) {epoch : ℕ} (hepoch : epoch ≤ s.rtEpoch)
    {it : Retired} (hit : it ∈ s.retired) (hdoomed : dooms true epoch it = true) :
    it.object ∉ s.audio.held := by
  intro hheld
  have heq := (h.retired it hit).2.2 hheld
  have hle : it.epoch + 2 ≤ epoch := by simpa [dooms] using hdoomed
  omega

omit [DecidableEq P] in
/-- A sweep frees what a block holds exactly when its pass is overtaken. -/
theorem Safe.sweep_iff (h : Safe s) (hacc : Accounted s) {rtRunning : Bool} {epoch : ℕ}
    (hpc : s.housekeeper.pc = .sweeping rtRunning epoch) :
    (∀ x ∈ s.audio.held,
      x ∉ s.freed ++ (s.retired.filter (dooms rtRunning epoch)).map Retired.object) ↔
      ¬ Overtaken s := by
  constructor
  · rintro hsafe ⟨⟨epoch', hpc'⟩, it, hit, hheld⟩
    obtain ⟨rfl, rfl⟩ := HousekeeperPc.sweeping.inj (hpc.symm.trans hpc')
    refine hsafe it.object hheld (List.mem_append_right _ (List.mem_map_of_mem ?_))
    exact List.mem_filter.2 ⟨hit, rfl⟩
  · intro hover x hx hmem
    rcases List.mem_append.1 hmem with hmem | hmem
    · exact h x hx hmem
    · obtain ⟨it, hit, rfl⟩ := List.mem_map.1 hmem
      have hretired := List.mem_filter.1 hit
      cases rtRunning with
      | true => exact hacc.not_held_of_epoch (hacc.sweeping _ _ hpc) hretired.1 hretired.2 hx
      | false => exact hover ⟨⟨epoch, hpc⟩, it, hretired.1, hx⟩

/-- A step keeps what is held from being freed, exactly when it is not the sweep of an overtaken
pass. -/
theorem Safe.step_iff (h : Safe s) (hacc : Accounted s) (hstep : Step s l s') :
    Safe s' ↔ (l = .sweep → ¬ Overtaken s) := by
  cases hstep with
  | sweep hpc =>
    exact (h.sweep_iff hacc hpc).trans ⟨fun hover _ => hover, fun hover => hover rfl⟩
  | acquire hpc =>
    refine iff_of_true ?_ (by simp)
    intro x hx
    rcases List.mem_append.1 hx with hx | hx
    · -- what is current has not been retired yet
      intro hfreed
      exact (hacc.freed x hfreed).2 (Option.mem_toList.1 hx)
    · exact h x (by rw [hpc]; exact hx)
  | enter | beginBlock | skipBlock | leave =>
    exact iff_of_true (fun x hx => absurd hx List.not_mem_nil) (by simp)
  | exchangeFirst | exchange | readEpoch | push | sampleSeq | sampleFlag | loadEpoch | setRunning =>
    exact iff_of_true h (by simp)

/-- **No object is freed while a block in flight holds it, in any state of a run, exactly when no
quiet pass sweeps after a block has taken up an object that has been retired since.** -/
theorem safe_iff_not_overtaken (hrun : system.run (init : System P) ls = some s) :
    (∀ before s', before <+: ls → system.run (init : System P) before = some s' → Safe s') ↔
      ∀ before s', before ++ [.sweep] <+: ls → system.run (init : System P) before = some s' →
        ¬ Overtaken s' := by
  have hiff := TransitionSystem.always_iff Safe (fun s l => l = .sweep → ¬ Overtaken s)
    (by simp [Safe, init, AudioPc.held])
    (fun ls s l s' hrun h hs => h.step_iff (accounted_run hrun) (step_cases hs)) hrun
  rw [hiff]
  constructor
  · intro h before s' hpre hbefore
    exact h before .sweep s' hpre hbefore rfl
  · rintro h before _ s' hpre hbefore rfl
    exact h before s' hpre hbefore

/-! ### Freed once, and none lost -/

/-- The object that a publisher has taken out and not pushed. -/
def PublisherPc.carried : PublisherPc → Option ℕ
  | .idle => none
  | .exchanged previous => some previous
  | .pushing previous _ => some previous

def System.carried (s : System P) : P → Option ℕ := PublisherPc.carried ∘ s.publishers

/-- What has been pushed to the retired, freed or not. -/
def System.pushed (s : System P) : List ℕ := s.freed ++ s.retired.map Retired.object

/-- Nothing is pushed twice, and only one publisher carries what is going to be. -/
structure Counted (s : System P) : Prop where
  pushed : s.pushed.Nodup
  carried : ∀ p x, s.carried p = some x → x ∉ s.pushed ∧ ∀ q, s.carried q = some x → q = p

/-- Where an object is once it has been published. -/
def System.Keeps (s : System P) (x : ℕ) : Prop :=
  s.current = some x ∨ (∃ p, s.carried p = some x) ∨ x ∈ s.pushed

/-- The objects stay where they are, or one is taken out, or one is pushed. -/
theorem Step.places (hstep : Step s l s') :
    (s'.current = s.current ∧ s'.carried = s.carried ∧ s'.pushed.Perm s.pushed) ∨
    (∃ p, s.carried p = none ∧ s'.carried = Function.update s.carried p s.current ∧
      s'.pushed = s.pushed) ∨
    ∃ p x, s.carried p = some x ∧ s'.current = s.current ∧
      s'.carried = Function.update s.carried p none ∧ s'.pushed.Perm (x :: s.pushed) := by
  have hmoves : ∀ {p pc}, s.publishers p = pc → s.carried p = pc.carried :=
    congrArg PublisherPc.carried
  cases hstep with
  | exchangeFirst hpc hcurrent | exchange hpc hcurrent =>
    refine .inr (.inl ⟨_, hmoves hpc, ?_, rfl⟩)
    rw [hcurrent]
    exact Function.comp_update ..
  | readEpoch hpc =>
    refine .inl ⟨rfl, (Function.comp_update ..).trans ?_, .rfl⟩
    exact Function.update_eq_self_iff.2 (hmoves hpc).symm
  | @push p object epoch hpc =>
    refine .inr (.inr ⟨p, object, hmoves hpc, rfl, Function.comp_update .., ?_⟩)
    rw [System.pushed, List.map_append, ← List.append_assoc]
    exact List.perm_append_singleton object s.pushed
  | sweep =>
    refine .inl ⟨rfl, rfl, ?_⟩
    rw [System.pushed, List.append_assoc, ← List.map_append]
    exact ((List.filter_append_perm _ _).map _).append_left _
  | _ => exact .inl ⟨rfl, rfl, .rfl⟩

omit [DecidableEq P] in
/-- What is current nobody carries, and it is not pushed. -/
theorem Accounted.apart (h : Accounted s) {x : ℕ} (hcurrent : s.current = some x) :
    x ∉ s.pushed ∧ ∀ p, s.carried p ≠ some x := by
  constructor
  · intro hx
    rcases List.mem_append.1 hx with hx | hx
    · exact (h.freed x hx).2 hcurrent
    · obtain ⟨it, hit, rfl⟩ := List.mem_map.1 hx
      exact (h.retired it hit).1.2 hcurrent
  · intro p hp
    cases hpc : s.publishers p <;>
      simp [System.carried, hpc, PublisherPc.carried] at hp <;> subst hp
    · exact (h.exchanged p _ hpc).2 hcurrent
    · exact (h.pushing p _ _ hpc).1.2 hcurrent

theorem Counted.step (h : Counted s) (hacc : Accounted s) (hstep : Step s l s') : Counted s' := by
  rcases hstep.places with ⟨-, hcarried, hperm⟩ | ⟨p, -, hcarried, hpushed⟩ |
    ⟨p, x, hx, -, hcarried, hperm⟩
  · refine ⟨hperm.nodup_iff.2 h.pushed, fun p x hx => ?_⟩
    rw [hcarried] at hx ⊢
    exact (h.carried p x hx).imp_left (mt hperm.mem_iff.1)
  · refine ⟨hpushed ▸ h.pushed, fun q x hx => ?_⟩
    simp only [hcarried, Function.update_apply, hpushed] at hx ⊢
    split_ifs at hx with hq
    · obtain ⟨hnew, hno⟩ := hacc.apart hx
      refine ⟨hnew, fun r hr => ?_⟩
      split_ifs at hr with hrp
      · exact hrp.trans hq.symm
      · exact absurd hr (hno r)
    · obtain ⟨hnew, honly⟩ := h.carried q x hx
      refine ⟨hnew, fun r hr => ?_⟩
      split_ifs at hr
      · exact absurd hx ((hacc.apart hr).2 q)
      · exact honly r hr
  · obtain ⟨hnew, honly⟩ := h.carried p x hx
    refine ⟨hperm.nodup_iff.2 (List.nodup_cons.2 ⟨hnew, h.pushed⟩), fun q y hy => ?_⟩
    simp only [hcarried, Function.update_apply, hperm.mem_iff] at hy ⊢
    split_ifs at hy with hq
    obtain ⟨hnew', honly'⟩ := h.carried q y hy
    refine ⟨fun hmem => ?_, fun r hr => ?_⟩
    · rcases List.mem_cons.1 hmem with rfl | hmem
      · exact hq (honly q hy)
      · exact hnew' hmem
    · split_ifs at hr
      exact honly' r hr

theorem System.Keeps.step {x : ℕ} (h : s.Keeps x) (hstep : Step s l s') : s'.Keeps x := by
  rcases hstep.places with ⟨hcurrent, hcarried, hperm⟩ | ⟨p, hnone, hcarried, hpushed⟩ |
    ⟨p, y, hy, hcurrent, hcarried, hperm⟩
  · rw [Keeps, hcurrent, hcarried, hperm.mem_iff]
    exact h
  · rcases h with h | ⟨q, hq⟩ | h
    · exact .inr (.inl ⟨p, by rw [hcarried, Function.update_self, h]⟩)
    · have hne : q ≠ p := by
        rintro rfl
        cases hnone.symm.trans hq
      exact .inr (.inl ⟨q, by rw [hcarried, Function.update_of_ne hne, hq]⟩)
    · exact .inr (.inr (hpushed ▸ h))
  · rw [Keeps, hcurrent, hperm.mem_iff]
    rcases h with h | ⟨q, hq⟩ | h
    · exact .inl h
    · by_cases hqp : q = p
      · subst hqp
        obtain rfl := Option.some.inj (hq.symm.trans hy)
        exact .inr (.inr List.mem_cons_self)
      · exact .inr (.inl ⟨q, by rw [hcarried, Function.update_of_ne hqp, hq]⟩)
    · exact .inr (.inr (List.mem_cons_of_mem _ h))

/-- **Every object is freed once at most, and none is lost**: what is freed is nowhere else, and what
was ever current still is, is carried, or has been pushed to be freed. -/
theorem freed_once (hrun : system.run (init : System P) ls = some s) :
    s.freed.Nodup ∧
      (∀ x ∈ s.freed, s.current ≠ some x ∧ x ∉ s.retired.map Retired.object ∧
        ∀ p, s.carried p ≠ some x) ∧
      ∀ before t x, before <+: ls → system.run (init : System P) before = some t →
        t.current = some x → s.Keeps x := by
  have hcounted : Counted s := TransitionSystem.invariant (I := fun _ s => Counted s)
    ⟨by simp [System.pushed, init], by simp [System.carried, init, PublisherPc.carried]⟩
    (fun _ _ _ _ hrun h hs => h.step (accounted_run hrun) (step_cases hs)) hrun
  obtain ⟨hfreed, -, hapart⟩ := List.nodup_append.1 hcounted.pushed
  refine ⟨hfreed, fun x hx => ⟨((accounted_run hrun).freed x hx).2, ?_, ?_⟩, ?_⟩
  · exact fun hmem => hapart x hx x hmem rfl
  · exact fun p hp => (hcounted.carried p x hp).1 (List.mem_append_left _ hx)
  · rintro before t x ⟨after, rfl⟩ hbefore hcurrent
    rw [TransitionSystem.run_append, hbefore] at hrun
    exact TransitionSystem.invariant (I := fun _ s => s.Keeps x) (.inl hcurrent)
      (fun _ _ _ _ _ h hs => h.step (step_cases hs)) hrun

/-- The device is stopped and an offline render drives the blocks.  A pass finds the engine quiet; a
block begins and takes up the object, which is then published over and retired; the pass sweeps. -/
def quietPass : List (Label Unit) :=
  [.exchange () false, .sampleSeq, .sampleFlag, .enter, .beginBlock, .acquire, .exchange () false,
    .readEpoch (), .push (), .loadEpoch, .sweep]

/-- The same, with the block over before the object is retired. -/
def quietPassAfter : List (Label Unit) :=
  [.exchange () false, .sampleSeq, .sampleFlag, .enter, .beginBlock, .acquire, .leave,
    .exchange () false, .readEpoch (), .push (), .loadEpoch, .sweep]

theorem safe_iff_not_overtaken_quietPassAfter :
    (∀ before s', before <+: quietPassAfter → system.run init before = some s' → Safe s') ↔
      ∀ before s', before ++ [.sweep] <+: quietPassAfter → system.run init before = some s' →
        ¬ Overtaken s' :=
  safe_iff_not_overtaken rfl

theorem freed_once_quietPass : ∃ s, system.run (init : System Unit) quietPass = some s ∧
    s.freed.Nodup ∧ s.Keeps 0 := by
  have h := freed_once (rfl : system.run (init : System Unit) quietPass = some _)
  exact ⟨_, rfl, h.1, h.2.2 (quietPass.take 1) _ 0 (List.take_prefix ..) rfl rfl⟩

/-- An object is freed under the block that holds it. -/
theorem not_safe_quietPass : ∃ s, system.run (init : System Unit) quietPass = some s ∧ ¬ Safe s := by
  refine ⟨_, rfl, ?_⟩
  intro hsafe
  exact hsafe 0 (by decide) (by decide)

end OneBeat.Publisher
