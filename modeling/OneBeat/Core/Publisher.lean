import Mathlib.Logic.Function.Basic
import OneBeat.Lib.TransitionSystem

/-!
# Publishing objects to the audio thread

`core/rt/publisher.h`, and what `core/engine.cpp` does around it: the audio thread reads an object
it never writes, any number of publishers replace it, and the housekeeping thread frees what has
been replaced.

Every atomic access is a step of its own, so the steps interleave as they may.  Objects are counted
in the order in which they are published.  The counters are natural numbers: none of them comes
round within 2^64 steps.
-/

namespace OneBeat.Publisher

/-! ### The parties -/

/-- Where the audio thread is in `process`. -/
inductive AudioPc
  | idle
  /-- The render counter is odd, the epoch has not ticked. -/
  | entered
  /-- In the block, with the objects that `acquire` returned. -/
  | rendering (held : List ℕ)

/-- The objects that a block in flight holds. -/
def AudioPc.held : AudioPc → List ℕ
  | .rendering held => held
  | _ => []

/-- Where a publisher is in `publish`. -/
inductive PublisherPc
  | idle
  /-- The pointer is exchanged, the epoch not read. -/
  | exchanged (previous : ℕ)
  /-- About to push. -/
  | pushing (previous retireEpoch : ℕ)

structure Retired where
  object : ℕ
  epoch : ℕ
  deriving DecidableEq

/-- Where the housekeeping thread is in its loop. -/
inductive HousekeeperPc
  | waiting
  /-- The render counter is read, the device's flag not. -/
  | sampled (renderSeq : ℕ)
  /-- In `collect`, the epoch not read. -/
  | collecting (rtRunning : Bool)
  | sweeping (rtRunning : Bool) (epoch : ℕ)

structure Housekeeper where
  pc : HousekeeperPc := .waiting
  lastRenderSeq : ℕ := 0

/-- The parties and what they share; `published` and `freed` only keep the books. -/
structure System (P : Type) where
  current : Option ℕ := none
  rtEpoch : ℕ := 0
  retired : List Retired := []
  renderSeq : ℕ := 0
  running : Bool := false
  audio : AudioPc := .idle
  publishers : P → PublisherPc := fun _ => .idle
  housekeeper : Housekeeper := {}
  published : ℕ := 0
  freed : List ℕ := []

/-- The steps: of the audio thread, of a publisher, of the housekeeping thread, of the device. -/
inductive Label (P : Type)
  | enter
  | beginBlock
  /-- The block goes ahead without a tick: the channel of the object was not active. -/
  | skipBlock
  | acquire
  | leave
  /-- With or without an object. -/
  | exchange (p : P) (null : Bool)
  | readEpoch (p : P)
  | push (p : P)
  | sampleSeq
  | sampleFlag
  | loadEpoch
  | sweep
  | setRunning (running : Bool)

variable {P : Type} [DecidableEq P]

/-! ### The steps -/

/-- The block goes ahead. -/
def System.begun (s : System P) : System P := { s with audio := .rendering [] }

def stepAudio (s : System P) : Label P → Option (System P)
  | .enter =>
    match s.audio with
    | .idle => some { s with audio := .entered, renderSeq := s.renderSeq + 1 }
    | _ => none
  | .beginBlock =>
    match s.audio with
    | .entered => some { s.begun with rtEpoch := s.rtEpoch + 1 }
    | _ => none
  | .skipBlock =>
    match s.audio with
    | .entered => some s.begun
    | _ => none
  | .acquire =>
    match s.audio with
    | .rendering held => some { s with audio := .rendering (s.current.toList ++ held) }
    | _ => none
  | .leave =>
    match s.audio with
    | .rendering _ => some { s with audio := .idle, renderSeq := s.renderSeq + 1 }
    | _ => none
  | _ => none

/-- The publisher `p` is at `pc`. -/
def System.setPublisher (s : System P) (p : P) (pc : PublisherPc) : System P :=
  { s with publishers := Function.update s.publishers p pc }

def stepPublisher (s : System P) : Label P → Option (System P)
  | .exchange p null =>
    match s.publishers p with
    | .idle =>
      let next := if null then none else some s.published
      let pc := match s.current with
        | none => .idle
        | some previous => .exchanged previous
      some { s.setPublisher p pc with current := next, published := s.published + 1 }
    | _ => none
  | .readEpoch p =>
    match s.publishers p with
    | .exchanged previous => some (s.setPublisher p (.pushing previous s.rtEpoch))
    | _ => none
  | .push p =>
    match s.publishers p with
    | .pushing object epoch =>
      some { s.setPublisher p .idle with retired := s.retired ++ [{ object, epoch }] }
    | _ => none
  | _ => none

/-- What `collect` frees. -/
def dooms (rtRunning : Bool) (epoch : ℕ) (it : Retired) : Bool :=
  !rtRunning || it.epoch + 2 ≤ epoch

def stepHousekeeper (s : System P) : Label P → Option (System P)
  | .sampleSeq =>
    match s.housekeeper.pc with
    | .waiting =>
      some { s with housekeeper := { s.housekeeper with pc := .sampled s.renderSeq } }
    | _ => none
  | .sampleFlag =>
    match s.housekeeper.pc with
    | .sampled renderSeq =>
      let quiet := !s.running && renderSeq = s.housekeeper.lastRenderSeq && renderSeq % 2 = 0
      some { s with housekeeper := { pc := .collecting !quiet, lastRenderSeq := renderSeq } }
    | _ => none
  | .loadEpoch =>
    match s.housekeeper.pc with
    | .collecting rtRunning =>
      some { s with
        housekeeper := { s.housekeeper with pc := .sweeping rtRunning s.rtEpoch } }
    | _ => none
  | .sweep =>
    match s.housekeeper.pc with
    | .sweeping rtRunning epoch =>
      -- what leaves the list dies on the way out
      let doomed := s.retired.filter (dooms rtRunning epoch)
      some { s with
        housekeeper := { s.housekeeper with pc := .waiting }
        retired := s.retired.filter fun it => !dooms rtRunning epoch it
        freed := s.freed ++ doomed.map Retired.object }
    | _ => none
  | _ => none

def stepDevice (s : System P) : Label P → Option (System P)
  | .setRunning running => some { s with running }
  | _ => none

/-- The system of all parties. -/
def system : TransitionSystem (System P) (Label P) where
  step s l := (stepAudio s l).or ((stepPublisher s l).or ((stepHousekeeper s l).or (stepDevice s l)))

/-- Before anything is published: the device is stopped. -/
def init : System P := {}

/-! ### What a step can do -/

/-- The steps of the parties, one for each branch. -/
inductive Step : System P → Label P → System P → Prop
  | enter {s} (hpc : s.audio = .idle) :
    Step s .enter { s with audio := .entered, renderSeq := s.renderSeq + 1 }
  | beginBlock {s} (hpc : s.audio = .entered) :
    Step s .beginBlock { s.begun with rtEpoch := s.rtEpoch + 1 }
  | skipBlock {s} (hpc : s.audio = .entered) : Step s .skipBlock s.begun
  | acquire {s held} (hpc : s.audio = .rendering held) :
    Step s .acquire { s with audio := .rendering (s.current.toList ++ held) }
  | leave {s held} (hpc : s.audio = .rendering held) :
    Step s .leave { s with audio := .idle, renderSeq := s.renderSeq + 1 }
  | exchangeFirst {s p next} (hpc : s.publishers p = .idle) (hcurrent : s.current = none)
    (hnext : ∀ x ∈ next, x = s.published) null :
    Step s (.exchange p null)
      { s.setPublisher p .idle with current := next, published := s.published + 1 }
  | exchange {s p next previous} (hpc : s.publishers p = .idle)
    (hcurrent : s.current = some previous) (hnext : ∀ x ∈ next, x = s.published) null :
    Step s (.exchange p null)
      { s.setPublisher p (.exchanged previous) with
        current := next, published := s.published + 1 }
  | readEpoch {s p previous} (hpc : s.publishers p = .exchanged previous) :
    Step s (.readEpoch p) (s.setPublisher p (.pushing previous s.rtEpoch))
  | push {s p object epoch} (hpc : s.publishers p = .pushing object epoch) :
    Step s (.push p)
      { s.setPublisher p .idle with retired := s.retired ++ [{ object, epoch }] }
  | sampleSeq {s} (hpc : s.housekeeper.pc = .waiting) :
    Step s .sampleSeq
      { s with housekeeper := { s.housekeeper with pc := .sampled s.renderSeq } }
  | sampleFlag {s renderSeq} (hpc : s.housekeeper.pc = .sampled renderSeq) rtRunning :
    Step s .sampleFlag
      { s with housekeeper := { pc := .collecting rtRunning, lastRenderSeq := renderSeq } }
  | loadEpoch {s rtRunning} (hpc : s.housekeeper.pc = .collecting rtRunning) :
    Step s .loadEpoch
      { s with housekeeper := { s.housekeeper with pc := .sweeping rtRunning s.rtEpoch } }
  | sweep {s rtRunning epoch} (hpc : s.housekeeper.pc = .sweeping rtRunning epoch) :
    Step s .sweep
      { s with
        housekeeper := { s.housekeeper with pc := .waiting }
        retired := s.retired.filter fun it => !dooms rtRunning epoch it
        freed := s.freed ++ (s.retired.filter (dooms rtRunning epoch)).map Retired.object }
  | setRunning {s} running : Step s (.setRunning running) { s with running }

variable {s s' : System P} {l : Label P}

theorem step_audio (h : stepAudio s l = some s') : Step s l s' := by
  cases l <;> simp only [stepAudio, reduceCtorEq] at h
  all_goals
    split at h <;> simp only [Option.some.injEq, reduceCtorEq] at h
    subst h
  · exact .enter ‹_›
  · exact .beginBlock ‹_›
  · exact .skipBlock ‹_›
  · exact .acquire ‹_›
  · exact .leave ‹_›

theorem step_publisher (h : stepPublisher s l = some s') : Step s l s' := by
  cases l <;> simp only [stepPublisher, reduceCtorEq] at h
  case exchange p null =>
    split at h <;> simp only [Option.some.injEq, reduceCtorEq] at h
    subst h
    have hnext : ∀ x ∈ if null = true then none else some s.published, x = s.published := by
      intro x hx
      split at hx <;> simp_all
    cases hcurrent : s.current with
    | none => exact .exchangeFirst ‹_› hcurrent hnext null
    | some previous => exact .exchange ‹_› hcurrent hnext null
  all_goals
    split at h <;> simp only [Option.some.injEq, reduceCtorEq] at h
    subst h
  · exact .readEpoch ‹_›
  · exact .push ‹_›

theorem step_housekeeper (h : stepHousekeeper s l = some s') : Step s l s' := by
  cases l <;> simp only [stepHousekeeper, reduceCtorEq] at h
  all_goals
    split at h <;> simp only [Option.some.injEq, reduceCtorEq] at h
    subst h
  · exact .sampleSeq ‹_›
  · exact .sampleFlag ‹_› _
  · exact .loadEpoch ‹_›
  · exact .sweep ‹_›

theorem step_device (h : stepDevice s l = some s') : Step s l s' := by
  cases l <;> simp only [stepDevice, Option.some.injEq, reduceCtorEq] at h
  subst h
  exact .setRunning _

theorem step_cases (h : system.step s l = some s') : Step s l s' := by
  simp only [system, Option.or_eq_some_iff] at h
  rcases h with h | ⟨_, h | ⟨_, h | ⟨_, h⟩⟩⟩
  · exact step_audio h
  · exact step_publisher h
  · exact step_housekeeper h
  · exact step_device h

end OneBeat.Publisher
