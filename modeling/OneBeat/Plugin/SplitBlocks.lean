import Mathlib.Data.List.Flatten
import OneBeat.Plugin.EffectPlugin

/-!
# Blocks that are split at their events

The loop of `SamplerPlugin::process` and of `EffectPlugin::process` renders up to the next event
and applies it.

* `steps_cut` : frame by frame, the loop goes through the block with every event before its frame.
* `process_steps` : so do both plug-ins.
-/

namespace OneBeat

open SamplerPlugin

variable {F : Type}

/-- What happens to a block, frame by frame. -/
inductive BlockStep
  | frame (index : ℕ)
  | event (event : PluginEvent)
  deriving DecidableEq

/-- The steps of one round of the loop. -/
def momentSteps : Moment F → List BlockStep
  | .start _ => []
  | .render startFrame numFrames => (List.range' startFrame numFrames).map .frame
  | .apply event => [.event event]

def steps (moments : List (Moment F)) : List BlockStep := moments.flatMap momentSteps

/-- The events of a frame, in order, and the frame. -/
def frameSteps (events : List PluginEvent) (index : ℕ) : List BlockStep :=
  (events.filter fun event => event.time = index).map .event ++ [.frame index]

/-- Every frame once and in order, and before it the events at its time. -/
def timeline (events : List PluginEvent) (first frames : ℕ) : List BlockStep :=
  (List.range' first frames).flatMap (frameSteps events)

variable {events : List PluginEvent} {frames consumed next : ℕ}

/-- Frames without events. -/
theorem timeline_eq_frames (hlater : ∀ event ∈ events, consumed + frames ≤ event.time) :
    timeline events consumed frames = (List.range' consumed frames).map .frame := by
  rw [timeline, List.map_eq_flatMap]
  refine List.flatMap_congr fun index hindex => ?_
  rw [frameSteps, List.filter_eq_nil_iff.2, List.map_nil, List.nil_append]
  intro event hevent htime
  have := hlater event hevent
  have := (List.mem_range'_1.1 hindex).2
  have := of_decide_eq_true htime
  omega

theorem timeline_add (events : List PluginEvent) (first a b : ℕ) :
    timeline events first (a + b) = timeline events first a ++ timeline events (first + a) b := by
  rw [timeline, timeline, timeline, ← List.flatMap_append, List.range'_append_1]

/-- What is due first is what is at the first frame. -/
theorem takeWhile_due (hnext : next < frames) (hsorted : events.Pairwise (·.time ≤ ·.time))
    (hlater : ∀ event ∈ events, next ≤ event.time)
    (hinside : ∀ event ∈ events, event.time < frames) :
    events.takeWhile (due frames next) = events.filter fun event => event.time = next := by
  induction events with
  | nil => rfl
  | cons event events ih =>
    rw [List.pairwise_cons] at hsorted
    rw [List.forall_mem_cons] at hlater hinside
    by_cases htime : event.time = next
    · have hdue : due frames next event = true := by simp [due, htime, hnext]
      rw [List.takeWhile_cons_of_pos hdue, List.filter_cons_of_pos (by simpa using htime),
        ih hsorted.2 hlater.2 hinside.2]
    · have hdue : ¬due frames next event = true := by
        have := hlater.1
        simp only [due, Bool.and_eq_true, decide_eq_true_eq]
        omega
      rw [List.takeWhile_cons_of_neg hdue, List.filter_cons_of_neg (by simpa using htime),
        List.filter_eq_nil_iff.2]
      intro other hother hsame
      have := hsorted.1 other hother
      have := hlater.1
      have := of_decide_eq_true hsame
      omega

/-- What is left when that is applied is later. -/
theorem lt_of_mem_dropWhile_due (hsorted : events.Pairwise (·.time ≤ ·.time))
    (hinside : ∀ event ∈ events, event.time < frames) {event : PluginEvent}
    (hevent : event ∈ events.dropWhile (due frames next)) : next < event.time := by
  induction events with
  | nil => cases hevent
  | cons first events ih =>
    rw [List.pairwise_cons] at hsorted
    rw [List.forall_mem_cons] at hinside
    by_cases hdue : due frames next first = true
    · rw [List.dropWhile_cons_of_pos hdue] at hevent
      exact ih hsorted.2 hinside.2 hevent
    · rw [List.dropWhile_cons_of_neg hdue] at hevent
      have hfirst : next < first.time := by
        simp only [due, Bool.and_eq_true, decide_eq_true_eq] at hdue
        have := hinside.1
        omega
      rcases List.mem_cons.1 hevent with rfl | hevent
      · exact hfirst
      · exact hfirst.trans_le (hsorted.1 event hevent)

/-- The timeline from a frame on: what is due there comes first. -/
theorem timeline_due (hnext : next < frames) (hsorted : events.Pairwise (·.time ≤ ·.time))
    (hlater : ∀ event ∈ events, next ≤ event.time)
    (hinside : ∀ event ∈ events, event.time < frames) :
    timeline events next (frames - next) =
      (events.takeWhile (due frames next)).map .event ++
        timeline (events.dropWhile (due frames next)) next (frames - next) := by
  have htake := takeWhile_due hnext hsorted hlater hinside
  have hdrop (index : ℕ) (hindex : next < index) :
      frameSteps (events.dropWhile (due frames next)) index = frameSteps events index := by
    have hsplit := congrArg (List.filter fun event => event.time = index)
      (List.takeWhile_append_dropWhile (p := due frames next) (l := events))
    rw [List.filter_append, htake, List.filter_filter, List.filter_eq_nil_iff.2,
      List.nil_append] at hsplit
    · rw [frameSteps, frameSteps, hsplit]
    · intro event _ htime
      rw [Bool.and_eq_true, decide_eq_true_eq, decide_eq_true_eq] at htime
      omega
  have hfirst : frameSteps (events.dropWhile (due frames next)) next = [.frame next] := by
    rw [frameSteps, List.filter_eq_nil_iff.2, List.map_nil, List.nil_append]
    intro event hevent htime
    have := lt_of_mem_dropWhile_due hsorted hinside hevent
    have := of_decide_eq_true htime
    omega
  obtain ⟨count, hcount⟩ : ∃ count, frames - next = count + 1 := ⟨frames - next - 1, by omega⟩
  rw [hcount, timeline, timeline, List.range'_succ, List.flatMap_cons, List.flatMap_cons, hfirst,
    frameSteps, ← htake, List.append_assoc]
  refine congrArg _ (congrArg _ (List.flatMap_congr fun index hindex => ?_))
  exact (hdrop index (List.mem_range'_1.1 hindex).1).symm

theorem steps_append (before after : List (Moment F)) :
    steps (before ++ after) = steps before ++ steps after := List.flatMap_append

/-- The loop renders up to the next event. -/
theorem nextCut_le (hsorted : events.Pairwise (·.time ≤ ·.time))
    (hlater : ∀ event ∈ events, consumed ≤ event.time)
    (hinside : ∀ event ∈ events, event.time < frames) {event : PluginEvent}
    (hevent : event ∈ events) : nextCut frames consumed events ≤ event.time := by
  cases events with
  | nil => cases hevent
  | cons first events =>
    rw [nextCut_cons, if_pos (hinside first List.mem_cons_self),
      max_eq_left (hlater first List.mem_cons_self)]
    rcases List.mem_cons.1 hevent with rfl | hevent
    · exact le_rfl
    · exact (List.pairwise_cons.1 hsorted).1 event hevent

/-- **The loop goes through the block** with every event before the frame at its time. -/
theorem steps_cut (hsorted : events.Pairwise (·.time ≤ ·.time))
    (hlater : ∀ event ∈ events, consumed ≤ event.time)
    (hinside : ∀ event ∈ events, event.time < frames) :
    steps (cut F frames consumed events) = timeline events consumed (frames - consumed) := by
  induction consumed, events using cut.induct F frames with
  | case1 consumed events hlt next _ ih =>
    have hle : consumed ≤ next := le_nextCut hlt events
    have hnextle : next ≤ frames := by
      cases events with
      | nil => exact le_rfl
      | cons event events =>
        have : next = _ := nextCut_cons frames consumed event events
        rw [this]
        split_ifs
        · exact max_le (by omega) hlt.le
        · exact le_rfl
    -- no event is before the cut
    have hcut : ∀ event ∈ events, next ≤ event.time := fun event hevent =>
      nextCut_le hsorted hlater hinside hevent
    have hfree : ∀ event ∈ events, consumed + (next - consumed) ≤ event.time := fun event hevent =>
      (Nat.add_sub_of_le hle).trans_le (hcut event hevent)
    have hrendered : steps (if consumed < next then
        [Moment.render (F := F) consumed (next - consumed)] else []) =
        timeline events consumed (next - consumed) := by
      rw [timeline_eq_frames hfree]
      split_ifs with hadvance
      · exact List.append_nil _
      · rw [Nat.sub_eq_zero_of_le (not_lt.1 hadvance)]
        rfl
    have happlied : steps ((events.takeWhile (due frames next)).map (Moment.apply (F := F))) =
        (events.takeWhile (due frames next)).map .event := by
      rw [steps, List.flatMap_map, List.map_eq_flatMap]
      rfl
    have hrest : steps (cut F frames next (events.dropWhile (due frames next))) =
        timeline (events.dropWhile (due frames next)) next (frames - next) :=
      ih (hsorted.sublist (List.dropWhile_sublist _))
        (fun event hevent => hcut event ((List.dropWhile_sublist _).subset hevent))
        (fun event hevent => hinside event ((List.dropWhile_sublist _).subset hevent))
    have hsum : frames - consumed = next - consumed + (frames - next) := by omega
    have hat : consumed + (next - consumed) = next := by omega
    rw [cut, dif_pos hlt]
    dsimp only
    rw [steps_append, steps_append, hrendered, happlied, hrest, hsum, timeline_add, hat,
      List.append_assoc]
    refine congrArg _ ?_
    rcases hnextle.lt_or_eq with hnext | hend
    · exact (timeline_due hnext hsorted hcut hinside).symm
    · -- at the end of the block there is nothing left to apply
      have hnone : events = [] := by
        cases events with
        | nil => rfl
        | cons event events =>
          exact absurd (hinside event List.mem_cons_self)
            (not_lt.2 (hend ▸ hcut event List.mem_cons_self))
      rw [hnone, hend, Nat.sub_self]
      rfl
  | case2 consumed events hnot =>
    rw [cut, dif_neg hnot, Nat.sub_eq_zero_of_le (not_lt.1 hnot)]
    rfl

variable {D V S : Type} [FloatOps F] [DoubleOps D] [Narrow F D] [Narrow F Double]
  [DoubleOrder V] [DoubleSum V] [Narrow V Double]

/-- **Both plug-ins go through a block frame by frame**, and apply every event once, after the
frames before its time and before the frame at its time, those at one time in order. -/
theorem process_steps (block : ProcessBlock F) (output : AudioBuffer F)
    (houtput : block.output = some output) (hsorted : block.events.Pairwise (·.time ≤ ·.time))
    (hinside : ∀ event ∈ block.events, event.time < block.frames) :
    ∃ moments : List (Moment F),
      (∀ p : SamplerPlugin F D, (p.process block).2 = SamplerPlugin.run (p, some output) moments) ∧
      (∀ (processAudio : Builtin.EffectPlugin.Dsp V S F) (p : Builtin.EffectPlugin V S),
        (p.process processAudio block).2 =
          moments.foldl (Builtin.EffectPlugin.moment processAudio) (p, some output)) ∧
      steps moments = timeline block.events 0 block.frames := by
  have hmoments : block.moments = .start output :: cut F block.frames 0 block.events := by
    rw [ProcessBlock.moments, houtput]
  refine ⟨cut F block.frames 0 block.events, fun p => ?_, fun processAudio p => ?_, ?_⟩
  · rw [SamplerPlugin.process, hmoments]
    rfl
  · rw [Builtin.EffectPlugin.process, hmoments]
    rfl
  · exact steps_cut hsorted (fun event _ => Nat.zero_le _) hinside

/-- Four frames, an event at the first, two at the third and one at the last. -/
def fourFrames : ProcessBlock IeeeFloat where
  frames := 4
  output := some ⟨2, fun _ _ => (0 : IeeeFloat)⟩
  events := [.paramValue 0 1 0, .noteOn 2 60 1, .noteOff 2 60, .noteOn 3 62 1]

theorem process_steps_fourFrames : ∃ moments : List (Moment IeeeFloat),
    (∀ p : SamplerPlugin IeeeFloat IeeeDouble, (p.process fourFrames).2 =
      SamplerPlugin.run (p, some ⟨2, fun _ _ => (0 : IeeeFloat)⟩) moments) ∧
    (∀ (processAudio : Builtin.EffectPlugin.Dsp Double Unit IeeeFloat)
      (p : Builtin.EffectPlugin Double Unit), (p.process processAudio fourFrames).2 =
        moments.foldl (Builtin.EffectPlugin.moment processAudio)
          (p, some ⟨2, fun _ _ => (0 : IeeeFloat)⟩)) ∧
    steps moments = [.event (.paramValue 0 1 0), .frame 0, .frame 1, .event (.noteOn 2 60 1),
      .event (.noteOff 2 60), .frame 2, .event (.noteOn 3 62 1), .frame 3] :=
  process_steps fourFrames _ rfl (by decide) (by decide)

end OneBeat
