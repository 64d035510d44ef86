import OneBeat.Session.Published
import OneBeat.Session.WrittenValues

/-!
# Plug-ins along a session

Nothing but a publish moves a plug-in, so what is hosted after a run of calls is what its publishes
made of an empty rack, one after the other.

* `Session.replays_call` : a call hosts what its publishes say.
* `Session.follows_calls_iff` : the slots follow the instruments after every publish of a run
  exactly when each publish meets `Hosting.Hands`.
-/

namespace OneBeat

namespace Session

variable {s s' : Session} {host again : InstrumentId → HostAnswer}

/-! ### Call by call -/

/-- Nothing is asked of what is written. -/
def anything : Values where
  plugin _ _ := True
  real _ := True
  finite _ := trivial

theorem source_anything (source : ClipSource) : anything.source source := by
  cases source with
  | pattern pattern => trivial
  | audio source => exact ⟨trivial, trivial⟩
  | automation source => exact fun _ _ => trivial

theorem clip_anything (clip : Clip) : anything.clip clip := ⟨source_anything _, trivial, trivial⟩

theorem instrument_anything (id : InstrumentId) (value : Instrument) :
    anything.instrument id value := ⟨trivial, trivial, trivial, trivial, trivial⟩

theorem pattern_anything (pattern : Pattern) : anything.pattern pattern :=
  ⟨trivial, fun _ _ _ _ => trivial⟩

theorem track_anything (track : MixerTrack) : anything.track track :=
  ⟨trivial, trivial, fun _ _ _ _ _ => trivial⟩

theorem tables_anything (project : Tables) : project.Upholds anything.standard :=
  ⟨fun _ _ _ => instrument_anything _ _, fun _ _ _ => pattern_anything _,
    fun _ _ _ => clip_anything _, fun _ _ _ => track_anything _, trivial⟩

theorem value_anything (target : EditTarget) (value : target.Value) :
    anything.standard.value target value := by
  cases target with
  | instrument id => exact instrument_anything id value
  | lane id => trivial
  | clip id => exact clip_anything value
  | mixerTrack id => exact track_anything value
  | patternMeta id => trivial

theorem added_anything (entity : AddedEntity) : anything.standard.added entity := by
  cases entity with
  | instrument id entity => exact instrument_anything id entity
  | pattern id entity => exact pattern_anything entity
  | lane id entity => trivial
  | clip id entity => exact clip_anything entity
  | mixerTrack id entity => exact track_anything entity

mutual

theorem holds_anything : ∀ command : Command, command.Holds anything.standard
  | .add command => by rw [Command.Holds]; exact added_anything command
  | .removeInstrument command => by
    rw [Command.Holds]; exact ⟨instrument_anything _ _, fun _ _ => clip_anything _⟩
  | .removePattern command => by
    rw [Command.Holds]; exact ⟨pattern_anything _, fun _ _ => clip_anything _⟩
  | .removeLane command => by rw [Command.Holds]; exact fun _ _ => clip_anything _
  | .removeClip command => by rw [Command.Holds]; exact clip_anything _
  | .removeMixerTrack command => by
    rw [Command.Holds]
    exact ⟨track_anything _, fun _ _ => clip_anything _, fun _ _ => clip_anything _⟩
  | .edit command => by rw [Command.Holds]; exact ⟨value_anything _ _, value_anything _ _⟩
  | .effectParam command => by rw [Command.Holds]; exact ⟨fun _ _ => trivial, trivial⟩
  | .note command => by rw [Command.Holds]; trivial
  | .transport command => by rw [Command.Holds]; exact ⟨trivial, trivial⟩
  | .metadata command => by rw [Command.Holds]; trivial
  | .composite commands => by rw [Command.Holds]; exact holdsAll_anything commands

theorem holdsAll_anything : ∀ commands : List Command, Command.HoldsAll anything.standard commands
  | [] => by rw [Command.HoldsAll]; trivial
  | command :: commands => by
    rw [Command.HoldsAll]; exact ⟨holds_anything command, holdsAll_anything commands⟩

end

theorem bus_anything (bus : CommandBus) : bus.Upholds anything.standard :=
  ⟨tables_anything _, fun _ _ => holds_anything _, fun _ _ => holds_anything _,
    fun _ _ _ _ => holds_anything _⟩

theorem meetsCall_anything (s : Session) (call : Call) : MeetsCall anything s call := by
  cases call with
  | edit edit host =>
    cases edit with
    | _ => first | trivial | exact fun _ => trivial | exact fun _ _ => trivial
  | projectOpen loaded host =>
    cases loaded with
    | none => trivial
    | some project => exact tables_anything project
  | _ => first | trivial | exact fun _ => trivial | exact fun _ _ => trivial

/-- **What a call hosts is what its publishes say.** -/
theorem replays_call (s : Session) (call : Call) : s.Replays (s.call call).2 := by
  cases hkeeps : call.replaces with
  | false =>
    exact (onward_call (W := anything) ⟨upholds_of_bus (bus_anything s.bus) false, .refl s⟩ call
      hkeeps (meetsCall_anything s call)).2
  | true =>
    cases call with
    | projectNew ids host =>
      exact (replays_publishModel host
        (s.replaceProject (freshProject ids) (some ids.pattern)) true :)
    | projectOpen loaded host =>
      cases loaded with
      | none => cases hkeeps
      | some project =>
        exact (replays_publishModel host { s.replaceProject project project.patterns.keys.head? with
          dirty := true } true :)
    | _ => cases hkeeps

/-! ### Runs -/

/-- The plug-ins of a session are what its publishes made of an empty rack. -/
theorem hosting_run {ids : FreshIds} {sampleRate : Double}
    (h : system.Reachable (create host ids sampleRate) s) :
    Hosting.system.run {} s.publishes = some s.hosting := by
  refine TransitionSystem.Reachable.invariant
    (I := fun s => Hosting.system.run {} s.publishes = some s.hosting) ?_ ?_ h
  · obtain ⟨publishes, hlog, hrun⟩ := replays_publishModel host
      { bus := .start (freshProject ids), sampleRate, currentPattern := some ids.pattern } false
    rw [create, hlog]
    exact hrun
  · intro s call s' hs hstep
    obtain rfl := Option.some_inj.1 hstep
    obtain ⟨publishes, hlog, hrun⟩ := replays_call s call
    rw [hlog, TransitionSystem.run_append, hs]
    exact hrun

/-- **Plug-ins follow their instruments** after every publish of a run of calls exactly when each
publish of it meets the condition. -/
theorem follows_calls_iff {ids : FreshIds} {sampleRate : Double} {calls : List Call}
    (hrun : system.run (create host ids sampleRate) calls = some s) :
    (∀ before h, before <+: s.publishes → Hosting.system.run {} before = some h → h.Follows) ↔
      ∀ before publish h, before ++ [publish] <+: s.publishes →
        Hosting.system.run {} before = some h → h.Hands publish :=
  Hosting.follows_run_iff (hosting_run ⟨calls, hrun⟩)

/-! ### A plug-in that plays on -/

/-- A machine that loads every plug-in. -/
def loadsAll : InstrumentId → HostAnswer := fun _ => ⟨true, true, true, "Synth"⟩

/-- Host a plug-in, and start a new project. -/
def hostThenNew : List Call :=
  [.instanceAdd ⟨5⟩ ⟨6⟩ { id := "synth", name := "Synth", pathHint := "synth.clap" } loadsAll
      loadsAll,
    .projectNew smallIds noPlugins]

/-- The plug-in of the old project stays in its slot: what is hosted was forgotten, and the engine
was not told. -/
theorem not_follows_hostThenNew : ∃ s,
    system.run (create noPlugins smallIds (.finite 48000)) hostThenNew = some s ∧
      ¬ s.hosting.Follows := by
  refine ⟨_, rfl, fun h => ?_⟩
  have hslot := h 0 (by decide)
  revert hslot
  decide +kernel

/-- The two calls, one after the other. -/
theorem follows_calls_iff_hostThenNew : ∃ s,
    system.run (create noPlugins smallIds (.finite 48000)) hostThenNew = some s ∧
      ((∀ before h, before <+: s.publishes → Hosting.system.run {} before = some h →
          h.Follows) ↔
        ∀ before publish h, before ++ [publish] <+: s.publishes →
          Hosting.system.run {} before = some h → h.Hands publish) :=
  ⟨_, rfl, follows_calls_iff
    (rfl : system.run (create noPlugins smallIds (.finite 48000)) hostThenNew = some _)⟩

end Session

end OneBeat
