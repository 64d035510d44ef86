import OneBeat.Commands.Bus
import OneBeat.Commands.TouchedPatterns

/-!
# Standards

What the values of a project should meet, kind by kind (`Standard`).  Commands store values and
write them back later, so a history has to meet it too: `Command.Holds` says that everything a
command remembers does, `Command.Brings` that everything it is going to write does.

* `Command.starts_apply`, `Command.keeps_revert` : a step of such a command leaves a project and a
  command that meet the standard.
* `CommandBus.Upholds` : so does every step of a history.
-/

namespace OneBeat

/-- What the values of each kind should meet, whatever commands do to their references. -/
structure Standard where
  instrument : InstrumentId → Instrument → Prop
  pattern : Pattern → Prop
  patternMeta : PatternMeta → Prop
  clip : Clip → Prop
  track : MixerTrack → Prop
  parameter : Double → Prop
  transport : TransportState → Prop
  routeTo : ∀ {id value} routing, instrument id value → instrument id (value.routeTo routing)
  withSequences : ∀ {value} sequences, pattern value → pattern { value with sequences }
  withMeta : ∀ {value written}, pattern value → patternMeta written → pattern (value.withMeta written)
  withLength : ∀ {value} length, clip value → clip (value.withLength length)
  withDestination : ∀ {value source} destination, clip value → value.source = .audio source →
    clip { value with source := .audio { source with destination } }
  outputTo : ∀ {value} output, track value → track (value.outputTo output)
  writeParam : ∀ {value} effect param written, track value →
    (∀ number, written = some number → parameter number) →
      track (value.writeParam effect param written)

namespace Standard

variable (V : Standard)

/-- A value that is written back by an edit. -/
def value : (target : EditTarget) → target.Value → Prop
  | .instrument id, value => V.instrument id value
  | .lane _, _ => True
  | .clip _, value => V.clip value
  | .mixerTrack _, value => V.track value
  | .patternMeta _, value => V.patternMeta value

/-- An entity that is created. -/
def added : AddedEntity → Prop
  | .instrument id entity => V.instrument id entity
  | .pattern _ entity => V.pattern entity
  | .lane _ _ => True
  | .clip _ entity => V.clip entity
  | .mixerTrack _ entity => V.track entity

/-- Clips that are put back. -/
def clips (clips : List (ClipId × Clip)) : Prop := ∀ entry ∈ clips, V.clip entry.2

end Standard

/-- The values of a project meet the standard. -/
structure Tables.Upholds (V : Standard) (project : Tables) : Prop where
  instrument : ∀ id value, project.instruments.get? id = some value → V.instrument id value
  pattern : ∀ id value, project.patterns.get? id = some value → V.pattern value
  clip : ∀ id value, project.clips.get? id = some value → V.clip value
  track : ∀ id value, project.mixerTracks.get? id = some value → V.track value
  transport : V.transport project.transport

namespace Tables

variable {V : Standard} {project project' : Tables}

namespace Upholds

/-! ### Storing -/

theorem updateInstrument (h : project.Upholds V) {id : InstrumentId} {f : Instrument → Instrument}
    (hf : ∀ value, V.instrument id value → V.instrument id (f value))
    (hupdate : project.updateInstrument id f = some project') : project'.Upholds V := by
  unfold Tables.updateInstrument at hupdate
  split_ifs at hupdate
  cases hupdate
  exact ⟨OrderedMap.forall_modify h.instrument hf, h.pattern, h.clip, h.track, h.transport⟩

theorem updatePattern (h : project.Upholds V) {id : PatternId} {f : Pattern → Pattern}
    (hf : ∀ value, V.pattern value → V.pattern (f value))
    (hupdate : project.updatePattern id f = some project') : project'.Upholds V := by
  unfold Tables.updatePattern at hupdate
  split_ifs at hupdate
  cases hupdate
  exact ⟨h.instrument, OrderedMap.forall_modify h.pattern hf, h.clip, h.track, h.transport⟩

theorem updateLane (h : project.Upholds V) {id : ArrangementLaneId}
    {f : ArrangementLane → ArrangementLane}
    (hupdate : project.updateLane id f = some project') : project'.Upholds V := by
  unfold Tables.updateLane at hupdate
  split_ifs at hupdate
  cases hupdate
  exact ⟨h.instrument, h.pattern, h.clip, h.track, h.transport⟩

theorem updateClip (h : project.Upholds V) {id : ClipId} {f : Clip → Clip}
    (hf : ∀ value, V.clip value → V.clip (f value))
    (hupdate : project.updateClip id f = some project') : project'.Upholds V := by
  unfold Tables.updateClip at hupdate
  split_ifs at hupdate
  cases hupdate
  exact ⟨h.instrument, h.pattern, OrderedMap.forall_modify h.clip hf, h.track, h.transport⟩

theorem updateMixerTrack (h : project.Upholds V) {id : MixerTrackId} {f : MixerTrack → MixerTrack}
    (hf : ∀ value, V.track value → V.track (f value))
    (hupdate : project.updateMixerTrack id f = some project') : project'.Upholds V := by
  unfold Tables.updateMixerTrack at hupdate
  split_ifs at hupdate
  cases hupdate
  exact ⟨h.instrument, h.pattern, h.clip, OrderedMap.forall_modify h.track hf, h.transport⟩

/-- Steps that may fail, one after the other. -/
theorem foldl (h : project.Upholds V) {ε : Type} {step : Tables → ε → Option Tables} {es : List ε}
    (hstep : ∀ e ∈ es, ∀ project project', project.Upholds V → step project e = some project' →
      project'.Upholds V) :
    (es.foldl (fun project e => (step project e).getD project) project).Upholds V := by
  induction es generalizing project with
  | nil => exact h
  | cons e es ih =>
    have hfirst : ((step project e).getD project).Upholds V := by
      cases hresult : step project e with
      | none => exact h
      | some project' => exact hstep e List.mem_cons_self project project' h hresult
    exact ih hfirst fun e' he' => hstep e' (List.mem_cons_of_mem _ he')

theorem mapClips (h : project.Upholds V) {f : ClipId → Clip → Clip}
    (hf : ∀ id value, V.clip value → V.clip (f id value)) : (project.mapClips f).Upholds V := by
  refine ⟨h.instrument, h.pattern, fun k value hk => ?_, h.track, h.transport⟩
  have hk : (project.clips.mapValues f).get? k = some value := hk
  rw [OrderedMap.get?_mapValues] at hk
  obtain ⟨before, hbefore, rfl⟩ := Option.map_eq_some_iff.1 hk
  exact hf k before (h.clip k before hbefore)

theorem setLengths (h : project.Upholds V) (lengths : List (ClipId × ℤ)) :
    (project.setLengths lengths).Upholds V := by
  rw [setLengths_eq]
  refine h.mapClips fun id value hvalue => ?_
  unfold relength
  split
  · exact V.withLength _ hvalue
  · exact hvalue

theorem setTransport (h : project.Upholds V) {transport : TransportState}
    (htransport : V.transport transport) : (project.setTransport transport).Upholds V :=
  ⟨h.instrument, h.pattern, h.clip, h.track, htransport⟩

/-- What an edit writes back. -/
theorem write (h : project.Upholds V) {target : EditTarget} {value : target.Value}
    (hvalue : V.value target value) (hwrite : target.write project value = some project') :
    project'.Upholds V := by
  cases target with
  | instrument id => exact h.updateInstrument (fun _ _ => hvalue) hwrite
  | lane id => exact h.updateLane hwrite
  | clip id => exact h.updateClip (fun _ _ => hvalue) hwrite
  | mixerTrack id => exact h.updateMixerTrack (fun _ _ => hvalue) hwrite
  | patternMeta id => exact h.updatePattern (fun _ hold => V.withMeta hold hvalue) hwrite

/-- What is created. -/
theorem restore (h : project.Upholds V) {entity : AddedEntity} (hadded : V.added entity)
    (hrestore : entity.restore project = some project') : project'.Upholds V := by
  cases entity with
  | instrument =>
    obtain ⟨-, rfl⟩ := AddedEntity.restore_eq_some_iff.1 hrestore
    exact ⟨OrderedMap.forall_assign h.instrument hadded, h.pattern, h.clip, h.track, h.transport⟩
  | pattern =>
    obtain ⟨-, rfl⟩ := AddedEntity.restore_eq_some_iff.1 hrestore
    exact ⟨h.instrument, OrderedMap.forall_assign h.pattern hadded, h.clip, h.track, h.transport⟩
  | lane =>
    obtain ⟨-, rfl⟩ := AddedEntity.restore_eq_some_iff.1 hrestore
    exact ⟨h.instrument, h.pattern, h.clip, h.track, h.transport⟩
  | clip =>
    obtain ⟨-, rfl⟩ := AddedEntity.restore_eq_some_iff.1 hrestore
    exact ⟨h.instrument, h.pattern, OrderedMap.forall_assign h.clip hadded, h.track, h.transport⟩
  | mixerTrack =>
    obtain ⟨-, rfl⟩ := AddedEntity.restore_eq_some_iff.1 hrestore
    exact ⟨h.instrument, h.pattern, h.clip, OrderedMap.forall_assign h.track hadded, h.transport⟩

theorem restoreClips (h : project.Upholds V) {clips : List (ClipId × Clip)}
    (hclips : V.clips clips) : (project.restoreClips clips).Upholds V :=
  h.foldl fun entry hentry _ _ hproject hrestore =>
    hproject.restore (show V.added (.clip entry.1 entry.2) from hclips entry hentry) hrestore

theorem restoreSequence (h : project.Upholds V) {pattern : PatternId} {instrument : InstrumentId}
    {sequence : NoteSequence}
    (hrestore : project.restoreSequence pattern instrument sequence = some project') :
    project'.Upholds V := by
  unfold Tables.restoreSequence at hrestore
  split_ifs at hrestore
  cases hrestore
  exact ⟨h.instrument, OrderedMap.forall_modify h.pattern fun _ => V.withSequences _,
    h.clip, h.track, h.transport⟩

/-! ### Deleting -/

/-- What is left of a map meets what the map met. -/
theorem of_filter {α β : Type} [LinearOrder α] {m : OrderedMap α β} {P : β → Prop}
    (h : ∀ k v, m.get? k = some v → P v) (p : α → β → Bool) :
    ∀ k v, (m.filter p).get? k = some v → P v := by
  intro k v hk
  rw [OrderedMap.get?_filter] at hk
  exact h k v (Option.filter_eq_some_iff.1 hk).1

theorem deleteInstrument (h : project.Upholds V) {id : InstrumentId}
    (hdelete : project.deleteInstrument id = some project') : project'.Upholds V := by
  obtain ⟨-, rfl⟩ := deleteInstrument_eq_some_iff.1 hdelete
  refine ⟨OrderedMap.forall_erase h.instrument id, fun k value hk => ?_, of_filter h.clip _,
    h.track, h.transport⟩
  dsimp only at hk
  rw [OrderedMap.get?_mapValues] at hk
  obtain ⟨before, hbefore, rfl⟩ := Option.map_eq_some_iff.1 hk
  exact V.withSequences _ (h.pattern k before hbefore)

theorem deletePattern (h : project.Upholds V) {id : PatternId}
    (hdelete : project.deletePattern id = some project') : project'.Upholds V := by
  obtain ⟨-, rfl⟩ := deletePattern_eq_some_iff.1 hdelete
  exact ⟨h.instrument, OrderedMap.forall_erase h.pattern id, of_filter h.clip _, h.track, h.transport⟩

theorem deleteLane (h : project.Upholds V) {id : ArrangementLaneId}
    (hdelete : project.deleteLane id = some project') : project'.Upholds V := by
  obtain ⟨-, rfl⟩ := deleteLane_eq_some_iff.1 hdelete
  exact ⟨h.instrument, h.pattern, of_filter h.clip _, h.track, h.transport⟩

theorem deleteClip (h : project.Upholds V) {id : ClipId}
    (hdelete : project.deleteClip id = some project') : project'.Upholds V := by
  obtain ⟨-, rfl⟩ := deleteClip_eq_some_iff.1 hdelete
  exact ⟨h.instrument, h.pattern, OrderedMap.forall_erase h.clip id, h.track, h.transport⟩

/-- Writing over some of the values of a map. -/
theorem of_foldl_modify {α β : Type} [LinearOrder α] {m : OrderedMap α β} {P : α → β → Prop}
    {f : β → β} (hf : ∀ k v, P k v → P k (f v)) (h : ∀ k v, m.get? k = some v → P k v)
    (ks : List α) : ∀ k v, (ks.foldl (fun m k => m.modify k f) m).get? k = some v → P k v := by
  induction ks generalizing m with
  | nil => exact h
  | cons k₀ ks ih => exact ih (OrderedMap.forall_modify h (hf k₀))

theorem deleteMixerTrack (h : project.Upholds V) {id : MixerTrackId}
    (hdelete : project.deleteMixerTrack id = some project') : project'.Upholds V := by
  obtain ⟨-, -, rfl⟩ := deleteMixerTrack_eq_some_iff.1 hdelete
  refine ⟨of_foldl_modify (fun _ _ hvalue => V.routeTo _ hvalue) h.instrument _, h.pattern,
    fun k value hk => ?_, OrderedMap.forall_erase (of_foldl_modify (P := fun _ => V.track)
      (fun _ _ hvalue => V.outputTo _ hvalue) h.track _) id, h.transport⟩
  dsimp only at hk
  rw [get?_foldl_releaseClip] at hk
  split_ifs at hk
  · obtain ⟨before, hbefore, hreleased⟩ := Option.bind_eq_some_iff.1 hk
    unfold releasedClip at hreleased
    split at hreleased
    next source hsource =>
      cases hreleased
      exact V.withDestination _ (h.clip k before hbefore) hsource
    next => cases hreleased
  · exact h.clip k value hk

theorem delete (h : project.Upholds V) {entity : AddedEntity}
    (hdelete : entity.delete project = some project') : project'.Upholds V := by
  cases entity with
  | instrument id entity => exact h.deleteInstrument hdelete
  | pattern id entity => exact h.deletePattern hdelete
  | lane id entity => exact h.deleteLane hdelete
  | clip id entity => exact h.deleteClip hdelete
  | mixerTrack id entity => exact h.deleteMixerTrack hdelete

/-! ### Notes -/

theorem editSequence (h : project.Upholds V) {pattern : PatternId} {instrument : InstrumentId}
    {take give : List Note}
    (hedit : OneBeat.editSequence pattern instrument project take give = some project') :
    project'.Upholds V := by
  unfold OneBeat.editSequence at hedit
  split at hedit
  · cases hedit
  dsimp only at hedit
  split_ifs at hedit
  · exact h.restoreSequence hedit
  · exact h.restoreSequence hedit

theorem followPatternLength (h : project.Upholds V) (pattern : PatternId) (before : ℤ) :
    (project.followPatternLength pattern before).2.Upholds V := by
  cases hlive : project.patterns.get? pattern with
  | none =>
    unfold Tables.followPatternLength
    simp only [hlive]
    exact h
  | some live =>
    rw [followPatternLength_snd hlive]
    refine h.mapClips fun _ value hvalue => ?_
    unfold followed
    split_ifs
    · exact V.withLength _ hvalue
    · exact hvalue

end Upholds

end Tables

/-! ### Commands -/

namespace Command

variable {V : Standard}

mutual

/-- Everything the command remembers meets the standard. -/
def Holds (V : Standard) : Command → Prop
  | add command => V.added command
  | removeInstrument command => V.instrument command.id command.instrument ∧ V.clips command.clips
  | removePattern command => V.pattern command.pattern ∧ V.clips command.clips
  | removeLane command => V.clips command.clips
  | removeClip command => V.clip command.clip
  | removeMixerTrack command =>
    V.track command.track ∧ V.clips command.clips ∧ V.clips command.audioClips
  | edit command => V.value command.target command.before ∧ V.value command.target command.after
  | effectParam command =>
    (∀ number, command.before = some number → V.parameter number) ∧ V.parameter command.after
  | note _ => True
  | transport command => V.transport command.before ∧ V.transport command.after
  | metadata _ => True
  | composite commands => HoldsAll V commands

def HoldsAll (V : Standard) : List Command → Prop
  | [] => True
  | command :: commands => Holds V command ∧ HoldsAll V commands

end

mutual

/-- Everything the command is going to write meets the standard; what a deletion captures is yet to
be seen. -/
def Brings (V : Standard) : Command → Prop
  | add command => V.added command
  | removeInstrument _ => True
  | removePattern _ => True
  | removeLane _ => True
  | removeClip _ => True
  | removeMixerTrack _ => True
  | edit command => V.value command.target command.before ∧ V.value command.target command.after
  | effectParam command =>
    (∀ number, command.before = some number → V.parameter number) ∧ V.parameter command.after
  | note _ => True
  | transport command => V.transport command.before ∧ V.transport command.after
  | metadata _ => True
  | composite commands => BringsAll V commands

def BringsAll (V : Standard) : List Command → Prop
  | [] => True
  | command :: commands => Brings V command ∧ BringsAll V commands

end

theorem holdsAll_iff {commands : List Command} :
    HoldsAll V commands ↔ ∀ command ∈ commands, Holds V command := by
  induction commands with
  | nil => simp [HoldsAll]
  | cons command commands ih => simp [HoldsAll, ih]

theorem bringsAll_iff {commands : List Command} :
    BringsAll V commands ↔ ∀ command ∈ commands, Brings V command := by
  induction commands with
  | nil => simp [BringsAll]
  | cons command commands ih => simp [BringsAll, ih]

/-- A step leaves a project and a command that meet the standard. -/
def Keeps (V : Standard) (outcome : Outcome Tables Command) : Prop :=
  outcome.state.Upholds V ∧ Holds V outcome.command

/-- A step forward leaves a project that meets the standard, and a command that does where it took
effect or did before. -/
def Starts (V : Standard) (command : Command) (outcome : Outcome Tables Command) : Prop :=
  outcome.state.Upholds V ∧ (outcome.ok = true ∨ Holds V command → Holds V outcome.command)

theorem Keeps.starts {command : Command} {outcome : Outcome Tables Command}
    (h : Keeps V outcome) : Starts V command outcome := ⟨h.1, fun _ => h.2⟩

/-- A step that failed and left everything as it was. -/
theorem starts_failed {E : Type} {f : E → Command} {command : E} {project : Tables}
    (hproject : project.Upholds V) :
    Starts V (f command) ((Outcome.mk false command project).map f) :=
  ⟨hproject, fun h => h.resolve_left nofun⟩

/-- A step that leaves the command as it is. -/
theorem keeps_ofOption {E : Type} {f : E → Command} {command : E} {project : Tables}
    {result : Option Tables} (hproject : project.Upholds V) (hcommand : Holds V (f command))
    (hresult : ∀ project', result = some project' → project'.Upholds V) :
    Keeps V ((Outcome.ofOption command project result).map f) := by
  cases result with
  | none => exact ⟨hproject, hcommand⟩
  | some project' => exact ⟨hresult project' rfl, hcommand⟩

variable {project : Tables}

theorem clips_clipsOf (h : project.Upholds V) (ids : List ClipId) : V.clips (project.clipsOf ids) := by
  intro entry hentry
  obtain ⟨id, -, hid⟩ := List.mem_filterMap.1 hentry
  obtain ⟨clip, hclip, rfl⟩ := Option.map_eq_some_iff.1 hid
  exact h.clip id clip hclip

theorem clips_filter {clips : List (ClipId × Clip)} (h : V.clips clips)
    (p : ClipId × Clip → Bool) : V.clips (clips.filter p) :=
  fun entry hentry => h entry (List.mem_filter.1 hentry).1

/-- Taking back a command by itself. -/
theorem keeps_revert_of_single {command : Command} (hsingle : command.isComposite = false)
    (h : project.Upholds V) (hcommand : Holds V command) : Keeps V (revert command project) := by
  cases command with
  | composite commands => cases hsingle
  | add command =>
    rw [revert]
    exact keeps_ofOption h hcommand fun _ hdelete => h.delete hdelete
  | removeInstrument command =>
    rw [revert, RemoveInstrument.revert]
    rw [Holds] at hcommand
    split
    · exact ⟨h, by rwa [Outcome.map_mk, Holds]⟩
    next project' hrestore =>
      refine ⟨?_, by rwa [Outcome.map_mk, Holds]⟩
      have hrestored := h.restore
        (show V.added (.instrument command.id command.instrument) from hcommand.1) hrestore
      exact (hrestored.foldl fun _ _ _ _ hproject hsequence =>
        hproject.restoreSequence hsequence).restoreClips hcommand.2
  | removePattern command =>
    rw [revert, RemovePattern.revert]
    rw [Holds] at hcommand
    split
    · exact ⟨h, by rwa [Outcome.map_mk, Holds]⟩
    next project' hrestore =>
      refine ⟨?_, by rwa [Outcome.map_mk, Holds]⟩
      exact (h.restore (show V.added (.pattern command.id command.pattern) from hcommand.1)
        hrestore).restoreClips hcommand.2
  | removeLane command =>
    rw [revert, RemoveLane.revert]
    rw [Holds] at hcommand
    split
    · exact ⟨h, by rwa [Outcome.map_mk, Holds]⟩
    next project' hrestore =>
      refine ⟨?_, by rwa [Outcome.map_mk, Holds]⟩
      have hrestored := h.restore (show V.added (.lane command.id command.lane) from trivial)
        hrestore
      exact (hrestored.foldl fun _ _ _ _ hproject hupdate =>
        hproject.updateLane hupdate).restoreClips hcommand
  | removeClip command =>
    rw [revert]
    rw [Holds] at hcommand
    exact keeps_ofOption h (by rwa [Holds]) fun _ hrestore =>
      h.restore (show V.added (.clip command.id command.clip) from hcommand) hrestore
  | removeMixerTrack command =>
    rw [revert, RemoveMixerTrack.revert]
    rw [Holds] at hcommand
    split
    · exact ⟨h, by rwa [Outcome.map_mk, Holds]⟩
    next project' hrestore =>
      refine ⟨?_, by rwa [Outcome.map_mk, Holds]⟩
      have hrestored := h.restore
        (show V.added (.mixerTrack command.id command.track) from hcommand.1) hrestore
      refine Tables.Upholds.restoreClips ?_ hcommand.2.1
      refine Tables.Upholds.foldl ?_ fun entry hentry _ _ hproject hupdate =>
        hproject.updateClip (fun _ _ => hcommand.2.2 entry hentry) hupdate
      refine Tables.Upholds.foldl ?_ fun _ _ _ _ hproject hupdate =>
        hproject.updateMixerTrack (fun _ hvalue => V.outputTo command.id hvalue) hupdate
      exact Tables.Upholds.foldl hrestored fun entry _ _ _ hproject hupdate =>
        hproject.updateInstrument (fun _ hvalue => V.routeTo entry.2 hvalue) hupdate
  | edit command =>
    rw [revert]
    rw [Holds] at hcommand
    exact keeps_ofOption h (by rwa [Holds]) fun _ hwrite => h.write hcommand.1 hwrite
  | effectParam command =>
    rw [revert]
    rw [Holds] at hcommand
    exact keeps_ofOption h (by rwa [Holds]) fun _ hwrite =>
      h.updateMixerTrack (fun _ hvalue => V.writeParam _ _ _ hvalue hcommand.1) hwrite
  | note command =>
    rw [revert, NoteCommand.revert]
    split
    · exact ⟨h, by rw [Outcome.map_mk, Holds]; trivial⟩
    next project' hedit =>
      exact ⟨(h.editSequence hedit).setLengths _, by rw [Outcome.map_mk, Holds]; trivial⟩
  | transport command =>
    rw [revert, TransportCommand.revert]
    rw [Holds] at hcommand
    exact ⟨(h.setTransport hcommand.1).setLengths _, by rwa [Outcome.map_mk, Holds]⟩
  | metadata command =>
    rw [revert]
    exact ⟨⟨h.instrument, h.pattern, h.clip, h.track, h.transport⟩, by rw [Outcome.map, Holds]; trivial⟩

/-- Making a command by itself take effect. -/
theorem starts_apply_of_single {command : Command} (hsingle : command.isComposite = false)
    (h : project.Upholds V) (hcommand : Brings V command) : Starts V command (apply command project) := by
  cases command with
  | composite commands => cases hsingle
  | add command =>
    rw [Brings] at hcommand
    rw [apply]
    exact (keeps_ofOption h (by rwa [Holds]) fun _ hrestore => h.restore hcommand hrestore).starts
  | removeInstrument command =>
    rw [apply, RemoveInstrument.apply]
    split
    · exact starts_failed h
    next instrument hget =>
      refine (keeps_ofOption h ?_ fun _ hdelete => h.deleteInstrument hdelete).starts
      rw [Holds]
      exact ⟨h.instrument _ _ hget, clips_clipsOf h _⟩
  | removePattern command =>
    rw [apply, RemovePattern.apply]
    split
    · exact starts_failed h
    next pattern hget =>
      refine (keeps_ofOption h ?_ fun _ hdelete => h.deletePattern hdelete).starts
      rw [Holds]
      exact ⟨h.pattern _ _ hget, clips_clipsOf h _⟩
  | removeLane command =>
    rw [apply, RemoveLane.apply]
    split
    · exact starts_failed h
    next lane hget =>
      refine (keeps_ofOption h ?_ fun _ hdelete => h.deleteLane hdelete).starts
      rw [Holds]
      exact clips_clipsOf h _
  | removeClip command =>
    rw [apply, RemoveClip.apply]
    split
    · exact starts_failed h
    next clip hget =>
      refine (keeps_ofOption h ?_ fun _ hdelete => h.deleteClip hdelete).starts
      rw [Holds]
      exact h.clip _ _ hget
  | removeMixerTrack command =>
    rw [apply, RemoveMixerTrack.apply]
    split
    · exact starts_failed h
    next track hget =>
      refine (keeps_ofOption h ?_ fun _ hdelete => h.deleteMixerTrack hdelete).starts
      rw [Holds]
      exact ⟨h.track _ _ hget, clips_filter (clips_clipsOf h _) _, clips_filter (clips_clipsOf h _) _⟩
  | edit command =>
    rw [Brings] at hcommand
    rw [apply]
    exact (keeps_ofOption h (by rwa [Holds]) fun _ hwrite => h.write hcommand.2 hwrite).starts
  | effectParam command =>
    rw [Brings] at hcommand
    rw [apply]
    refine (keeps_ofOption h (by rwa [Holds]) fun _ hwrite => ?_).starts
    refine h.updateMixerTrack (fun _ hvalue => V.writeParam _ _ _ hvalue fun number heq => ?_) hwrite
    cases heq
    exact hcommand.2
  | note command =>
    rw [apply, NoteCommand.apply]
    split
    · exact starts_failed h
    · dsimp only
      split
      · exact starts_failed h
      next project' hedit =>
        exact ⟨(h.editSequence hedit).followPatternLength _ _,
          fun _ => by rw [Outcome.map_mk, Holds]; trivial⟩
  | transport command =>
    rw [Brings] at hcommand
    rw [apply, TransportCommand.apply, TransportCommand.rescaleAudioClips_eq]
    refine ⟨(h.setTransport hcommand.2).mapClips fun _ value hvalue => ?_,
      fun _ => by rwa [Outcome.map_mk, Holds]⟩
    unfold TransportCommand.rescaledClip
    split_ifs
    · exact V.withLength _ hvalue
    · exact hvalue
  | metadata command =>
    rw [apply]
    exact ⟨⟨h.instrument, h.pattern, h.clip, h.track, h.transport⟩,
      fun _ => by rw [Outcome.map, Holds]; trivial⟩

mutual

/-- **What is taken back meets the standard.** -/
theorem keeps_revert (command : Command) (project : Tables) (h : project.Upholds V)
    (hcommand : Holds V command) : Keeps V (revert command project) := by
  cases command with
  | composite commands =>
    rw [Holds] at hcommand
    obtain ⟨hstate, hcommands⟩ := keeps_revertAll commands project h hcommand
    rw [revert]
    exact ⟨hstate, by rwa [Outcome.map, Holds]⟩
  | _ => exact keeps_revert_of_single rfl h hcommand

theorem keeps_revertAll : ∀ (commands : List Command) (project : Tables), project.Upholds V →
    HoldsAll V commands → (revertAll commands project).state.Upholds V ∧
      HoldsAll V (revertAll commands project).command
  | [], project, h, _ => by
    rw [revertAll]
    exact ⟨h, by rw [HoldsAll]; trivial⟩
  | command :: commands, project, h, hcommands => by
    rw [HoldsAll] at hcommands
    obtain ⟨hlater, hrest⟩ := keeps_revertAll commands project h hcommands.2
    rw [revertAll]
    dsimp only
    split_ifs with hok
    · obtain ⟨hstate, hthis⟩ := keeps_revert command _ hlater hcommands.1
      exact ⟨hstate, by rw [HoldsAll]; exact ⟨hthis, hrest⟩⟩
    · exact ⟨hlater, by rw [HoldsAll]; exact ⟨hcommands.1, hrest⟩⟩

end

mutual

/-- **What takes effect meets the standard.** -/
theorem starts_apply (command : Command) (project : Tables) (h : project.Upholds V)
    (hcommand : Brings V command) : Starts V command (apply command project) := by
  cases command with
  | composite commands =>
    rw [Brings] at hcommand
    obtain ⟨hstate, hcommands⟩ := starts_applyAll commands project h hcommand
    rw [apply]
    refine ⟨hstate, fun hor => ?_⟩
    rw [Holds] at hor
    rw [Outcome.map, Holds]
    exact hcommands hor
  | _ => exact starts_apply_of_single rfl h hcommand

theorem starts_applyAll : ∀ (commands : List Command) (project : Tables), project.Upholds V →
    BringsAll V commands → (applyAll commands project).state.Upholds V ∧
      ((applyAll commands project).ok = true ∨ HoldsAll V commands →
        HoldsAll V (applyAll commands project).command)
  | [], project, h, _ => by
    rw [applyAll]
    exact ⟨h, fun _ => by rw [HoldsAll]; trivial⟩
  | command :: commands, project, h, hcommands => by
    rw [BringsAll] at hcommands
    obtain ⟨hstate, hthis⟩ := starts_apply command project h hcommands.1
    rw [applyAll]
    dsimp only
    split_ifs with hok hlater
    · obtain ⟨hstate', hrest⟩ := starts_applyAll commands _ hstate hcommands.2
      refine ⟨hstate', fun _ => ?_⟩
      rw [HoldsAll]
      exact ⟨hthis (.inl hok), hrest (.inl hlater)⟩
    · -- A later command failed: this one, which did take effect, is rolled back.
      obtain ⟨hstate', hrest⟩ := starts_applyAll commands _ hstate hcommands.2
      obtain ⟨hback, hcommand⟩ := keeps_revert _ _ hstate' (hthis (.inl hok))
      refine ⟨hback, fun hor => ?_⟩
      have hor := hor.resolve_left nofun
      rw [HoldsAll] at hor ⊢
      exact ⟨hcommand, hrest (.inr hor.2)⟩
    · refine ⟨hstate, fun hor => ?_⟩
      have hor := hor.resolve_left nofun
      rw [HoldsAll] at hor ⊢
      exact ⟨hthis (.inr hor.1), hor.2⟩

end

mutual

theorem Holds.brings : ∀ {command : Command}, Holds V command → Brings V command
  | add command, h => by rwa [Brings]
  | removeInstrument _, _ | removePattern _, _ | removeLane _, _ | removeClip _, _
  | removeMixerTrack _, _ | note _, _ | metadata _, _ => by rw [Brings]; trivial
  | edit command, h => by rwa [Brings]
  | effectParam command, h => by rwa [Brings]
  | transport command, h => by rwa [Brings]
  | composite commands, h => by
    rw [Brings]
    rw [Holds] at h
    exact h.bringsAll

theorem HoldsAll.bringsAll : ∀ {commands : List Command}, HoldsAll V commands → BringsAll V commands
  | [], _ => by rw [BringsAll]; trivial
  | command :: commands, h => by
    rw [HoldsAll] at h
    rw [BringsAll]
    exact ⟨h.1.brings, h.2.bringsAll⟩

end

/-- A merged command remembers what the two did. -/
theorem Holds.coalesceWith {command next merged : Command} (h : Holds V command)
    (hnext : Holds V next) (hmerged : command.coalesceWith next = some merged) :
    Holds V merged := by
  cases command <;> cases next <;> try cases hmerged
  case edit.edit command next =>
    obtain ⟨absorbed, habsorbed, rfl⟩ := Option.map_eq_some_iff.1 hmerged
    obtain ⟨target, field, before, after⟩ := command
    obtain ⟨target', field', before', after'⟩ := next
    rw [Holds] at h hnext ⊢
    unfold EditCommand.coalesceWith at habsorbed
    by_cases htarget : target' = target
    · subst htarget
      split_ifs at habsorbed
      cases habsorbed
      exact ⟨h.1, hnext.2⟩
    · simp [htarget] at habsorbed
  case effectParam.effectParam command next =>
    obtain ⟨absorbed, habsorbed, rfl⟩ := Option.map_eq_some_iff.1 hmerged
    rw [Holds] at h hnext ⊢
    unfold EffectParamCommand.coalesceWith at habsorbed
    split_ifs at habsorbed
    cases habsorbed
    exact ⟨h.1, hnext.2⟩
  case note.note command next =>
    obtain ⟨absorbed, habsorbed, rfl⟩ := Option.map_eq_some_iff.1 hmerged
    rw [Holds]
    trivial
  case transport.transport command next =>
    rw [Holds] at h hnext ⊢
    exact ⟨h.1, hnext.2⟩

end Command

/-! ### Histories -/

namespace CommandBus

variable {V : Standard} {bus : CommandBus}

/-- The project meets the standard, and so does everything the history remembers. -/
structure Upholds (V : Standard) (bus : CommandBus) : Prop where
  project : bus.project.Upholds V
  undoes : ∀ entry ∈ bus.undoStack, entry.Holds V
  redoes : ∀ entry ∈ bus.redoStack, entry.Holds V
  opened : ∀ commands ∈ bus.opened, ∀ command ∈ commands, command.Holds V

theorem upholds_start {project : Tables} (h : project.Upholds V) : (start project).Upholds V :=
  ⟨h, nofun, nofun, nofun⟩

namespace Upholds

theorem withProject (h : bus.Upholds V) {project : Tables} (hproject : project.Upholds V) :
    { bus with project }.Upholds V := ⟨hproject, h.undoes, h.redoes, h.opened⟩

theorem record (h : bus.Upholds V) {command : Command} (hcommand : command.Holds V) :
    (bus.record command).Upholds V := by
  unfold CommandBus.record
  split
  next commands outer hopened =>
    have hstacked := h.opened
    rw [hopened, List.forall_mem_cons] at hstacked
    refine ⟨h.project, h.undoes, h.redoes, List.forall_mem_cons.2 ⟨?_, hstacked.2⟩⟩
    exact List.forall_mem_append.2 ⟨hstacked.1, List.forall_mem_singleton.2 hcommand⟩
  next hopened =>
    split
    next =>
      exact ⟨h.project, List.forall_mem_singleton.2 hcommand, List.forall_mem_nil _, h.opened⟩
    next entry entries hstack =>
      have hentries := h.undoes
      rw [hstack, List.forall_mem_cons] at hentries
      split
      next merged hmerged =>
        split_ifs at hmerged
        exact ⟨h.project,
          List.forall_mem_cons.2 ⟨hentries.1.coalesceWith hcommand hmerged, hentries.2⟩,
          List.forall_mem_nil _, h.opened⟩
      next => 
        exact ⟨h.project, List.forall_mem_cons.2 ⟨hcommand, List.forall_mem_cons.2 hentries⟩,
          List.forall_mem_nil _, h.opened⟩

theorem execute (h : bus.Upholds V) {command : Option Command}
    (hcommand : ∀ c, command = some c → c.Brings V) : (bus.execute command).2.Upholds V := by
  cases command with
  | none => exact h
  | some command =>
    obtain ⟨hstate, hheld⟩ := Command.starts_apply command bus.project h.project (hcommand _ rfl)
    rw [CommandBus.execute]
    split_ifs with hok
    · exact (h.withProject hstate).record (hheld (.inl hok))
    · exact h.withProject hstate

theorem undo (h : bus.Upholds V) : bus.undo.2.Upholds V := by
  unfold CommandBus.undo
  split
  · exact h
  next entry entries hstack =>
    have hentries := h.undoes
    rw [hstack, List.forall_mem_cons] at hentries
    obtain ⟨hstate, hheld⟩ := Command.keeps_revert entry bus.project h.project hentries.1
    dsimp only
    split_ifs
    · exact ⟨hstate, hentries.2, List.forall_mem_cons.2 ⟨hheld, h.redoes⟩, h.opened⟩
    · exact ⟨hstate, List.forall_mem_cons.2 ⟨hheld, hentries.2⟩, h.redoes, h.opened⟩

theorem redo (h : bus.Upholds V) : bus.redo.2.Upholds V := by
  unfold CommandBus.redo
  split
  · exact h
  next entry entries hstack =>
    have hentries := h.redoes
    rw [hstack, List.forall_mem_cons] at hentries
    obtain ⟨hstate, hheld⟩ :=
      Command.starts_apply entry bus.project h.project hentries.1.brings
    have hheld := hheld (.inr hentries.1)
    dsimp only
    split_ifs
    · exact ⟨hstate, List.forall_mem_cons.2 ⟨hheld, h.undoes⟩, hentries.2, h.opened⟩
    · exact ⟨hstate, h.undoes, List.forall_mem_cons.2 ⟨hheld, hentries.2⟩, h.opened⟩

theorem beginTransaction (h : bus.Upholds V) : bus.beginTransaction.Upholds V :=
  ⟨h.project, h.undoes, h.redoes, List.forall_mem_cons.2 ⟨nofun, h.opened⟩⟩

theorem commitTransaction (h : bus.Upholds V) : bus.commitTransaction.Upholds V := by
  have hstacked := h.opened
  unfold CommandBus.commitTransaction
  split
  · exact h
  next outer hopened =>
    rw [hopened, List.forall_mem_cons] at hstacked
    exact ⟨h.project, h.undoes, h.redoes, hstacked.2⟩
  next command commands outer outermost hopened =>
    rw [hopened, List.forall_mem_cons] at hstacked
    obtain ⟨hcommands, houter⟩ := hstacked
    rw [List.forall_mem_cons] at houter
    refine ⟨h.project, h.undoes, h.redoes, List.forall_mem_cons.2 ⟨?_, houter.2⟩⟩
    refine List.forall_mem_append.2 ⟨houter.1, List.forall_mem_singleton.2 ?_⟩
    rw [Command.Holds]
    exact Command.holdsAll_iff.2 hcommands
  next command commands hopened =>
    rw [hopened, List.forall_mem_cons] at hstacked
    refine ⟨h.project, List.forall_mem_cons.2 ⟨?_, h.undoes⟩, nofun, nofun⟩
    rw [Command.Holds]
    exact Command.holdsAll_iff.2 hstacked.1

theorem abortTransaction (h : bus.Upholds V) : bus.abortTransaction.Upholds V := by
  have hstacked := h.opened
  unfold CommandBus.abortTransaction
  split
  · exact h
  next commands outer hopened =>
    rw [hopened, List.forall_mem_cons] at hstacked
    have hcomposite : (Command.composite commands).Holds V := by
      rw [Command.Holds]
      exact Command.holdsAll_iff.2 hstacked.1
    exact ⟨(Command.keeps_revert _ bus.project h.project hcomposite).1, h.undoes, h.redoes,
      hstacked.2⟩

theorem sealHistory (h : bus.Upholds V) : bus.sealHistory.Upholds V :=
  ⟨h.project, h.undoes, h.redoes, h.opened⟩

end Upholds

end CommandBus

/-! ### Asking for less -/

/-- What meets the one standard meets the other. -/
structure Standard.Weakens (V V' : Standard) : Prop where
  instrument : ∀ id value, V.instrument id value → V'.instrument id value
  pattern : ∀ value, V.pattern value → V'.pattern value
  patternMeta : ∀ value, V.patternMeta value → V'.patternMeta value
  clip : ∀ value, V.clip value → V'.clip value
  track : ∀ value, V.track value → V'.track value
  parameter : ∀ number, V.parameter number → V'.parameter number
  transport : ∀ value, V.transport value → V'.transport value

namespace Standard.Weakens

variable {V V' : Standard}

theorem value (h : V.Weakens V') {target : EditTarget} {value : target.Value}
    (hvalue : V.value target value) : V'.value target value := by
  cases target with
  | instrument id => exact h.instrument id value hvalue
  | lane id => trivial
  | clip id => exact h.clip value hvalue
  | mixerTrack id => exact h.track value hvalue
  | patternMeta id => exact h.patternMeta value hvalue

theorem added (h : V.Weakens V') {entity : AddedEntity} (hadded : V.added entity) :
    V'.added entity := by
  cases entity with
  | instrument id entity => exact h.instrument id entity hadded
  | pattern id entity => exact h.pattern entity hadded
  | lane id entity => trivial
  | clip id entity => exact h.clip entity hadded
  | mixerTrack id entity => exact h.track entity hadded

theorem clips (h : V.Weakens V') {clips : List (ClipId × Clip)} (hclips : V.clips clips) :
    V'.clips clips := fun entry hentry => h.clip entry.2 (hclips entry hentry)

mutual

theorem holds (h : V.Weakens V') : ∀ {command : Command}, command.Holds V → command.Holds V'
  | .add command, hc => by
    rw [Command.Holds] at hc ⊢
    exact h.added hc
  | .removeInstrument command, hc => by
    rw [Command.Holds] at hc ⊢
    exact ⟨h.instrument _ _ hc.1, h.clips hc.2⟩
  | .removePattern command, hc => by
    rw [Command.Holds] at hc ⊢
    exact ⟨h.pattern _ hc.1, h.clips hc.2⟩
  | .removeLane command, hc => by
    rw [Command.Holds] at hc ⊢
    exact h.clips hc
  | .removeClip command, hc => by
    rw [Command.Holds] at hc ⊢
    exact h.clip _ hc
  | .removeMixerTrack command, hc => by
    rw [Command.Holds] at hc ⊢
    exact ⟨h.track _ hc.1, h.clips hc.2.1, h.clips hc.2.2⟩
  | .edit command, hc => by
    rw [Command.Holds] at hc ⊢
    exact ⟨h.value hc.1, h.value hc.2⟩
  | .effectParam command, hc => by
    rw [Command.Holds] at hc ⊢
    exact ⟨fun number hnumber => h.parameter number (hc.1 number hnumber), h.parameter _ hc.2⟩
  | .note command, _ => by rw [Command.Holds]; trivial
  | .transport command, hc => by
    rw [Command.Holds] at hc ⊢
    exact ⟨h.transport _ hc.1, h.transport _ hc.2⟩
  | .metadata command, _ => by rw [Command.Holds]; trivial
  | .composite commands, hc => by
    rw [Command.Holds] at hc ⊢
    exact h.holdsAll hc

theorem holdsAll (h : V.Weakens V') :
    ∀ {commands : List Command}, Command.HoldsAll V commands → Command.HoldsAll V' commands
  | [], _ => by rw [Command.HoldsAll]; trivial
  | command :: commands, hc => by
    rw [Command.HoldsAll] at hc ⊢
    exact ⟨h.holds hc.1, h.holdsAll hc.2⟩

end

theorem bus (h : V.Weakens V') {bus : CommandBus} (hbus : bus.Upholds V) : bus.Upholds V' where
  project :=
    { instrument := fun id value hget => h.instrument id value (hbus.project.instrument id value hget)
      pattern := fun id value hget => h.pattern value (hbus.project.pattern id value hget)
      clip := fun id value hget => h.clip value (hbus.project.clip id value hget)
      track := fun id value hget => h.track value (hbus.project.track id value hget)
      transport := h.transport _ hbus.project.transport }
  undoes entry hentry := h.holds (hbus.undoes entry hentry)
  redoes entry hentry := h.holds (hbus.redoes entry hentry)
  opened commands hcommands command hcommand :=
    h.holds (hbus.opened commands hcommands command hcommand)

end Standard.Weakens

end OneBeat
