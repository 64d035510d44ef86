import OneBeat.Commands.Command

/-!
# Commands that can be taken back exactly

`Command.Ready` says what a command relies on when it is applied: an edit starts from the value it
found, a created entity is one nothing refers to, the ties of a note edit are restored.  On a
healthy project (`Tables.Healthy`) that is enough:

* `Command.exact_of_ready` : a command that is ready either fails and leaves the project alone, or
  takes effect, can then be taken back and made again, and leaves a healthy project.
* `Command.done_composite` : commands that took effect one after the other are one command that
  took effect.
-/

namespace OneBeat

namespace Tables

/-- No entity is stored under the default id, and no pattern stores an empty sequence. -/
structure Healthy (project : Tables) : Prop where
  validIds : project.ValidIds
  sparse : project.Sparse

variable {project project' : Tables}

/-- An operation that stores nothing under a new id keeps a project healthy, as long as it keeps
patterns sparse. -/
theorem Healthy.of_keys (h : project.Healthy)
    (hinstruments : ∀ id, (project'.instruments.get? id).isSome → (project.instruments.get? id).isSome)
    (hpatterns : ∀ id, (project'.patterns.get? id).isSome → (project.patterns.get? id).isSome)
    (hlanes : ∀ id, (project'.lanes.get? id).isSome → (project.lanes.get? id).isSome)
    (hclips : ∀ id, (project'.clips.get? id).isSome → (project.clips.get? id).isSome)
    (hmixerTracks : ∀ id, (project'.mixerTracks.get? id).isSome →
      (project.mixerTracks.get? id).isSome)
    (hsparse : project'.Sparse) : project'.Healthy where
  validIds :=
    { instruments := fun id hid => h.validIds.instruments id (hinstruments id hid)
      patterns := fun id hid => h.validIds.patterns id (hpatterns id hid)
      lanes := fun id hid => h.validIds.lanes id (hlanes id hid)
      clips := fun id hid => h.validIds.clips id (hclips id hid)
      mixerTracks := fun id hid => h.validIds.mixerTracks id (hmixerTracks id hid) }
  sparse := hsparse

theorem isSome_of_filter {α β : Type} [LinearOrder α] {m : OrderedMap α β} {p : α → β → Bool}
    {k : α} (h : ((m.filter p).get? k).isSome) : (m.get? k).isSome := by
  rw [OrderedMap.get?_filter] at h
  exact Option.isSome_of_isSome_filter _ _ h

theorem isSome_of_erase {α β : Type} [LinearOrder α] {m : OrderedMap α β} {k k' : α}
    (h : ((m.erase k).get? k').isSome) : (m.get? k').isSome := by
  rw [OrderedMap.get?_erase] at h
  split_ifs at h
  · cases h
  · exact h

/-! ### Deleting -/

theorem Healthy.deleteClip (h : project.Healthy) {id : ClipId}
    (hdelete : project.deleteClip id = some project') : project'.Healthy := by
  obtain ⟨-, rfl⟩ := deleteClip_eq_some_iff.1 hdelete
  exact h.of_keys (fun _ hk => hk) (fun _ hk => hk) (fun _ hk => hk) (fun _ => isSome_of_erase)
    (fun _ hk => hk) h.sparse

theorem Healthy.deletePattern (h : project.Healthy) {id : PatternId}
    (hdelete : project.deletePattern id = some project') : project'.Healthy := by
  obtain ⟨-, rfl⟩ := deletePattern_eq_some_iff.1 hdelete
  exact h.of_keys (fun _ hk => hk) (fun _ => isSome_of_erase) (fun _ hk => hk)
    (fun _ => isSome_of_filter) (fun _ hk => hk) (OrderedMap.forall_erase h.sparse id)

theorem Healthy.deleteLane (h : project.Healthy) {id : ArrangementLaneId}
    (hdelete : project.deleteLane id = some project') : project'.Healthy := by
  obtain ⟨-, rfl⟩ := deleteLane_eq_some_iff.1 hdelete
  refine h.of_keys (fun _ hk => hk) (fun _ hk => hk) (fun k hk => ?_) (fun _ => isSome_of_filter)
    (fun _ hk => hk) h.sparse
  simpa using isSome_of_erase hk

theorem Healthy.deleteInstrument (h : project.Healthy) {id : InstrumentId}
    (hdelete : project.deleteInstrument id = some project') : project'.Healthy := by
  obtain ⟨-, rfl⟩ := deleteInstrument_eq_some_iff.1 hdelete
  refine h.of_keys (fun _ => isSome_of_erase) (fun k hk => ?_) (fun _ hk => hk)
    (fun _ => isSome_of_filter) (fun _ hk => hk) fun k pattern hk i sequence hs => ?_
  · simpa using hk
  · simp only [OrderedMap.get?_mapValues, Option.map_eq_some_iff] at hk
    obtain ⟨before, hbefore, rfl⟩ := hk
    exact OrderedMap.forall_erase (h.sparse k before hbefore) id i sequence hs

theorem Healthy.deleteMixerTrack (h : project.Healthy) {id : MixerTrackId}
    (hdelete : project.deleteMixerTrack id = some project') : project'.Healthy := by
  obtain ⟨-, -, rfl⟩ := deleteMixerTrack_eq_some_iff.1 hdelete
  refine h.of_keys (fun k hk => ?_) (fun _ hk => hk) (fun _ hk => hk) (fun k hk => ?_) (fun k hk => ?_)
    h.sparse
  · rwa [OrderedMap.isSome_get?_foldl_modify (fun i => i)
      (fun _ => repointRouting id project.master)] at hk
  · rw [get?_foldl_releaseClip] at hk
    split_ifs at hk
    · exact Option.isSome_of_isSome_bind hk
    · exact hk
  · have hk := isSome_of_erase hk
    rwa [OrderedMap.isSome_get?_foldl_modify (fun i => i)
      (fun _ => MixerTrack.outputTo project.master)] at hk

/-! ### Storing -/

/-- Ids stay valid when one entity is stored under a valid one. -/
theorem valid_of_assign {α β : Type} [LinearOrder α] {m : OrderedMap α β} {valid : α → Prop}
    (h : ∀ k, (m.get? k).isSome → valid k) {k k' : α} {v : β} (hvalid : valid k)
    (hk' : ((m.assign k v).get? k').isSome) : valid k' := by
  rw [OrderedMap.get?_assign] at hk'
  split_ifs at hk' with hk
  · exact hk ▸ hvalid
  · exact h k' hk'

end Tables

/-- A created pattern stores no empty sequence. -/
def AddedEntity.Sparse : AddedEntity → Prop
  | pattern _ entity => entity.Sparse
  | _ => True

namespace Tables

variable {project project' : Tables}

theorem Healthy.restore (h : project.Healthy) {command : AddedEntity} (hsparse : command.Sparse)
    (hrestore : command.restore project = some project') : project'.Healthy := by
  obtain ⟨hvalid, hsp⟩ := h
  cases command with
  | instrument i entity =>
    obtain ⟨⟨hi, -⟩, rfl⟩ := AddedEntity.restore_eq_some_iff.1 hrestore
    exact ⟨{ hvalid with instruments := fun k => valid_of_assign hvalid.instruments hi }, hsp⟩
  | pattern i entity =>
    obtain ⟨⟨hi, -⟩, rfl⟩ := AddedEntity.restore_eq_some_iff.1 hrestore
    exact ⟨{ hvalid with patterns := fun k => valid_of_assign hvalid.patterns hi },
      OrderedMap.forall_assign hsp hsparse⟩
  | lane i entity =>
    obtain ⟨⟨hi, -⟩, rfl⟩ := AddedEntity.restore_eq_some_iff.1 hrestore
    exact ⟨{ hvalid with lanes := fun k => valid_of_assign hvalid.lanes hi }, hsp⟩
  | clip i entity =>
    obtain ⟨⟨hi, -⟩, rfl⟩ := AddedEntity.restore_eq_some_iff.1 hrestore
    exact ⟨{ hvalid with clips := fun k => valid_of_assign hvalid.clips hi }, hsp⟩
  | mixerTrack i entity =>
    obtain ⟨⟨hi, -⟩, rfl⟩ := AddedEntity.restore_eq_some_iff.1 hrestore
    exact ⟨{ hvalid with mixerTracks := fun k => valid_of_assign hvalid.mixerTracks hi }, hsp⟩

/-! ### Modifying -/

theorem isSome_of_modify {α β : Type} [LinearOrder α] {m : OrderedMap α β} {k k' : α} {f : β → β}
    (h : ((m.modify k f).get? k').isSome) : (m.get? k').isSome := by
  rw [OrderedMap.get?_modify] at h
  split_ifs at h
  · simpa using h
  · exact h

/-- Patterns stay sparse when one of them is modified and stays sparse. -/
theorem Sparse.modify (h : project.Sparse) {id : PatternId} {f : Pattern → Pattern}
    (hf : ∀ pattern : Pattern, pattern.Sparse → (f pattern).Sparse) :
    ({ project with patterns := project.patterns.modify id f } : Tables).Sparse :=
  OrderedMap.forall_modify h hf

theorem Healthy.write (h : project.Healthy) {target : EditTarget} {value : target.Value}
    (hwrite : target.write project value = some project') : project'.Healthy := by
  cases target with
  | instrument id | lane id | clip id | mixerTrack id =>
    simp only [EditTarget.write, updateInstrument, updateLane, updateClip,
      updateMixerTrack] at hwrite
    split_ifs at hwrite
    cases hwrite
    refine h.of_keys (fun _ hk => ?_) (fun _ hk => hk) (fun _ hk => ?_) (fun _ hk => ?_)
      (fun _ hk => ?_) h.sparse
    all_goals first | exact isSome_of_modify hk | exact hk
  | patternMeta id =>
    simp only [EditTarget.write, updatePattern] at hwrite
    split_ifs at hwrite
    cases hwrite
    exact h.of_keys (fun _ hk => hk) (fun _ hk => isSome_of_modify hk) (fun _ hk => hk)
      (fun _ hk => hk) (fun _ hk => hk) (h.sparse.modify fun _ hp => hp)

theorem Healthy.updateMixerTrack (h : project.Healthy) {id : MixerTrackId}
    {f : MixerTrack → MixerTrack} (hupdate : project.updateMixerTrack id f = some project') :
    project'.Healthy := by
  unfold Tables.updateMixerTrack at hupdate
  split_ifs at hupdate
  cases hupdate
  exact h.of_keys (fun _ hk => hk) (fun _ hk => hk) (fun _ hk => hk) (fun _ hk => hk)
    (fun _ hk => isSome_of_modify hk) h.sparse

theorem Healthy.mapClips (h : project.Healthy) (f : ClipId → Clip → Clip) :
    (project.mapClips f).Healthy :=
  h.of_keys (fun _ hk => hk) (fun _ hk => hk) (fun _ hk => hk) (fun _ hk => by simpa using hk)
    (fun _ hk => hk) h.sparse

theorem Healthy.withNotes (h : project.Healthy) (id : PatternId) (instrument : InstrumentId)
    (notes : List Note) : (project.withNotes id instrument notes).Healthy :=
  h.of_keys (fun _ hk => hk) (fun _ hk => isSome_of_modify hk) (fun _ hk => hk) (fun _ hk => hk)
    (fun _ hk => hk) (h.sparse.modify fun _ hp => hp.withSequence _ _)

end Tables

namespace Tables

variable {project : Tables}

theorem Healthy.setTransport (h : project.Healthy) {transport : TransportState} :
    (project.setTransport transport).Healthy :=
  ⟨⟨h.validIds.instruments, h.validIds.patterns, h.validIds.lanes, h.validIds.clips,
    h.validIds.mixerTracks⟩, h.sparse⟩

theorem Healthy.setMeta (h : project.Healthy) {metadata : ProjectMeta} :
    (project.setMeta metadata).Healthy :=
  ⟨⟨h.validIds.instruments, h.validIds.patterns, h.validIds.lanes, h.validIds.clips,
    h.validIds.mixerTracks⟩, h.sparse⟩

end Tables

/-! ### Composites -/

namespace Command

variable {project project' : Tables}

/-- Commands that took effect one after the other are one command that took effect. -/
theorem done_composite {inv : Tables → Prop} {commands : List Command}
    (h : History.Chain apply revert inv commands project project') :
    Done (.composite commands) project project' := by
  have hall : ∃ c₁ c₂ c₃, revertAll commands project' = ⟨true, c₁, project⟩ ∧
      applyAll c₁ project = ⟨true, c₂, project'⟩ ∧ revertAll c₂ project' = ⟨true, c₃, project⟩ ∧
      applyAll c₃ project = ⟨true, c₂, project'⟩ := by
    induction h with
    | nil s => exact ⟨[], [], [], rfl, rfl, rfl, rfl⟩
    | cons hd _ _ ih =>
      obtain ⟨e₁, h₁, e₂, e₃, h₂, h₃, h₄⟩ := hd
      obtain ⟨c₁, c₂, c₃, g₁, g₂, g₃, g₄⟩ := ih
      refine ⟨e₁ :: c₁, e₂ :: c₂, e₃ :: c₃, ?_, ?_, ?_, ?_⟩
      · simp [revertAll, g₁, h₁]
      · simp [applyAll, h₂, g₂]
      · simp [revertAll, g₃, h₃]
      · simp [applyAll, h₄, g₄]
  obtain ⟨c₁, c₂, c₃, g₁, g₂, g₃, g₄⟩ := hall
  refine ⟨.composite c₁, ?_, .composite c₂, .composite c₃, ?_, ?_, ?_⟩
  · rw [revert, g₁]; rfl
  · rw [apply, g₂]; rfl
  · rw [revert, g₃]; rfl
  · rw [apply, g₄]; rfl

/-! ### Readiness -/

mutual

/-- What a command relies on when it is applied. -/
def Ready : Command → Tables → Prop
  | add command, project =>
    ((command.restore project).isSome → command.Fresh project) ∧ command.Sparse
  | edit command, project => command.target.read project = some command.before
  | effectParam command, project => command.Matches project
  | note command, project => ∀ pattern, project.patterns.get? command.pattern = some pattern →
      (∀ note ∈ command.removed, isValidNote note = true) ∧
        NoteCommand.TiesRestored (pattern.notesOf command.instrument) command.removed command.added
  | transport command, project => command.before = project.transport
  | metadata command, project => command.before = project.metadata
  | composite commands, project => ReadyAll commands project
  | _, _ => True

/-- Each command is ready when its turn comes. -/
def ReadyAll : List Command → Tables → Prop
  | [], _ => True
  | command :: commands, project =>
    Ready command project ∧
      ((apply command project).ok = true → ReadyAll commands (apply command project).state)

end

/-- An apply that fails leaves the project alone; one that succeeds can be taken back and made
again, and leaves a healthy project. -/
structure Exact (command : Command) (project : Tables) : Prop where
  failed : (apply command project).ok = false → (apply command project).state = project
  done : (apply command project).ok = true →
    Done (apply command project).command project (apply command project).state
  healthy : (apply command project).ok = true → (apply command project).state.Healthy

/-- A command of one kind, whose own steps are exact. -/
theorem Exact.of_map {E : Type} {f : E → Command} {applyE revertE : E → Tables → Outcome Tables E}
    (happly : ∀ command project, apply (f command) project = (applyE command project).map f)
    (hrevert : ∀ command project, revert (f command) project = (revertE command project).map f)
    {command : E}
    (hfailed : (applyE command project).ok = false → (applyE command project).state = project)
    (hdone : ∀ command' project', applyE command project = ⟨true, command', project'⟩ →
      History.Done applyE revertE command' project project' ∧ project'.Healthy) :
    Exact (f command) project := by
  have hmk : (applyE command project).ok = true → applyE command project =
      ⟨true, (applyE command project).command, (applyE command project).state⟩ := fun h => by
    rw [← h]
  refine ⟨fun h => ?_, fun h => ?_, fun h => ?_⟩
  · rw [happly] at h ⊢
    exact hfailed h
  · rw [happly] at h ⊢
    exact (hdone _ _ (hmk h)).1.map happly hrevert
  · rw [happly] at h ⊢
    exact (hdone _ _ (hmk h)).2

theorem state_ofOption {E : Type} {command : E} {o : Option Tables}
    (h : (Outcome.ofOption command project o).ok = false) :
    (Outcome.ofOption command project o).state = project := by
  cases o with
  | none => rfl
  | some project' => cases h

theorem exact_add {command : AddedEntity} (hp : project.Healthy)
    (hfresh : (command.restore project).isSome → command.Fresh project)
    (hsparse : command.Sparse) : Exact (.add command) project := by
  refine .of_map (fun _ _ => by rw [apply]) (fun _ _ => by rw [revert]) state_ofOption
    fun command' project' h => ?_
  obtain ⟨hrestore, -⟩ := Outcome.ofOption_eq_ok_iff.1 h
  exact ⟨AddedEntity.done_of_restore (hfresh (by simp [hrestore])) h, hp.restore hsparse hrestore⟩

theorem exact_removeInstrument (hp : project.Healthy) (command : RemoveInstrument) :
    Exact (.removeInstrument command) project := by
  refine .of_map (fun _ _ => by rw [apply]) (fun _ _ => by rw [revert]) (fun h => ?_)
    fun command' project' h =>
      ⟨RemoveInstrument.done_of_apply hp.validIds hp.sparse h, ?_⟩
  · unfold RemoveInstrument.apply at h ⊢
    split
    · rfl
    · simp_all [state_ofOption]
  · obtain ⟨-, -, -, hdelete⟩ := RemoveInstrument.apply_eq_ok_iff.1 h
    exact hp.deleteInstrument hdelete

theorem exact_removePattern (hp : project.Healthy) (command : RemovePattern) :
    Exact (.removePattern command) project := by
  refine .of_map (fun _ _ => by rw [apply]) (fun _ _ => by rw [revert]) (fun h => ?_)
    fun command' project' h => ⟨RemovePattern.done_of_apply hp.validIds h, ?_⟩
  · unfold RemovePattern.apply at h ⊢
    split
    · rfl
    · simp_all [state_ofOption]
  · obtain ⟨-, -, -, hdelete⟩ := RemovePattern.apply_eq_ok_iff.1 h
    exact hp.deletePattern hdelete

theorem exact_removeLane (hp : project.Healthy) (command : RemoveLane) :
    Exact (.removeLane command) project := by
  refine .of_map (fun _ _ => by rw [apply]) (fun _ _ => by rw [revert]) (fun h => ?_)
    fun command' project' h => ⟨RemoveLane.done_of_apply hp.validIds h, ?_⟩
  · unfold RemoveLane.apply at h ⊢
    split
    · rfl
    · simp_all [state_ofOption]
  · obtain ⟨-, -, -, hdelete⟩ := RemoveLane.apply_eq_ok_iff.1 h
    exact hp.deleteLane hdelete

theorem exact_removeClip (hp : project.Healthy) (command : RemoveClip) :
    Exact (.removeClip command) project := by
  refine .of_map (fun _ _ => by rw [apply]) (fun _ _ => by rw [revert]) (fun h => ?_)
    fun command' project' h => ⟨RemoveClip.done_of_apply hp.validIds h, ?_⟩
  · unfold RemoveClip.apply at h ⊢
    split
    · rfl
    · simp_all [state_ofOption]
  · obtain ⟨-, -, -, hdelete⟩ := RemoveClip.apply_eq_ok_iff.1 h
    exact hp.deleteClip hdelete

theorem exact_removeMixerTrack (hp : project.Healthy) (command : RemoveMixerTrack) :
    Exact (.removeMixerTrack command) project := by
  refine .of_map (fun _ _ => by rw [apply]) (fun _ _ => by rw [revert]) (fun h => ?_)
    fun command' project' h => ⟨RemoveMixerTrack.done_of_apply hp.validIds h, ?_⟩
  · unfold RemoveMixerTrack.apply at h ⊢
    split
    · rfl
    · simp_all [state_ofOption]
  · obtain ⟨-, -, -, hdelete⟩ := RemoveMixerTrack.apply_eq_ok_iff.1 h
    exact hp.deleteMixerTrack hdelete

theorem exact_edit {command : EditCommand} (hp : project.Healthy)
    (hread : command.target.read project = some command.before) :
    Exact (.edit command) project := by
  refine .of_map (fun _ _ => by rw [apply]) (fun _ _ => by rw [revert]) state_ofOption
    fun command' project' h => ?_
  obtain ⟨hwrite, rfl⟩ := Outcome.ofOption_eq_ok_iff.1 h
  exact ⟨EditCommand.done_of_read hread hwrite, hp.write hwrite⟩

theorem exact_effectParam {command : EffectParamCommand} (hp : project.Healthy)
    (hmatches : command.Matches project) : Exact (.effectParam command) project := by
  refine .of_map (fun _ _ => by rw [apply]) (fun _ _ => by rw [revert]) state_ofOption
    fun command' project' h => ?_
  obtain ⟨hwrite, rfl⟩ := Outcome.ofOption_eq_ok_iff.1 h
  exact ⟨EffectParamCommand.done_of_matches hmatches hwrite, hp.updateMixerTrack hwrite⟩

theorem exact_note {command : NoteCommand} (hp : project.Healthy)
    (hready : ∀ pattern, project.patterns.get? command.pattern = some pattern →
      (∀ note ∈ command.removed, isValidNote note = true) ∧
        NoteCommand.TiesRestored (pattern.notesOf command.instrument) command.removed
          command.added) :
    Exact (.note command) project := by
  refine .of_map (fun _ _ => by rw [apply]) (fun _ _ => by rw [revert]) (fun h => ?_)
    fun command' project' h => ?_
  · unfold NoteCommand.apply at h ⊢
    split
    · rfl
    · split <;> simp_all
  · obtain ⟨pattern, hpattern, happlies⟩ := NoteCommand.apply_ok_iff.1 (congrArg Outcome.ok h)
    obtain ⟨-, rfl, rfl⟩ := (NoteCommand.apply_eq_ok_iff hpattern).1 h
    obtain ⟨hvalid, hties⟩ := hready pattern hpattern
    exact ⟨NoteCommand.done_of_restored hpattern (hp.sparse _ pattern hpattern) happlies hvalid
      hties, (hp.withNotes _ _ _).mapClips _⟩

theorem exact_transport {command : TransportCommand} (hp : project.Healthy)
    (hbefore : command.before = project.transport) : Exact (.transport command) project := by
  refine .of_map (fun _ _ => by rw [apply]) (fun _ _ => by rw [revert]) (fun h => ?_)
    fun command' project' h => ?_
  · rw [TransportCommand.apply_eq] at h
    cases h
  · have hdone := TransportCommand.done_of_before hbefore
    have hstate : project' = command.result project := by
      rw [TransportCommand.apply_eq] at h
      exact (Outcome.mk.inj h).2.2.symm
    rw [h] at hdone
    subst hstate
    exact ⟨hdone, hp.setTransport.mapClips _⟩

theorem exact_metadata {command : MetaCommand} (hp : project.Healthy)
    (hbefore : command.before = project.metadata) : Exact (.metadata command) project := by
  refine .of_map (fun _ _ => by rw [apply]) (fun _ _ => by rw [revert]) (fun h => ?_)
    fun command' project' h => ?_
  · cases h
  · obtain ⟨-, rfl, rfl⟩ := Outcome.mk.inj h
    exact ⟨MetaCommand.done_of_before hbefore, hp.setMeta⟩

/-- Like `Exact`, of commands applied one after the other. -/
structure ExactAll (commands : List Command) (project : Tables) : Prop where
  failed : (applyAll commands project).ok = false → (applyAll commands project).state = project
  chain : (applyAll commands project).ok = true →
    History.Chain apply revert Tables.Healthy (applyAll commands project).command project
      (applyAll commands project).state
  healthy : (applyAll commands project).ok = true → (applyAll commands project).state.Healthy

theorem exact_composite {commands : List Command} (h : ExactAll commands project) :
    Exact (.composite commands) project := by
  refine ⟨fun hok => ?_, fun hok => ?_, fun hok => ?_⟩
  · rw [apply] at hok ⊢
    exact h.failed hok
  · rw [apply] at hok ⊢
    exact done_composite (h.chain hok)
  · rw [apply] at hok ⊢
    exact h.healthy hok

theorem exactAll_nil (hp : project.Healthy) : ExactAll [] project := by
  refine ⟨fun _ => ?_, fun _ => ?_, fun _ => ?_⟩ <;> rw [applyAll]
  · exact .nil project
  · exact hp

/-- A command and those after it: when one of these fails, the first is rolled back. -/
theorem exactAll_cons {command : Command} {commands : List Command} (h : Exact command project)
    (hall : (apply command project).ok = true → ExactAll commands (apply command project).state) :
    ExactAll (command :: commands) project := by
  by_cases hok : (apply command project).ok = true
  · have hall := hall hok
    by_cases hlater : (applyAll commands (apply command project).state).ok = true
    · have heq : applyAll (command :: commands) project =
          ⟨true, (apply command project).command ::
            (applyAll commands (apply command project).state).command,
            (applyAll commands (apply command project).state).state⟩ := by
        rw [applyAll]
        simp [hok, hlater]
      refine ⟨fun hf => ?_, fun _ => ?_, fun _ => ?_⟩ <;> rw [heq] at *
      · cases hf
      · exact .cons (h.done hok) (h.healthy hok) (hall.chain hlater)
      · exact hall.healthy hlater
    · rw [Bool.not_eq_true] at hlater
      obtain ⟨rolled, hrevert, -⟩ := h.done hok
      have heq : applyAll (command :: commands) project =
          ⟨false, rolled :: (applyAll commands (apply command project).state).command,
            project⟩ := by
        rw [applyAll]
        simp [hok, hlater, hall.failed hlater, hrevert]
      refine ⟨fun _ => by rw [heq], fun hf => ?_, fun hf => ?_⟩ <;>
      · rw [heq] at hf
        cases hf
  · rw [Bool.not_eq_true] at hok
    have heq : applyAll (command :: commands) project =
        ⟨false, (apply command project).command :: commands, project⟩ := by
      rw [applyAll]
      simp [hok, h.failed hok]
    refine ⟨fun _ => by rw [heq], fun hf => ?_, fun hf => ?_⟩ <;>
    · rw [heq] at hf
      cases hf

mutual

/-- **A command that is ready is exact.** -/
theorem exact_of_ready : ∀ (command : Command) (project : Tables), project.Healthy →
    Ready command project → Exact command project
  | add _, _, hp, h => exact_add hp h.1 h.2
  | removeInstrument command, _, hp, _ => exact_removeInstrument hp command
  | removePattern command, _, hp, _ => exact_removePattern hp command
  | removeLane command, _, hp, _ => exact_removeLane hp command
  | removeClip command, _, hp, _ => exact_removeClip hp command
  | removeMixerTrack command, _, hp, _ => exact_removeMixerTrack hp command
  | edit _, _, hp, h => exact_edit hp h
  | effectParam _, _, hp, h => exact_effectParam hp h
  | note _, _, hp, h => exact_note hp h
  | transport _, _, hp, h => exact_transport hp h
  | metadata _, _, hp, h => exact_metadata hp h
  | composite commands, project, hp, h => exact_composite (exactAll_of_ready commands project hp h)

theorem exactAll_of_ready : ∀ (commands : List Command) (project : Tables), project.Healthy →
    ReadyAll commands project → ExactAll commands project
  | [], _, hp, _ => exactAll_nil hp
  | command :: commands, project, hp, h =>
    have hexact := exact_of_ready command project hp h.1
    exactAll_cons hexact fun hok =>
      exactAll_of_ready commands _ (hexact.healthy hok) (h.2 hok)

end

end Command

end OneBeat
