import OneBeat.Session.Calls

/-!
# The published schedule

Whether the engine plays the project that is open.  Every edit notifies the scheduler, and every
publish flushes it; only `Project::adopt` replaces the project without notice, and
`ob_engine_project_new` publishes right after it.

* `Session.UpToDate` : unless a pattern is previewed, the engine was handed the events of the
  project, and the tables of indices are the ones of that same flatten.
* `Session.upToDate_call_iff` : a call keeps this exactly under `Session.Heard`.
* `Session.upToDate_run_iff` : so does a run, exactly when each of its calls does.
-/

namespace OneBeat

/-! ### What a flatten does not read -/

section

variable {project : Tables} {options : FlattenOptions}

theorem flatten_setMeta (metadata : ProjectMeta) :
    flatten (project.setMeta metadata) options = flatten project options := rfl

/-- What flattening reads of an instrument. -/
structure Instrument.SoundsAs (f : Instrument → Instrument) : Prop where
  muted : ∀ instrument, (f instrument).muted = instrument.muted
  soloed : ∀ instrument, (f instrument).soloed = instrument.soloed
  channelSettings : ∀ instrument, (f instrument).channelSettings = instrument.channelSettings

variable {f : Instrument → Instrument}

/-- The project with one instrument changed. -/
def Tables.modifyInstrument (id : InstrumentId) (f : Instrument → Instrument) (project : Tables) :
    Tables :=
  { project with instruments := project.instruments.modify id f }

theorem instrumentIndex_modifyInstrument (id : InstrumentId) :
    instrumentIndex (project.modifyInstrument id f) = instrumentIndex project := by
  simp [instrumentIndex, Tables.modifyInstrument, OrderedMap.keys, OrderedMap.modify,
    OrderedMap.mapValues, Function.comp_def]

theorem audioChannelIndex_modifyInstrument (id : InstrumentId) :
    audioChannelIndex (project.modifyInstrument id f) = audioChannelIndex project := by
  simp [audioChannelIndex, Tables.modifyInstrument, OrderedMap.size, OrderedMap.modify,
    OrderedMap.mapValues]

theorem resolveSequence_modifyInstrument (hf : Instrument.SoundsAs f) (id : InstrumentId) :
    resolveSequence (project.modifyInstrument id f) = resolveSequence project := by
  have hsolo : ((project.modifyInstrument id f).instruments.entries.any fun entry =>
      entry.2.soloed) = project.instruments.entries.any fun entry => entry.2.soloed := by
    simp only [Tables.modifyInstrument, OrderedMap.modify, OrderedMap.mapValues, List.any_map,
      Function.comp_def]
    refine congrArg project.instruments.entries.any ?_
    funext entry
    split_ifs
    · exact hf.soloed _
    · rfl
  funext pattern patternLength clip entry
  unfold resolveSequence
  rw [hsolo, instrumentIndex_modifyInstrument]
  simp only [Tables.modifyInstrument, OrderedMap.get?_modify]
  by_cases hid : entry.1 = id
  · rw [if_pos hid]
    cases project.instruments.get? entry.1 with
    | none => rfl
    | some instrument =>
      cases Entries.get? (instrumentIndex project) entry.1 with
      | none => rfl
      | some index =>
        simp only [Option.map_some, hf.muted, hf.soloed, hf.channelSettings]
  · rw [if_neg hid]

/-- **What is not read does not show.** -/
theorem flatten_modifyInstrument (hf : Instrument.SoundsAs f) (id : InstrumentId) :
    flatten (project.modifyInstrument id f) options = flatten project options := by
  have hautomation : resolveAutomation (project.modifyInstrument id f) =
      resolveAutomation project := by
    funext clip automation
    unfold resolveAutomation
    rw [instrumentIndex_modifyInstrument]
    rfl
  have hclip : resolveClip (project.modifyInstrument id f) = resolveClip project := by
    funext k clip
    unfold resolveClip
    rw [hautomation, resolveSequence_modifyInstrument hf, audioChannelIndex_modifyInstrument]
    rfl
  have hclips : resolveClips (project.modifyInstrument id f) = resolveClips project := by
    unfold resolveClips
    rw [hclip]
    rfl
  unfold flatten
  rw [hclips, instrumentIndex_modifyInstrument, audioChannelIndex_modifyInstrument]
  rfl

/-- A sweep over instruments that changes nothing that is read. -/
theorem flatten_foldl_updateInstrument {ε : Type} (key : ε → InstrumentId)
    {f : ε → Instrument → Instrument} (hf : ∀ e, Instrument.SoundsAs (f e)) (es : List ε)
    (project : Tables) :
    flatten (es.foldl (fun project e => (project.updateInstrument (key e) (f e)).getD project)
      project) options = flatten project options := by
  induction es generalizing project with
  | nil => rfl
  | cons e es ih =>
    rw [List.foldl_cons, ih]
    unfold Tables.updateInstrument
    split_ifs
    · exact flatten_modifyInstrument (hf e) (key e)
    · rfl

theorem flatten_nameLanes (names : List (InstrumentId × String)) :
    flatten (project.nameLanes names) options = flatten project options :=
  flatten_foldl_updateInstrument Prod.fst (f := fun entry => Instrument.named entry.2)
    (fun _ => ⟨fun _ => rfl, fun _ => rfl, fun _ => rfl⟩) names project

end

namespace Session

/-- Two projects sound alike, and number their audio channels and inserts alike. -/
def SoundsAs (sampleRate : Double) (project project' : Tables) : Prop :=
  let heard := flatten project { sampleRate }
  let heard' := flatten project' { sampleRate }
  heard'.schedule.events = heard.schedule.events ∧
    heard'.audioChannelIndex = heard.audioChannelIndex ∧ heard'.effectIndex = heard.effectIndex

/-- The engine was handed the events of a project, and its tables are kept. -/
def Shows (s : Session) (project : Tables) : Prop :=
  let heard := flatten project { sampleRate := s.sampleRate }
  (∃ schedule, s.published = some schedule ∧ schedule.events = heard.schedule.events) ∧
    s.audioChannelIndices = heard.audioChannelIndex ∧ s.effectIndices = heard.effectIndex

/-- **The published schedule is the model's.** -/
def UpToDate (s : Session) : Prop := s.patternPreview = false → s.Shows s.project

/-- What a publish needs: a scheduler that is not dirty has flushed what is open. -/
def Ready (s : Session) : Prop :=
  s.patternPreview = false → s.dirty = false → s.Shows s.project

variable {s s' : Session} {host again : InstrumentId → HostAnswer}

theorem Shows.soundsAs {project project' : Tables} (h : s.Shows project)
    (hsounds : SoundsAs s.sampleRate project project') : s.Shows project' := by
  obtain ⟨⟨schedule, hpublished, hevents⟩, haudio, heffects⟩ := h
  obtain ⟨hevents', haudio', heffects'⟩ := hsounds
  exact ⟨⟨schedule, hpublished, hevents.trans hevents'.symm⟩, haudio.trans haudio'.symm,
    heffects.trans heffects'.symm⟩

theorem Shows.soundsAs_of_shows {project project' : Tables} (h : s.Shows project)
    (h' : s.Shows project') : SoundsAs s.sampleRate project project' := by
  obtain ⟨⟨schedule, hpublished, hevents⟩, haudio, heffects⟩ := h
  obtain ⟨⟨schedule', hpublished', hevents'⟩, haudio', heffects'⟩ := h'
  obtain rfl := Option.some_inj.1 (hpublished.symm.trans hpublished')
  exact ⟨hevents'.symm.trans hevents, haudio'.symm.trans haudio, heffects'.symm.trans heffects⟩

theorem soundsAs_of_eq {sampleRate : Double} {project project' : Tables}
    (h : flatten project' { sampleRate } = flatten project { sampleRate }) :
    SoundsAs sampleRate project project' := by
  unfold SoundsAs
  rw [h]
  exact ⟨rfl, rfl, rfl⟩

/-! ### Publishing -/

theorem fitClipsToPatterns_clean (h : s.fitClipsToPatterns.dirty = false) :
    s.dirty = false ∧ s.fitClipsToPatterns.project = s.project := by
  simp only [fitClipsToPatterns, Bool.or_eq_false_iff, Bool.not_eq_false', List.isEmpty_iff] at h
  refine ⟨h.1, ?_⟩
  unfold fitClipsToPatterns project
  rw [h.2]
  rfl

theorem Ready.fitClipsToPatterns (h : s.Ready) : s.fitClipsToPatterns.Ready := by
  intro hpreview hdirty
  obtain ⟨hclean, hproject⟩ := fitClipsToPatterns_clean hdirty
  rw [hproject]
  exact h hpreview hclean

theorem patternPreview_flush : s.flush.patternPreview = s.patternPreview := by
  obtain ⟨_, _, _, _, _, hflush⟩ := s.flush_eq
  rw [hflush]

/-- **A flush shows what is open.** -/
theorem Ready.flush (h : s.Ready) : s.flush.UpToDate := by
  intro hpreview
  have hflush : s.patternPreview = false := patternPreview_flush.symm.trans hpreview
  unfold Session.flush flushes reflatten
  rw [hflush]
  cases hdirty : s.dirty with
  | false => simpa [adoptFlattened, Shows, project] using h hflush hdirty
  | true =>
    simp only [Bool.false_and, Bool.not_false, Bool.and_self, ↓reduceIte, adoptFlattened]
    exact ⟨⟨_, rfl, rfl⟩, rfl, rfl⟩

theorem UpToDate.syncHosted (h : s.UpToDate) (replaced : Bool) :
    (s.syncHosted host replaced).UpToDate := fun hpreview =>
  Shows.soundsAs (s := s.syncHosted host replaced) (h hpreview)
    (soundsAs_of_eq (flatten_nameLanes _))

/-- **A publish shows what is open.** -/
theorem Ready.publishModel (h : s.Ready) (replaced : Bool) :
    (s.publishModel host replaced).UpToDate :=
  (h.fitClipsToPatterns.flush.syncHosted replaced :)

/-! ### The history -/

/-- Only the project and its history may have moved, and the scheduler knows. -/
structure Moves (s s' : Session) : Prop where
  preview : s'.patternPreview = s.patternPreview
  published : s'.published = s.published
  audio : s'.audioChannelIndices = s.audioChannelIndices
  effects : s'.effectIndices = s.effectIndices
  sampleRate : s'.sampleRate = s.sampleRate
  clean : s'.dirty = false → s.dirty = false ∧ s'.project = s.project

theorem Moves.refl (s : Session) : s.Moves s := ⟨rfl, rfl, rfl, rfl, rfl, fun h => ⟨h, rfl⟩⟩

theorem Moves.trans {s'' : Session} (h : s.Moves s') (h' : s'.Moves s'') : s.Moves s'' where
  preview := h'.preview.trans h.preview
  published := h'.published.trans h.published
  audio := h'.audio.trans h.audio
  effects := h'.effects.trans h.effects
  sampleRate := h'.sampleRate.trans h.sampleRate
  clean hdirty := by
    obtain ⟨hclean', hproject'⟩ := h'.clean hdirty
    obtain ⟨hclean, hproject⟩ := h.clean hclean'
    exact ⟨hclean, hproject'.trans hproject⟩

theorem Moves.shows_iff (h : s.Moves s') {project : Tables} :
    s'.Shows project ↔ s.Shows project := by
  unfold Shows
  rw [h.published, h.audio, h.effects, h.sampleRate]

/-- After whatever the history did, a publish will show what is open. -/
theorem Moves.ready (h : s.Moves s') (hs : s.UpToDate) : s'.Ready := by
  intro hpreview hdirty
  obtain ⟨-, hproject⟩ := h.clean hdirty
  rw [h.shows_iff, hproject]
  exact hs (h.preview.symm.trans hpreview)

/-- Without a publish, what is open must sound as it did. -/
theorem Moves.upToDate_iff (h : s.Moves s') (hs : s.UpToDate) : s'.UpToDate ↔
    s.patternPreview = true ∨ SoundsAs s.sampleRate s.project s'.project := by
  unfold UpToDate
  rw [h.preview]
  cases hpreview : s.patternPreview with
  | true => simp
  | false =>
    simp only [forall_const, Bool.false_eq_true, false_or]
    rw [h.shows_iff]
    exact ⟨(hs hpreview).soundsAs_of_shows, (hs hpreview).soundsAs⟩

theorem soundsAs_refl (sampleRate : Double) (project : Tables) :
    SoundsAs sampleRate project project := ⟨rfl, rfl, rfl⟩

theorem project_record (command : Command) (bus : CommandBus) :
    (bus.record command).project = bus.project := by
  unfold CommandBus.record
  split
  · rfl
  · split
    · rfl
    · split <;> rfl

theorem execute_some (s : Session) (command : Command) :
    (s.execute (some command)).1 = (command.apply s.project).ok ∧
      (s.execute (some command)).2.project = (command.apply s.project).state := by
  unfold execute CommandBus.execute project
  dsimp only
  split_ifs with hok
  · exact ⟨hok.symm, project_record _ _⟩
  · exact ⟨(Bool.eq_false_of_not_eq_true hok).symm, rfl⟩

theorem moves_execute (command : Option Command) : s.Moves (s.execute command).2 where
  preview := rfl
  published := rfl
  audio := rfl
  effects := rfl
  sampleRate := rfl
  clean hdirty := by
    cases command with
    | none =>
      simp only [execute, Option.map_none, Option.getD_none, Bool.or_false] at hdirty
      exact ⟨hdirty, rfl⟩
    | some command =>
      simp only [execute, Option.map_some, Option.getD_some, Bool.or_eq_false_iff] at hdirty
      refine ⟨hdirty.1, ?_⟩
      rw [(execute_some s command).2]
      exact Command.state_apply_of_silent command s.project hdirty.2

/-- What an undo does to the project. -/
theorem undo_cons {entry : Command} {entries : List Command}
    (h : s.bus.undoStack = entry :: entries) :
    s.undo.1 = (entry.revert s.project).ok ∧ s.undo.2.project = (entry.revert s.project).state := by
  unfold undo CommandBus.undo project
  rw [h]
  dsimp only
  split_ifs with hok
  · exact ⟨hok.symm, rfl⟩
  · exact ⟨(Bool.eq_false_of_not_eq_true hok).symm, rfl⟩

theorem undo_nil (h : s.bus.undoStack = []) : s.undo.1 = false ∧ s.undo.2.project = s.project := by
  unfold undo CommandBus.undo project
  rw [h]
  exact ⟨rfl, rfl⟩

/-- What a redo does to the project. -/
theorem redo_cons {entry : Command} {entries : List Command}
    (h : s.bus.redoStack = entry :: entries) :
    s.redo.1 = (entry.apply s.project).ok ∧ s.redo.2.project = (entry.apply s.project).state := by
  unfold redo CommandBus.redo project
  rw [h]
  dsimp only
  split_ifs with hok
  · exact ⟨hok.symm, rfl⟩
  · exact ⟨(Bool.eq_false_of_not_eq_true hok).symm, rfl⟩

theorem redo_nil (h : s.bus.redoStack = []) : s.redo.1 = false ∧ s.redo.2.project = s.project := by
  unfold redo CommandBus.redo project
  rw [h]
  exact ⟨rfl, rfl⟩

theorem moves_undo (s : Session) : s.Moves s.undo.2 where
  preview := rfl
  published := rfl
  audio := rfl
  effects := rfl
  sampleRate := rfl
  clean hdirty := by
    cases h : s.bus.undoStack with
    | nil =>
      simp only [undo, h, List.head?_nil, Option.map_none, Option.getD_none, Bool.or_false] at hdirty
      exact ⟨hdirty, (undo_nil h).2⟩
    | cons entry entries =>
      simp only [undo, h, List.head?_cons, Option.map_some, Option.getD_some,
        Bool.or_eq_false_iff] at hdirty
      exact ⟨hdirty.1, (undo_cons h).2.trans (Command.state_revert_of_silent entry _ hdirty.2)⟩

theorem moves_redo (s : Session) : s.Moves s.redo.2 where
  preview := rfl
  published := rfl
  audio := rfl
  effects := rfl
  sampleRate := rfl
  clean hdirty := by
    cases h : s.bus.redoStack with
    | nil =>
      simp only [redo, h, List.head?_nil, Option.map_none, Option.getD_none, Bool.or_false] at hdirty
      exact ⟨hdirty, (redo_nil h).2⟩
    | cons entry entries =>
      simp only [redo, h, List.head?_cons, Option.map_some, Option.getD_some,
        Bool.or_eq_false_iff] at hdirty
      exact ⟨hdirty.1, (redo_cons h).2.trans (Command.state_apply_of_silent entry _ hdirty.2)⟩

/-- Moving the bounds of transactions does not touch the project. -/
theorem moves_of_project {bus : CommandBus} (h : bus.project = s.bus.project) :
    s.Moves { s with bus } := ⟨rfl, rfl, rfl, rfl, rfl, fun hdirty => ⟨hdirty, h⟩⟩

theorem moves_beginTransaction (s : Session) : s.Moves s.beginTransaction := moves_of_project rfl

theorem moves_commitTransaction (s : Session) : s.Moves s.commitTransaction := by
  refine moves_of_project ?_
  unfold CommandBus.commitTransaction
  split <;> rfl

theorem moves_abortTransaction (s : Session) : s.Moves s.abortTransaction where
  preview := rfl
  published := rfl
  audio := rfl
  effects := rfl
  sampleRate := rfl
  clean hdirty := by
    simp only [abortTransaction, project, CommandBus.abortTransaction] at hdirty ⊢
    cases h : s.bus.opened with
    | nil =>
      simp only [h, List.head?_nil, Option.map_none, Option.getD_none, Bool.or_false] at hdirty
      exact ⟨hdirty, rfl⟩
    | cons commands outer =>
      simp only [h, List.head?_cons, Option.map_some, Option.getD_some,
        Bool.or_eq_false_iff] at hdirty
      exact ⟨hdirty.1, Command.state_revert_of_silent _ _ hdirty.2⟩

theorem moves_executeAll (builds : List (Tables → Option Command)) (s : Session) :
    s.Moves (s.executeAll builds).2 := by
  induction builds generalizing s with
  | nil => exact .refl s
  | cons build builds ih =>
    unfold executeAll
    dsimp only
    split_ifs
    · exact (moves_execute _).trans (ih _)
    · exact moves_execute _

theorem moves_transact (builds : List (Tables → Option Command)) (s : Session) :
    s.Moves (s.transact builds).2 := by
  have h := (moves_beginTransaction s).trans (moves_executeAll builds _)
  unfold transact
  dsimp only
  split_ifs
  · exact h.trans (moves_commitTransaction _)
  · exact h.trans (moves_abortTransaction _)

theorem moves_repairSelection (s : Session) : s.Moves s.repairSelection := by
  unfold repairSelection
  split
  · exact .refl s
  · split_ifs
    · exact .refl s
    · exact ⟨rfl, rfl, rfl, rfl, rfl, fun hdirty => ⟨hdirty, rfl⟩⟩

/-! ### What a call must meet -/

/-- The command applies, or leaves a project that sounds as it did. -/
def Lands (s : Session) (command : Option Command) : Prop :=
  ∀ c, command = some c →
    (c.apply s.project).ok = true ∨ SoundsAs s.sampleRate s.project (c.apply s.project).state

/-- What a step of the history left was published, or sounds as it did. -/
def Settles (s : Session) (done : Bool × Session) : Prop :=
  done.1 = true ∨ SoundsAs s.sampleRate s.project done.2.project

theorem lands_of_single {command : Option Command}
    (hsingle : ∀ c, command = some c → c.isComposite = false) : s.Lands command := by
  intro c hc
  cases hok : (c.apply s.project).ok with
  | true => exact .inl rfl
  | false =>
    refine .inr (soundsAs_of_eq ?_)
    rw [Command.state_apply_of_not_ok (hsingle c hc) hok]

/-- A command that applies is published. -/
theorem UpToDate.of_executeModel (hs : s.UpToDate) {command : Option Command}
    (hdone : (s.executeModel host command).1 = true) :
    (s.executeModel host command).2.UpToDate := by
  unfold Session.executeModel at hdone ⊢
  dsimp only at hdone ⊢
  split_ifs at hdone ⊢ with hok
  · exact ((moves_execute _).ready hs).publishModel false
  · exact absurd hdone hok

theorem upToDate_executeModel_iff (host : InstrumentId → HostAnswer) (hs : s.UpToDate)
    (command : Option Command) :
    (s.executeModel host command).2.UpToDate ↔ s.patternPreview = true ∨ s.Lands command := by
  have hmoves := moves_execute (s := s) command
  cases command with
  | none => exact iff_of_true hs (.inr fun c hc => by cases hc)
  | some c =>
    obtain ⟨hok, hproject⟩ := execute_some s c
    unfold executeModel Lands
    dsimp only
    split_ifs with hdone
    · refine iff_of_true ((hmoves.ready hs).publishModel false) (.inr fun c' hc => .inl ?_)
      obtain rfl := Option.some_inj.1 hc
      exact hok.symm.trans hdone
    · rw [hmoves.upToDate_iff hs, hproject]
      have hnot : (c.apply s.project).ok = false := by
        rw [← hok]
        exact Bool.eq_false_of_not_eq_true hdone
      simp [hnot]

theorem UpToDate.executeModel (hs : s.UpToDate) {command : Option Command}
    (hlands : s.Lands command) : (s.executeModel host command).2.UpToDate :=
  (upToDate_executeModel_iff host hs command).2 (.inr hlands)

/-- Going on with what was just made publishes. -/
theorem upToDate_continueWith_iff {done : Bool × Session} (hs : s.UpToDate)
    (hmoves : s.Moves done.2) (id : PatternId) : (continueWith host id done).2.UpToDate ↔
      s.patternPreview = true ∨ s.Settles done := by
  unfold continueWith Settles
  split_ifs with hdone
  · have hready : { done.2 with currentPattern := some id }.Ready := hmoves.ready hs
    exact iff_of_true (hready.publishModel false) (.inr (.inl hdone))
  · rw [hmoves.upToDate_iff hs]
    simp [hdone]

theorem upToDate_continued_iff {done : Bool × Session} (hs : s.UpToDate)
    (hmoves : s.Moves done.2) (id : PatternId) : (continueWith host id done).2.UpToDate ↔
      s.patternPreview = true ∨ s.Settles (continueWith host id done) := by
  rw [upToDate_continueWith_iff hs hmoves]
  unfold continueWith Settles
  split_ifs with hdone
  · simp [hdone]
  · simp [hdone]

theorem upToDate_published_iff {done : Bool × Session} (hs : s.UpToDate)
    (hmoves : s.Moves done.2) :
    (if done.1 then (true, done.2.publishModel host) else (false, done.2)).2.UpToDate ↔
      s.patternPreview = true ∨
        s.Settles (if done.1 then (true, done.2.publishModel host) else (false, done.2)) := by
  unfold Settles
  split_ifs with hdone
  · exact iff_of_true ((hmoves.ready hs).publishModel false) (.inr (.inl rfl))
  · rw [hmoves.upToDate_iff hs]
    simp

/-- Nothing was done. -/
theorem upToDate_kept_iff (hs : s.UpToDate) (done : Bool) :
    (done, s).2.UpToDate ↔ s.patternPreview = true ∨ s.Settles (done, s) :=
  iff_of_true hs (.inr (.inr (soundsAs_refl _ _)))

/-- **What a call must meet.**  A new project is adopted without notice: the scheduler must happen
to be dirty, or the new project to sound as the one before.  A call that fails half way must leave
what sounds as before. -/
def Heard (s : Session) (call : Call) : Prop :=
  s.patternPreview = true ∨
    match call with
    | .projectNew ids _ =>
      s.dirty = true ∨ SoundsAs s.sampleRate s.project (freshProject ids)
    | .edit edit _ =>
      match s.reply edit with
      | .model command => s.Lands command
      | _ => True
    | .instrumentDuplicate track copy id _ => s.Lands (duplicateInstrument s.project track copy id)
    | .instrumentAddSample id track name path _ =>
      s.Lands (some (addInstrument s.project true id track name (samplePlugin name path)))
    | .instanceAdd id track plugin _ _ =>
      s.Lands (some (addInstrumentNamed s.project true id track plugin))
    | .projectUndo _ => s.Settles s.undo
    | .projectRedo _ => s.Settles s.redo
    | .patternDuplicate .. | .patternReorder .. | .clipDuplicate .. | .clipsMakeUnique ..
    | .clipSplitByChannel .. => s.Settles (s.call call)
    | _ => True

/-! ### Call by call -/

theorem UpToDate.ready (hs : s.UpToDate) : s.Ready := fun hpreview _ => hs hpreview

theorem UpToDate.takeBack (hs : s.UpToDate) : (s.takeBack again).UpToDate :=
  ((moves_undo s).ready hs).publishModel false

theorem single_editInstrument {project : Tables} {id : InstrumentId} {field : ChangeField}
    {mutator : Instrument → Instrument} (c : Command)
    (h : editInstrument project id field mutator = some c) : c.isComposite = false := by
  obtain ⟨_, -, rfl⟩ := Option.map_eq_some_iff.1 h
  rfl

theorem UpToDate.instrumentSelect (hs : s.UpToDate) (id : InstrumentId) :
    (s.instrumentSelect id).2.UpToDate := by
  unfold Session.instrumentSelect
  split_ifs
  · exact hs
  · exact hs
  · exact hs

theorem UpToDate.instrumentReplace (hs : s.UpToDate) (id : InstrumentId) (plugin : PluginRef) :
    (s.instrumentReplace host again id plugin).2.UpToDate := by
  have h : (s.executeModel host (replaceInstrument s.project id plugin)).2.UpToDate :=
    hs.executeModel (lands_of_single single_editInstrument)
  unfold Session.instrumentReplace
  dsimp only
  split_ifs
  · exact h
  · exact h
  · exact h.takeBack

theorem UpToDate.instrumentReplaceSample (hs : s.UpToDate) (id : InstrumentId)
    (name path : String) : (s.instrumentReplaceSample host id name path).2.UpToDate := by
  have h : (s.executeModel host
      (replaceInstrument s.project id (samplePlugin name path))).2.UpToDate :=
    hs.executeModel (lands_of_single single_editInstrument)
  unfold Session.instrumentReplaceSample
  dsimp only
  split_ifs
  · exact h
  · exact h

theorem lands_single {command : Command} (hsingle : command.isComposite = false) :
    s.Lands (some command) :=
  lands_of_single fun c hc => by
    obtain rfl := Option.some_inj.1 hc
    exact hsingle

/-- What is selected once an instrument is gone does not show. -/
theorem UpToDate.instrumentRemove (hs : s.UpToDate) (id : InstrumentId) :
    (s.instrumentRemove host id).2.UpToDate := by
  have hremoved : ∀ left : Session, left.UpToDate →
      (left.executeModel host (some (OneBeat.removeInstrument id))).2.UpToDate :=
    fun left hleft => hleft.executeModel (lands_single rfl)
  unfold Session.instrumentRemove
  split_ifs
  · exact hs
  all_goals
    dsimp only
    split_ifs
    · exact hremoved _ hs
    · exact hremoved _ hs
    · split
      · exact hremoved _ hs
      · refine UpToDate.instrumentSelect (hremoved _ ?_) _
        exact hs

theorem upToDate_instrumentDuplicate_iff (hs : s.UpToDate) (track : MixerTrackId)
    (copy id : InstrumentId) : (s.instrumentDuplicate host track copy id).2.UpToDate ↔
      s.patternPreview = true ∨ s.Lands (duplicateInstrument s.project track copy id) := by
  rw [← upToDate_executeModel_iff host hs]
  unfold instrumentDuplicate
  dsimp only
  split_ifs
  · rfl
  · split <;> rfl

theorem upToDate_instrumentAddSample_iff (hs : s.UpToDate) (id : InstrumentId)
    (track : MixerTrackId) (name path : String) :
    (s.instrumentAddSample host id track name path).2.UpToDate ↔ s.patternPreview = true ∨
      s.Lands (some (addInstrument s.project true id track name (samplePlugin name path))) := by
  rw [← upToDate_executeModel_iff host hs]
  unfold instrumentAddSample
  dsimp only
  split_ifs
  · rfl
  · split <;> rfl

theorem upToDate_instanceAdd_iff (hs : s.UpToDate) (id : InstrumentId) (track : MixerTrackId)
    (plugin : PluginRef) : (s.instanceAdd host again id track plugin).2.UpToDate ↔
      s.patternPreview = true ∨
        s.Lands (some (addInstrumentNamed s.project true id track plugin)) := by
  rw [← upToDate_executeModel_iff host hs]
  unfold instanceAdd
  dsimp only
  split_ifs with hadded
  · rfl
  · have hdone := hs.of_executeModel (by simpa using hadded)
    split
    · rfl
    · split_ifs
      · rfl
      · exact iff_of_true hdone.takeBack hdone

theorem UpToDate.instanceRemove (hs : s.UpToDate) : (s.instanceRemove host).2.UpToDate := by
  unfold Session.instanceRemove
  split
  next id _ _ =>
    have hremoved : (s.executeModel host (some (OneBeat.removeInstrument id))).2.UpToDate :=
      hs.executeModel (lands_single rfl)
    dsimp only
    split_ifs
    · exact hremoved
    · exact hremoved
  · exact hs

theorem upToDate_projectUndo_iff (hs : s.UpToDate) : (s.projectUndo host).2.UpToDate ↔
    s.patternPreview = true ∨ s.Settles s.undo := by
  unfold projectUndo Settles
  dsimp only
  split_ifs with hundone
  · rw [(moves_undo s).upToDate_iff hs]
    simp_all
  · refine iff_of_true ?_ (.inr (.inl (by simpa using hundone)))
    exact (((moves_undo s).trans (moves_repairSelection _)).ready hs).publishModel false

theorem upToDate_projectRedo_iff (hs : s.UpToDate) : (s.projectRedo host).2.UpToDate ↔
    s.patternPreview = true ∨ s.Settles s.redo := by
  unfold projectRedo Settles
  dsimp only
  split_ifs with hredone
  · rw [(moves_redo s).upToDate_iff hs]
    simp_all
  · refine iff_of_true ?_ (.inr (.inl (by simpa using hredone)))
    exact (((moves_redo s).trans (moves_repairSelection _)).ready hs).publishModel false

/-- A resized clip leaves the patterns where they are. -/
theorem contains_resized (id : PatternId) (clips : List ClipId) (f : Clip → Clip) (s : Session) :
    (clips.foldl (fun s clip => (s.execute (editClip s.project clip .length f)).2)
      s).project.patterns.contains id = s.project.patterns.contains id := by
  induction clips generalizing s with
  | nil => rfl
  | cons clip clips ih =>
    rw [List.foldl_cons, ih]
    cases h : editClip s.project clip .length f with
    | none => rfl
    | some c =>
      rw [(execute_some s c).2]
      obtain ⟨_, -, rfl⟩ := Option.map_eq_some_iff.1 h
      exact (Command.stepSpares_apply _ _).contains id ⟨List.not_mem_nil, List.not_mem_nil⟩

theorem moves_resized (clips : List ClipId) (f : Clip → Clip) (s : Session) :
    s.Moves (clips.foldl (fun s clip => (s.execute (editClip s.project clip .length f)).2) s) := by
  induction clips generalizing s with
  | nil => exact .refl s
  | cons clip clips ih => exact (moves_execute _).trans (ih _)

/-- The pattern is there, so its edit applies. -/
theorem ok_editPatternMeta {id : PatternId} (h : s.project.patterns.contains id = true)
    (field : ChangeField) (mutator : PatternMeta → PatternMeta) :
    (s.execute (editPatternMeta s.project id field mutator)).1 = true := by
  obtain ⟨pattern, hpattern⟩ := Option.isSome_iff_exists.1 h
  unfold editPatternMeta
  rw [hpattern, Option.map_some, (execute_some _ _).1]
  simp only [Command.apply, EditCommand.apply, EditTarget.write, Tables.updatePattern]
  rw [if_pos h]
  rfl

/-- However the clips were resized, the edit of the pattern publishes. -/
theorem UpToDate.rackSetLength (hs : s.UpToDate) (steps : ℤ) :
    (s.rackSetLength host steps).2.UpToDate := by
  unfold Session.rackSetLength
  by_cases hsteps : steps < 0 ∨ 512 < steps
  · rwa [if_pos hsteps]
  rw [if_neg hsteps]
  cases hcurrent : s.currentPatternOf with
  | none => exact hs
  | some entry =>
    obtain ⟨id, pattern⟩ := entry
    have hthere : s.project.patterns.contains id = true := by
      obtain ⟨id', -, hfound⟩ := Option.bind_eq_some_iff.1 hcurrent
      obtain ⟨pattern', hget, heq⟩ := Option.map_eq_some_iff.1 hfound
      obtain ⟨rfl, rfl⟩ := Prod.mk.inj heq
      exact OrderedMap.contains_eq_true_iff.2 ⟨_, hget⟩
    dsimp only
    unfold Session.executeModel
    rw [if_pos (ok_editPatternMeta ((contains_resized ..).trans hthere) _ _)]
    exact (((moves_resized ..).trans (moves_execute _)).ready hs).publishModel false

theorem UpToDate.rackGestureCommit (hs : s.UpToDate) :
    (s.rackGestureCommit host).2.UpToDate := by
  unfold Session.rackGestureCommit
  split_ifs
  · exact hs
  · exact ((moves_commitTransaction s).ready hs).publishModel false

theorem UpToDate.rackGestureAbort (hs : s.UpToDate) : (s.rackGestureAbort host).2.UpToDate := by
  unfold Session.rackGestureAbort
  split_ifs
  · exact hs
  · exact ((moves_abortTransaction s).ready hs).publishModel false

/-! ### Patterns and clips -/

/-- What is selected does not show. -/
theorem UpToDate.selectPattern (hs : s.UpToDate) (id : Option PatternId) :
    ({ s with currentPattern := id }.publishModel host).UpToDate := by
  have hready : { s with currentPattern := id }.Ready := hs.ready
  exact hready.publishModel false

theorem UpToDate.patternSelect (hs : s.UpToDate) (id : PatternId) :
    (s.patternSelect host id).2.UpToDate := by
  unfold Session.patternSelect
  split_ifs
  · exact hs
  · exact hs.selectPattern _

/-- Nothing is promised while a pattern is previewed. -/
theorem ready_of_preview (h : s.patternPreview = true) : s.Ready := fun hpreview _ =>
  absurd (h.symm.trans hpreview) (by decide)

theorem UpToDate.patternPreviewStart (hs : s.UpToDate) (id : PatternId) :
    (s.patternPreviewStart host id).2.UpToDate := by
  unfold Session.patternPreviewStart
  split_ifs
  · exact hs
  · exact (ready_of_preview rfl).publishModel false

theorem UpToDate.patternPreviewChannelStart (hs : s.UpToDate) (id : PatternId)
    (instrument : InstrumentId) : (s.patternPreviewChannelStart host id instrument).2.UpToDate := by
  unfold Session.patternPreviewChannelStart
  split_ifs
  · exact hs
  · exact (ready_of_preview rfl).publishModel false

/-- A scheduler that was told will flush. -/
theorem ready_of_dirty (h : s.dirty = true) : s.Ready := fun _ hdirty =>
  absurd (h.symm.trans hdirty) (by decide)

theorem UpToDate.patternPreviewStop (hs : s.UpToDate) : (s.patternPreviewStop host).2.UpToDate := by
  unfold Session.patternPreviewStop
  split_ifs
  · exact (ready_of_dirty rfl).publishModel false
  · exact hs

theorem UpToDate.patternCreate (hs : s.UpToDate) (id : PatternId) (name : String) :
    (s.patternCreate host id name).2.UpToDate := by
  unfold Session.patternCreate
  refine (upToDate_continueWith_iff hs (moves_execute _) id).2 (.inr ?_)
  unfold Settles
  rw [(execute_some _ _).1, (execute_some _ _).2]
  exact lands_single (s := s) rfl _ rfl

theorem UpToDate.patternRemove (hs : s.UpToDate) (id : PatternId) :
    (s.patternRemove host again id).2.UpToDate := by
  have hremoved : (s.executeModel host (some (OneBeat.removePattern id))).2.UpToDate :=
    hs.executeModel (lands_single rfl)
  unfold Session.patternRemove
  split_ifs
  · exact hs
  dsimp only
  split_ifs
  · exact hremoved
  · exact hremoved.selectPattern _
  · exact hremoved

theorem upToDate_patternDuplicate_iff (hs : s.UpToDate) (copy id : PatternId) :
    (s.patternDuplicate host copy id).2.UpToDate ↔
      s.patternPreview = true ∨ s.Settles (s.patternDuplicate host copy id) := by
  unfold patternDuplicate
  split
  · exact upToDate_kept_iff hs _
  · exact upToDate_continued_iff hs (moves_transact _ _) _

theorem upToDate_patternReorder_iff (hs : s.UpToDate) (id : PatternId) (order : ℤ) :
    (s.patternReorder host id order).2.UpToDate ↔
      s.patternPreview = true ∨ s.Settles (s.patternReorder host id order) := by
  unfold patternReorder
  split
  · exact upToDate_kept_iff hs _
  dsimp only
  split
  · split
    · exact upToDate_kept_iff hs _
    · exact upToDate_published_iff hs (moves_transact _ _)
  · exact upToDate_kept_iff hs _

theorem upToDate_clipDuplicate_iff (hs : s.UpToDate) (copy id : ClipId)
    (lane : Option ArrangementLaneId) (start : ℤ) :
    (s.clipDuplicate host copy id lane start).2.UpToDate ↔
      s.patternPreview = true ∨ s.Settles (s.clipDuplicate host copy id lane start) := by
  unfold clipDuplicate
  split
  · exact upToDate_kept_iff hs _
  dsimp only
  split
  · exact upToDate_kept_iff hs _
  · exact upToDate_published_iff hs (moves_transact _ _)

theorem upToDate_clipsMakeUnique_iff (hs : s.UpToDate) (copy : PatternId) (ids : List ClipId) :
    (s.clipsMakeUnique host copy ids).2.UpToDate ↔
      s.patternPreview = true ∨ s.Settles (s.clipsMakeUnique host copy ids) := by
  unfold clipsMakeUnique
  split
  · exact upToDate_kept_iff hs _
  · exact upToDate_continued_iff hs (moves_transact _ _) _

theorem upToDate_clipSplitByChannel_iff (hs : s.UpToDate) (ids : SplitIds) (id : ClipId) :
    (s.clipSplitByChannel host ids id).2.UpToDate ↔
      s.patternPreview = true ∨ s.Settles (s.clipSplitByChannel host ids id) := by
  unfold clipSplitByChannel
  split
  · exact upToDate_kept_iff hs _
  split
  · exact upToDate_kept_iff hs _
  dsimp only
  split
  · exact upToDate_kept_iff hs _
  · exact upToDate_continued_iff hs (moves_transact _ _) _

/-! ### Projects -/

/-- Nothing is flattened for a scheduler that is not dirty. -/
theorem flush_of_clean (hpreview : s.patternPreview = false) (hdirty : s.dirty = false) :
    s.flush = s := by
  unfold flush flushes reflatten
  rw [hpreview, hdirty]
  rfl

/-- No pattern is known yet, so no clip is fitted to one. -/
theorem fittedClips_of_empty (h : s.patternLengths = .empty) : s.fittedClips = [] := by
  unfold fittedClips
  rw [h]
  exact List.flatMap_eq_nil_iff.2 fun _ _ => rfl

/-- A publish that flattens nothing shows what was shown before. -/
theorem upToDate_publishModel_of_clean (hpreview : s.patternPreview = false)
    (hdirty : s.dirty = false) (hfits : s.fittedClips = []) (replaced : Bool) :
    (s.publishModel host replaced).UpToDate ↔ s.Shows s.project := by
  have hclean : s.fitClipsToPatterns.dirty = false := by simp [fitClipsToPatterns, hdirty, hfits]
  have hproject := (fitClipsToPatterns_clean hclean).2
  unfold publishModel
  rw [flush_of_clean (s := s.fitClipsToPatterns) hpreview hclean]
  set synced := (s.fitClipsToPatterns.syncHosted host replaced).refreshInstanceView
  obtain ⟨names, hnames⟩ : ∃ names,
      synced.project = s.fitClipsToPatterns.project.nameLanes names := ⟨_, rfl⟩
  have hshows : ∀ project', synced.Shows project' ↔ s.Shows project' := fun _ => Iff.rfl
  have hsame : synced.Shows synced.project ↔ s.Shows s.project := by
    rw [hshows, hnames, hproject, Shows, flatten_nameLanes]
    rfl
  have hsyncedPreview : synced.patternPreview = s.patternPreview := rfl
  rw [UpToDate, hsyncedPreview, hpreview, hsame]
  exact ⟨fun h => h rfl, fun h _ => h⟩

/-- The new project shows when the scheduler was dirty, or when it sounds like the old one. -/
theorem upToDate_projectNew_iff (hs : s.UpToDate) (ids : FreshIds) :
    (s.projectNew host ids).2.UpToDate ↔ s.patternPreview = true ∨ s.dirty = true ∨
      SoundsAs s.sampleRate s.project (freshProject ids) := by
  unfold projectNew
  dsimp only
  cases hpreview : s.patternPreview with
  | true =>
    have hready : (s.replaceProject (freshProject ids) (some ids.pattern)).Ready :=
      ready_of_preview hpreview
    exact iff_of_true (hready.publishModel true) (.inl rfl)
  | false =>
    cases hdirty : s.dirty with
    | true =>
      have hready : (s.replaceProject (freshProject ids) (some ids.pattern)).Ready :=
        ready_of_dirty hdirty
      exact iff_of_true (hready.publishModel true) (.inr (.inl rfl))
    | false =>
      rw [upToDate_publishModel_of_clean (s := s.replaceProject (freshProject ids)
        (some ids.pattern)) hpreview hdirty (fittedClips_of_empty rfl)]
      simp only [Bool.false_eq_true, false_or]
      exact ⟨(hs hpreview).soundsAs_of_shows, (hs hpreview).soundsAs⟩

theorem UpToDate.projectOpen (hs : s.UpToDate) (loaded : Option Tables) :
    (s.projectOpen host loaded).2.UpToDate := by
  unfold Session.projectOpen
  split
  · exact hs
  · exact (ready_of_dirty rfl).publishModel true

/-- The references of states are not heard. -/
theorem UpToDate.projectSave (hs : s.UpToDate) (states : List (InstrumentId × String × String)) :
    (s.projectSave states).2.UpToDate := by
  intro hpreview
  have hsaved := (hs hpreview).soundsAs (soundsAs_of_eq (flatten_foldl_updateInstrument Prod.fst
    (f := fun entry => stateSaved entry.2.1 entry.2.2)
    (fun _ => ⟨fun _ => rfl, fun _ => rfl, fun _ => rfl⟩) states s.project))
  exact hsaved

/-- Nor is the name of the project. -/
theorem UpToDate.projectSetName (hs : s.UpToDate) (name : String) :
    (s.projectSetName name).2.UpToDate := by
  unfold Session.projectSetName
  split_ifs
  · exact hs
  · exact hs
  · have hnamed := ((moves_execute (s := s) (some (setProjectMeta s.project
      { s.project.metadata with name }))).upToDate_iff hs).2 (.inr (soundsAs_of_eq ?_))
    · exact hnamed
    · rw [(execute_some _ _).2]
      exact flatten_setMeta _

/-! ### Every call -/

/-- **A call keeps the published schedule up to date exactly when it meets the condition.** -/
theorem upToDate_call_iff (hs : s.UpToDate) (call : Call) :
    (s.call call).2.UpToDate ↔ s.Heard call := by
  cases call with
  | edit edit host =>
    unfold Session.call Session.edit Heard
    dsimp only
    cases s.reply edit with
    | refused | done => exact iff_of_true hs (.inr trivial)
    | model command => exact upToDate_executeModel_iff host hs command
  | instrumentSelect id => exact iff_of_true (hs.instrumentSelect id) (.inr trivial)
  | instrumentReplace id plugin host again =>
    exact iff_of_true (hs.instrumentReplace id plugin) (.inr trivial)
  | instrumentReplaceSample id name path host =>
    exact iff_of_true (hs.instrumentReplaceSample id name path) (.inr trivial)
  | instrumentDuplicate track copy id host => exact upToDate_instrumentDuplicate_iff hs track copy id
  | instrumentRemove id host => exact iff_of_true (hs.instrumentRemove id) (.inr trivial)
  | instrumentAddSample id track name path host =>
    exact upToDate_instrumentAddSample_iff hs id track name path
  | instanceAdd id track plugin host again => exact upToDate_instanceAdd_iff hs id track plugin
  | instanceRemove host => exact iff_of_true hs.instanceRemove (.inr trivial)
  | projectUndo host => exact upToDate_projectUndo_iff hs
  | projectRedo host => exact upToDate_projectRedo_iff hs
  | rackSetRowGrid id grid =>
    exact iff_of_true (of_ite (P := UpToDate) hs hs) (.inr trivial)
  | rackSetLength steps host => exact iff_of_true (hs.rackSetLength steps) (.inr trivial)
  | rackGestureBegin => exact iff_of_true (of_ite (P := UpToDate) hs hs) (.inr trivial)
  | rackGestureCommit host => exact iff_of_true hs.rackGestureCommit (.inr trivial)
  | rackGestureAbort host => exact iff_of_true hs.rackGestureAbort (.inr trivial)
  | patternSelect id host => exact iff_of_true (hs.patternSelect id) (.inr trivial)
  | patternPreviewStart id host => exact iff_of_true (hs.patternPreviewStart id) (.inr trivial)
  | patternPreviewChannelStart id instrument host =>
    exact iff_of_true (hs.patternPreviewChannelStart id instrument) (.inr trivial)
  | patternPreviewStop host => exact iff_of_true hs.patternPreviewStop (.inr trivial)
  | patternCreate id name host => exact iff_of_true (hs.patternCreate id name) (.inr trivial)
  | patternDuplicate copy id host => exact upToDate_patternDuplicate_iff hs copy id
  | patternRemove id host again => exact iff_of_true (hs.patternRemove id) (.inr trivial)
  | patternReorder id order host => exact upToDate_patternReorder_iff hs id order
  | clipDuplicate copy id lane start host => exact upToDate_clipDuplicate_iff hs copy id lane start
  | clipsMakeUnique copy ids host => exact upToDate_clipsMakeUnique_iff hs copy ids
  | clipSplitByChannel ids id host => exact upToDate_clipSplitByChannel_iff hs ids id
  | projectNew ids host => exact upToDate_projectNew_iff hs ids
  | projectOpen loaded host => exact iff_of_true (hs.projectOpen loaded) (.inr trivial)
  | projectSave states => exact iff_of_true (hs.projectSave states) (.inr trivial)
  | projectSetName name => exact iff_of_true (hs.projectSetName name) (.inr trivial)

theorem upToDate_create (ids : FreshIds) (sampleRate : Double) :
    (create host ids sampleRate).UpToDate :=
  (ready_of_dirty rfl).publishModel false

/-- **The published schedule is the model's all along a run exactly when every call of it meets
the condition.** -/
theorem upToDate_run_iff {ids : FreshIds} {sampleRate : Double} {calls : List Call}
    (hrun : system.run (create host ids sampleRate) calls = some s) :
    (∀ before s', before <+: calls → system.run (create host ids sampleRate) before = some s' →
        s'.UpToDate) ↔
      ∀ before call s', before ++ [call] <+: calls →
        system.run (create host ids sampleRate) before = some s' → s'.Heard call := by
  refine TransitionSystem.always_iff UpToDate Heard (upToDate_create ids sampleRate) ?_ hrun
  intro before s call s' _ hs hstep
  obtain rfl := Option.some_inj.1 hstep
  exact upToDate_call_iff hs call

/-! ### A song that plays on -/

/-- A machine without plug-ins. -/
def noPlugins : InstrumentId → HostAnswer := fun _ => ⟨false, false, false, ""⟩

/-- The ids of a small project. -/
def smallIds : FreshIds := ⟨⟨1⟩, ⟨2⟩, fun i => ⟨Fin.ofNat _ (100 + i)⟩, ⟨3⟩⟩

/-- Place an audio clip, and start a new project. -/
def clipThenNew : List Call :=
  [.edit (.audioClipAdd ⟨4⟩ ⟨100⟩ "kick.wav" 0 960) noPlugins, .projectNew smallIds noPlugins]

/-- The engine goes on with the clip of the old project: the new one was adopted without notice. -/
theorem not_upToDate_clipThenNew : ∃ s,
    system.run (create noPlugins smallIds (.finite 48000)) clipThenNew = some s ∧
      ¬ s.UpToDate := by
  refine ⟨_, rfl, fun h => ?_⟩
  obtain ⟨⟨schedule, hpublished, hevents⟩, -⟩ := h (by decide +kernel)
  have hlength := congrArg (Option.map fun schedule => schedule.events.length) hpublished
  rw [Option.map_some, hevents] at hlength
  revert hlength
  decide +kernel

/-- The two calls, one after the other. -/
theorem upToDate_run_iff_clipThenNew : ∃ s,
    system.run (create noPlugins smallIds (.finite 48000)) clipThenNew = some s ∧
      ((∀ before s', before <+: clipThenNew →
          system.run (create noPlugins smallIds (.finite 48000)) before = some s' →
          s'.UpToDate) ↔
        ∀ before call s', before ++ [call] <+: clipThenNew →
          system.run (create noPlugins smallIds (.finite 48000)) before = some s' →
          s'.Heard call) :=
  ⟨_, rfl, upToDate_run_iff rfl⟩

end Session

end OneBeat
