import OneBeat.Session.Calls

/-!
# What calls keep

Most entry points execute commands, publish, and then set what is selected.  A property that does
not read the selection is kept by such a call as soon as its commands keep it (`CallRule`).  Where
it does not read the current pattern either, the calls that arrange patterns, lanes and clips keep
it as well (`ArrangingRule.call`).
-/

namespace OneBeat

/-- The call works on patterns, lanes and clips, or on the selection. -/
def Call.arranges : Call → Bool
  | .edit .. | .instrumentReplace .. | .instrumentReplaceSample .. | .instrumentDuplicate .. => false
  | .instrumentRemove .. | .instrumentAddSample .. | .instanceAdd .. | .instanceRemove .. => false
  | .projectUndo .. | .projectRedo .. | .projectNew .. | .projectOpen .. | .projectSave .. => false
  | _ => true

namespace Session

variable {P : Session → Prop} {A : Tables → Option Command → Prop} {s : Session}
  {host again : InstrumentId → HostAnswer}

/-- The property reads the history, what was published and the current pattern; a publish keeps it,
and so does every command of `A`. -/
structure CallRule (P : Session → Prop) (A : Tables → Option Command → Prop) : Prop where
  alike : ∀ {s s' : Session}, P s → s'.bus = s.bus → s'.publishes = s.publishes →
    s'.hosting = s.hosting → s'.currentPattern = s.currentPattern → P s'
  publishModel : ∀ {s : Session} (host), P s → P (s.publishModel host)
  execute : ∀ {s : Session} {command}, P s → A s.project command → P (s.execute command).2

namespace CallRule

theorem executeModel (hP : CallRule P A) (h : P s) (host : InstrumentId → HostAnswer)
    {command : Option Command} (hcommand : A s.project command) :
    P (s.executeModel host command).2 :=
  of_ite (hP.publishModel host (hP.execute h hcommand)) (hP.execute h hcommand)

theorem published (hP : CallRule P A) {done : Bool × Session} (h : P done.2) :
    P (if done.1 then (true, done.2.publishModel host) else (false, done.2)).2 :=
  of_ite (hP.publishModel host h) h

theorem instrumentSelect (hP : CallRule P A) (h : P s) (id : InstrumentId) :
    P (s.instrumentSelect id).2 :=
  of_ite h (of_ite h (hP.alike h rfl rfl rfl rfl))

theorem instrumentReplaceSample (hP : CallRule P A) {id : InstrumentId} {name path : String}
    (h : P (s.executeModel host (replaceInstrument s.project id (samplePlugin name path))).2) :
    P (s.instrumentReplaceSample host id name path).2 :=
  of_ite h (hP.alike h rfl rfl rfl rfl)

theorem instrumentDuplicate (hP : CallRule P A) {track : MixerTrackId} {copy id : InstrumentId}
    (h : P (s.executeModel host (duplicateInstrument s.project track copy id)).2) :
    P (s.instrumentDuplicate host track copy id).2 := by
  unfold Session.instrumentDuplicate
  refine of_ite h ?_
  split
  · exact h
  · exact hP.alike h rfl rfl rfl rfl

/-- The selection is given up before the instrument is removed. -/
theorem instrumentRemove (hP : CallRule P A) (h : P s) {id : InstrumentId}
    (hremoved : ∀ left : Session, P left → left.bus = s.bus →
      P (left.executeModel host (some (removeInstrument id))).2) :
    P (s.instrumentRemove host id).2 := by
  have hleft : P (Session.executeModel host (some (OneBeat.removeInstrument id))
      (if s.selectedInstrument = some id then
        { s with hasInstance := false, selectedInstrument := none } else s)).2 := by
    split_ifs
    · exact hremoved _ (hP.alike h rfl rfl rfl rfl) rfl
    · exact hremoved s h rfl
  unfold Session.instrumentRemove
  refine of_ite h (of_ite hleft (of_ite hleft ?_))
  split
  · exact hleft
  · exact hP.instrumentSelect hleft _

theorem instrumentAddSample (hP : CallRule P A) {id : InstrumentId} {track : MixerTrackId}
    {name path : String} (h : P (s.executeModel host
      (some (addInstrument s.project true id track name (samplePlugin name path)))).2) :
    P (s.instrumentAddSample host id track name path).2 := by
  unfold Session.instrumentAddSample
  refine of_ite h ?_
  split
  · exact h
  · exact hP.alike h rfl rfl rfl rfl

/-- What could not be hosted is taken back. -/
theorem instanceAdd (hP : CallRule P A) {id : InstrumentId} {track : MixerTrackId}
    {plugin : PluginRef}
    (h : P (s.executeModel host (some (addInstrumentNamed s.project true id track plugin))).2)
    (hback : P ((s.executeModel host
      (some (addInstrumentNamed s.project true id track plugin))).2.takeBack again)) :
    P (s.instanceAdd host again id track plugin).2 := by
  unfold Session.instanceAdd
  refine of_ite h ?_
  split
  · exact h
  · exact of_ite (hP.alike h rfl rfl rfl rfl) hback

theorem instanceRemove (hP : CallRule P A) (h : P s)
    (hremoved : ∀ id, P (s.executeModel host (some (removeInstrument id))).2) :
    P (s.instanceRemove host).2 := by
  unfold Session.instanceRemove
  split
  next id _ _ => exact of_ite (hremoved id) (hP.alike (hremoved id) rfl rfl rfl rfl)
  · exact h

theorem repairSelection (hP : CallRule P A) (h : P s) : P s.repairSelection := by
  unfold Session.repairSelection
  split
  · exact h
  · split_ifs
    · exact h
    · exact hP.alike h rfl rfl rfl rfl

/-- The placements that fit a pattern are resized one by one. -/
theorem rackSetLength (hP : CallRule P A) (h : P s) (steps : ℤ)
    (hclip : ∀ project id length, A project (editClip project id .length fun live =>
      { live with length }))
    (hpattern : ∀ project id length, A project (editPatternMeta project id .length fun value =>
      { value with length })) : P (s.rackSetLength host steps).2 := by
  have hresized : ∀ (clips : List ClipId) (length : ℤ) (s : Session), P s →
      P (clips.foldl (fun s clip => (s.execute (editClip s.project clip .length fun live =>
        { live with length })).2) s) := by
    intro clips length
    induction clips with
    | nil => exact fun _ hs => hs
    | cons clip clips ih => exact fun s hs => ih _ (hP.execute hs (hclip s.project clip length))
  unfold Session.rackSetLength
  refine of_ite h ?_
  split
  · exact h
  · exact hP.executeModel (hresized _ _ s h) host (hpattern _ _ _)

end CallRule

/-- The property does not read the current pattern, gestures keep it, and so do the commands that
patterns, lanes and clips are arranged with; swings, sources and transforms are to be ones of some
kind, and those of the project are. -/
structure ArrangingRule (P : Session → Prop) (A : Tables → Option Command → Prop)
    (swing : Double → Prop) (source : ClipSource → Prop) (transforms : ClipTransforms → Prop) : Prop
    extends CallRule P A where
  selectPattern : ∀ {s : Session} (current), P s → P { s with currentPattern := current }
  beginTransaction : ∀ {s : Session}, P s → P s.beginTransaction
  commitTransaction : ∀ {s : Session}, P s → P s.commitTransaction
  abortTransaction : ∀ {s : Session}, P s → P s.abortTransaction
  sealHistory : ∀ {s : Session}, P s → P { s with bus := s.bus.sealHistory }
  swingOf : ∀ {s : Session} {id pattern}, P s → s.project.patterns.get? id = some pattern →
    swing pattern.swing
  clipOf : ∀ {s : Session} {id clip}, P s → s.project.clips.get? id = some clip →
    source clip.source ∧ transforms clip.transforms
  plays : ∀ id, source (.pattern id)
  addPattern : ∀ project id name length, A project (some (addPattern project id name length))
  removePattern : ∀ project id, A project (some (removePattern id))
  editPatternMeta : ∀ project id field {mutator : PatternMeta → PatternMeta},
    (∀ value, swing value.swing → swing (mutator value).swing) →
      A project (editPatternMeta project id field mutator)
  note : ∀ project command, A project (some (.note command))
  addLane : ∀ project id name, A project (some (addLane project id name))
  editLane : ∀ project id field mutator, A project (editLane project id field mutator)
  addClip : ∀ project id lane start length {played}, source played →
    A project (some (addClip id lane played start length))
  editClip : ∀ project id field {mutator : Clip → Clip},
    (∀ value, source value.source → transforms value.transforms →
      source (mutator value).source ∧ transforms (mutator value).transforms) →
        A project (editClip project id field mutator)
  removeClip : ∀ project id, A project (some (removeClip id))
  setProjectMeta : ∀ project metadata, A project (some (setProjectMeta project metadata))

namespace ArrangingRule

variable {swing : Double → Prop} {source : ClipSource → Prop} {transforms : ClipTransforms → Prop}
  (hP : ArrangingRule P A swing source transforms)

include hP

theorem executeAll {builds : List (Tables → Option Command)} (h : P s)
    (hbuilds : ∀ build ∈ builds, ∀ project, A project (build project)) :
    P (executeAll builds s).2 := by
  induction builds generalizing s with
  | nil => exact h
  | cons build builds ih =>
    obtain ⟨hbuild, hbuilds⟩ := List.forall_mem_cons.1 hbuilds
    have hfirst := hP.execute h (hbuild s.project)
    exact of_ite (ih hfirst hbuilds) hfirst

theorem transact {builds : List (Tables → Option Command)} (h : P s)
    (hbuilds : ∀ build ∈ builds, ∀ project, A project (build project)) :
    P (s.transact builds).2 := by
  have hexecuted := hP.executeAll (hP.beginTransaction h) hbuilds
  exact of_ite (hP.commitTransaction hexecuted) (hP.abortTransaction hexecuted)

theorem continueWith {done : Bool × Session} (h : P done.2) (id : PatternId) :
    P (Session.continueWith host id done).2 :=
  of_ite (hP.publishModel host (hP.selectPattern (some id) h)) h

theorem clonePattern (copy : PatternId) {pattern : Pattern} (name : String)
    (hswing : swing pattern.swing) :
    ∀ build ∈ clonePattern copy pattern name, ∀ project, A project (build project) := by
  intro build hbuild project
  rcases List.mem_append.1 hbuild with hfirst | hnotes
  · rcases List.mem_pair.1 hfirst with rfl | rfl
    · exact hP.addPattern ..
    · exact hP.editPatternMeta _ _ _ fun _ _ => hswing
  · obtain ⟨entry, -, rfl⟩ := List.mem_map.1 hnotes
    exact hP.note ..

theorem patternDuplicate (h : P s) (copy id : PatternId) :
    P (s.patternDuplicate host copy id).2 := by
  unfold Session.patternDuplicate
  split
  · exact h
  next pattern hpattern =>
    exact hP.continueWith (hP.transact h (hP.clonePattern copy _ (hP.swingOf h hpattern))) _

theorem patternRemove (h : P s) (id : PatternId) : P (s.patternRemove host again id).2 := by
  have hremoved := hP.executeModel h host (hP.removePattern s.project id)
  exact of_ite h (of_ite hremoved
    (of_ite (hP.publishModel again (hP.selectPattern _ hremoved)) hremoved))

theorem patternReorder (h : P s) (id : PatternId) (order : ℤ) :
    P (s.patternReorder host id order).2 := by
  unfold Session.patternReorder
  refine of_ite h ?_
  dsimp only
  split
  · refine of_ite h (hP.published (hP.transact h ?_))
    intro build hbuild project
    obtain ⟨entry, -, rfl⟩ := List.mem_map.1 hbuild
    exact hP.editPatternMeta _ _ _ fun _ hvalue => hvalue
  · exact h

theorem clipDuplicate (h : P s) (copy id : ClipId) (lane : Option ArrangementLaneId) (start : ℤ) :
    P (s.clipDuplicate host copy id lane start).2 := by
  unfold Session.clipDuplicate
  split
  · exact h
  next clip hclip =>
    obtain ⟨hplays, htransforms⟩ := hP.clipOf h hclip
    refine of_ite h (hP.published (hP.transact h ?_))
    intro build hbuild project
    rcases List.mem_pair.1 hbuild with rfl | rfl
    · exact hP.addClip _ _ _ _ _ hplays
    · exact hP.editClip _ _ _ fun _ hvalue _ => ⟨hvalue, htransforms⟩

theorem clipsMakeUnique (h : P s) (copy : PatternId) (ids : List ClipId) :
    P (s.clipsMakeUnique host copy ids).2 := by
  unfold Session.clipsMakeUnique
  split
  · exact h
  next pattern hpattern =>
    obtain ⟨shared, -, hget⟩ := Option.bind_eq_some_iff.1 hpattern
    refine hP.continueWith (hP.transact h fun build hbuild project => ?_) _
    rcases List.mem_append.1 hbuild with hclone | hclip
    · exact hP.clonePattern copy _ (hP.swingOf h hget) build hclone project
    · obtain ⟨id, -, rfl⟩ := List.mem_map.1 hclip
      exact hP.editClip _ _ _ fun _ _ hvalue => ⟨hP.plays copy, hvalue⟩

theorem splitChannel (ids : SplitIds) {pattern : Pattern} {original : Clip}
    (hswing : swing pattern.swing) (htransforms : transforms original.transforms) (sourceOrder : ℤ)
    (entry : (InstrumentId × NoteSequence) × ℕ) :
    ∀ build ∈ s.splitChannel ids pattern original sourceOrder entry, ∀ project,
      A project (build project) := by
  intro build hbuild project
  unfold Session.splitChannel at hbuild
  dsimp only at hbuild
  rcases List.mem_append.1 hbuild with hbuild | hclip
  · rcases List.mem_append.1 hbuild with hpattern | hlane
    · simp only [List.mem_cons, List.not_mem_nil, or_false] at hpattern
      rcases hpattern with rfl | rfl | rfl
      · exact hP.addPattern ..
      · exact hP.editPatternMeta _ _ _ fun _ _ => hswing
      · exact hP.note ..
    · split_ifs at hlane
      · cases hlane
      · rcases List.mem_pair.1 hlane with rfl | rfl
        · exact hP.addLane ..
        · exact hP.editLane ..
  · rcases List.mem_pair.1 hclip with rfl | rfl
    · exact hP.addClip _ _ _ _ _ (hP.plays _)
    · exact hP.editClip _ _ _ fun _ hvalue _ => ⟨hvalue, htransforms⟩

theorem clipSplitByChannel (h : P s) (ids : SplitIds) (id : ClipId) :
    P (s.clipSplitByChannel host ids id).2 := by
  unfold Session.clipSplitByChannel
  split
  · exact h
  next original horiginal =>
  split
  · exact h
  next pattern hpattern =>
    obtain ⟨shared, -, hget⟩ := Option.bind_eq_some_iff.1 hpattern
    refine of_ite h (hP.continueWith (hP.transact h ?_) _)
    intro build hbuild project
    rcases List.mem_append.1 hbuild with hbuild | hremove
    · rcases List.mem_append.1 hbuild with hgap | hchannel
      · obtain ⟨entry, -, rfl⟩ := List.mem_map.1 hgap
        exact hP.editLane ..
      · obtain ⟨entry, -, hentry⟩ := List.mem_flatMap.1 hchannel
        exact hP.splitChannel ids (hP.swingOf h hget) (hP.clipOf h horiginal).2 _ entry build
          hentry project
    · obtain rfl := List.mem_singleton.1 hremove
      exact hP.removeClip ..

/-- **A call that arranges patterns, lanes and clips keeps the property.** -/
theorem call (h : P s) (call : Call) (harranges : call.arranges = true) : P (s.call call).2 := by
  cases call with
  | instrumentSelect id => exact hP.instrumentSelect h id
  | rackSetRowGrid id grid => exact of_ite h (hP.alike h rfl rfl rfl rfl)
  | rackSetLength steps host =>
    exact hP.rackSetLength h steps (fun _ _ _ => hP.editClip _ _ _ fun _ hsource htransforms =>
      ⟨hsource, htransforms⟩) fun _ _ _ => hP.editPatternMeta _ _ _ fun _ hvalue => hvalue
  | rackGestureBegin => exact of_ite h (hP.beginTransaction h)
  | rackGestureCommit host => exact of_ite h (hP.publishModel host (hP.commitTransaction h))
  | rackGestureAbort host => exact of_ite h (hP.publishModel host (hP.abortTransaction h))
  | patternSelect id host => exact of_ite h (hP.publishModel host (hP.selectPattern (some id) h))
  | patternPreviewStart id host | patternPreviewChannelStart id _ host =>
    exact of_ite h (hP.publishModel host
      (hP.alike (hP.selectPattern (some id) h) rfl rfl rfl rfl))
  | patternPreviewStop host => exact of_ite (hP.publishModel host (hP.alike h rfl rfl rfl rfl)) h
  | patternCreate id name host => exact hP.continueWith (hP.execute h (hP.addPattern ..)) id
  | patternDuplicate copy id host => exact hP.patternDuplicate h copy id
  | patternRemove id host again => exact hP.patternRemove h id
  | patternReorder id order host => exact hP.patternReorder h id order
  | clipDuplicate copy id lane start host => exact hP.clipDuplicate h copy id lane start
  | clipsMakeUnique copy ids host => exact hP.clipsMakeUnique h copy ids
  | clipSplitByChannel ids id host => exact hP.clipSplitByChannel h ids id
  | projectSetName name =>
    exact of_ite h (of_ite h (hP.sealHistory (hP.execute h (hP.setProjectMeta ..))))
  | _ => cases harranges

end ArrangingRule

end Session

end OneBeat
