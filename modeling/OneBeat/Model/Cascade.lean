import OneBeat.Model.Project

/-!
# What the operations of a project do to each table

One lemma for each operation of `Project`: deleting clips filters the table of clips
(`Tables.deleteClips_eq`), restoring clips adds those whose id is free
(`Tables.get?_restoreClips`), a sweep of `update`s is a fold of `OrderedMap.modify`, and
`deleteMixerTrack` re-points and drops exactly what its impact report lists
(`Tables.deleteMixerTrack_eq_some_iff`).

`Tables.ValidIds` says that no entity is stored under the default id, `Tables.Sparse` that no
pattern stores an empty sequence.
-/

namespace OneBeat

namespace Tables

variable {project : Tables}

/-- No entity is stored under the id that names nothing. -/
structure ValidIds (project : Tables) : Prop where
  instruments : ∀ id, (project.instruments.get? id).isSome → id.valid = true
  patterns : ∀ id, (project.patterns.get? id).isSome → id.valid = true
  lanes : ∀ id, (project.lanes.get? id).isSome → id.valid = true
  clips : ∀ id, (project.clips.get? id).isSome → id.valid = true
  mixerTracks : ∀ id, (project.mixerTracks.get? id).isSome → id.valid = true

/-- The ids of a project can be checked one by one. -/
theorem ValidIds.of_keys
    (h : (project.instruments.keys.all TypedId.valid && project.patterns.keys.all TypedId.valid &&
      project.lanes.keys.all TypedId.valid && project.clips.keys.all TypedId.valid &&
      project.mixerTracks.keys.all TypedId.valid) = true) : project.ValidIds := by
  simp only [Bool.and_eq_true, List.all_eq_true] at h
  obtain ⟨⟨⟨⟨hi, hp⟩, hl⟩, hc⟩, hm⟩ := h
  have hmem : ∀ {K : EntityKind} {β : Type} {m : OrderedMap (TypedId K) β} {id : TypedId K},
      (m.get? id).isSome → id ∈ m.keys := fun hid =>
    OrderedMap.mem_keys.2 (Option.isSome_iff_exists.1 hid)
  exact ⟨fun id hid => hi id (hmem hid), fun id hid => hp id (hmem hid),
    fun id hid => hl id (hmem hid), fun id hid => hc id (hmem hid),
    fun id hid => hm id (hmem hid)⟩

/-- No pattern stores an empty sequence. -/
def Sparse (project : Tables) : Prop :=
  ∀ id pattern, project.patterns.get? id = some pattern → pattern.Sparse

/-! ### Deleting clips -/

theorem getD_deleteClip (id : ClipId) :
    (project.deleteClip id).getD project = { project with clips := project.clips.erase id } := by
  unfold deleteClip
  split_ifs with h
  · rfl
  · rw [OrderedMap.erase_of_get?_eq_none
      (OrderedMap.contains_eq_false_iff.1 (Bool.eq_false_of_not_eq_true h))]
    rfl

theorem deleteClips_eq (ids : List ClipId) :
    project.deleteClips ids =
      { project with clips := project.clips.filter fun id _ => id ∉ ids } := by
  induction ids generalizing project with
  | nil =>
    have : project.clips.filter (fun id _ => decide (id ∉ ([] : List ClipId))) = project.clips :=
      OrderedMap.ext_get? fun k => by
        rw [OrderedMap.get?_filter]
        cases project.clips.get? k <;> rfl
    rw [this]; rfl
  | cons id ids ih =>
    rw [deleteClips, List.foldl_cons, getD_deleteClip]
    refine ih.trans ?_
    congr 1
    refine OrderedMap.ext_get? fun k => ?_
    simp only [OrderedMap.get?_filter, OrderedMap.get?_erase, List.mem_cons]
    by_cases hk : k = id
    · cases project.clips.get? k <;> simp [hk]
    · simp [hk]

theorem deletePattern_eq_some_iff {id : PatternId} {project' : Tables} :
    project.deletePattern id = some project' ↔
      (∃ pattern, project.patterns.get? id = some pattern) ∧
      project' = { project with
        clips := project.clips.filter fun clip _ => clip ∉ project.clipsUsingPattern id
        patterns := project.patterns.erase id } := by
  unfold deletePattern
  split_ifs with h
  · rw [deleteClips_eq, and_iff_right (OrderedMap.contains_eq_true_iff.1 h), Option.some_inj]
    exact eq_comm
  · simp [mt OrderedMap.contains_eq_true_iff.2 h]

theorem deleteLane_eq_some_iff {id : ArrangementLaneId} {project' : Tables} :
    project.deleteLane id = some project' ↔
      (∃ lane, project.lanes.get? id = some lane) ∧
      project' = { project with
        clips := project.clips.filter fun clip _ => clip ∉ project.clipsOnLane id
        lanes := (project.lanes.mapValues fun _ => releaseLane id).erase id } := by
  unfold deleteLane
  split_ifs with h
  · rw [deleteClips_eq, and_iff_right (OrderedMap.contains_eq_true_iff.1 h), Option.some_inj]
    exact eq_comm
  · simp [mt OrderedMap.contains_eq_true_iff.2 h]

theorem deleteInstrument_eq_some_iff {id : InstrumentId} {project' : Tables} :
    project.deleteInstrument id = some project' ↔
      (∃ instrument, project.instruments.get? id = some instrument) ∧
      project' = { project with
        patterns := project.patterns.mapValues fun _ pattern =>
          { pattern with sequences := pattern.sequences.erase id }
        clips := project.clips.filter fun clip _ => clip ∉ (project.instrumentImpact id).clips
        instruments := project.instruments.erase id } := by
  unfold deleteInstrument
  split_ifs with h
  · dsimp only
    rw [deleteClips_eq, and_iff_right (OrderedMap.contains_eq_true_iff.1 h), Option.some_inj]
    exact eq_comm
  · simp [mt OrderedMap.contains_eq_true_iff.2 h]

theorem deleteClip_eq_some_iff {id : ClipId} {project' : Tables} :
    project.deleteClip id = some project' ↔
      (∃ clip, project.clips.get? id = some clip) ∧
      project' = { project with clips := project.clips.erase id } := by
  unfold deleteClip
  split_ifs with h
  · rw [and_iff_right (OrderedMap.contains_eq_true_iff.1 h), Option.some_inj]
    exact eq_comm
  · simp [mt OrderedMap.contains_eq_true_iff.2 h]

/-! ### Deleting a mixer track -/

theorem mem_impact_instruments {id : MixerTrackId} {i : InstrumentId} :
    i ∈ (project.mixerTrackImpact id).instruments ↔
      ∃ instrument, project.instruments.get? i = some instrument ∧
        ∃ route ∈ instrument.routing, route.track = id := by
  unfold mixerTrackImpact
  simp [OrderedMap.mem_keysWhere]

theorem mem_impact_inputs {id i : MixerTrackId} :
    i ∈ (project.mixerTrackImpact id).inputs ↔
      ∃ track, project.mixerTracks.get? i = some track ∧ track.output = some id := by
  unfold mixerTrackImpact
  simp [OrderedMap.mem_keysWhere]

theorem mem_impact_clips {id : MixerTrackId} {i : ClipId} :
    i ∈ (project.mixerTrackImpact id).clips ↔
      ∃ clip, project.clips.get? i = some clip ∧
        (playsInto id clip = true ∨ automatesTrack id clip = true) := by
  unfold mixerTrackImpact
  simp [OrderedMap.mem_keysWhere]

/-- What a clip that plays into or automates a deleted track becomes. -/
def releasedClip (master : MixerTrackId) (clip : Clip) : Option Clip :=
  match clip.source with
  | .audio source => some { clip with source := .audio { source with destination := master } }
  | _ => none

theorem releaseClip_eq (master : MixerTrackId) (id : ClipId) :
    releaseClip master project id =
      { project with clips := (releaseClip master project id).clips } := by
  unfold releaseClip
  split
  · rfl
  · split
    · rfl
    · rw [getD_deleteClip]

theorem get?_releaseClip (master : MixerTrackId) (id k : ClipId) :
    (releaseClip master project id).clips.get? k =
      if k = id then (project.clips.get? k).bind (releasedClip master)
      else project.clips.get? k := by
  unfold releaseClip
  split
  next h => split_ifs with hk
            · rw [hk, h]; rfl
            · rfl
  next clip h =>
    split
    next source hs =>
      rw [OrderedMap.get?_modify]
      split_ifs with hk
      · rw [hk, h]; simp [releasedClip, hs]
      · rfl
    next hs =>
      rw [getD_deleteClip, OrderedMap.get?_erase]
      split_ifs with hk
      · rw [hk, h, Option.bind_some, releasedClip]
        split
        next source hs' => exact absurd hs' (hs source)
        next => rfl
      · rfl

theorem releasedClip_releasedClip (master : MixerTrackId) (clip : Clip) :
    (releasedClip master clip).bind (releasedClip master) = releasedClip master clip := by
  unfold releasedClip
  split <;> simp

theorem foldl_releaseClip_eq (master : MixerTrackId) (ids : List ClipId) :
    ids.foldl (releaseClip master) project =
      { project with clips := (ids.foldl (releaseClip master) project).clips } := by
  induction ids generalizing project with
  | nil => rfl
  | cons id ids ih =>
    rw [List.foldl_cons, ih, releaseClip_eq]

theorem get?_foldl_releaseClip (master : MixerTrackId) (ids : List ClipId) (k : ClipId) :
    (ids.foldl (releaseClip master) project).clips.get? k =
      if k ∈ ids then (project.clips.get? k).bind (releasedClip master)
      else project.clips.get? k := by
  induction ids generalizing project with
  | nil => simp
  | cons id ids ih =>
    rw [List.foldl_cons, ih, get?_releaseClip]
    by_cases hk : k = id
    · subst hk
      simp only [↓reduceIte, List.mem_cons, true_or]
      split_ifs
      · rw [Option.bind_assoc]
        congr 1; funext clip; exact releasedClip_releasedClip master clip
      · rfl
    · simp [hk]

/-- The tables after `deleteMixerTrack`. -/
theorem deleteMixerTrack_eq_some_iff {id : MixerTrackId} {project' : Tables} :
    project.deleteMixerTrack id = some project' ↔
      id ≠ project.master ∧ (∃ track, project.mixerTracks.get? id = some track) ∧
      project' = { project with
        instruments := (project.mixerTrackImpact id).instruments.foldl
          (fun instruments i => instruments.modify i (repointRouting id project.master))
          project.instruments
        mixerTracks := ((project.mixerTrackImpact id).inputs.foldl
          (fun tracks i => tracks.modify i (MixerTrack.outputTo project.master))
          project.mixerTracks).erase id
        clips := ((project.mixerTrackImpact id).clips.foldl (releaseClip project.master)
          project).clips } := by
  generalize hids : (project.mixerTrackImpact id).clips = ids
  generalize hclips : (ids.foldl (releaseClip project.master) project).clips = clips
  have hfold : ∀ (q : Tables), q.clips = project.clips →
      ids.foldl (releaseClip project.master) q = { q with clips } := by
    intro q hq
    rw [foldl_releaseClip_eq, ← hclips]
    congr 1
    refine OrderedMap.ext_get? fun k => ?_
    rw [get?_foldl_releaseClip, get?_foldl_releaseClip, hq]
  unfold deleteMixerTrack
  split_ifs with h₁ h₂
  · simp [h₁]
  · dsimp only
    rw [hids, hfold, and_iff_right h₁, and_iff_right (OrderedMap.contains_eq_true_iff.1 h₂),
      Option.some_inj]
    · exact eq_comm
    · rfl
  · simp [mt OrderedMap.contains_eq_true_iff.2 h₂]

/-! ### Restoring clips -/

theorem getD_restoreClip (id : ClipId) (clip : Clip) :
    (project.restoreClip id clip).getD project =
      { project with
        clips := if id.valid then project.clips.emplace id clip else project.clips } := by
  unfold restoreClip OrderedMap.emplace
  cases id.valid <;> cases project.clips.contains id <;> rfl

theorem restoreClips_eq (clips : List (ClipId × Clip)) :
    project.restoreClips clips = { project with clips := (project.restoreClips clips).clips } := by
  induction clips generalizing project with
  | nil => rfl
  | cons e es ih =>
    unfold restoreClips at ih ⊢
    rw [List.foldl_cons, ih, getD_restoreClip]

theorem get?_restoreClips (clips : List (ClipId × Clip)) (k : ClipId) :
    (project.restoreClips clips).clips.get? k =
      (project.clips.get? k).or (if k.valid then Entries.get? clips k else none) := by
  induction clips generalizing project with
  | nil => simp [restoreClips]
  | cons e es ih =>
    obtain ⟨id, clip⟩ := e
    unfold restoreClips at ih ⊢
    rw [List.foldl_cons, ih, getD_restoreClip, Entries.get?_cons]
    by_cases hv : id.valid = true
    · simp only [hv, ↓reduceIte, OrderedMap.get?_emplace]
      by_cases hk : k = id
      · subst hk
        simp only [↓reduceIte, hv]
        cases project.clips.get? k <;> simp
      · simp [hk, Ne.symm hk]
    · simp only [hv, Bool.false_eq_true, ↓reduceIte]
      by_cases hk : id = k
      · subst hk; simp [hv]
      · simp [hk]

end Tables

end OneBeat
