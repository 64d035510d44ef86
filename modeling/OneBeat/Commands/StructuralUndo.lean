import OneBeat.Commands.Structural
import OneBeat.Model.Cascade

/-!
# Undo of creating and deleting commands

Every delete captures what its cascade takes away, in an order in which every restore succeeds.
For each command there is one lemma that says what a successful apply captures, and one that says
that the command can then be taken back and made again (`History.Done`):

* `RemoveInstrument.done_of_apply`, `RemovePattern.done_of_apply`, `RemoveLane.done_of_apply`,
  `RemoveClip.done_of_apply`, `RemoveMixerTrack.done_of_apply` : on projects without an entity
  under the default id (`Tables.ValidIds`), and for instruments without an empty sequence
  (`Tables.Sparse`);
* `AddedEntity.done_of_restore` : creating an entity under an id that nothing refers to
  (`AddedEntity.Fresh`).
-/

namespace OneBeat

namespace Tables

variable {project : Tables}

/-! ### Sweeps of updates -/

/-- A sweep of updates, each of which fails when there is nothing to update. -/
theorem foldl_update {ε κ α : Type} [LinearOrder κ] {p : OrderedMap κ α → Tables}
    {u : Tables → κ → (α → α) → Option Tables}
    (hu : ∀ m k f, u (p m) k f = if m.contains k then some (p (m.modify k f)) else none)
    (key : ε → κ) (f : ε → α → α) (es : List ε) (m : OrderedMap κ α) :
    es.foldl (fun project e => (u project (key e) (f e)).getD project) (p m) =
      p (es.foldl (fun m e => m.modify (key e) (f e)) m) := by
  induction es generalizing m with
  | nil => rfl
  | cons e es ih =>
    have hfirst : (u (p m) (key e) (f e)).getD (p m) = p (m.modify (key e) (f e)) := by
      rw [hu]
      split_ifs with h
      · rfl
      · rw [OrderedMap.modify_of_get?_eq_none
          (OrderedMap.contains_eq_false_iff.1 (Bool.eq_false_of_not_eq_true h))]
        rfl
    rw [List.foldl_cons, List.foldl_cons, hfirst, ih]

theorem foldl_updateInstrument {ε : Type} (key : ε → InstrumentId)
    (f : ε → Instrument → Instrument) (es : List ε) :
    es.foldl (fun project e => (project.updateInstrument (key e) (f e)).getD project) project =
      { project with
        instruments := es.foldl (fun m e => m.modify (key e) (f e)) project.instruments } :=
  foldl_update (p := fun instruments => { project with instruments }) (fun _ _ _ => rfl) key f es _

theorem foldl_updateLane {ε : Type} (key : ε → ArrangementLaneId)
    (f : ε → ArrangementLane → ArrangementLane) (es : List ε) :
    es.foldl (fun project e => (project.updateLane (key e) (f e)).getD project) project =
      { project with lanes := es.foldl (fun m e => m.modify (key e) (f e)) project.lanes } :=
  foldl_update (p := fun lanes => { project with lanes }) (fun _ _ _ => rfl) key f es _

theorem foldl_updateMixerTrack {ε : Type} (key : ε → MixerTrackId)
    (f : ε → MixerTrack → MixerTrack) (es : List ε) :
    es.foldl (fun project e => (project.updateMixerTrack (key e) (f e)).getD project) project =
      { project with
        mixerTracks := es.foldl (fun m e => m.modify (key e) (f e)) project.mixerTracks } :=
  foldl_update (p := fun mixerTracks => { project with mixerTracks }) (fun _ _ _ => rfl) key f es _

theorem foldl_updateClip {ε : Type} (key : ε → ClipId) (f : ε → Clip → Clip) (es : List ε) :
    es.foldl (fun project e => (project.updateClip (key e) (f e)).getD project) project =
      { project with clips := es.foldl (fun m e => m.modify (key e) (f e)) project.clips } :=
  foldl_update (p := fun clips => { project with clips }) (fun _ _ _ => rfl) key f es _

/-- Those of the captured clips that satisfy `p`, looked up. -/
theorem get?_filter_clipsOf (p : Clip → Bool) (ids : List ClipId) (k : ClipId) :
    Entries.get? ((project.clipsOf ids).filter fun entry => p entry.2) k =
      if k ∈ ids then (project.clips.get? k).filter p else none := by
  unfold clipsOf
  induction ids with
  | nil => rfl
  | cons id ids ih =>
    cases hget : project.clips.get? id with
    | none =>
      rw [List.filterMap_cons_none (by simp [hget]), ih]
      by_cases hk : k = id
      · simp [hk, hget]
      · simp [hk]
    | some clip =>
      rw [List.filterMap_cons_some (by rw [hget]; rfl), List.filter_cons]
      by_cases hk : id = k
      · subst hk
        by_cases hp : p clip = true
        · simp [hp, Entries.get?_cons, hget, Option.filter_some]
        · simp [hp, ih, hget, Option.filter_some]
      · simp only [List.mem_cons, Ne.symm hk, false_or, ← ih]
        split_ifs with hp
        · rw [Entries.get?_cons, if_neg hk]
        · rfl

/-- The captured clips, looked up. -/
theorem get?_clipsOf (ids : List ClipId) (k : ClipId) :
    Entries.get? (project.clipsOf ids) k = if k ∈ ids then project.clips.get? k else none := by
  have h := @get?_filter_clipsOf project (fun _ => true) ids k
  rw [List.filter_eq_self.2 fun _ _ => rfl] at h
  cases hget : project.clips.get? k <;> simpa [hget, Option.filter_some] using h

theorem mem_clipsOf {ids : List ClipId} {id : ClipId} {clip : Clip} :
    (id, clip) ∈ project.clipsOf ids ↔ id ∈ ids ∧ project.clips.get? id = some clip := by
  simp only [clipsOf, List.mem_filterMap, Option.map_eq_some_iff, Prod.mk.injEq]
  constructor
  · rintro ⟨k, hk, clip', hclip, rfl, rfl⟩
    exact ⟨hk, hclip⟩
  · rintro ⟨hid, hclip⟩
    exact ⟨id, hid, clip, hclip, rfl, rfl⟩

/-- Deleted clips that were captured come back. -/
theorem restoreClips_clipsOf (hvalid : project.ValidIds) {q : Tables} (ids : List ClipId)
    (hq : q.clips = project.clips.filter fun id _ => id ∉ ids) :
    q.restoreClips (project.clipsOf ids) = { q with clips := project.clips } := by
  rw [restoreClips_eq]
  congr 1
  refine OrderedMap.ext_get? fun k => ?_
  rw [get?_restoreClips, hq, OrderedMap.get?_filter, get?_clipsOf]
  cases hget : project.clips.get? k with
  | none => simp
  | some clip =>
    have := hvalid.clips k (by simp [hget])
    by_cases hk : k ∈ ids
    · simp [hk, this]
    · simp [hk]

end Tables

/-! ### `RemoveClipCommand` -/

variable {project project' : Tables}

namespace RemoveClip

variable {command command' : RemoveClip}

theorem apply_eq_ok_iff : command.apply project = ⟨true, command', project'⟩ ↔
    ∃ clip, project.clips.get? command.id = some clip ∧ command' = ⟨command.id, clip⟩ ∧
      project.deleteClip command.id = some project' := by
  unfold apply
  cases project.clips.get? command.id with
  | none => simp
  | some clip =>
    simp only [Outcome.ofOption_eq_ok_iff, Option.some_inj, exists_eq_left']
    exact ⟨fun h => ⟨h.2.symm, h.1⟩, fun h => ⟨h.2, h.1.symm⟩⟩

theorem done_of_apply (hvalid : project.ValidIds)
    (h : command.apply project = ⟨true, command', project'⟩) :
    History.Done apply revert command' project project' := by
  obtain ⟨clip, hclip, rfl, hdelete⟩ := apply_eq_ok_iff.1 h
  refine History.Done.of_unchanged ?_
    (apply_eq_ok_iff.2 ⟨clip, hclip, rfl, hdelete⟩)
  obtain ⟨-, rfl⟩ := Tables.deleteClip_eq_some_iff.1 hdelete
  refine Outcome.ofOption_eq_ok_iff.2 ⟨?_, rfl⟩
  have hv := hvalid.clips command.id (by simp [hclip])
  simp [Tables.restoreClip, hv, OrderedMap.contains, OrderedMap.assign_erase hclip]

end RemoveClip

/-! ### `RemovePatternCommand` -/

namespace RemovePattern

variable {command command' : RemovePattern}

theorem apply_eq_ok_iff : command.apply project = ⟨true, command', project'⟩ ↔
    ∃ pattern, project.patterns.get? command.id = some pattern ∧
      command' = ⟨command.id, pattern, project.clipsOf (project.clipsUsingPattern command.id)⟩ ∧
      project.deletePattern command.id = some project' := by
  unfold apply
  cases project.patterns.get? command.id with
  | none => simp
  | some pattern =>
    simp only [Outcome.ofOption_eq_ok_iff, Option.some_inj, exists_eq_left']
    exact ⟨fun h => ⟨h.2.symm, h.1⟩, fun h => ⟨h.2, h.1.symm⟩⟩

theorem done_of_apply (hvalid : project.ValidIds)
    (h : command.apply project = ⟨true, command', project'⟩) :
    History.Done apply revert command' project project' := by
  obtain ⟨pattern, hpattern, rfl, hdelete⟩ := apply_eq_ok_iff.1 h
  refine History.Done.of_unchanged ?_
    (apply_eq_ok_iff.2 ⟨pattern, hpattern, rfl, hdelete⟩)
  obtain ⟨-, rfl⟩ := Tables.deletePattern_eq_some_iff.1 hdelete
  have hv := hvalid.patterns command.id (by simp [hpattern])
  unfold revert Tables.restorePattern
  simp only [hv, Bool.not_true, Bool.false_or, OrderedMap.contains, OrderedMap.get?_erase,
    ↓reduceIte, Option.isSome_none, Bool.false_eq_true, OrderedMap.assign_erase hpattern]
  rw [Tables.restoreClips_clipsOf hvalid _ rfl]

end RemovePattern

/-! ### `RemoveLaneCommand` -/

namespace RemoveLane

variable {command command' : RemoveLane}

theorem apply_eq_ok_iff : command.apply project = ⟨true, command', project'⟩ ↔
    ∃ lane, project.lanes.get? command.id = some lane ∧
      command' = ⟨command.id, lane, project.clipsOf (project.clipsOnLane command.id),
        project.lanes.keysWhere fun other => other.groupId = some command.id⟩ ∧
      project.deleteLane command.id = some project' := by
  unfold apply
  cases project.lanes.get? command.id with
  | none => simp
  | some lane =>
    simp only [Outcome.ofOption_eq_ok_iff, Option.some_inj, exists_eq_left']
    exact ⟨fun h => ⟨h.2.symm, h.1⟩, fun h => ⟨h.2, h.1.symm⟩⟩

theorem done_of_apply (hvalid : project.ValidIds)
    (h : command.apply project = ⟨true, command', project'⟩) :
    History.Done apply revert command' project project' := by
  obtain ⟨lane, hlane, rfl, hdelete⟩ := apply_eq_ok_iff.1 h
  refine History.Done.of_unchanged ?_
    (apply_eq_ok_iff.2 ⟨lane, hlane, rfl, hdelete⟩)
  obtain ⟨-, rfl⟩ := Tables.deleteLane_eq_some_iff.1 hdelete
  have hv := hvalid.lanes command.id (by simp [hlane])
  unfold revert Tables.restoreLane
  simp only [hv, Bool.not_true, Bool.false_or, OrderedMap.contains, OrderedMap.get?_erase,
    ↓reduceIte, Option.isSome_none, Bool.false_eq_true,
    Tables.foldl_updateLane (fun id => id)]
  -- the released lanes are grouped again
  have hlanes : (project.lanes.keysWhere fun other => other.groupId = some command.id).foldl
      (fun m id => m.modify id (ArrangementLane.groupUnder command.id))
      (((project.lanes.mapValues fun _ => Tables.releaseLane command.id).erase
        command.id).assign command.id lane) = project.lanes := by
    refine OrderedMap.ext_get? fun k => ?_
    rw [OrderedMap.get?_foldl_modify (fun id => id)
        (fun _ => ArrangementLane.groupUnder command.id) (ArrangementLane.groupUnder command.id)
        (fun _ => rfl) _ fun _ _ _ => rfl,
      List.map_id', OrderedMap.get?_assign, OrderedMap.get?_erase, OrderedMap.get?_mapValues]
    by_cases hk : k = command.id
    · subst hk
      simp only [↓reduceIte, OrderedMap.mem_keysWhere, hlane, Option.some_inj, exists_eq_left',
        decide_eq_true_eq, Option.map_some]
      split_ifs with hgroup
      · exact congrArg some (ArrangementLane.groupUnder_eq_self hgroup)
      · rfl
    · simp only [hk, ↓reduceIte, OrderedMap.mem_keysWhere, decide_eq_true_eq]
      cases hget : project.lanes.get? k with
      | none => simp
      | some other =>
        simp only [Option.some_inj, exists_eq_left', Option.map_some, Tables.releaseLane]
        split_ifs with hgroup
        · exact congrArg some (ArrangementLane.groupUnder_eq_self hgroup)
        · rfl
  simp only [hlanes]
  rw [Tables.restoreClips_clipsOf hvalid _ rfl]

end RemoveLane

/-! ### `RemoveInstrumentCommand` -/

namespace RemoveInstrument

variable {command command' : RemoveInstrument}

/-- The sequences an instrument has, with their patterns. -/
def sequencesOf (project : Tables) (id : InstrumentId) : List (PatternId × NoteSequence) :=
  project.patterns.entries.filterMap fun entry => (entry.2.sequences.get? id).map (entry.1, ·)

theorem mem_sequencesOf {id : InstrumentId} {k : PatternId} {sequence : NoteSequence} :
    (k, sequence) ∈ sequencesOf project id ↔
      ∃ pattern, project.patterns.get? k = some pattern ∧
        pattern.sequences.get? id = some sequence := by
  simp only [sequencesOf, List.mem_filterMap, Option.map_eq_some_iff, Prod.exists, Prod.mk.injEq,
    OrderedMap.get?_eq_some_iff]
  constructor
  · rintro ⟨k', pattern, hmem, sequence', hs, rfl, rfl⟩
    exact ⟨pattern, hmem, hs⟩
  · rintro ⟨pattern, hmem, hs⟩
    exact ⟨k, pattern, hmem, sequence, hs, rfl, rfl⟩

theorem apply_eq_ok_iff : command.apply project = ⟨true, command', project'⟩ ↔
    ∃ instrument, project.instruments.get? command.id = some instrument ∧
      command' = ⟨command.id, instrument, sequencesOf project command.id,
        project.clipsOf (project.instrumentImpact command.id).clips⟩ ∧
      project.deleteInstrument command.id = some project' := by
  unfold apply
  cases project.instruments.get? command.id with
  | none => simp
  | some instrument =>
    simp only [Outcome.ofOption_eq_ok_iff, Option.some_inj, exists_eq_left']
    exact ⟨fun h => ⟨h.2.symm, h.1⟩, fun h => ⟨h.2, h.1.symm⟩⟩

/-- A sweep of `restoreSequence`, while the instrument exists. -/
theorem foldl_restoreSequence {q : Tables} {id : InstrumentId}
    (hq : q.instruments.contains id = true) (sequences : List (PatternId × NoteSequence)) :
    sequences.foldl (fun q entry => (q.restoreSequence entry.1 id entry.2).getD q) q =
      { q with
        patterns := sequences.foldl (fun m entry =>
          m.modify entry.1 (Pattern.withSequence id entry.2)) q.patterns } := by
  induction sequences generalizing q with
  | nil => rfl
  | cons entry sequences ih =>
    rw [List.foldl_cons, List.foldl_cons]
    unfold Tables.restoreSequence at ih ⊢
    rw [hq, Bool.and_true]
    split_ifs with h
    · exact ih hq
    · rw [Option.getD_none, OrderedMap.modify_of_get?_eq_none
        (OrderedMap.contains_eq_false_iff.1 (Bool.eq_false_of_not_eq_true h))]
      exact ih hq

theorem done_of_apply (hvalid : project.ValidIds) (hsparse : project.Sparse)
    (h : command.apply project = ⟨true, command', project'⟩) :
    History.Done apply revert command' project project' := by
  obtain ⟨instrument, hinstrument, rfl, hdelete⟩ := apply_eq_ok_iff.1 h
  refine History.Done.of_unchanged ?_
    (apply_eq_ok_iff.2 ⟨instrument, hinstrument, rfl, hdelete⟩)
  obtain ⟨-, rfl⟩ := Tables.deleteInstrument_eq_some_iff.1 hdelete
  have hv := hvalid.instruments command.id (by simp [hinstrument])
  unfold revert Tables.restoreInstrument
  simp only [hv, Bool.not_true, Bool.false_or, OrderedMap.contains, OrderedMap.get?_erase,
    ↓reduceIte, Option.isSome_none, Bool.false_eq_true, OrderedMap.assign_erase hinstrument]
  rw [foldl_restoreSequence (by simp [OrderedMap.contains, hinstrument])]
  -- every pattern gets its sequence back
  have hpatterns : (sequencesOf project command.id).foldl (fun m entry =>
      m.modify entry.1 (Pattern.withSequence command.id entry.2))
      (project.patterns.mapValues fun _ pattern =>
        { pattern with sequences := pattern.sequences.erase command.id }) = project.patterns := by
    refine OrderedMap.ext_get? fun k => ?_
    cases hget : project.patterns.get? k with
    | none =>
      rw [OrderedMap.get?_foldl_modify Prod.fst
          (fun entry => Pattern.withSequence command.id entry.2) (fun v => v) (fun _ => rfl) _ ?_]
      · simp [hget]
      · rintro ⟨k', sequence⟩ hmem rfl
        obtain ⟨pattern, hpattern, -⟩ := mem_sequencesOf.1 hmem
        rw [hget] at hpattern
        cases hpattern
    | some pattern =>
      cases hs : pattern.sequences.get? command.id with
      | none =>
        have hkeys : k ∉ (sequencesOf project command.id).map Prod.fst := by
          intro hk
          obtain ⟨⟨k', sequence⟩, hmem, rfl⟩ := List.mem_map.1 hk
          obtain ⟨pattern', hpattern', hs'⟩ := mem_sequencesOf.1 hmem
          rw [hget, Option.some_inj] at hpattern'
          rw [← hpattern', hs] at hs'
          cases hs'
        rw [OrderedMap.get?_foldl_modify Prod.fst
          (fun entry => Pattern.withSequence command.id entry.2) (fun v => v) (fun _ => rfl) _
          fun entry hmem hk => absurd (List.mem_map.2 ⟨entry, hmem, hk⟩) hkeys, if_neg hkeys,
          OrderedMap.get?_mapValues, hget, Option.map_some,
          OrderedMap.erase_of_get?_eq_none hs]
      | some sequence =>
        have hmem : (k, sequence) ∈ sequencesOf project command.id :=
          mem_sequencesOf.2 ⟨pattern, hget, hs⟩
        rw [OrderedMap.get?_foldl_modify Prod.fst
          (fun entry => Pattern.withSequence command.id entry.2)
          (Pattern.withSequence command.id sequence)
          (fun _ => Pattern.withSequence_withSequence ..) _ ?_,
          if_pos (List.mem_map_of_mem hmem), OrderedMap.get?_mapValues, hget, Option.map_some,
          Option.map_some, Option.some_inj]
        · have herase : ({ pattern with sequences := pattern.sequences.erase command.id } :
              Pattern) = pattern.withSequence command.id .nil := rfl
          rw [herase, Pattern.withSequence_withSequence]
          exact Pattern.withSequence_notesOf (hsparse k pattern hget)
            (by rw [Pattern.notesOf, hs]; rfl)
        · rintro ⟨k', sequence'⟩ hmem' rfl
          obtain ⟨pattern', hpattern', hs'⟩ := mem_sequencesOf.1 hmem'
          rw [hget, Option.some_inj] at hpattern'
          rw [← hpattern', hs, Option.some_inj] at hs'
          rw [hs']
  simp only [hpatterns]
  rw [Tables.restoreClips_clipsOf hvalid _ rfl]

end RemoveInstrument

/-! ### `RemoveMixerTrackCommand` -/

namespace RemoveMixerTrack

variable {command command' : RemoveMixerTrack}

/-- The routings of the instruments that play into a track. -/
def routingsOf (project : Tables) (id : MixerTrackId) : List (InstrumentId × List OutputRoute) :=
  (project.mixerTrackImpact id).instruments.filterMap fun i =>
    (project.instruments.get? i).map fun instrument => (i, instrument.routing)

theorem mem_routingsOf {id : MixerTrackId} {i : InstrumentId} {routing : List OutputRoute} :
    (i, routing) ∈ routingsOf project id ↔
      i ∈ (project.mixerTrackImpact id).instruments ∧
        ∃ instrument, project.instruments.get? i = some instrument ∧
          instrument.routing = routing := by
  simp only [routingsOf, List.mem_filterMap, Option.map_eq_some_iff, Prod.mk.injEq]
  constructor
  · rintro ⟨k, hk, instrument, hget, rfl, rfl⟩
    exact ⟨hk, instrument, hget, rfl⟩
  · rintro ⟨hi, instrument, hget, rfl⟩
    exact ⟨i, hi, instrument, hget, rfl, rfl⟩

theorem apply_eq_ok_iff : command.apply project = ⟨true, command', project'⟩ ↔
    ∃ track, project.mixerTracks.get? command.id = some track ∧
      command' =
        { id := command.id
          track := track
          routings := routingsOf project command.id
          inputs := (project.mixerTrackImpact command.id).inputs
          clips := (project.clipsOf (project.mixerTrackImpact command.id).clips).filter
            fun entry => entry.2.audio.isNone
          audioClips := (project.clipsOf (project.mixerTrackImpact command.id).clips).filter
            fun entry => entry.2.audio.isSome } ∧
      project.deleteMixerTrack command.id = some project' := by
  unfold apply
  cases project.mixerTracks.get? command.id with
  | none => simp
  | some track =>
    simp only [Outcome.ofOption_eq_ok_iff, Option.some_inj, exists_eq_left']
    exact ⟨fun h => ⟨h.2.symm, h.1⟩, fun h => ⟨h.2, h.1.symm⟩⟩

theorem repointRouting_repointRouting (id master : MixerTrackId) (instrument : Instrument) :
    Tables.repointRouting id master (Tables.repointRouting id master instrument) =
      Tables.repointRouting id master instrument := by
  unfold Tables.repointRouting
  simp only [List.map_map]
  congr 1
  refine List.map_congr_left fun route _ => ?_
  simp only [Function.comp_apply]
  split_ifs <;> rfl

/-- The instruments that played into the track get their routings back. -/
theorem instruments_revert (id : MixerTrackId) :
    (routingsOf project id).foldl (fun m entry => m.modify entry.1 (Instrument.routeTo entry.2))
      ((project.mixerTrackImpact id).instruments.foldl
        (fun instruments i => instruments.modify i (Tables.repointRouting id project.master))
        project.instruments) = project.instruments := by
  refine OrderedMap.ext_get? fun k => ?_
  have hinner : ((project.mixerTrackImpact id).instruments.foldl
      (fun instruments i => instruments.modify i (Tables.repointRouting id project.master))
      project.instruments).get? k =
      if k ∈ (project.mixerTrackImpact id).instruments then
        (project.instruments.get? k).map (Tables.repointRouting id project.master)
      else project.instruments.get? k := by
    rw [OrderedMap.get?_foldl_modify (fun i => i)
      (fun _ => Tables.repointRouting id project.master)
      (Tables.repointRouting id project.master) (repointRouting_repointRouting _ _) _
      fun _ _ _ => rfl, List.map_id']
    split_ifs <;> rfl
  by_cases hk : k ∈ (project.mixerTrackImpact id).instruments
  · obtain ⟨instrument, hget, -⟩ := Tables.mem_impact_instruments.1 hk
    have hmem : (k, instrument.routing) ∈ routingsOf project id :=
      mem_routingsOf.2 ⟨hk, instrument, hget, rfl⟩
    rw [OrderedMap.get?_foldl_modify Prod.fst (fun entry => Instrument.routeTo entry.2)
      (Instrument.routeTo instrument.routing) (fun _ => rfl) _ ?_,
      if_pos (List.mem_map_of_mem hmem), hinner, if_pos hk, hget]
    · rfl
    · rintro ⟨k', routing⟩ hmem' rfl
      obtain ⟨-, instrument', hget', rfl⟩ := mem_routingsOf.1 hmem'
      rw [Option.some_inj.1 (hget.symm.trans hget')]
  · have hkeys : k ∉ (routingsOf project id).map Prod.fst := by
      intro h
      obtain ⟨⟨k', routing⟩, hmem, rfl⟩ := List.mem_map.1 h
      exact hk (mem_routingsOf.1 hmem).1
    rw [OrderedMap.get?_foldl_modify Prod.fst (fun entry => Instrument.routeTo entry.2)
      (fun v => v) (fun _ => rfl) _ fun entry hmem h => absurd (List.mem_map.2 ⟨entry, hmem, h⟩) hkeys,
      if_neg hkeys, hinner, if_neg hk]

/-- The tracks that went into the track go into it again, and it is there. -/
theorem mixerTracks_revert {id : MixerTrackId} {track : MixerTrack}
    (htrack : project.mixerTracks.get? id = some track) :
    (project.mixerTrackImpact id).inputs.foldl (fun m i => m.modify i (MixerTrack.outputTo id))
      ((((project.mixerTrackImpact id).inputs.foldl
        (fun tracks i => tracks.modify i (MixerTrack.outputTo project.master))
        project.mixerTracks).erase id).assign id track) = project.mixerTracks := by
  refine OrderedMap.ext_get? fun k => ?_
  rw [OrderedMap.get?_foldl_modify (fun i => i) (fun _ => MixerTrack.outputTo id)
      (MixerTrack.outputTo id) (fun _ => rfl) _ fun _ _ _ => rfl, List.map_id',
    OrderedMap.get?_assign, OrderedMap.get?_erase,
    OrderedMap.get?_foldl_modify (fun i => i) (fun _ => MixerTrack.outputTo project.master)
      (MixerTrack.outputTo project.master) (fun _ => rfl) _ fun _ _ _ => rfl, List.map_id']
  have hback : ∀ other : MixerTrack, other.output = some id → other.outputTo id = other := by
    intro other h
    unfold MixerTrack.outputTo
    rw [← h]
  by_cases hk : k ∈ (project.mixerTrackImpact id).inputs
  · obtain ⟨other, hget, houtput⟩ := Tables.mem_impact_inputs.1 hk
    by_cases hid : k = id
    · subst hid
      rw [htrack, Option.some_inj] at hget
      subst hget
      simp [hk, htrack, hback _ houtput]
    · simp only [hk, hid, ↓reduceIte, hget, Option.map_some]
      exact congrArg some (hback _ houtput)
  · by_cases hid : k = id
    · subst hid; simp [hk, htrack]
    · simp [hk, hid]

/-- The clips that were re-pointed or deleted are what they were. -/
theorem clips_revert (hvalid : project.ValidIds) (id : MixerTrackId) {q : Tables}
    (hq : q.clips = ((project.clipsOf (project.mixerTrackImpact id).clips).filter
        fun entry => entry.2.audio.isSome).foldl (fun m entry => m.modify entry.1 fun _ => entry.2)
      ((project.mixerTrackImpact id).clips.foldl (Tables.releaseClip project.master)
        project).clips) :
    (q.restoreClips ((project.clipsOf (project.mixerTrackImpact id).clips).filter
      fun entry => entry.2.audio.isNone)).clips = project.clips := by
  refine OrderedMap.ext_get? fun k => ?_
  rw [Tables.get?_restoreClips, Tables.get?_filter_clipsOf fun clip => clip.audio.isNone, hq]
  set ids := (project.mixerTrackImpact id).clips
  cases hget : project.clips.get? k with
  | none =>
    rw [OrderedMap.get?_foldl_modify Prod.fst (fun entry _ => entry.2) (fun v => v)
      (fun _ => rfl) _ ?_, Tables.get?_foldl_releaseClip, hget]
    · simp
    · rintro ⟨k', clip⟩ hmem rfl
      obtain ⟨-, hclip⟩ := Tables.mem_clipsOf.1 (List.mem_filter.1 hmem).1
      rw [hget] at hclip
      cases hclip
  | some clip =>
    have hv := hvalid.clips k (by simp [hget])
    have hsame : ∀ entry ∈ (project.clipsOf ids).filter fun entry => entry.2.audio.isSome,
        entry.1 = k → (fun _ : Clip => entry.2) = fun _ => clip := by
      rintro ⟨k', clip'⟩ hmem rfl
      obtain ⟨-, hclip'⟩ := Tables.mem_clipsOf.1 (List.mem_filter.1 hmem).1
      rw [Option.some_inj.1 (hget.symm.trans hclip')]
    rw [OrderedMap.get?_foldl_modify Prod.fst (fun entry _ => entry.2) (fun _ => clip)
      (fun _ => rfl) _ hsame, Tables.get?_foldl_releaseClip, hget, Option.bind_some, hv]
    have hkeys : k ∈ ((project.clipsOf ids).filter fun entry => entry.2.audio.isSome).map Prod.fst ↔
        k ∈ ids ∧ clip.audio.isSome = true := by
      simp only [List.mem_map, List.mem_filter, Prod.exists, exists_and_right, exists_eq_right,
        Tables.mem_clipsOf, hget, Option.some_inj]
      constructor
      · rintro ⟨x, ⟨hk, rfl⟩, haudio⟩
        exact ⟨hk, haudio⟩
      · rintro ⟨hk, haudio⟩
        exact ⟨clip, ⟨hk, rfl⟩, haudio⟩
    simp only [hkeys]
    by_cases hk : k ∈ ids
    · unfold Tables.releasedClip Clip.audio
      cases hsource : clip.source <;> simp [hk, hsource]
    · simp [hk]

theorem done_of_apply (hvalid : project.ValidIds)
    (h : command.apply project = ⟨true, command', project'⟩) :
    History.Done apply revert command' project project' := by
  obtain ⟨track, htrack, rfl, hdelete⟩ := apply_eq_ok_iff.1 h
  refine History.Done.of_unchanged ?_ (apply_eq_ok_iff.2 ⟨track, htrack, rfl, hdelete⟩)
  obtain ⟨-, -, rfl⟩ := Tables.deleteMixerTrack_eq_some_iff.1 hdelete
  have hv := hvalid.mixerTracks command.id (by simp [htrack])
  unfold revert Tables.restoreMixerTrack
  simp only [hv, Bool.not_true, Bool.false_or, OrderedMap.contains, OrderedMap.get?_erase,
    ↓reduceIte, Option.isSome_none, Bool.false_eq_true,
    Tables.foldl_updateInstrument Prod.fst fun entry => Instrument.routeTo entry.2,
    Tables.foldl_updateMixerTrack (fun i => i) fun _ => MixerTrack.outputTo command.id,
    Tables.foldl_updateClip Prod.fst fun (entry : ClipId × Clip) _ => entry.2,
    instruments_revert]
  rw [Tables.restoreClips_eq, clips_revert hvalid command.id rfl]
  congr 2
  exact mixerTracks_revert htrack

end RemoveMixerTrack

/-! ### `AddCommand` -/

namespace AddedEntity

/-- Nothing in the project refers to the id the entity is to be stored under. -/
def Fresh (project : Tables) : AddedEntity → Prop
  | instrument id _ =>
    (∀ k pattern, project.patterns.get? k = some pattern → pattern.sequences.get? id = none) ∧
      ∀ k clip, project.clips.get? k = some clip → Tables.automatesInstrument id clip = false
  | pattern id _ => ∀ k clip, project.clips.get? k = some clip → clip.pattern ≠ some id
  | lane id _ =>
    (∀ k clip, project.clips.get? k = some clip → clip.lane ≠ id) ∧
      ∀ k other, project.lanes.get? k = some other → other.groupId ≠ some id
  | clip _ _ => True
  | mixerTrack id _ =>
    id ≠ project.master ∧
      (∀ k instrument, project.instruments.get? k = some instrument →
        ∀ route ∈ instrument.routing, route.track ≠ id) ∧
      (∀ k track, project.mixerTracks.get? k = some track → track.output ≠ some id) ∧
      ∀ k clip, project.clips.get? k = some clip →
        Tables.playsInto id clip = false ∧ Tables.automatesTrack id clip = false

/-- The map of the entity's kind after `restore`. -/
theorem restore_eq_some_iff {m : Bool} {b : Bool} {q : Tables} :
    (if !b || m then none else some q) = some project' ↔
      (b = true ∧ m = false) ∧ q = project' := by
  cases b <;> cases m <;> simp

/-- No lane is in the group of a lane that is new. -/
theorem lanes_of_fresh {id : ArrangementLaneId} (hnone : project.lanes.get? id = none)
    (hgroups : ∀ k other, project.lanes.get? k = some other → other.groupId ≠ some id)
    (entity : ArrangementLane) :
    ((project.lanes.assign id entity).mapValues fun _ => Tables.releaseLane id).erase id =
      project.lanes := by
  refine OrderedMap.ext_get? fun k => ?_
  rw [OrderedMap.get?_erase, OrderedMap.get?_mapValues, OrderedMap.get?_assign]
  split_ifs with hk
  · rw [hk, hnone]
  · cases hget : project.lanes.get? k with
    | none => rfl
    | some other => rw [Option.map_some, Tables.releaseLane, if_neg (hgroups k other hget)]

/-- Only a track that is new can go into a track that is new. -/
theorem mixerTracks_of_fresh {id : MixerTrackId} (hnone : project.mixerTracks.get? id = none)
    (houtputs : ∀ k track, project.mixerTracks.get? k = some track → track.output ≠ some id)
    (entity : MixerTrack) {q : Tables}
    (hq : q.mixerTracks = project.mixerTracks.assign id entity) :
    ((q.mixerTrackImpact id).inputs.foldl
      (fun tracks i => tracks.modify i (MixerTrack.outputTo q.master)) q.mixerTracks).erase id =
        project.mixerTracks := by
  refine OrderedMap.ext_get? fun k => ?_
  rw [OrderedMap.get?_erase, OrderedMap.get?_foldl_modify (fun i => i)
    (fun _ => MixerTrack.outputTo q.master) (MixerTrack.outputTo q.master) (fun _ => rfl) _
    fun _ _ _ => rfl, List.map_id']
  split_ifs with hk hinput
  · rw [hk, hnone]
  · obtain ⟨track, hget, houtput⟩ := Tables.mem_impact_inputs.1 hinput
    rw [hq, OrderedMap.get?_assign, if_neg hk] at hget
    exact absurd houtput (houtputs k track hget)
  · rw [hq, OrderedMap.get?_assign, if_neg hk]

/-- Nobody notices that an entity nothing refers to is created and deleted. -/
theorem delete_of_restore {command : AddedEntity} (hfresh : command.Fresh project)
    (h : command.restore project = some project') : command.delete project' = some project := by
  cases command with
  | instrument id entity =>
    obtain ⟨⟨-, hnone⟩, rfl⟩ := restore_eq_some_iff.1 h
    rw [OrderedMap.contains_eq_false_iff] at hnone
    refine Tables.deleteInstrument_eq_some_iff.2 ⟨⟨entity, by simp⟩, ?_⟩
    have hpatterns : project.patterns.mapValues (fun _ pattern =>
        { pattern with sequences := pattern.sequences.erase id }) = project.patterns :=
      OrderedMap.mapValues_eq_self fun k pattern hk => by
        rw [OrderedMap.erase_of_get?_eq_none (hfresh.1 k pattern hk)]
    have hclips := OrderedMap.notMem_keysWhere hfresh.2
    simp only [hpatterns, OrderedMap.erase_assign hnone]
    refine congrArg (fun clips => { project with clips := clips }) (Eq.symm ?_)
    exact OrderedMap.filter_eq_self fun k _ _ => decide_eq_true (hclips k)
  | pattern id entity =>
    obtain ⟨⟨-, hnone⟩, rfl⟩ := restore_eq_some_iff.1 h
    rw [OrderedMap.contains_eq_false_iff] at hnone
    refine Tables.deletePattern_eq_some_iff.2 ⟨⟨entity, by simp⟩, ?_⟩
    have hclips := OrderedMap.notMem_keysWhere fun k clip hk => decide_eq_false (hfresh k clip hk)
    simp only [OrderedMap.erase_assign hnone]
    refine congrArg (fun clips => { project with clips := clips }) (Eq.symm ?_)
    exact OrderedMap.filter_eq_self fun k _ _ => decide_eq_true (hclips k)
  | lane id entity =>
    obtain ⟨⟨-, hnone⟩, rfl⟩ := restore_eq_some_iff.1 h
    rw [OrderedMap.contains_eq_false_iff] at hnone
    refine Tables.deleteLane_eq_some_iff.2 ⟨⟨entity, by simp⟩, ?_⟩
    have hclips := OrderedMap.notMem_keysWhere fun k clip hk => decide_eq_false (hfresh.1 k clip hk)
    simp only [lanes_of_fresh hnone hfresh.2]
    refine congrArg (fun clips => { project with clips := clips }) (Eq.symm ?_)
    exact OrderedMap.filter_eq_self fun k _ _ => decide_eq_true (hclips k)
  | clip id entity =>
    obtain ⟨⟨-, hnone⟩, rfl⟩ := restore_eq_some_iff.1 h
    rw [OrderedMap.contains_eq_false_iff] at hnone
    refine Tables.deleteClip_eq_some_iff.2 ⟨⟨entity, by simp⟩, ?_⟩
    simp only [OrderedMap.erase_assign hnone]
  | mixerTrack id entity =>
    obtain ⟨hmaster, hroutes, houtputs, hclips⟩ := hfresh
    obtain ⟨⟨-, hnone⟩, rfl⟩ := restore_eq_some_iff.1 h
    rw [OrderedMap.contains_eq_false_iff] at hnone
    refine Tables.deleteMixerTrack_eq_some_iff.2 ⟨hmaster, ⟨entity, by simp⟩, ?_⟩
    set q : Tables := { project with mixerTracks := project.mixerTracks.assign id entity }
    have hinstruments : (q.mixerTrackImpact id).instruments = [] := by
      refine List.eq_nil_iff_forall_not_mem.2 fun i hi => ?_
      obtain ⟨instrument, hget, route, hroute, htrack⟩ := Tables.mem_impact_instruments.1 hi
      exact hroutes i instrument hget route hroute htrack
    have hclips : (q.mixerTrackImpact id).clips = [] := by
      refine List.eq_nil_iff_forall_not_mem.2 fun i hi => ?_
      obtain ⟨clip, hget, hplays | hautomates⟩ := Tables.mem_impact_clips.1 hi
      · rw [(hclips i clip hget).1] at hplays
        cases hplays
      · rw [(hclips i clip hget).2] at hautomates
        cases hautomates
    have htracks := mixerTracks_of_fresh hnone houtputs entity (q := q) rfl
    rw [hinstruments, hclips]
    simp only [List.foldl_nil]
    exact congrArg (fun tracks => { project with mixerTracks := tracks }) htracks.symm

theorem done_of_restore {command command' : AddedEntity} (hfresh : command.Fresh project)
    (h : command.apply project = ⟨true, command', project'⟩) :
    History.Done apply revert command' project project' := by
  obtain ⟨hrestore, rfl⟩ := Outcome.ofOption_eq_ok_iff.1 h
  refine History.Done.of_unchanged ?_ h
  exact Outcome.ofOption_eq_ok_iff.2 ⟨delete_of_restore hfresh hrestore, rfl⟩

end AddedEntity

end OneBeat
