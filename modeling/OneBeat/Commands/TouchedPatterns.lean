import OneBeat.Commands.Emission

/-!
# The patterns a command creates or deletes

Every other command leaves the set of patterns alone, whether it is applied, taken back, or rolled
back half way.

* `Command.stepSpares_apply`, `Command.stepSpares_revert` : a pattern the command does not touch is
  there after a step exactly when it was there before.
* `Command.contains_revert_of_ok` : a command that deletes no pattern and can be taken back takes
  away the patterns it created, and no other.
-/

namespace OneBeat

namespace Command

mutual

/-- The patterns a command creates. -/
def createdPatterns : Command → List PatternId
  | add (.pattern id _) => [id]
  | composite commands => createdPatternsAll commands
  | _ => []

def createdPatternsAll : List Command → List PatternId
  | [] => []
  | command :: commands => createdPatterns command ++ createdPatternsAll commands

end

mutual

/-- The patterns a command deletes. -/
def removedPatterns : Command → List PatternId
  | removePattern command => [command.id]
  | composite commands => removedPatternsAll commands
  | _ => []

def removedPatternsAll : List Command → List PatternId
  | [] => []
  | command :: commands => removedPatterns command ++ removedPatternsAll commands

end

/-- The pattern is neither created nor deleted. -/
def Spares (command : Command) (id : PatternId) : Prop :=
  id ∉ command.createdPatterns ∧ id ∉ command.removedPatterns

end Command

/-- The same patterns are there. -/
def SamePatterns (project project' : Tables) : Prop :=
  ∀ id, project'.patterns.contains id = project.patterns.contains id

namespace Tables

variable {project project' : Tables}

theorem samePatterns_of_eq (h : project'.patterns = project.patterns) :
    SamePatterns project project' := fun id => by rw [h]

theorem samePatterns_deleteInstrument {id : InstrumentId}
    (h : project.deleteInstrument id = some project') : SamePatterns project project' := by
  obtain ⟨-, rfl⟩ := deleteInstrument_eq_some_iff.1 h
  intro k
  simp [OrderedMap.contains]

theorem patterns_deleteLane {id : ArrangementLaneId} (h : project.deleteLane id = some project') :
    project'.patterns = project.patterns := by
  obtain ⟨-, rfl⟩ := deleteLane_eq_some_iff.1 h
  rfl

theorem patterns_deleteClip {id : ClipId} (h : project.deleteClip id = some project') :
    project'.patterns = project.patterns := by
  obtain ⟨-, rfl⟩ := deleteClip_eq_some_iff.1 h
  rfl

theorem patterns_deleteMixerTrack {id : MixerTrackId}
    (h : project.deleteMixerTrack id = some project') : project'.patterns = project.patterns := by
  obtain ⟨-, -, rfl⟩ := deleteMixerTrack_eq_some_iff.1 h
  rfl

theorem contains_deletePattern {id k : PatternId} (h : project.deletePattern id = some project') :
    project'.patterns.contains k = (decide (k ≠ id) && project.patterns.contains k) := by
  obtain ⟨-, rfl⟩ := deletePattern_eq_some_iff.1 h
  by_cases hk : k = id <;> simp [OrderedMap.contains, hk]

theorem contains_restorePattern {id k : PatternId} {pattern : Pattern}
    (h : project.restorePattern id pattern = some project') :
    project'.patterns.contains k = (decide (k = id) || project.patterns.contains k) := by
  unfold restorePattern at h
  split_ifs at h
  cases h
  by_cases hk : k = id <;> simp [OrderedMap.contains, hk]

theorem samePatterns_restoreSequence {patternId : PatternId} {instrumentId : InstrumentId}
    {sequence : NoteSequence}
    (h : project.restoreSequence patternId instrumentId sequence = some project') :
    SamePatterns project project' := by
  unfold restoreSequence at h
  split_ifs at h
  cases h
  intro k
  simp only [OrderedMap.contains, OrderedMap.get?_modify]
  split_ifs <;> simp

/-- A sweep whose steps keep the patterns keeps them. -/
theorem samePatterns_foldl {ε : Type} (es : List ε) {step : Tables → ε → Option Tables}
    (hstep : ∀ project e project', step project e = some project' → SamePatterns project project')
    (project : Tables) :
    SamePatterns project (es.foldl (fun project e => (step project e).getD project) project) := by
  induction es generalizing project with
  | nil => exact fun _ => rfl
  | cons e es ih =>
    intro id
    rw [List.foldl_cons, ih]
    cases h : step project e with
    | none => rfl
    | some project' => exact hstep project e project' h id

theorem samePatterns_editSequence {patternId : PatternId} {instrument : InstrumentId}
    {take give : List Note}
    (h : editSequence patternId instrument project take give = some project') :
    SamePatterns project project' := by
  obtain ⟨pattern, hpattern⟩ : ∃ pattern, project.patterns.get? patternId = some pattern := by
    unfold editSequence at h
    split at h
    · cases h
    · next pattern hpattern => exact ⟨pattern, hpattern⟩
  obtain ⟨-, rfl⟩ := (editSequence_eq_some_iff hpattern).1 h
  intro k
  simp only [withNotes, OrderedMap.contains, OrderedMap.get?_modify]
  split_ifs <;> simp

end Tables

/-! ### The target of an edit -/

theorem EditTarget.samePatterns_write {project project' : Tables} {target : EditTarget}
    {value : target.Value} (h : target.write project value = some project') :
    SamePatterns project project' := by
  cases target with
  | instrument id | lane id | clip id | mixerTrack id =>
    simp only [write, Tables.updateInstrument, Tables.updateLane, Tables.updateClip,
      Tables.updateMixerTrack] at h
    split_ifs at h
    cases h
    exact fun _ => rfl
  | patternMeta id =>
    simp only [write, Tables.updatePattern] at h
    split_ifs at h
    cases h
    intro k
    simp only [OrderedMap.contains, OrderedMap.get?_modify]
    split_ifs <;> simp

namespace Command

variable {project : Tables} {id : PatternId}

/-- A step touches no pattern but those its command touches. -/
structure StepSpares (command : Command) (project : Tables) (step : Outcome Tables Command) :
    Prop where
  created : step.command.createdPatterns = command.createdPatterns
  removed : step.command.removedPatterns = command.removedPatterns
  contains : ∀ id, command.Spares id →
    step.state.patterns.contains id = project.patterns.contains id

theorem StepSpares.of_option {E : Type} {f : E → Command} {command : E} {o : Option Tables}
    (h : ∀ project', o = some project' → ∀ id, (f command).Spares id →
      project'.patterns.contains id = project.patterns.contains id) :
    StepSpares (f command) project ((Outcome.ofOption command project o).map f) := by
  cases o with
  | none => exact ⟨rfl, rfl, fun _ _ => rfl⟩
  | some project' => exact ⟨rfl, rfl, h project' rfl⟩

theorem contains_restore_of_spares {entity : AddedEntity} {project' : Tables}
    (h : entity.restore project = some project') (hspares : (add entity).Spares id) :
    project'.patterns.contains id = project.patterns.contains id := by
  cases entity with
  | pattern k pattern =>
    have hne : id ≠ k := by simpa [Spares, createdPatterns, removedPatterns] using hspares
    rw [Tables.contains_restorePattern h]
    simp [hne]
  | instrument | lane | clip | mixerTrack =>
    simp only [AddedEntity.restore, Tables.restoreInstrument, Tables.restoreLane,
      Tables.restoreClip, Tables.restoreMixerTrack] at h
    split_ifs at h
    cases h
    rfl

theorem contains_delete_of_spares {entity : AddedEntity} {project' : Tables}
    (h : entity.delete project = some project') (hspares : (add entity).Spares id) :
    project'.patterns.contains id = project.patterns.contains id := by
  cases entity with
  | pattern k pattern =>
    have hne : id ≠ k := by simpa [Spares, createdPatterns, removedPatterns] using hspares
    rw [Tables.contains_deletePattern h]
    simp [hne]
  | instrument k instrument => exact Tables.samePatterns_deleteInstrument h id
  | lane k lane => rw [Tables.patterns_deleteLane h]
  | clip k clip => rw [Tables.patterns_deleteClip h]
  | mixerTrack k track => rw [Tables.patterns_deleteMixerTrack h]

theorem samePatterns_revert_note {command : NoteCommand} :
    SamePatterns project (command.revert project).state := by
  unfold NoteCommand.revert
  split
  · exact fun _ => rfl
  · next h =>
    intro id
    rw [Tables.setLengths_eq]
    exact Tables.samePatterns_editSequence h id

theorem samePatterns_apply_note {command : NoteCommand} :
    SamePatterns project (command.apply project).state := by
  cases hok : (command.apply project).ok with
  | false =>
    have hnote : (apply (note command) project).ok = false := by rwa [apply]
    have hstate := state_apply_of_not_ok rfl hnote
    rw [apply] at hstate
    exact Tables.samePatterns_of_eq (congrArg Tables.patterns hstate)
  | true =>
    obtain ⟨pattern, hpattern, happlies⟩ := NoteCommand.apply_ok_iff.1 hok
    rw [NoteCommand.apply_eq hpattern happlies]
    intro k
    simp only [NoteCommand.result, Tables.patterns_mapClips, Tables.withNotes, OrderedMap.contains,
      OrderedMap.get?_modify]
    split_ifs <;> simp

theorem samePatterns_revert_instrument {command : RemoveInstrument} :
    SamePatterns project (command.revert project).state := by
  unfold RemoveInstrument.revert
  split
  · exact fun _ => rfl
  · next project' h =>
    intro id
    dsimp only
    rw [Tables.restoreClips_eq]
    refine (Tables.samePatterns_foldl _ (fun _ _ _ => Tables.samePatterns_restoreSequence) _
      id).trans ?_
    simp only [Tables.restoreInstrument] at h
    split_ifs at h
    cases h
    rfl

theorem samePatterns_revert_lane {command : RemoveLane} :
    SamePatterns project (command.revert project).state := by
  unfold RemoveLane.revert
  split
  · exact fun _ => rfl
  · next project' h =>
    intro id
    dsimp only
    rw [Tables.restoreClips_eq]
    refine (Tables.samePatterns_foldl _ (fun _ _ _ hstep => ?_) _ id).trans ?_
    · unfold Tables.updateLane at hstep
      split_ifs at hstep
      cases hstep
      exact fun _ => rfl
    · simp only [Tables.restoreLane] at h
      split_ifs at h
      cases h
      rfl

theorem samePatterns_revert_mixerTrack {command : RemoveMixerTrack} :
    SamePatterns project (command.revert project).state := by
  unfold RemoveMixerTrack.revert
  split
  · exact fun _ => rfl
  · next project' h =>
    intro id
    dsimp only
    rw [Tables.restoreClips_eq]
    iterate 3
      refine (Tables.samePatterns_foldl _ (fun _ _ _ hstep => ?_) _ id).trans ?_
      · simp only [Tables.updateClip, Tables.updateMixerTrack, Tables.updateInstrument] at hstep
        split_ifs at hstep
        cases hstep
        exact fun _ => rfl
    · simp only [Tables.restoreMixerTrack] at h
      split_ifs at h
      cases h
      rfl

theorem stepSpares_revert_of_single {command : Command} (hsingle : command.isComposite = false) :
    StepSpares command project (revert command project) := by
  cases command with
  | composite commands => cases hsingle
  | add entity =>
    rw [revert]
    exact .of_option fun project' h id hspares => contains_delete_of_spares h hspares
  | removeInstrument command =>
    rw [revert]
    refine ⟨rfl, rfl, fun id _ => samePatterns_revert_instrument id⟩
  | removePattern command =>
    rw [revert, RemovePattern.revert]
    split
    · exact ⟨rfl, rfl, fun _ _ => rfl⟩
    · next project' h =>
      refine ⟨rfl, rfl, fun id hspares => ?_⟩
      have hne : id ≠ command.id := by
        simpa [Spares, createdPatterns, removedPatterns] using hspares
      simp only [Outcome.map_mk]
      rw [Tables.restoreClips_eq]
      exact (Tables.contains_restorePattern h).trans (by simp [hne])
  | removeLane command =>
    rw [revert]
    exact ⟨rfl, rfl, fun id _ => samePatterns_revert_lane id⟩
  | removeMixerTrack command =>
    rw [revert]
    exact ⟨rfl, rfl, fun id _ => samePatterns_revert_mixerTrack id⟩
  | removeClip command =>
    rw [revert]
    refine .of_option fun project' h id _ => ?_
    simp only [Tables.restoreClip] at h
    split_ifs at h
    cases h
    rfl
  | edit command =>
    rw [revert]
    exact .of_option fun project' h id _ => EditTarget.samePatterns_write h id
  | effectParam command =>
    rw [revert]
    refine .of_option fun project' h id _ => ?_
    simp only [EffectParamCommand.write, Tables.updateMixerTrack] at h
    split_ifs at h
    cases h
    rfl
  | note command =>
    rw [revert]
    exact ⟨rfl, rfl, fun id _ => samePatterns_revert_note id⟩
  | transport | metadata =>
    simp only [revert, TransportCommand.revert_eq]
    exact ⟨rfl, rfl, fun _ _ => rfl⟩

theorem stepSpares_apply_of_single {command : Command} (hsingle : command.isComposite = false) :
    StepSpares command project (apply command project) := by
  cases command with
  | composite commands => cases hsingle
  | add entity =>
    rw [apply]
    exact .of_option fun project' h id hspares => contains_restore_of_spares h hspares
  | removeInstrument command =>
    rw [apply, RemoveInstrument.apply]
    split
    · exact ⟨rfl, rfl, fun _ _ => rfl⟩
    · cases h : project.deleteInstrument command.id with
      | none => exact ⟨rfl, rfl, fun _ _ => rfl⟩
      | some project' =>
        exact ⟨rfl, rfl, fun id _ => Tables.samePatterns_deleteInstrument h id⟩
  | removePattern command =>
    rw [apply, RemovePattern.apply]
    split
    · exact ⟨rfl, rfl, fun _ _ => rfl⟩
    · next pattern hpattern =>
      -- the command that comes back deletes the same pattern
      cases h : project.deletePattern command.id with
      | none => exact ⟨rfl, rfl, fun _ _ => rfl⟩
      | some project' =>
        refine ⟨rfl, rfl, fun id hspares => ?_⟩
        have hne : id ≠ command.id := by
          simpa [Spares, createdPatterns, removedPatterns] using hspares
        exact (Tables.contains_deletePattern h).trans (by simp [hne])
  | removeLane command =>
    rw [apply, RemoveLane.apply]
    split
    · exact ⟨rfl, rfl, fun _ _ => rfl⟩
    · cases h : project.deleteLane command.id with
      | none => exact ⟨rfl, rfl, fun _ _ => rfl⟩
      | some project' =>
        exact ⟨rfl, rfl, fun id _ => Tables.samePatterns_of_eq (Tables.patterns_deleteLane h) id⟩
  | removeMixerTrack command =>
    rw [apply, RemoveMixerTrack.apply]
    split
    · exact ⟨rfl, rfl, fun _ _ => rfl⟩
    · cases h : project.deleteMixerTrack command.id with
      | none => exact ⟨rfl, rfl, fun _ _ => rfl⟩
      | some project' =>
        exact ⟨rfl, rfl, fun id _ =>
          Tables.samePatterns_of_eq (Tables.patterns_deleteMixerTrack h) id⟩
  | removeClip command =>
    rw [apply, RemoveClip.apply]
    split
    · exact ⟨rfl, rfl, fun _ _ => rfl⟩
    · cases h : project.deleteClip command.id with
      | none => exact ⟨rfl, rfl, fun _ _ => rfl⟩
      | some project' =>
        exact ⟨rfl, rfl, fun id _ =>
          Tables.samePatterns_of_eq (Tables.patterns_deleteClip h) id⟩
  | edit command =>
    rw [apply]
    exact .of_option fun project' h id _ => EditTarget.samePatterns_write h id
  | effectParam command =>
    rw [apply]
    refine .of_option fun project' h id _ => ?_
    simp only [EffectParamCommand.write, Tables.updateMixerTrack] at h
    split_ifs at h
    cases h
    rfl
  | note command =>
    rw [apply]
    exact ⟨rfl, rfl, fun id _ => samePatterns_apply_note id⟩
  | transport | metadata =>
    simp only [apply, TransportCommand.apply_eq]
    exact ⟨rfl, rfl, fun _ _ => rfl⟩

/-! ### Composites -/

/-- Steps of several commands, one after the other. -/
structure StepsSpare (commands : List Command) (project : Tables)
    (step : Outcome Tables (List Command)) : Prop where
  created : createdPatternsAll step.command = createdPatternsAll commands
  removed : removedPatternsAll step.command = removedPatternsAll commands
  contains : ∀ id, (composite commands).Spares id →
    step.state.patterns.contains id = project.patterns.contains id

theorem spares_cons {command : Command} {commands : List Command} :
    (composite (command :: commands)).Spares id ↔
      command.Spares id ∧ (composite commands).Spares id := by
  simp only [Spares, createdPatterns, removedPatterns, createdPatternsAll, removedPatternsAll,
    List.mem_append, not_or]
  tauto

theorem Spares.congr {command command' : Command} (h : command.Spares id)
    (hcreated : command'.createdPatterns = command.createdPatterns)
    (hremoved : command'.removedPatterns = command.removedPatterns) : command'.Spares id := by
  unfold Spares
  rwa [hcreated, hremoved]

theorem StepsSpare.composite {commands : List Command} {step : Outcome Tables (List Command)}
    (h : StepsSpare commands project step) :
    StepSpares (.composite commands) project (step.map .composite) where
  created := by simpa only [Outcome.map, createdPatterns] using h.created
  removed := by simpa only [Outcome.map, removedPatterns] using h.removed
  contains := h.contains

mutual

theorem stepSpares_revert (command : Command) (project : Tables) :
    StepSpares command project (revert command project) := by
  cases command with
  | composite commands =>
    rw [revert]
    exact (stepsSpare_revertAll commands project).composite
  | _ => exact stepSpares_revert_of_single rfl

theorem stepsSpare_revertAll : ∀ (commands : List Command) (project : Tables),
    StepsSpare commands project (revertAll commands project)
  | [], project => by
    rw [revertAll]
    exact ⟨rfl, rfl, fun _ _ => rfl⟩
  | command :: commands, project => by
    have hlater := stepsSpare_revertAll commands project
    simp only [revertAll]
    split_ifs with hok
    · have hthis := stepSpares_revert command (revertAll commands project).state
      refine ⟨?_, ?_, fun id hspares => ?_⟩
      · simp only [createdPatternsAll, hthis.created, hlater.created]
      · simp only [removedPatternsAll, hthis.removed, hlater.removed]
      · rw [spares_cons] at hspares
        exact (hthis.contains id hspares.1).trans (hlater.contains id hspares.2)
    · refine ⟨?_, ?_, fun id hspares => hlater.contains id (spares_cons.1 hspares).2⟩
      · simp only [createdPatternsAll, hlater.created]
      · simp only [removedPatternsAll, hlater.removed]

end

mutual

theorem stepSpares_apply (command : Command) (project : Tables) :
    StepSpares command project (apply command project) := by
  cases command with
  | composite commands =>
    rw [apply]
    exact (stepsSpare_applyAll commands project).composite
  | _ => exact stepSpares_apply_of_single rfl

theorem stepsSpare_applyAll : ∀ (commands : List Command) (project : Tables),
    StepsSpare commands project (applyAll commands project)
  | [], project => by
    rw [applyAll]
    exact ⟨rfl, rfl, fun _ _ => rfl⟩
  | command :: commands, project => by
    have hthis := stepSpares_apply command project
    simp only [applyAll]
    split_ifs with hok hall
    · have hlater := stepsSpare_applyAll commands (apply command project).state
      refine ⟨?_, ?_, fun id hspares => ?_⟩
      · simp only [createdPatternsAll, hthis.created, hlater.created]
      · simp only [removedPatternsAll, hthis.removed, hlater.removed]
      · rw [spares_cons] at hspares
        exact (hlater.contains id hspares.2).trans (hthis.contains id hspares.1)
    · have hlater := stepsSpare_applyAll commands (apply command project).state
      have hback := stepSpares_revert (apply command project).command
        (applyAll commands (apply command project).state).state
      refine ⟨?_, ?_, fun id hspares => ?_⟩
      · simp only [createdPatternsAll, hback.created, hthis.created, hlater.created]
      · simp only [removedPatternsAll, hback.removed, hthis.removed, hlater.removed]
      · rw [spares_cons] at hspares
        have hspares' := hspares.1.congr hthis.created hthis.removed
        exact ((hback.contains id hspares').trans (hlater.contains id hspares.2)).trans
          (hthis.contains id hspares.1)
    · refine ⟨?_, ?_, fun id hspares => hthis.contains id (spares_cons.1 hspares).1⟩
      · simp only [createdPatternsAll, hthis.created]
      · simp only [removedPatternsAll, hthis.removed]

end

/-! ### What a successful undo takes away -/

theorem contains_revert_of_single {command : Command} (hsingle : command.isComposite = false)
    (hremoved : command.removedPatterns = []) (hok : (revert command project).ok = true)
    (id : PatternId) : (revert command project).state.patterns.contains id =
      (decide (id ∉ command.createdPatterns) && project.patterns.contains id) := by
  by_cases hspares : id ∈ command.createdPatterns
  swap
  · rw [(stepSpares_revert command project).contains id ⟨hspares, by simp [hremoved]⟩]
    simp [hspares]
  cases command with
  | composite commands => cases hsingle
  | add entity =>
    cases entity with
    | pattern k pattern =>
      obtain rfl : id = k := by simpa [createdPatterns] using hspares
      rw [revert] at hok ⊢
      unfold AddedEntity.revert at hok ⊢
      cases h : AddedEntity.delete project (.pattern id pattern) with
      | none =>
        rw [h] at hok
        cases hok
      | some project' => exact (Tables.contains_deletePattern h).trans (by simp [createdPatterns])
    | _ => simp [createdPatterns] at hspares
  | _ => simp [createdPatterns] at hspares

mutual

theorem contains_revert_of_ok (command : Command) (project : Tables)
    (hremoved : command.removedPatterns = []) (hok : (revert command project).ok = true)
    (id : PatternId) : (revert command project).state.patterns.contains id =
      (decide (id ∉ command.createdPatterns) && project.patterns.contains id) := by
  cases command with
  | composite commands =>
    rw [revert] at hok ⊢
    rw [removedPatterns] at hremoved
    rw [createdPatterns]
    exact contains_revertAll_of_ok commands project hremoved hok id
  | _ => exact contains_revert_of_single rfl hremoved hok id

theorem contains_revertAll_of_ok : ∀ (commands : List Command) (project : Tables),
    removedPatternsAll commands = [] → (revertAll commands project).ok = true →
    ∀ id, (revertAll commands project).state.patterns.contains id =
      (decide (id ∉ createdPatternsAll commands) && project.patterns.contains id)
  | [], project, _, _, id => by
    rw [revertAll]
    simp [createdPatternsAll]
  | command :: commands, project, hremoved, hok, id => by
    simp only [removedPatternsAll, List.append_eq_nil_iff] at hremoved
    simp only [revertAll] at hok ⊢
    split_ifs at hok ⊢ with hlater
    rw [contains_revert_of_ok command _ hremoved.1 hok id,
      contains_revertAll_of_ok commands project hremoved.2 hlater id]
    simp only [createdPatternsAll, List.mem_append, not_or, Bool.decide_and, Bool.and_assoc]

end

end Command

end OneBeat
