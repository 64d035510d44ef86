import OneBeat.Lib.History
import OneBeat.Model.Project

/-!
# Editing commands

The commands of `model/commands.cpp` that write a value they already hold: `EditCommand`, one
template over five kinds of entities; `EffectParamCommand`; `MetaCommand`.

`EditTarget.read` and `EditTarget.write` are the two sides of an edit.  They obey the laws of a
lens (`EditTarget.write_read`, `EditTarget.write_write`), and so do the two sides of a parameter
edit (`EffectParamCommand.write_read`, `EffectParamCommand.write_write`).  Everything undo and redo
need to know about an edit follows from them.
-/

namespace OneBeat

/-- The fields that change events and the coalescing of edits tell apart. -/
inductive ChangeField
  | all | name | color | muted | soloed | order | height | collapsed | group | routing | plugin
  | noteDefaults | notes | length | start | lane | source | transforms | gain | pan | output
  | transport | metadata | effects | effectParam
  deriving DecidableEq

/-- The parts of a pattern that are not notes. -/
structure PatternMeta where
  name : String := ""
  color : ColorHex := ""
  length : ℤ := 0
  order : ℤ := 0
  group : String := ""
  timeSignature : TimeSignature := {}
  swing : Double := 0
  deriving DecidableEq, Inhabited

/-- `PatternMeta::from`. -/
def PatternMeta.ofPattern (pattern : Pattern) : PatternMeta where
  name := pattern.name
  color := pattern.color
  length := pattern.length
  order := pattern.order
  group := pattern.group
  timeSignature := pattern.timeSignature
  swing := pattern.swing

/-- `PatternMetaTraits::write` on the pattern it found. -/
def Pattern.withMeta (pattern : Pattern) (value : PatternMeta) : Pattern :=
  { pattern with
    name := value.name
    color := value.color
    length := value.length
    order := value.order
    group := value.group
    timeSignature := value.timeSignature
    swing := value.swing }

/-! ### `EditCommand` -/

/-- The traits of an `EditCommand` and the id of the entity it edits. -/
inductive EditTarget
  | instrument (id : InstrumentId)
  | lane (id : ArrangementLaneId)
  | clip (id : ClipId)
  | mixerTrack (id : MixerTrackId)
  | patternMeta (id : PatternId)
  deriving DecidableEq

namespace EditTarget

/-- What is written back. -/
abbrev Value : EditTarget → Type
  | instrument _ => Instrument
  | lane _ => ArrangementLane
  | clip _ => Clip
  | mixerTrack _ => MixerTrack
  | patternMeta _ => PatternMeta

/-- The value an edit starts from. -/
def read (project : Tables) : (target : EditTarget) → Option target.Value
  | instrument id => project.instruments.get? id
  | lane id => project.lanes.get? id
  | clip id => project.clips.get? id
  | mixerTrack id => project.mixerTracks.get? id
  | patternMeta id => (project.patterns.get? id).map PatternMeta.ofPattern

/-- `Traits::write`. -/
def write (project : Tables) : (target : EditTarget) → target.Value → Option Tables
  | instrument id, value => project.updateInstrument id fun _ => value
  | lane id, value => project.updateLane id fun _ => value
  | clip id, value => project.updateClip id fun _ => value
  | mixerTrack id, value => project.updateMixerTrack id fun _ => value
  | patternMeta id, value => project.updatePattern id fun live => live.withMeta value

variable {project project' : Tables}

/-- Writing the value that is there changes nothing. -/
theorem write_read {target : EditTarget} {value : target.Value}
    (h : target.read project = some value) : target.write project value = some project := by
  cases target with
  | instrument id | lane id | clip id | mixerTrack id =>
    have h : OrderedMap.get? _ id = some value := h
    simp only [write, Tables.updateInstrument, Tables.updateLane, Tables.updateClip,
      Tables.updateMixerTrack]
    rw [if_pos (OrderedMap.contains_eq_true_iff.2 ⟨value, h⟩), OrderedMap.modify_of_forall]
    intro v hv
    exact Option.some_inj.1 (h.symm.trans hv)
  | patternMeta id =>
    obtain ⟨pattern, hget, hvalue⟩ := Option.map_eq_some_iff.1 h
    simp only [write, Tables.updatePattern]
    rw [if_pos (OrderedMap.contains_eq_true_iff.2 ⟨pattern, hget⟩), OrderedMap.modify_of_forall]
    intro v hv
    rw [hget, Option.some_inj] at hv
    subst hv hvalue
    rfl

/-- Of two values written one after the other the second stays. -/
theorem write_write {target : EditTarget} {value : target.Value}
    (h : target.write project value = some project') (value' : target.Value) :
    target.write project' value' = target.write project value' := by
  cases target with
  | instrument id | lane id | clip id | mixerTrack id | patternMeta id =>
    simp only [write, Tables.updateInstrument, Tables.updateLane, Tables.updateClip,
      Tables.updateMixerTrack, Tables.updatePattern] at h ⊢
    split_ifs at h with hcontains
    cases h
    obtain ⟨v, hv⟩ := OrderedMap.contains_eq_true_iff.1 hcontains
    rw [if_pos hcontains, if_pos (by simp [hv])]
    simp only [OrderedMap.modify_modify]
    rfl

end EditTarget

/-- A value to write, and the value that was there. -/
structure EditCommand where
  target : EditTarget
  field : ChangeField
  before : target.Value
  after : target.Value

/-- A step that leaves the command as it is. -/
def Outcome.ofOption {E : Type} (command : E) (project : Tables) :
    Option Tables → Outcome Tables E
  | some project' => ⟨true, command, project'⟩
  | none => ⟨false, command, project⟩

theorem Outcome.ofOption_eq_ok_iff {E : Type} {command command' : E} {project project' : Tables}
    {o : Option Tables} :
    Outcome.ofOption command project o = ⟨true, command', project'⟩ ↔
      o = some project' ∧ command = command' := by
  cases o with
  | none => simp [Outcome.ofOption]
  | some q => simp [Outcome.ofOption, and_comm]

namespace EditCommand

def apply (command : EditCommand) (project : Tables) : Outcome Tables EditCommand :=
  .ofOption command project (command.target.write project command.after)

def revert (command : EditCommand) (project : Tables) : Outcome Tables EditCommand :=
  .ofOption command project (command.target.write project command.before)

/-- One drag, one entry: keep this command's `before`, take the other's `after`. -/
def coalesceWith (command next : EditCommand) : Option EditCommand :=
  if h : next.target = command.target then
    if next.field = command.field then some { command with after := h ▸ next.after } else none
  else none

variable {command next : EditCommand} {project project' : Tables}

/-- An edit that starts from the value it found can be taken back and made again. -/
theorem done_of_read (hread : command.target.read project = some command.before)
    (h : command.target.write project command.after = some project') :
    History.Done apply revert command project project' := by
  refine History.Done.of_unchanged ?_ ?_
  · rw [revert, EditTarget.write_write h, EditTarget.write_read hread]; rfl
  · rw [apply, h]; rfl

/-- An absorbed edit stands between the state before the first and the state after the last. -/
theorem done_coalesceWith {merged : EditCommand} {project'' : Tables}
    (hdone : History.Done apply revert command project project')
    (happly : next.target.write project' next.after = some project'')
    (hmerged : command.coalesceWith next = some merged) :
    History.Done apply revert merged project project'' := by
  obtain ⟨target, field, before, after⟩ := command
  obtain ⟨target', field', before', after'⟩ := next
  unfold coalesceWith at hmerged
  by_cases htarget : target' = target
  swap
  · simp [htarget] at hmerged
  subst htarget
  split_ifs at hmerged with _ hfield
  cases hmerged
  obtain ⟨e₁, hrevert, e₂, e₃, hredo, -, -⟩ := hdone
  obtain ⟨hbefore, rfl⟩ := Outcome.ofOption_eq_ok_iff.1 hrevert
  obtain ⟨hafter, -⟩ := Outcome.ofOption_eq_ok_iff.1 hredo
  refine History.Done.of_unchanged ?_ ?_
  · exact Outcome.ofOption_eq_ok_iff.2 ⟨(EditTarget.write_write happly _).trans hbefore, rfl⟩
  · exact Outcome.ofOption_eq_ok_iff.2 ⟨(EditTarget.write_write hafter _).symm.trans happly, rfl⟩

end EditCommand

/-! ### `EffectParamCommand` -/

/-- The position of an effect in the chain. -/
def indexOfEffect (effects : List EffectSlot) (effect : EffectId) : Option ℕ :=
  effects.findIdx? fun slot => slot.id = effect

/-- Set or forget a base parameter value. -/
def EffectSlot.writeParam (parameter : ParamId) (value : Option Double) (slot : EffectSlot) :
    EffectSlot :=
  match value with
  | some value => { slot with params := slot.params.assign parameter value }
  | none => { slot with params := slot.params.erase parameter }

/-- Write a parameter of the effect, if it is in the chain. -/
def MixerTrack.writeParam (effect : EffectId) (parameter : ParamId) (value : Option Double)
    (track : MixerTrack) : MixerTrack :=
  match indexOfEffect track.effects effect with
  | some i =>
    { track with effects := track.effects.modify i (EffectSlot.writeParam parameter value) }
  | none => track

/-- A knob: an absent `before` says that the parameter had never been touched. -/
structure EffectParamCommand where
  track : MixerTrackId
  effect : EffectId
  parameter : ParamId
  before : Option Double
  after : Double

namespace EffectParamCommand

/-- Write the parameter of `command`. -/
def write (command : EffectParamCommand) (project : Tables) (value : Option Double) :
    Option Tables :=
  project.updateMixerTrack command.track
    (MixerTrack.writeParam command.effect command.parameter value)

def apply (command : EffectParamCommand) (project : Tables) :
    Outcome Tables EffectParamCommand :=
  .ofOption command project (command.write project (some command.after))

def revert (command : EffectParamCommand) (project : Tables) :
    Outcome Tables EffectParamCommand :=
  .ofOption command project (command.write project command.before)

def coalesceWith (command next : EffectParamCommand) : Option EffectParamCommand :=
  if next.track = command.track ∧ next.effect = command.effect ∧
      next.parameter = command.parameter then
    some { command with after := next.after }
  else none

/-- `before` is what the chain holds. -/
def Matches (command : EffectParamCommand) (project : Tables) : Prop :=
  ∃ track slot, project.mixerTracks.get? command.track = some track ∧
    track.findEffect command.effect = some slot ∧
    slot.params.get? command.parameter = command.before

end EffectParamCommand

theorem EffectSlot.writeParam_writeParam (parameter : ParamId) (value value' : Option Double)
    (slot : EffectSlot) :
    (slot.writeParam parameter value).writeParam parameter value' =
      slot.writeParam parameter value' := by
  have hmap : ∀ m m' : OrderedMap ParamId Double, m = m' →
      ({ slot with params := m } : EffectSlot) = { slot with params := m' } := fun _ _ h => by
    rw [h]
  unfold EffectSlot.writeParam
  cases value with
  | none | some =>
    cases value' with
    | none | some =>
      refine hmap _ _ (OrderedMap.ext_get? fun k => ?_)
      simp only [OrderedMap.get?_assign, OrderedMap.get?_erase]
      split_ifs <;> rfl

theorem EffectSlot.writeParam_get? {parameter : ParamId} {slot : EffectSlot} :
    slot.writeParam parameter (slot.params.get? parameter) = slot := by
  unfold EffectSlot.writeParam
  split
  next value h => rw [OrderedMap.assign_get? h]
  next h => rw [OrderedMap.erase_of_get?_eq_none h]

theorem indexOfEffect_modify (effects : List EffectSlot) (effect : EffectId) (i : ℕ)
    {f : EffectSlot → EffectSlot} (hf : ∀ slot, (f slot).id = slot.id) :
    indexOfEffect (effects.modify i f) effect = indexOfEffect effects effect := by
  unfold indexOfEffect
  induction effects generalizing i with
  | nil => simp
  | cons slot effects ih =>
    cases i with
    | zero => simp [List.modify_zero_cons, List.findIdx?_cons, hf]
    | succ i => simp [List.modify_succ_cons, List.findIdx?_cons, ih]

theorem MixerTrack.writeParam_writeParam (effect : EffectId) (parameter : ParamId)
    (value value' : Option Double) (track : MixerTrack) :
    (track.writeParam effect parameter value).writeParam effect parameter value' =
      track.writeParam effect parameter value' := by
  have hid : ∀ slot : EffectSlot, (slot.writeParam parameter value).id = slot.id := by
    intro slot
    unfold EffectSlot.writeParam
    split <;> rfl
  unfold MixerTrack.writeParam
  cases h : indexOfEffect track.effects effect with
  | none => simp [h]
  | some i =>
    simp only [indexOfEffect_modify _ _ _ hid, h, List.modify_modify_eq]
    congr 2
    funext slot
    exact EffectSlot.writeParam_writeParam parameter value value' slot

namespace EffectParamCommand

variable {command next : EffectParamCommand} {project project' : Tables}

theorem write_read (h : command.Matches project) :
    command.write project command.before = some project := by
  obtain ⟨track, slot, htrack, hslot, hparam⟩ := h
  unfold write Tables.updateMixerTrack
  rw [if_pos (OrderedMap.contains_eq_true_iff.2 ⟨track, htrack⟩), OrderedMap.modify_of_forall]
  intro v hv
  rw [htrack, Option.some_inj] at hv
  subst hv
  unfold MixerTrack.writeParam
  cases hi : indexOfEffect track.effects command.effect with
  | none => rfl
  | some i =>
    have hget : track.effects[i]? = some slot := by
      rw [← hslot]
      unfold indexOfEffect at hi
      rw [MixerTrack.findEffect, List.find?_eq_bind_findIdx?_getElem?, hi]; rfl
    have hmodify : track.effects.modify i (EffectSlot.writeParam command.parameter command.before)
        = track.effects := by
      refine List.ext_getElem? fun j => ?_
      rw [List.getElem?_modify]
      split_ifs with hij
      · subst hij
        rw [hget, ← hparam]
        exact congrArg some EffectSlot.writeParam_get?
      · exact Option.map_id'
    simp only [hmodify]

theorem write_write {value : Option Double} (h : command.write project value = some project')
    (value' : Option Double) : command.write project' value' = command.write project value' := by
  unfold write Tables.updateMixerTrack at h ⊢
  split_ifs at h with hcontains
  cases h
  obtain ⟨track, htrack⟩ := OrderedMap.contains_eq_true_iff.1 hcontains
  rw [if_pos hcontains, if_pos (by simp [htrack])]
  simp only [OrderedMap.modify_modify]
  congr 3
  funext track
  exact MixerTrack.writeParam_writeParam _ _ value value' track

theorem done_of_matches (hmatches : command.Matches project)
    (h : command.write project (some command.after) = some project') :
    History.Done apply revert command project project' := by
  refine History.Done.of_unchanged ?_ ?_
  · rw [revert, write_write h, write_read hmatches]; rfl
  · rw [apply, h]; rfl

theorem done_coalesceWith {merged : EffectParamCommand} {project'' : Tables}
    (hdone : History.Done apply revert command project project')
    (happly : next.write project' (some next.after) = some project'')
    (hmerged : command.coalesceWith next = some merged) :
    History.Done apply revert merged project project'' := by
  obtain ⟨track, effect, parameter, before, after⟩ := command
  obtain ⟨track', effect', parameter', before', after'⟩ := next
  unfold coalesceWith at hmerged
  split_ifs at hmerged with hsame
  obtain ⟨rfl, rfl, rfl⟩ := hsame
  cases hmerged
  obtain ⟨e₁, hrevert, e₂, e₃, hredo, -, -⟩ := hdone
  obtain ⟨hbefore, rfl⟩ := Outcome.ofOption_eq_ok_iff.1 hrevert
  obtain ⟨hafter, -⟩ := Outcome.ofOption_eq_ok_iff.1 hredo
  refine History.Done.of_unchanged ?_ ?_
  · exact Outcome.ofOption_eq_ok_iff.2 ⟨(write_write happly _).trans hbefore, rfl⟩
  · exact Outcome.ofOption_eq_ok_iff.2 ⟨(write_write hafter _).symm.trans happly, rfl⟩

end EffectParamCommand

/-! ### `MetaCommand` -/

/-- The project's name and origin. -/
structure MetaCommand where
  before : ProjectMeta
  after : ProjectMeta

namespace MetaCommand

def apply (command : MetaCommand) (project : Tables) : Outcome Tables MetaCommand :=
  ⟨true, command, project.setMeta command.after⟩

def revert (command : MetaCommand) (project : Tables) : Outcome Tables MetaCommand :=
  ⟨true, command, project.setMeta command.before⟩

theorem done_of_before {command : MetaCommand} {project : Tables}
    (h : command.before = project.metadata) :
    History.Done apply revert command project (project.setMeta command.after) := by
  refine History.Done.of_unchanged ?_ rfl
  rw [revert, h]; rfl

end MetaCommand

end OneBeat
