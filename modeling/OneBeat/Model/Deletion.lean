import OneBeat.Model.Cascade
import OneBeat.Model.Invariants

/-!
# What a deletion leaves behind

Every deletion of `Project` has a cascade of its own.  `Fate` says in one place what becomes of each
entity when another one is deleted, and `delete_fate` that the five cascades do just that.

* `delete_unchanged` : entities that did not refer to the deleted one are as they were;
* `delete_nothingRefers_iff` : nothing refers to it any more, but for curves that patterns own;
* `delete_consistent_iff` : the project stays consistent, unless the master sends its signal through
  the deleted track.

**Main theorem** (`delete_iff`): a deletion does what it should exactly when no pattern owns a curve
on what is deleted, and the deleted track is not one the master's signal goes through.
-/

namespace OneBeat

/-- An entity of a project. -/
inductive EntityRef
  | instrument (id : InstrumentId)
  | pattern (id : PatternId)
  | lane (id : ArrangementLaneId)
  | clip (id : ClipId)
  | mixerTrack (id : MixerTrackId)
  deriving DecidableEq

/-- Delete an entity. -/
def Tables.delete (project : Tables) : EntityRef → Option Tables
  | .instrument id => project.deleteInstrument id
  | .pattern id => project.deletePattern id
  | .lane id => project.deleteLane id
  | .clip id => project.deleteClip id
  | .mixerTrack id => project.deleteMixerTrack id

/-- The entity is there. -/
def Tables.has (project : Tables) : EntityRef → Bool
  | .instrument id => project.instruments.contains id
  | .pattern id => project.patterns.contains id
  | .lane id => project.lanes.contains id
  | .clip id => project.clips.contains id
  | .mixerTrack id => project.mixerTracks.contains id

/-! ### References -/

/-- The curve drives the entity, or something that belongs to it. -/
def AutomationSource.refersTo (source : AutomationSource) : EntityRef → Bool
  | .instrument id => source.targetKind = .instrument && source.instrument = id
  | .mixerTrack id =>
    (source.targetKind = .mixerTrack || source.targetKind = .effect) && source.mixerTrack = id
  | _ => false

def Instrument.refersTo (instrument : Instrument) : EntityRef → Bool
  | .mixerTrack id => instrument.routing.any fun route => route.track = id
  | _ => false

/-- The pattern holds notes of the instrument. -/
def Pattern.holds (pattern : Pattern) : EntityRef → Bool
  | .instrument id => pattern.sequences.contains id
  | _ => false

def Pattern.refersTo (pattern : Pattern) (ref : EntityRef) : Bool :=
  pattern.holds ref || pattern.automation.any fun source => source.refersTo ref

def ArrangementLane.refersTo (lane : ArrangementLane) : EntityRef → Bool
  | .lane id => lane.groupId = some id
  | _ => false

def Clip.refersTo (clip : Clip) : EntityRef → Bool
  | .lane id => clip.lane = id
  | ref =>
    match clip.source, ref with
    | .pattern pattern, .pattern id => pattern = id
    | .audio source, .mixerTrack id => source.destination = id
    | .automation source, ref => source.refersTo ref
    | _, _ => false

def MixerTrack.refersTo (track : MixerTrack) : EntityRef → Bool
  | .mixerTrack id => track.output = some id
  | _ => false

/-! ### Fates -/

section Fate

variable (ref : EntityRef) (master : MixerTrackId)

/-- An instrument routes to the master what it routed to the track. -/
def Instrument.released (instrument : Instrument) : Instrument :=
  match ref with
  | .mixerTrack track => Tables.repointRouting track master instrument
  | _ => instrument

/-- A pattern loses the notes of the instrument. -/
def Pattern.released (pattern : Pattern) : Pattern :=
  match ref with
  | .instrument i => { pattern with sequences := pattern.sequences.erase i }
  | _ => pattern

/-- A lane leaves the group. -/
def ArrangementLane.released (lane : ArrangementLane) : ArrangementLane :=
  match ref with
  | .lane group => Tables.releaseLane group lane
  | _ => lane

def Instrument.fate (id : InstrumentId) (instrument : Instrument) : Option Instrument :=
  if ref = .instrument id then none else some (instrument.released ref master)

def Pattern.fate (id : PatternId) (pattern : Pattern) : Option Pattern :=
  if ref = .pattern id then none else some (pattern.released ref)

def ArrangementLane.fate (id : ArrangementLaneId) (lane : ArrangementLane) :
    Option ArrangementLane :=
  if ref = .lane id then none else some (lane.released ref)

/-- Audio plays into the master; every other clip goes with what it refers to. -/
def Clip.fate (id : ClipId) (clip : Clip) : Option Clip :=
  if ref = .clip id then none
  else if clip.refersTo ref then
    match ref, clip.source with
    | .mixerTrack _, .audio source =>
      some { clip with source := .audio { source with destination := master } }
    | _, _ => none
  else some clip

/-- A track sends to the master what it sent into the track. -/
def MixerTrack.fate (id : MixerTrackId) (track : MixerTrack) : Option MixerTrack :=
  if ref = .mixerTrack id then none
  else if track.refersTo ref then some (track.outputTo master) else some track

end Fate

/-- Every entity met its fate. -/
structure Fate (ref : EntityRef) (project project' : Tables) : Prop where
  instruments : ∀ id, project'.instruments.get? id =
    (project.instruments.get? id).bind (Instrument.fate ref project.master id)
  patterns : ∀ id, project'.patterns.get? id =
    (project.patterns.get? id).bind (Pattern.fate ref id)
  lanes : ∀ id, project'.lanes.get? id =
    (project.lanes.get? id).bind (ArrangementLane.fate ref id)
  clips : ∀ id, project'.clips.get? id =
    (project.clips.get? id).bind (Clip.fate ref project.master id)
  mixerTracks : ∀ id, project'.mixerTracks.get? id =
    (project.mixerTracks.get? id).bind (MixerTrack.fate ref project.master id)
  master : project'.master = project.master
  transport : project'.transport = project.transport
  metadata : project'.metadata = project.metadata

namespace Tables

variable {project project' : Tables} {ref : EntityRef}

theorem bind_eq_self {α : Type} {o : Option α} {f : α → Option α} (h : ∀ v, f v = some v) :
    o = o.bind f := by
  cases o with
  | none => rfl
  | some v => exact (h v).symm

theorem erase_eq_bind {α β : Type} [LinearOrder α] (m : OrderedMap α β) {id k : α}
    {f : β → Option β} (h : ∀ v, f v = if k = id then none else some v) :
    (m.erase id).get? k = (m.get? k).bind f := by
  rw [OrderedMap.get?_erase]
  cases m.get? k with
  | none => simp
  | some v => exact (h v).symm

/-- The clips that go are those that refer to what is deleted. -/
theorem filter_eq_bind (hclip : ∀ id, ref ≠ .clip id) (htrack : ∀ id, ref ≠ .mixerTrack id)
    {ids : List ClipId} {k : ClipId} (h : ∀ clip, project.clips.get? k = some clip →
      (k ∈ ids ↔ clip.refersTo ref = true)) :
    (project.clips.filter fun id _ => id ∉ ids).get? k =
      (project.clips.get? k).bind (Clip.fate ref project.master k) := by
  rw [OrderedMap.get?_filter]
  cases hget : project.clips.get? k with
  | none => rfl
  | some clip =>
    have hfate : clip.fate ref project.master k =
        if clip.refersTo ref then none else some clip := by
      unfold Clip.fate
      rw [if_neg (hclip k)]
      split_ifs
      · cases ref with
        | mixerTrack id => exact absurd rfl (htrack id)
        | _ => rfl
      · rfl
    rw [Option.filter_some, Option.bind_some, hfate]
    simp only [h clip hget]
    cases clip.refersTo ref <;> rfl

theorem deleteClip_fate {id : ClipId} (h : project.deleteClip id = some project') :
    Fate (.clip id) project project' := by
  obtain ⟨-, rfl⟩ := deleteClip_eq_some_iff.1 h
  constructor
  case clips =>
    refine fun k => erase_eq_bind _ fun clip => ?_
    have hrefers : clip.refersTo (.clip id) = false := by
      unfold Clip.refersTo
      cases clip.source <;> rfl
    simp [Clip.fate, hrefers, eq_comm]
  all_goals first
    | rfl
    | exact fun k => bind_eq_self fun v => rfl

theorem deletePattern_fate {id : PatternId} (h : project.deletePattern id = some project') :
    Fate (.pattern id) project project' := by
  obtain ⟨-, rfl⟩ := deletePattern_eq_some_iff.1 h
  constructor
  case clips =>
    refine fun k => filter_eq_bind (by simp) (by simp) fun clip hget => ?_
    rw [clipsUsingPattern, OrderedMap.mem_keysWhere, hget]
    simp only [Option.some_inj, exists_eq_left']
    unfold Clip.refersTo Clip.pattern
    cases clip.source <;> simp [AutomationSource.refersTo]
  case patterns =>
    exact fun k => erase_eq_bind _ fun pattern => by simp [Pattern.fate, Pattern.released, eq_comm]
  all_goals first
    | rfl
    | exact fun k => bind_eq_self fun v => rfl

theorem deleteLane_fate {id : ArrangementLaneId} (h : project.deleteLane id = some project') :
    Fate (.lane id) project project' := by
  obtain ⟨-, rfl⟩ := deleteLane_eq_some_iff.1 h
  constructor
  case clips =>
    refine fun k => filter_eq_bind (by simp) (by simp) fun clip hget => ?_
    rw [clipsOnLane, OrderedMap.mem_keysWhere, hget]
    simp [Clip.refersTo]
  case lanes =>
    intro k
    dsimp only
    rw [OrderedMap.get?_erase, OrderedMap.get?_mapValues]
    by_cases hk : k = id
    · cases project.lanes.get? k <;> simp [hk, ArrangementLane.fate]
    · cases project.lanes.get? k <;> simp [hk, Ne.symm hk, ArrangementLane.fate, ArrangementLane.released]
  all_goals first
    | rfl
    | exact fun k => bind_eq_self fun v => rfl

theorem deleteInstrument_fate {id : InstrumentId}
    (h : project.deleteInstrument id = some project') :
    Fate (.instrument id) project project' := by
  obtain ⟨-, rfl⟩ := deleteInstrument_eq_some_iff.1 h
  constructor
  case clips =>
    refine fun k => filter_eq_bind (by simp) (by simp) fun clip hget => ?_
    rw [instrumentImpact, OrderedMap.mem_keysWhere, hget]
    simp only [Option.some_inj, exists_eq_left']
    unfold Clip.refersTo automatesInstrument Clip.automation
    cases clip.source <;> simp [AutomationSource.refersTo]
  case patterns =>
    intro k
    dsimp only
    rw [OrderedMap.get?_mapValues]
    cases project.patterns.get? k <;> simp [Pattern.fate, Pattern.released]
  case instruments =>
    exact fun k => erase_eq_bind _ fun instrument => by simp [Instrument.fate, Instrument.released, eq_comm]
  all_goals first
    | rfl
    | exact fun k => bind_eq_self fun v => rfl

/-- Nothing is re-pointed where nothing is routed to the track. -/
theorem repointRouting_eq_self {id master : MixerTrackId} {instrument : Instrument}
    (h : ∀ route ∈ instrument.routing, route.track ≠ id) :
    repointRouting id master instrument = instrument := by
  have hrouting : (instrument.routing.map fun route =>
      if route.track = id then { route with track := master } else route) = instrument.routing :=
    (List.map_congr_left fun route hroute => if_neg (h route hroute)).trans (List.map_id' _)
  unfold repointRouting
  rw [hrouting]

theorem deleteMixerTrack_fate {id : MixerTrackId}
    (h : project.deleteMixerTrack id = some project') :
    Fate (.mixerTrack id) project project' := by
  obtain ⟨hmaster, -, rfl⟩ := deleteMixerTrack_eq_some_iff.1 h
  constructor
  case clips =>
    intro k
    dsimp only
    rw [get?_foldl_releaseClip]
    cases hget : project.clips.get? k with
    | none => split_ifs <;> rfl
    | some clip =>
      have hrefers : clip.refersTo (.mixerTrack id) = true ↔
          playsInto id clip = true ∨ automatesTrack id clip = true := by
        unfold Clip.refersTo playsInto automatesTrack Clip.audio Clip.automation
        cases clip.source <;> simp [AutomationSource.refersTo]
      have hmem : k ∈ (project.mixerTrackImpact id).clips ↔
          clip.refersTo (.mixerTrack id) = true := by
        rw [mem_impact_clips, hget, hrefers]
        simp
      have hfate : clip.fate (.mixerTrack id) project.master k =
          if clip.refersTo (.mixerTrack id) then releasedClip project.master clip
          else some clip := by
        unfold Clip.fate releasedClip
        rw [if_neg (by simp)]
        cases clip.source <;> rfl
      simp only [Option.bind_some, hfate, hmem]
  case instruments =>
    intro k
    dsimp only
    rw [OrderedMap.get?_foldl_modify (fun i => i) (fun _ => repointRouting id project.master)
      (repointRouting id project.master) ?_ _ fun _ _ _ => rfl, List.map_id']
    · cases hget : project.instruments.get? k with
      | none => split_ifs <;> rfl
      | some instrument =>
        have hfate : instrument.fate (.mixerTrack id) project.master k =
            some (repointRouting id project.master instrument) := rfl
        rw [Option.bind_some, hfate]
        split_ifs with hk
        · rfl
        · rw [repointRouting_eq_self]
          intro route hroute htrack
          exact hk (mem_impact_instruments.2 ⟨instrument, hget, route, hroute, htrack⟩)
    · -- once it is repointed no route goes to the deleted track, for the master is another
      intro instrument
      refine repointRouting_eq_self fun route hroute => ?_
      obtain ⟨route', -, rfl⟩ := List.mem_map.1 hroute
      split_ifs with htrack
      · exact Ne.symm hmaster
      · exact htrack
  case mixerTracks =>
    intro k
    dsimp only
    rw [OrderedMap.get?_erase, OrderedMap.get?_foldl_modify (fun i => i)
      (fun _ => MixerTrack.outputTo project.master) (MixerTrack.outputTo project.master)
      (fun _ => rfl) _ fun _ _ _ => rfl, List.map_id']
    by_cases hk : k = id
    · cases project.mixerTracks.get? k <;> simp [hk, MixerTrack.fate]
    · cases hget : project.mixerTracks.get? k with
      | none => simp
      | some track =>
        have hmem : k ∈ (project.mixerTrackImpact id).inputs ↔
            track.refersTo (.mixerTrack id) = true := by
          rw [mem_impact_inputs, hget]
          simp [MixerTrack.refersTo]
        have hne : EntityRef.mixerTrack id ≠ .mixerTrack k := by simpa using Ne.symm hk
        rw [Option.bind_some, MixerTrack.fate, if_neg hne, if_neg hk]
        simp only [hmem]
        split_ifs <;> rfl
  all_goals first
    | rfl
    | exact fun k => bind_eq_self fun v => rfl

/-- **The cascades do what the fates say.** -/
theorem delete_fate (h : project.delete ref = some project') : Fate ref project project' := by
  cases ref with
  | instrument id => exact deleteInstrument_fate h
  | pattern id => exact deletePattern_fate h
  | lane id => exact deleteLane_fate h
  | clip id => exact deleteClip_fate h
  | mixerTrack id => exact deleteMixerTrack_fate h

end Tables

variable {project project' : Tables} {ref : EntityRef}

/-! ### Nothing else changes -/

/-- What did not refer to the deleted entity is as it was, and nothing is new. -/
structure OthersUnchanged (ref : EntityRef) (project project' : Tables) : Prop where
  instruments : ∀ id instrument, ref ≠ .instrument id →
    project.instruments.get? id = some instrument → instrument.refersTo ref = false →
      project'.instruments.get? id = some instrument
  patterns : ∀ id pattern, ref ≠ .pattern id → project.patterns.get? id = some pattern →
    pattern.refersTo ref = false → project'.patterns.get? id = some pattern
  lanes : ∀ id lane, ref ≠ .lane id → project.lanes.get? id = some lane →
    lane.refersTo ref = false → project'.lanes.get? id = some lane
  clips : ∀ id clip, ref ≠ .clip id → project.clips.get? id = some clip →
    clip.refersTo ref = false → project'.clips.get? id = some clip
  mixerTracks : ∀ id track, ref ≠ .mixerTrack id → project.mixerTracks.get? id = some track →
    track.refersTo ref = false → project'.mixerTracks.get? id = some track
  nothingNew : ∀ other, project'.has other = true → project.has other = true
  master : project'.master = project.master
  transport : project'.transport = project.transport
  metadata : project'.metadata = project.metadata

theorem Fate.exists_of_has (h : Fate ref project project') {other : EntityRef}
    (hother : project'.has other = true) : project.has other = true := by
  have hbind : ∀ {α : Type} {o : Option α} {f : α → Option α}, (o.bind f).isSome → o.isSome := by
    intro α o f ho
    cases o with
    | none => cases ho
    | some v => rfl
  cases other with
  | instrument id => exact hbind ((congrArg Option.isSome (h.instruments id)).symm.trans hother)
  | pattern id => exact hbind ((congrArg Option.isSome (h.patterns id)).symm.trans hother)
  | lane id => exact hbind ((congrArg Option.isSome (h.lanes id)).symm.trans hother)
  | clip id => exact hbind ((congrArg Option.isSome (h.clips id)).symm.trans hother)
  | mixerTrack id => exact hbind ((congrArg Option.isSome (h.mixerTracks id)).symm.trans hother)

/-- **Entities that do not refer to the deleted one are as they were.** -/
theorem delete_unchanged (h : Fate ref project project') :
    OthersUnchanged ref project project' where
  instruments := by
    intro id instrument href hget hrefers
    rw [h.instruments, hget, Option.bind_some, Instrument.fate, if_neg href]
    cases ref with
    | mixerTrack track =>
      refine congrArg some (Tables.repointRouting_eq_self fun route hroute htrack => ?_)
      simp only [Instrument.refersTo, List.any_eq_false, decide_eq_true_eq] at hrefers
      exact hrefers route hroute htrack
    | _ => rfl
  patterns := by
    intro id pattern href hget hrefers
    rw [h.patterns, hget, Option.bind_some, Pattern.fate, if_neg href]
    cases ref with
    | instrument i =>
      have hholds := (Bool.or_eq_false_iff.1 hrefers).1
      rw [Pattern.released,
        OrderedMap.erase_of_get?_eq_none (OrderedMap.contains_eq_false_iff.1 hholds)]
    | _ => rfl
  lanes := by
    intro id lane href hget hrefers
    rw [h.lanes, hget, Option.bind_some, ArrangementLane.fate, if_neg href]
    cases ref with
    | lane group =>
      have hgroup : lane.groupId ≠ some group := by simpa [ArrangementLane.refersTo] using hrefers
      exact congrArg some (if_neg hgroup)
    | _ => rfl
  clips := by
    intro id clip href hget hrefers
    have hfate : clip.fate ref project.master id = some clip := by
      unfold Clip.fate
      rw [if_neg href, if_neg (by simp [hrefers])]
    rw [h.clips, hget, Option.bind_some, hfate]
  mixerTracks := by
    intro id track href hget hrefers
    rw [h.mixerTracks, hget, Option.bind_some, MixerTrack.fate, if_neg href, hrefers]
    rfl
  nothingNew := fun _ => h.exists_of_has
  master := h.master
  transport := h.transport
  metadata := h.metadata

/-! ### Nothing refers to what is deleted -/

/-- Nothing in the project refers to the entity, and it is not there. -/
structure NothingRefers (ref : EntityRef) (project : Tables) : Prop where
  gone : project.has ref = false
  instruments : ∀ id instrument, project.instruments.get? id = some instrument →
    instrument.refersTo ref = false
  patterns : ∀ id pattern, project.patterns.get? id = some pattern → pattern.refersTo ref = false
  lanes : ∀ id lane, project.lanes.get? id = some lane → lane.refersTo ref = false
  clips : ∀ id clip, project.clips.get? id = some clip → clip.refersTo ref = false
  mixerTracks : ∀ id track, project.mixerTracks.get? id = some track →
    track.refersTo ref = false
  master : ref ≠ .mixerTrack project.master

/-- No pattern owns a curve on the entity. -/
def NoOwnedCurve (ref : EntityRef) (project : Tables) : Prop :=
  ∀ id pattern, project.patterns.get? id = some pattern →
    ∀ source ∈ pattern.automation, source.refersTo ref = false

theorem Fate.gone (h : Fate ref project project') : project'.has ref = false := by
  have hbind : ∀ {α : Type} {o : Option α} {f : α → Option α}, (∀ v, f v = none) →
      (o.bind f).isSome = false := by
    intro α o f hf
    cases o with
    | none => rfl
    | some v => rw [Option.bind_some, hf]; rfl
  cases ref with
  | instrument id =>
    exact (congrArg Option.isSome (h.instruments id)).trans (hbind fun v => if_pos rfl)
  | pattern id => exact (congrArg Option.isSome (h.patterns id)).trans (hbind fun v => if_pos rfl)
  | lane id => exact (congrArg Option.isSome (h.lanes id)).trans (hbind fun v => if_pos rfl)
  | clip id => exact (congrArg Option.isSome (h.clips id)).trans (hbind fun v => if_pos rfl)
  | mixerTrack id =>
    exact (congrArg Option.isSome (h.mixerTracks id)).trans (hbind fun v => if_pos rfl)

theorem delete_ne_master (h : project.delete ref = some project') :
    ref ≠ .mixerTrack project.master := by
  rintro rfl
  exact (Tables.deleteMixerTrack_eq_some_iff.1 h).1 rfl

theorem Instrument.refersTo_of_fate {master : MixerTrackId} (hmaster : ref ≠ .mixerTrack master)
    {id : InstrumentId} {instrument instrument' : Instrument}
    (h : instrument.fate ref master id = some instrument') : instrument'.refersTo ref = false := by
  unfold Instrument.fate at h
  split_ifs at h
  cases h
  cases ref with
  | mixerTrack track =>
    simp only [Instrument.refersTo, Instrument.released, Tables.repointRouting, List.any_map, List.any_eq_false,
      Function.comp_apply, decide_eq_true_eq]
    intro route hroute
    split_ifs with htrack
    · simpa using Ne.symm hmaster
    · exact htrack
  | _ => rfl

theorem ArrangementLane.refersTo_of_fate {id : ArrangementLaneId} {lane lane' : ArrangementLane}
    (h : lane.fate ref id = some lane') : lane'.refersTo ref = false := by
  unfold ArrangementLane.fate at h
  split_ifs at h
  cases h
  cases ref with
  | lane group =>
    simp only [ArrangementLane.refersTo, ArrangementLane.released, Tables.releaseLane]
    split_ifs with hgroup
    · simp
    · simpa using hgroup
  | _ => rfl

theorem Clip.refersTo_of_fate {master : MixerTrackId} (hmaster : ref ≠ .mixerTrack master)
    {id : ClipId} {clip clip' : Clip} (h : clip.fate ref master id = some clip') :
    clip'.refersTo ref = false := by
  unfold Clip.fate at h
  split_ifs at h with hid hrefers
  · split at h
    next track source =>
      cases h
      simpa [Clip.refersTo] using Ne.symm hmaster
    next => cases h
  · cases h
    exact Bool.eq_false_of_not_eq_true hrefers

theorem MixerTrack.refersTo_of_fate {master : MixerTrackId} (hmaster : ref ≠ .mixerTrack master)
    {id : MixerTrackId} {track track' : MixerTrack} (h : track.fate ref master id = some track') :
    track'.refersTo ref = false := by
  unfold MixerTrack.fate at h
  split_ifs at h with hid hrefers
  · cases h
    cases ref with
    | mixerTrack x => simpa [MixerTrack.refersTo, MixerTrack.outputTo] using Ne.symm hmaster
    | _ => rfl
  · cases h
    exact Bool.eq_false_of_not_eq_true hrefers

/-- A pattern keeps the curves it owns. -/
theorem Pattern.fate_eq_some {id : PatternId} {pattern pattern' : Pattern}
    (h : pattern.fate ref id = some pattern') :
    pattern'.automation = pattern.automation ∧ pattern'.holds ref = false ∧
      ∀ i sequence, pattern'.sequences.get? i = some sequence →
        pattern.sequences.get? i = some sequence := by
  unfold Pattern.fate at h
  split_ifs at h
  cases h
  cases ref with
  | instrument i =>
    refine ⟨rfl, ?_, fun j sequence hj => ?_⟩
    · simp [Pattern.holds, Pattern.released, OrderedMap.contains]
    · exact OrderedMap.forall_erase (fun _ _ hget => hget) i j sequence hj
  | _ => exact ⟨rfl, rfl, fun _ _ hj => hj⟩

theorem Fate.exists_pattern (h : Fate ref project project') {id : PatternId} {pattern : Pattern}
    (hne : ref ≠ .pattern id) (hget : project.patterns.get? id = some pattern) :
    ∃ pattern', project'.patterns.get? id = some pattern' ∧
      pattern'.automation = pattern.automation := by
  rw [h.patterns, hget, Option.bind_some, Pattern.fate, if_neg hne]
  cases ref with
  | instrument i => exact ⟨_, rfl, rfl⟩
  | _ => exact ⟨_, rfl, rfl⟩

/-- **Nothing refers to the deleted entity, but for curves that patterns own.** -/
theorem delete_nothingRefers_iff (h : project.delete ref = some project') :
    NothingRefers ref project' ↔ NoOwnedCurve ref project := by
  have hfate := Tables.delete_fate h
  have hmaster := delete_ne_master h
  constructor
  · intro hnothing id pattern hget source hsource
    by_cases hne : ref = .pattern id
    · subst hne
      rfl
    · obtain ⟨pattern', hget', hautomation⟩ := hfate.exists_pattern hne hget
      have hrefers := (Bool.or_eq_false_iff.1 (hnothing.patterns id pattern' hget')).2
      rw [hautomation, List.any_eq_false] at hrefers
      simpa using hrefers source hsource
  · intro hcurves
    refine ⟨hfate.gone, fun id instrument hget => ?_, fun id pattern hget => ?_,
      fun id lane hget => ?_, fun id clip hget => ?_, fun id track hget => ?_,
      hfate.master ▸ hmaster⟩
    · rw [hfate.instruments] at hget
      obtain ⟨_, -, h'⟩ := Option.bind_eq_some_iff.1 hget
      exact Instrument.refersTo_of_fate hmaster h'
    · rw [hfate.patterns] at hget
      obtain ⟨pattern₀, hget₀, hpattern⟩ := Option.bind_eq_some_iff.1 hget
      obtain ⟨hautomation, hholds, -⟩ := Pattern.fate_eq_some hpattern
      rw [Pattern.refersTo, hholds, Bool.false_or, hautomation, List.any_eq_false]
      exact fun source hsource => by simpa using hcurves id pattern₀ hget₀ source hsource
    · rw [hfate.lanes] at hget
      obtain ⟨_, -, h'⟩ := Option.bind_eq_some_iff.1 hget
      exact ArrangementLane.refersTo_of_fate h'
    · rw [hfate.clips] at hget
      obtain ⟨_, -, h'⟩ := Option.bind_eq_some_iff.1 hget
      exact Clip.refersTo_of_fate hmaster h'
    · rw [hfate.mixerTracks] at hget
      obtain ⟨_, -, h'⟩ := Option.bind_eq_some_iff.1 hget
      exact MixerTrack.refersTo_of_fate hmaster h'

/-! ### The project stays consistent -/

/-- The signal of the master does not go through the entity. -/
def MasterAvoids (ref : EntityRef) (project : Tables) : Prop :=
  ∀ id, ref = .mixerTrack id → ¬Leads project.outputOf project.master id

/-- In a consistent project the signal of the master ends in the track without an output. -/
theorem Tables.Consistent.leads_to_last (h : project.Consistent) {id : MixerTrackId}
    (hid : id ∈ project.masters) (hne : id ≠ project.master) :
    Leads project.outputOf project.master id := by
  obtain ⟨last, hlast, hwalk⟩ := (h.ends project.master).exists_last
  have hexists : ∃ track, project.mixerTracks.get? last = some track := by
    rcases hwalk with rfl | hwalk
    · exact h.master
    · obtain ⟨before, -, hbefore⟩ := Relation.TransGen.tail'_iff.1 hwalk
      obtain ⟨track, htrack, houtput⟩ := Tables.outputOf_eq_some_iff.1 hbefore
      exact (h.outputs before track htrack last houtput).2
  obtain ⟨track, htrack⟩ := hexists
  have houtput : track.output = none := by
    rw [Tables.outputOf, htrack] at hlast
    exact hlast
  have hmem : last ∈ project.masters :=
    OrderedMap.mem_keysWhere.2 ⟨track, htrack, by rw [houtput]; rfl⟩
  -- there is one such track only
  obtain ⟨only, honly⟩ := List.length_eq_one_iff.1 h.oneMaster
  rw [honly, List.mem_singleton] at hmem hid
  obtain rfl : last = id := hmem.trans hid.symm
  rcases hwalk with rfl | hwalk
  · exact absurd rfl hne
  · exact hwalk

section Survivors

variable (h : Fate ref project project')

include h

theorem Fate.exists_instrument {id : InstrumentId} {instrument : Instrument}
    (hne : ref ≠ .instrument id) (hget : project.instruments.get? id = some instrument) :
    ∃ instrument', project'.instruments.get? id = some instrument' := by
  rw [h.instruments, hget, Option.bind_some, Instrument.fate, if_neg hne]
  exact ⟨_, rfl⟩

theorem Fate.exists_lane {id : ArrangementLaneId} {lane : ArrangementLane}
    (hne : ref ≠ .lane id) (hget : project.lanes.get? id = some lane) :
    ∃ lane', project'.lanes.get? id = some lane' := by
  rw [h.lanes, hget, Option.bind_some, ArrangementLane.fate, if_neg hne]
  exact ⟨_, rfl⟩

theorem Fate.exists_track {id : MixerTrackId} {track : MixerTrack}
    (hne : ref ≠ .mixerTrack id) (hget : project.mixerTracks.get? id = some track) :
    ∃ track', project'.mixerTracks.get? id = some track' ∧ track'.effects = track.effects ∧
      (track.output = none → track'.output = none) := by
  rw [h.mixerTracks, hget, Option.bind_some, MixerTrack.fate, if_neg hne]
  split_ifs with hrefers
  · refine ⟨_, rfl, rfl, fun hnone => ?_⟩
    cases ref with
    | mixerTrack x =>
      rw [MixerTrack.refersTo, hnone] at hrefers
      cases hrefers
    | _ => cases hrefers
  · exact ⟨_, rfl, rfl, fun hnone => hnone⟩

/-- A track that is left sends to the master, or where it sent before. -/
theorem Fate.of_track {id : MixerTrackId} {track' : MixerTrack}
    (hget : project'.mixerTracks.get? id = some track') : ref ≠ .mixerTrack id ∧
      ∃ track, project.mixerTracks.get? id = some track ∧ track'.effects = track.effects ∧
        (track.refersTo ref = true ∧ track'.output = some project.master ∨
          track.refersTo ref = false ∧ track'.output = track.output) := by
  rw [h.mixerTracks] at hget
  obtain ⟨track, htrack, hfate⟩ := Option.bind_eq_some_iff.1 hget
  unfold MixerTrack.fate at hfate
  split_ifs at hfate with hne hrefers
  · cases hfate
    exact ⟨hne, track, htrack, rfl, .inl ⟨hrefers, rfl⟩⟩
  · cases hfate
    exact ⟨hne, track', htrack, rfl, .inr ⟨Bool.eq_false_of_not_eq_true hrefers, rfl⟩⟩

/-- Tracks stay where they are unless a track is deleted. -/
theorem Fate.outputOf_eq (hne : ∀ id, ref ≠ .mixerTrack id) :
    project'.outputOf = project.outputOf := by
  funext id
  have hfate : MixerTrack.fate ref project.master id = some := by
    funext track
    unfold MixerTrack.fate
    rw [if_neg (hne id), if_neg]
    cases ref with
    | mixerTrack x => exact absurd rfl (hne x)
    | _ => exact Bool.false_ne_true
  rw [Tables.outputOf, h.mixerTracks, hfate, Option.bind_fun_some, Tables.outputOf]

/-- What went into the deleted track goes into the master. -/
theorem Fate.outputOf_redirect {x : MixerTrackId} (href : ref = .mixerTrack x)
    (id : MixerTrackId) : project'.outputOf id =
      if id = x then none
      else if project.outputOf id = some x then some project.master else project.outputOf id := by
  subst href
  rw [Tables.outputOf, h.mixerTracks, Tables.outputOf]
  cases project.mixerTracks.get? id with
  | none => simp
  | some track =>
    rw [Option.bind_some, Option.bind_some, MixerTrack.fate]
    by_cases hid : id = x
    · simp [hid]
    · have hne : EntityRef.mixerTrack x ≠ .mixerTrack id := by simpa using Ne.symm hid
      rw [if_neg hne, if_neg hid]
      simp only [MixerTrack.refersTo, decide_eq_true_eq]
      split_ifs <;> rfl

/-- Every signal still gets out. -/
theorem Fate.ends (hc : project.Consistent) (havoids : MasterAvoids ref project)
    (id : MixerTrackId) : Ends project'.outputOf id := by
  by_cases href : ∃ x, ref = .mixerTrack x
  · obtain ⟨x, hx⟩ := href
    exact Ends.redirect (h.outputOf_redirect hx) (hc.ends project.master) (havoids x hx) (hc.ends id)
  · rw [h.outputOf_eq fun x hx => href ⟨x, hx⟩]
    exact hc.ends id

end Survivors

/-- A clip that is left has its place, and plays the same or plays into the master. -/
theorem Clip.fate_eq_some {master : MixerTrackId} {id : ClipId} {clip clip' : Clip}
    (h : clip.fate ref master id = some clip') :
    clip'.lane = clip.lane ∧ clip'.start = clip.start ∧ clip'.length = clip.length ∧
      (clip' = clip ∨ ∃ source, clip.source = .audio source ∧
        clip'.source = .audio { source with destination := master }) := by
  unfold Clip.fate at h
  split_ifs at h with hne hrefers
  · split at h
    next _ source hsource =>
      cases h
      exact ⟨rfl, rfl, rfl, .inr ⟨source, hsource, rfl⟩⟩
    next => cases h
  · cases h
    exact ⟨rfl, rfl, rfl, .inl rfl⟩

/-- The target of a curve that does not drive the deleted entity is still there. -/
theorem Fate.targetResolves (h : Fate ref project project') {source : AutomationSource}
    (hrefers : source.refersTo ref = false) (hresolves : project.targetResolves source = true) :
    project'.targetResolves source = true := by
  unfold Tables.targetResolves at hresolves ⊢
  cases hkind : source.targetKind with
  | instrument =>
    rw [hkind] at hresolves
    obtain ⟨instrument, hget⟩ := OrderedMap.contains_eq_true_iff.1 hresolves
    refine OrderedMap.contains_eq_true_iff.2 (h.exists_instrument (fun href => ?_) hget)
    subst href
    simp [AutomationSource.refersTo, hkind] at hrefers
  | mixerTrack =>
    rw [hkind] at hresolves
    obtain ⟨track, hget⟩ := OrderedMap.contains_eq_true_iff.1 hresolves
    obtain ⟨track', hget', -⟩ := h.exists_track (fun href => by
      subst href
      simp [AutomationSource.refersTo, hkind] at hrefers) hget
    exact OrderedMap.contains_eq_true_iff.2 ⟨track', hget'⟩
  | effect =>
    rw [hkind] at hresolves
    dsimp only at hresolves ⊢
    cases hget : project.mixerTracks.get? source.mixerTrack with
    | none =>
      rw [hget] at hresolves
      cases hresolves
    | some track =>
      obtain ⟨track', hget', heffects, -⟩ := h.exists_track (fun href => by
        subst href
        simp [AutomationSource.refersTo, hkind] at hrefers) hget
      rw [hget] at hresolves
      rw [hget']
      dsimp only at hresolves ⊢
      rw [MixerTrack.findEffect, heffects]
      exact hresolves

/-- What a clip that is left plays is still there. -/
theorem Fate.sourceConsistent (h : Fate ref project project') (hc : project.Consistent)
    (hmaster : ref ≠ .mixerTrack project.master) {id : ClipId} {clip : Clip}
    (hget : project'.clips.get? id = some clip) : project'.SourceConsistent clip := by
  rw [h.clips] at hget
  obtain ⟨clip₀, hget₀, hfate⟩ := Option.bind_eq_some_iff.1 hget
  have hsource := hc.clipSources id clip₀ hget₀
  have hrefers := Clip.refersTo_of_fate hmaster hfate
  have hexists : ∀ {id : MixerTrackId}, ref ≠ .mixerTrack id →
      (∃ track, project.mixerTracks.get? id = some track) →
        ∃ track, project'.mixerTracks.get? id = some track := by
    rintro id hne ⟨track, htrack⟩
    obtain ⟨track', htrack', -⟩ := h.exists_track hne htrack
    exact ⟨track', htrack'⟩
  obtain ⟨hlane, hstart, hlength, rfl | ⟨source, hclip, hclip'⟩⟩ := Clip.fate_eq_some hfate
  · unfold Tables.SourceConsistent at hsource ⊢
    unfold Clip.refersTo at hrefers
    cases hcases : clip.source with
    | pattern pattern =>
      rw [hcases] at hsource hrefers
      obtain ⟨p, hp⟩ := hsource
      obtain ⟨p', hp', -⟩ := h.exists_pattern (fun href => by
        subst href
        simp at hrefers) hp
      exact ⟨p', hp'⟩
    | audio source =>
      rw [hcases] at hsource hrefers
      refine ⟨hexists (fun href => ?_) hsource.1, hsource.2⟩
      subst href
      simp at hrefers
    | automation source =>
      rw [hcases] at hsource hrefers
      refine h.targetResolves ?_ hsource
      cases ref <;> first | exact hrefers | rfl
  · unfold Tables.SourceConsistent at hsource ⊢
    rw [hclip] at hsource
    rw [hclip']
    dsimp only at hsource ⊢
    rw [hlength]
    exact ⟨hexists hmaster hc.master, hsource.2⟩

/-- The order of the lanes and the ports of an instrument are not touched. -/
theorem ArrangementLane.order_released (lane : ArrangementLane) :
    (lane.released ref).order = lane.order := by
  unfold ArrangementLane.released Tables.releaseLane
  split
  · split_ifs <;> rfl
  · rfl

theorem Instrument.ports_released (instrument : Instrument) (master : MixerTrackId) :
    (instrument.released ref master).routing.map OutputRoute.port =
      instrument.routing.map OutputRoute.port := by
  unfold Instrument.released Tables.repointRouting
  split
  · rw [List.map_map]
    refine List.map_congr_left fun route _ => ?_
    simp only [Function.comp_apply]
    split_ifs <;> rfl
  · rfl

/-- A route of an instrument leads where one led before, or to the master. -/
theorem Instrument.track_released {instrument : Instrument} {master : MixerTrackId}
    {route : OutputRoute} (h : route ∈ (instrument.released ref master).routing) :
    route.track = master ∨ ∃ route₀ ∈ instrument.routing, route₀.track = route.track := by
  unfold Instrument.released Tables.repointRouting at h
  split at h
  · obtain ⟨route₀, hroute₀, rfl⟩ := List.mem_map.1 h
    split_ifs with htrack
    · exact .inl rfl
    · exact .inr ⟨route₀, hroute₀, rfl⟩
  · exact .inr ⟨route, h, rfl⟩

section Consistent

variable (h : Fate ref project project') (hc : project.Consistent)
  (hmaster : ref ≠ .mixerTrack project.master)

include h

/-- An instrument that is left was there, with the same ports, and routes to no deleted track. -/
theorem Fate.of_instrument {id : InstrumentId} {instrument' : Instrument}
    (hmaster : ref ≠ .mixerTrack project.master)
    (hget : project'.instruments.get? id = some instrument') :
    ∃ instrument, project.instruments.get? id = some instrument ∧
      instrument'.routing.map OutputRoute.port = instrument.routing.map OutputRoute.port ∧
      ∀ route ∈ instrument'.routing, ref ≠ .mixerTrack route.track ∧
        (route.track = project.master ∨ ∃ route₀ ∈ instrument.routing, route₀.track = route.track) := by
  rw [h.instruments] at hget
  obtain ⟨instrument, hget₀, hfate⟩ := Option.bind_eq_some_iff.1 hget
  have hrefers := Instrument.refersTo_of_fate hmaster hfate
  unfold Instrument.fate at hfate
  split_ifs at hfate
  cases hfate
  refine ⟨instrument, hget₀, Instrument.ports_released _ _, fun route hroute => ⟨?_, ?_⟩⟩
  · rintro rfl
    simp only [Instrument.refersTo, List.any_eq_false, decide_eq_true_eq] at hrefers
    exact hrefers route hroute rfl
  · exact Instrument.track_released hroute

/-- A pattern that is left was there, and has none but its sequences. -/
theorem Fate.of_pattern {id : PatternId} {pattern' : Pattern}
    (hget : project'.patterns.get? id = some pattern') :
    ∃ pattern, project.patterns.get? id = some pattern ∧ pattern'.holds ref = false ∧
      ∀ i sequence, pattern'.sequences.get? i = some sequence →
        pattern.sequences.get? i = some sequence := by
  rw [h.patterns] at hget
  obtain ⟨pattern, hget₀, hfate⟩ := Option.bind_eq_some_iff.1 hget
  obtain ⟨-, hholds, hsub⟩ := Pattern.fate_eq_some hfate
  exact ⟨pattern, hget₀, hholds, hsub⟩

/-- A lane that is left was there, in its order, and is in no group but its own. -/
theorem Fate.of_lane {id : ArrangementLaneId} {lane' : ArrangementLane}
    (hget : project'.lanes.get? id = some lane') :
    ∃ lane, project.lanes.get? id = some lane ∧ lane'.order = lane.order ∧
      ∀ group, lane'.groupId = some group → ref ≠ .lane group ∧ lane.groupId = some group := by
  rw [h.lanes] at hget
  obtain ⟨lane, hget₀, hfate⟩ := Option.bind_eq_some_iff.1 hget
  have hrefers := ArrangementLane.refersTo_of_fate hfate
  unfold ArrangementLane.fate at hfate
  split_ifs at hfate
  cases hfate
  refine ⟨lane, hget₀, ArrangementLane.order_released _, fun group hgroup => ⟨?_, ?_⟩⟩
  · rintro rfl
    simp [ArrangementLane.refersTo, hgroup] at hrefers
  · unfold ArrangementLane.released Tables.releaseLane at hgroup
    split at hgroup
    · split_ifs at hgroup
      exact hgroup
    · exact hgroup

/-- A clip that is left was there, in its place, and refers to nothing deleted. -/
theorem Fate.of_clip {id : ClipId} {clip' : Clip} (hmaster : ref ≠ .mixerTrack project.master)
    (hget : project'.clips.get? id = some clip') :
    ∃ clip, project.clips.get? id = some clip ∧ clip'.refersTo ref = false ∧
      clip'.lane = clip.lane ∧ clip'.start = clip.start ∧ clip'.length = clip.length := by
  rw [h.clips] at hget
  obtain ⟨clip, hget₀, hfate⟩ := Option.bind_eq_some_iff.1 hget
  obtain ⟨hlane, hstart, hlength, -⟩ := Clip.fate_eq_some hfate
  exact ⟨clip, hget₀, Clip.refersTo_of_fate hmaster hfate, hlane, hstart, hlength⟩

include hc hmaster

theorem Fate.exists_master : ∃ track, project'.mixerTracks.get? project.master = some track := by
  obtain ⟨track, htrack⟩ := hc.master
  obtain ⟨track', htrack', -⟩ := h.exists_track hmaster htrack
  exact ⟨track', htrack'⟩

/-- The routes of an instrument that is left lead to tracks that are left. -/
theorem Fate.exists_route {id : InstrumentId} {instrument' : Instrument}
    (hget : project'.instruments.get? id = some instrument') {route : OutputRoute}
    (hroute : route ∈ instrument'.routing) :
    ∃ track, project'.mixerTracks.get? route.track = some track := by
  obtain ⟨instrument, hget₀, -, hroutes⟩ := h.of_instrument hmaster hget
  obtain ⟨hne, hto⟩ := hroutes route hroute
  have hexists : ∃ track, project.mixerTracks.get? route.track = some track := by
    rcases hto with hto | ⟨route₀, hroute₀, hto⟩
    · exact hto ▸ hc.master
    · exact hto ▸ hc.routes id instrument hget₀ route₀ hroute₀
  obtain ⟨track, htrack⟩ := hexists
  obtain ⟨track', htrack', -⟩ := h.exists_track hne htrack
  exact ⟨track', htrack'⟩

/-- The output of a track that is left is left. -/
theorem Fate.exists_output {id output : MixerTrackId} {track' : MixerTrack}
    (hget : project'.mixerTracks.get? id = some track') (houtput : track'.output = some output) :
    ∃ other, project'.mixerTracks.get? output = some other := by
  obtain ⟨-, track, hget₀, -, ⟨-, hto⟩ | ⟨hrefers, hto⟩⟩ := h.of_track hget
  · rw [houtput, Option.some_inj] at hto
    subst hto
    exact h.exists_master hc hmaster
  · rw [houtput] at hto
    have hne : ref ≠ .mixerTrack output := by
      rintro rfl
      simp [MixerTrack.refersTo, ← hto] at hrefers
    obtain ⟨-, other, hother⟩ := hc.outputs id track hget₀ output hto.symm
    obtain ⟨other', hother', -⟩ := h.exists_track hne hother
    exact ⟨other', hother'⟩

/-- The same tracks have no output: the last one is not deleted, and no other one becomes last. -/
theorem Fate.mem_masters_iff (havoids : MasterAvoids ref project) {id : MixerTrackId} :
    id ∈ project'.masters ↔ id ∈ project.masters := by
  rw [Tables.masters, Tables.masters, OrderedMap.mem_keysWhere, OrderedMap.mem_keysWhere]
  constructor
  · rintro ⟨track', hget, hnone⟩
    obtain ⟨-, track, hget₀, -, ⟨-, hto⟩ | ⟨-, hto⟩⟩ := h.of_track hget
    · rw [hto] at hnone
      cases hnone
    · exact ⟨track, hget₀, hto ▸ hnone⟩
  · rintro ⟨track, hget, hnone⟩
    have hne : ref ≠ .mixerTrack id := by
      rintro rfl
      exact havoids id rfl (hc.leads_to_last (OrderedMap.mem_keysWhere.2 ⟨track, hget, hnone⟩)
        fun heq => hmaster (by rw [heq]))
    obtain ⟨track', hget', -, hnone'⟩ := h.exists_track hne hget
    exact ⟨track', hget', by rw [hnone' (Option.isNone_iff_eq_none.1 hnone)]; rfl⟩

/-- **A deletion leaves a consistent project when the master's signal avoids what is deleted.** -/
theorem Fate.consistent (havoids : MasterAvoids ref project) : project'.Consistent where
  routes := fun id instrument' hget route hroute => h.exists_route hc hmaster hget hroute
  ports := by
    intro id instrument' hget
    obtain ⟨instrument, hget₀, hports, -⟩ := h.of_instrument hmaster hget
    rw [hports]
    exact hc.ports id instrument hget₀
  sequenceInstruments := by
    intro id pattern' hget i sequence hsequence
    obtain ⟨pattern, hget₀, hholds, hsub⟩ := h.of_pattern hget
    obtain ⟨instrument, hinstrument⟩ :=
      hc.sequenceInstruments id pattern hget₀ i sequence (hsub i sequence hsequence)
    refine h.exists_instrument (fun href => ?_) hinstrument
    subst href
    simp [Pattern.holds, OrderedMap.contains, hsequence] at hholds
  sparse := by
    intro id pattern' hget i sequence hsequence
    obtain ⟨pattern, hget₀, -, hsub⟩ := h.of_pattern hget
    exact hc.sparse id pattern hget₀ i sequence (hsub i sequence hsequence)
  notes := by
    intro id pattern' hget i sequence hsequence
    obtain ⟨pattern, hget₀, -, hsub⟩ := h.of_pattern hget
    exact hc.notes id pattern hget₀ i sequence (hsub i sequence hsequence)
  laneOrders := by
    rw [OrderedMap.nodup_map_entries_iff]
    intro k lane' hk k' other' hk' heq
    obtain ⟨lane, hget, horder, -⟩ := h.of_lane hk
    obtain ⟨other, hget', horder', -⟩ := h.of_lane hk'
    rw [horder, horder'] at heq
    exact (OrderedMap.nodup_map_entries_iff _ _).1 hc.laneOrders k lane hget k' other hget' heq
  laneGroups := by
    intro id lane' hget group hgroup
    obtain ⟨lane, hget₀, -, hgroups⟩ := h.of_lane hget
    obtain ⟨href, hgroup₀⟩ := hgroups group hgroup
    obtain ⟨hne, other, hother⟩ := hc.laneGroups id lane hget₀ group hgroup₀
    exact ⟨hne, h.exists_lane href hother⟩
  clipLanes := by
    intro id clip' hget
    obtain ⟨clip, hget₀, hrefers, hlane, -⟩ := h.of_clip hmaster hget
    obtain ⟨lane, hget₁⟩ := hc.clipLanes id clip hget₀
    rw [hlane]
    refine h.exists_lane (fun href => ?_) hget₁
    subst href
    simp [Clip.refersTo, hlane] at hrefers
  clipRanges := by
    intro id clip' hget
    obtain ⟨clip, hget₀, -, -, hstart, hlength⟩ := h.of_clip hmaster hget
    rw [hstart, hlength]
    exact hc.clipRanges id clip hget₀
  clipSources := fun id clip hget => h.sourceConsistent hc hmaster hget
  effectIds := by
    intro id track' hget
    obtain ⟨-, track, hget₀, heffects, -⟩ := h.of_track hget
    rw [heffects]
    exact hc.effectIds id track hget₀
  effects := by
    intro id track' hget
    obtain ⟨-, track, hget₀, heffects, -⟩ := h.of_track hget
    rw [heffects]
    exact hc.effects id track hget₀
  outputs := by
    intro id track' hget output houtput
    refine ⟨?_, h.exists_output hc hmaster hget houtput⟩
    -- a track that fed itself would not come to the master
    rintro rfl
    exact (h.ends hc havoids output).not_leads_self
      (.single (Tables.outputOf_eq_some_iff.2 ⟨track', hget, houtput⟩))
  acyclic := by
    intro id track' hget output houtput
    exact (Tables.walkToMaster_eq_false_iff
      (Tables.outputOf_eq_some_iff.2 ⟨track', hget, houtput⟩)).2 (h.ends hc havoids id)
  oneMaster := by
    rw [← hc.oneMaster]
    exact ((List.perm_ext_iff_of_nodup (OrderedMap.nodup_keysWhere _ _)
      (OrderedMap.nodup_keysWhere _ _)).2 fun _ => h.mem_masters_iff hc hmaster havoids).length_eq
  master := h.master ▸ h.exists_master hc hmaster

end Consistent

/-- **And not otherwise**: the signal of the master would come back to it. -/
theorem delete_consistent_iff (h : project.delete ref = some project')
    (hc : project.Consistent) : project'.Consistent ↔ MasterAvoids ref project := by
  have hfate := Tables.delete_fate h
  have hmaster := delete_ne_master h
  refine ⟨fun hc' x href hleads => ?_, hfate.consistent hc hmaster⟩
  refine not_ends_redirect (hfate.outputOf_redirect href) hleads ?_ (hc'.ends _)
  exact fun heq => hmaster (heq ▸ href)

/-- **A deletion leaves nothing dangling, keeps the project consistent and changes nothing else
exactly when no pattern owns a curve on what is deleted, and the signal of the master does not go
through it.** -/
theorem delete_iff (h : project.delete ref = some project')
    (hc : project.checkReferentialIntegrity = []) :
    NothingRefers ref project' ∧ project'.checkReferentialIntegrity = [] ∧
        OthersUnchanged ref project project' ↔
      NoOwnedCurve ref project ∧ MasterAvoids ref project := by
  rw [Tables.checkReferentialIntegrity_eq_nil_iff, delete_nothingRefers_iff h,
    delete_consistent_iff h (Tables.checkReferentialIntegrity_eq_nil_iff.1 hc),
    and_iff_left (delete_unchanged (Tables.delete_fate h))]

/-- A pattern owns a curve on the only instrument. -/
def ownedCurve : Tables :=
  { newProject ⟨1⟩ with
    instruments := OrderedMap.empty.assign ⟨3⟩ { routing := [⟨0, ⟨1⟩⟩] }
    patterns := OrderedMap.empty.assign ⟨4⟩
      { automation := [{ instrument := ⟨3⟩, parameter := 0, points := [⟨0, 1⟩] }] } }

theorem delete_pattern_ownedCurve :
    NothingRefers (.pattern ⟨4⟩) { ownedCurve with patterns := .empty } ∧
      ({ ownedCurve with patterns := .empty } : Tables).checkReferentialIntegrity = [] ∧
      OthersUnchanged (.pattern ⟨4⟩) ownedCurve { ownedCurve with patterns := .empty } :=
  (delete_iff (by decide +kernel) (by decide +kernel)).2
    ⟨fun _ _ _ _ _ => rfl, fun _ href => nomatch href⟩

/-- The curve outlives the instrument. -/
theorem delete_instrument_ownedCurve :
    ownedCurve.checkReferentialIntegrity = [] ∧
      ∃ project', ownedCurve.delete (.instrument ⟨3⟩) = some project' ∧
        ∃ pattern, project'.patterns.get? ⟨4⟩ = some pattern ∧
          pattern.refersTo (.instrument ⟨3⟩) = true :=
  ⟨by decide +kernel, { ownedCurve with instruments := .empty }, by decide +kernel,
    { automation := [{ instrument := ⟨3⟩, parameter := 0, points := [⟨0, 1⟩] }] },
    by decide +kernel, by decide +kernel⟩

end OneBeat
