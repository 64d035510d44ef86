import OneBeat.Lib.PartialWalk
import OneBeat.Model.Project

/-!
# Referential integrity

`model/invariants.cpp`.  `checkReferentialIntegrity` lists what is wrong with a project, in the
words of the source; `Tables.Consistent` says what it means for the list to be empty.

* `checkReferentialIntegrity_eq_nil_iff` : the checker finds nothing exactly on the consistent
  projects.
* `walkToMaster_eq_false_iff` : the walk along the outputs has fuel enough for every project.
-/

namespace OneBeat

/-- An entity in a message. -/
def describe (kind : EntityKind) (id : RawId) : String :=
  entityNoun kind ++ " " ++ entityPrefix kind ++ "_" ++ encodeUlid id

/-- Go through a list and tell `report` of each element whether an earlier one had its key. -/
def scanKeys {α κ : Type*} [DecidableEq κ] (key : α → κ) (report : α → Bool → List String) :
    List κ → List α → List String
  | _, [] => []
  | seen, a :: as => report a (key a ∈ seen) ++ scanKeys key report (key a :: seen) as

theorem scanKeys_eq_nil_iff {α κ : Type*} [DecidableEq κ] {key : α → κ}
    {report : α → Bool → List String} (hreport : ∀ a, report a true ≠ []) (seen : List κ)
    (as : List α) :
    scanKeys key report seen as = [] ↔
      (as.map key).Nodup ∧ (∀ a ∈ as, key a ∉ seen) ∧ ∀ a ∈ as, report a false = [] := by
  induction as generalizing seen with
  | nil => simp [scanKeys]
  | cons a as ih =>
    rw [scanKeys, List.append_eq_nil_iff, ih, List.map_cons, List.nodup_cons]
    by_cases hseen : key a ∈ seen
    · simp [hseen, hreport]
    · simp only [hseen, decide_false, List.mem_cons, not_or, forall_eq_or_imp, not_false_eq_true,
        true_and, List.mem_map, not_exists, not_and]
      refine ⟨fun ⟨h₁, h₂, h₃, h₄⟩ => ?_, fun ⟨⟨h₁, h₂⟩, h₃, h₄, h₅⟩ => ?_⟩
      · exact ⟨⟨fun b hb => (h₃ b hb).1, h₂⟩, fun b hb => (h₃ b hb).2, h₁, h₄⟩
      · exact ⟨h₄, h₂, fun b hb => ⟨h₁ b hb, h₃ b hb⟩, h₅⟩

/-- Something is said of an element, told whether its key has been seen. -/
theorem mem_scanKeys {α κ : Type*} [DecidableEq κ] {key : α → κ} {report : α → Bool → List String}
    {message : String} (seen : List κ) (as : List α) :
    message ∈ scanKeys key report seen as ↔
      ∃ before a after, as = before ++ a :: after ∧
        message ∈ report a (key a ∈ seen ∨ key a ∈ before.map key) := by
  induction as generalizing seen with
  | nil => simp [scanKeys]
  | cons a as ih =>
    rw [scanKeys, List.mem_append, ih]
    constructor
    · rintro (h | ⟨before, b, after, rfl, h⟩)
      · exact ⟨[], a, as, rfl, by simpa using h⟩
      · refine ⟨a :: before, b, after, rfl, ?_⟩
        simpa [or_assoc, or_comm, or_left_comm] using h
    · rintro ⟨before, b, after, heq, h⟩
      cases before with
      | nil =>
        obtain ⟨rfl, rfl⟩ := List.cons.inj heq
        exact .inl (by simpa using h)
      | cons c before =>
        obtain ⟨rfl, rfl⟩ := List.cons.inj heq
        refine .inr ⟨before, b, after, rfl, ?_⟩
        simpa [or_assoc, or_comm, or_left_comm] using h

namespace Tables

variable (project : Tables)

/-! ### The checker -/

/-- Routing resolves, and routes to distinct ports. -/
def checkInstrument (id : InstrumentId) (instrument : Instrument) : List String :=
  scanKeys OutputRoute.port (fun route seen =>
    (if project.mixerTracks.contains route.track then []
      else [describe .instrument id.raw ++ " routes port " ++ toString route.port ++
        " to missing " ++ describe .mixerTrack route.track.raw]) ++
    (if seen then [describe .instrument id.raw ++ " routes port " ++ toString route.port ++
        " twice"] else []))
    [] instrument.routing

/-- A sequence keys on a live instrument, is not empty, and its notes are ordered and in range. -/
def checkSequence (id : PatternId) (instrument : InstrumentId) (sequence : NoteSequence) :
    List String :=
  (if project.instruments.contains instrument then []
    else [describe .pattern id.raw ++ " holds a sequence for missing " ++
      describe .instrument instrument.raw]) ++
  (if sequence.empty then [describe .pattern id.raw ++ " keeps an empty sequence for " ++
      describe .instrument instrument.raw] else []) ++
  (if isSorted sequence.notes then []
    else [describe .pattern id.raw ++ " has an unsorted sequence for " ++
      describe .instrument instrument.raw]) ++
  (if sequence.notes.all isValidNote then []
    else [describe .pattern id.raw ++ " has an out-of-range note"])

/-- Lane order is unique, and a group is another lane. -/
def checkLane (entry : ArrangementLaneId × ArrangementLane) (seen : Bool) : List String :=
  (if seen then [describe .arrangementLane entry.1.raw ++ " shares order " ++
      toString entry.2.order ++ " with another lane"] else []) ++
  match entry.2.groupId with
  | none => []
  | some group =>
    if group = entry.1 then [describe .arrangementLane entry.1.raw ++ " is its own group"]
    else if project.lanes.contains group then []
    else [describe .arrangementLane entry.1.raw ++ " belongs to missing " ++
      describe .arrangementLane group.raw]

/-- The target of a curve exists; an effect is still in its chain. -/
def targetResolves (automation : AutomationSource) : Bool :=
  match automation.targetKind with
  | .instrument => project.instruments.contains automation.instrument
  | .mixerTrack => project.mixerTracks.contains automation.mixerTrack
  | .effect =>
    match project.mixerTracks.get? automation.mixerTrack with
    | some track => (track.findEffect automation.effect).isSome
    | none => false

/-- Lane and source of a clip resolve. -/
def checkClip (id : ClipId) (clip : Clip) : List String :=
  (if project.lanes.contains clip.lane then []
    else [describe .clip id.raw ++ " sits on missing " ++ describe .arrangementLane clip.lane.raw])
  ++ (if clip.length < 0 ∨ clip.start < 0 then
      [describe .clip id.raw ++ " has a negative start or length"] else []) ++
  match clip.source with
  | .pattern pattern =>
    if project.patterns.contains pattern then []
    else [describe .clip id.raw ++ " references missing " ++ describe .pattern pattern.raw]
  | .audio audio =>
    (if project.mixerTracks.contains audio.destination then []
      else [describe .clip id.raw ++ " plays into missing " ++
        describe .mixerTrack audio.destination.raw]) ++
    (if audio.sourceOffset < 0 ∨ audio.sourceLength < 0 then
      [describe .clip id.raw ++ " has a negative source window"] else []) ++
    (if audio.stretchMode ≠ .off ∧ audio.sourceLength ≤ 0 ∧ clip.length ≤ 0 then
      [describe .clip id.raw ++ " is stretched with no length to stretch"] else [])
  | .automation automation =>
    if project.targetResolves automation then []
    else [describe .clip id.raw ++ " automates a missing target"]

/-- Follow outputs from `walker` until a track has none, with at most `fuel` steps; `true` when a
track comes back. -/
def walkToMaster : ℕ → List MixerTrackId → MixerTrackId → Bool
  | 0, _, _ => false
  | fuel + 1, seen, walker =>
    match project.mixerTracks.get? walker with
    | none => false
    | some next =>
      match next.output with
      | none => false
      | some output =>
        if walker ∈ seen then true else walkToMaster fuel (walker :: seen) output

/-- The chain's slots are identified and distinct. -/
def checkEffects (id : MixerTrackId) (track : MixerTrack) : List String :=
  scanKeys EffectSlot.id (fun slot seen =>
    if slot.id.valid then
      if seen then [describe .mixerTrack id.raw ++ " has two slots sharing " ++
        describe .effect slot.id.raw] else []
    else [describe .mixerTrack id.raw ++ " has an unidentified effect slot"])
    [] track.effects

/-- The output is another track, and leads to the master. -/
def checkOutput (id : MixerTrackId) (track : MixerTrack) : List String :=
  match track.output with
  | none => []
  | some output =>
    if output = id then [describe .mixerTrack id.raw ++ " outputs into itself"]
    else if !project.mixerTracks.contains output then
      [describe .mixerTrack id.raw ++ " outputs into missing " ++ describe .mixerTrack output.raw]
    else if project.walkToMaster (project.mixerTracks.size + 1) [id] output then
      [describe .mixerTrack id.raw ++ " is part of a routing cycle"]
    else []

/-- The tracks without an output. -/
def masters : List MixerTrackId := project.mixerTracks.keysWhere fun track => track.output.isNone

/-- What is wrong with the project; empty when it is consistent. -/
def checkReferentialIntegrity : List String :=
  project.instruments.entries.flatMap (fun entry => project.checkInstrument entry.1 entry.2) ++
  project.patterns.entries.flatMap (fun entry =>
    entry.2.sequences.entries.flatMap fun sequence =>
      project.checkSequence entry.1 sequence.1 sequence.2) ++
  scanKeys (fun entry => entry.2.order) project.checkLane [] project.lanes.entries ++
  project.clips.entries.flatMap (fun entry => project.checkClip entry.1 entry.2) ++
  project.mixerTracks.entries.flatMap (fun entry =>
    checkEffects entry.1 entry.2 ++ project.checkOutput entry.1 entry.2) ++
  (if project.masters.length ≠ 1 then ["the project has " ++ toString project.masters.length ++
      " master tracks; it must have exactly 1"] else []) ++
  (if project.mixerTracks.contains project.master then [] else ["the master track is missing"])

/-! ### What an empty list means -/

/-- The source of a clip refers to what exists, and its numbers make sense. -/
def SourceConsistent (clip : Clip) : Prop :=
  match clip.source with
  | .pattern pattern => ∃ p, project.patterns.get? pattern = some p
  | .audio audio =>
    (∃ track, project.mixerTracks.get? audio.destination = some track) ∧
      0 ≤ audio.sourceOffset ∧ 0 ≤ audio.sourceLength ∧
      (audio.stretchMode ≠ .off → 0 < audio.sourceLength ∨ 0 < clip.length)
  | .automation automation => project.targetResolves automation = true

/-- A project in which every reference resolves. -/
structure Consistent (project : Tables) : Prop where
  /-- Every route leads to a track. -/
  routes : ∀ id instrument, project.instruments.get? id = some instrument →
    ∀ route ∈ instrument.routing, ∃ track, project.mixerTracks.get? route.track = some track
  /-- The ports of an instrument are distinct. -/
  ports : ∀ id instrument, project.instruments.get? id = some instrument →
    (instrument.routing.map OutputRoute.port).Nodup
  /-- A sequence is an existing instrument's. -/
  sequenceInstruments : ∀ id pattern, project.patterns.get? id = some pattern →
    ∀ i sequence, pattern.sequences.get? i = some sequence →
      ∃ instrument, project.instruments.get? i = some instrument
  /-- A sequence has notes. -/
  sparse : ∀ id pattern, project.patterns.get? id = some pattern →
    ∀ i sequence, pattern.sequences.get? i = some sequence → sequence.empty = false
  /-- Every note is in range. -/
  notes : ∀ id pattern, project.patterns.get? id = some pattern →
    ∀ i sequence, pattern.sequences.get? i = some sequence →
      ∀ note ∈ sequence.notes, isValidNote note = true
  /-- Lane orders are distinct. -/
  laneOrders : (project.lanes.entries.map fun entry => entry.2.order).Nodup
  /-- A group is another lane. -/
  laneGroups : ∀ id lane, project.lanes.get? id = some lane → ∀ group, lane.groupId = some group →
    group ≠ id ∧ ∃ other, project.lanes.get? group = some other
  /-- A clip is on a lane. -/
  clipLanes : ∀ id clip, project.clips.get? id = some clip →
    ∃ lane, project.lanes.get? clip.lane = some lane
  /-- Starts and lengths of clips are not negative. -/
  clipRanges : ∀ id clip, project.clips.get? id = some clip → 0 ≤ clip.start ∧ 0 ≤ clip.length
  /-- What a clip plays exists. -/
  clipSources : ∀ id clip, project.clips.get? id = some clip → project.SourceConsistent clip
  /-- The slots of a chain are identified. -/
  effectIds : ∀ id track, project.mixerTracks.get? id = some track →
    ∀ slot ∈ track.effects, slot.id.valid = true
  /-- The slots of a chain are distinct. -/
  effects : ∀ id track, project.mixerTracks.get? id = some track →
    (track.effects.map EffectSlot.id).Nodup
  /-- An output is another track. -/
  outputs : ∀ id track, project.mixerTracks.get? id = some track → ∀ output,
    track.output = some output →
      output ≠ id ∧ ∃ other, project.mixerTracks.get? output = some other
  /-- Outputs lead to the master. -/
  acyclic : ∀ id track, project.mixerTracks.get? id = some track → ∀ output,
    track.output = some output →
      project.walkToMaster (project.mixerTracks.size + 1) [id] output = false
  /-- One track has no output. -/
  oneMaster : project.masters.length = 1
  /-- The master track exists. -/
  master : ∃ track, project.mixerTracks.get? project.master = some track

variable {project}

theorem checkInstrument_eq_nil_iff {id : InstrumentId} {instrument : Instrument} :
    project.checkInstrument id instrument = [] ↔
      (∀ route ∈ instrument.routing,
        ∃ track, project.mixerTracks.get? route.track = some track) ∧
      (instrument.routing.map OutputRoute.port).Nodup := by
  unfold checkInstrument
  rw [scanKeys_eq_nil_iff (by simp)]
  simp [and_comm]

theorem checkSequence_eq_nil_iff {id : PatternId} {i : InstrumentId} {sequence : NoteSequence} :
    project.checkSequence id i sequence = [] ↔
      (∃ instrument, project.instruments.get? i = some instrument) ∧ sequence.empty = false ∧
      ∀ note ∈ sequence.notes, isValidNote note = true := by
  have hsorted : isSorted sequence.notes = true := decide_eq_true sequence.sorted
  simp [checkSequence, hsorted]

theorem checkLane_eq_nil_iff {entry : ArrangementLaneId × ArrangementLane} :
    project.checkLane entry false = [] ↔
      ∀ group, entry.2.groupId = some group →
        group ≠ entry.1 ∧ ∃ other, project.lanes.get? group = some other := by
  unfold checkLane
  cases entry.2.groupId with
  | none => simp
  | some group =>
    by_cases h : group = entry.1
    · simp [h]
    · simp [h]

theorem checkClip_eq_nil_iff {id : ClipId} {clip : Clip} :
    project.checkClip id clip = [] ↔
      (∃ lane, project.lanes.get? clip.lane = some lane) ∧ (0 ≤ clip.start ∧ 0 ≤ clip.length) ∧
      project.SourceConsistent clip := by
  unfold checkClip SourceConsistent
  rw [List.append_eq_nil_iff, List.append_eq_nil_iff]
  have hrange : (¬(clip.length < 0 ∨ clip.start < 0)) ↔ 0 ≤ clip.start ∧ 0 ≤ clip.length := by
    omega
  rw [and_assoc]
  refine and_congr (by simp) (and_congr ?_ ?_)
  · rw [← hrange]; simp
  · cases clip.source with
    | pattern pattern => simp
    | audio audio =>
      simp only [List.append_eq_nil_iff, ite_eq_left_iff, ite_eq_right_iff, List.cons_ne_nil,
        imp_false, not_not, OrderedMap.contains_eq_true_iff, and_assoc]
      refine and_congr Iff.rfl ?_
      constructor
      · rintro ⟨h₁, h₂⟩
        refine ⟨by omega, by omega, fun hmode => ?_⟩
        by_contra hlength
        exact h₂ ⟨hmode, by omega, by omega⟩
      · rintro ⟨h₁, h₂, h₃⟩
        refine ⟨by omega, fun hbad => ?_⟩
        have := h₃ hbad.1
        omega
    | automation automation => simp

theorem checkEffects_eq_nil_iff {id : MixerTrackId} {track : MixerTrack} :
    checkEffects id track = [] ↔
      (∀ slot ∈ track.effects, slot.id.valid = true) ∧
        (track.effects.map EffectSlot.id).Nodup := by
  unfold checkEffects
  rw [scanKeys_eq_nil_iff (by intro slot; split_ifs <;> simp_all)]
  simp [and_comm]

theorem checkOutput_eq_nil_iff {id : MixerTrackId} {track : MixerTrack} :
    project.checkOutput id track = [] ↔
      ∀ output, track.output = some output →
        (output ≠ id ∧ ∃ other, project.mixerTracks.get? output = some other) ∧
        project.walkToMaster (project.mixerTracks.size + 1) [id] output = false := by
  unfold checkOutput
  cases track.output with
  | none => simp
  | some output =>
    by_cases hself : output = id
    · simp [hself]
    · cases hget : project.mixerTracks.get? output with
      | none | some other => simp [hself, OrderedMap.contains, hget]

/-- Where the signal of a track goes. -/
def outputOf (project : Tables) (id : MixerTrackId) : Option MixerTrackId :=
  (project.mixerTracks.get? id).bind MixerTrack.output

theorem outputOf_eq_some_iff {id output : MixerTrackId} :
    project.outputOf id = some output ↔
      ∃ track, project.mixerTracks.get? id = some track ∧ track.output = some output :=
  Option.bind_eq_some_iff

theorem walkToMaster_eq (fuel : ℕ) (seen : List MixerTrackId) (id : MixerTrackId) :
    project.walkToMaster fuel seen id = walk project.outputOf fuel seen id := by
  induction fuel generalizing seen id with
  | zero => rfl
  | succ fuel ih =>
    rw [walkToMaster, walk, outputOf]
    cases project.mixerTracks.get? id with
    | none => rfl
    | some track =>
      rw [Option.bind_some]
      dsimp only
      cases track.output with
      | none => rfl
      | some output => exact if_congr Iff.rfl rfl (ih _ _)

/-- **The walk tells whether the signal of a track gets out.** -/
theorem walkToMaster_eq_false_iff {id output : MixerTrackId}
    (h : project.outputOf id = some output) :
    project.walkToMaster (project.mixerTracks.size + 1) [id] output = false ↔
      Ends project.outputOf id := by
  have hnodes : ∀ id, project.outputOf id ≠ none → id ∈ project.mixerTracks.keys := by
    intro id hid
    obtain ⟨output, houtput⟩ := Option.ne_none_iff_exists'.1 hid
    obtain ⟨track, htrack, -⟩ := outputOf_eq_some_iff.1 houtput
    exact OrderedMap.mem_keys.2 ⟨track, htrack⟩
  have hsize : project.mixerTracks.size = project.mixerTracks.keys.length :=
    (List.length_map _).symm
  rw [walkToMaster_eq, hsize, walk_eq_false_iff hnodes h]

/-- In a consistent project every signal gets out. -/
theorem Consistent.ends (h : project.Consistent) (id : MixerTrackId) :
    Ends project.outputOf id := by
  cases houtput : project.outputOf id with
  | none => exact .stop houtput
  | some output =>
    obtain ⟨track, htrack, hout⟩ := outputOf_eq_some_iff.1 houtput
    exact (walkToMaster_eq_false_iff houtput).1 (h.acyclic id track htrack output hout)

private theorem mem_entries {α β : Type} [LinearOrder α] {m : OrderedMap α β} {k : α} {v : β}
    (h : m.get? k = some v) : (k, v) ∈ m.entries := OrderedMap.get?_eq_some_iff.1 h

/-- **The checker finds nothing exactly on the consistent projects.** -/
theorem checkReferentialIntegrity_eq_nil_iff :
    project.checkReferentialIntegrity = [] ↔ project.Consistent := by
  unfold checkReferentialIntegrity
  simp only [List.append_eq_nil_iff, List.flatMap_eq_nil_iff, ite_eq_right_iff, ite_eq_left_iff,
    List.cons_ne_nil, imp_false, not_not, ne_eq, OrderedMap.contains_eq_true_iff,
    checkInstrument_eq_nil_iff, checkSequence_eq_nil_iff, checkClip_eq_nil_iff,
    checkEffects_eq_nil_iff, checkOutput_eq_nil_iff]
  rw [scanKeys_eq_nil_iff (by intro entry; simp [checkLane])]
  simp only [checkLane_eq_nil_iff]
  constructor
  · rintro ⟨⟨⟨⟨⟨⟨hi, hp⟩, hl⟩, hc⟩, ht⟩, hm⟩, hmaster⟩
    exact {
      routes := fun id instrument h => (hi (id, instrument) (mem_entries h)).1
      ports := fun id instrument h => (hi (id, instrument) (mem_entries h)).2
      sequenceInstruments := fun id pattern h i sequence hs =>
        (hp (id, pattern) (mem_entries h) (i, sequence) (mem_entries hs)).1
      sparse := fun id pattern h i sequence hs =>
        (hp (id, pattern) (mem_entries h) (i, sequence) (mem_entries hs)).2.1
      notes := fun id pattern h i sequence hs =>
        (hp (id, pattern) (mem_entries h) (i, sequence) (mem_entries hs)).2.2
      laneOrders := hl.1
      laneGroups := fun id lane h => hl.2.2 (id, lane) (mem_entries h)
      clipLanes := fun id clip h => (hc (id, clip) (mem_entries h)).1
      clipRanges := fun id clip h => (hc (id, clip) (mem_entries h)).2.1
      clipSources := fun id clip h => (hc (id, clip) (mem_entries h)).2.2
      effectIds := fun id track h => (ht (id, track) (mem_entries h)).1.1
      effects := fun id track h => (ht (id, track) (mem_entries h)).1.2
      outputs := fun id track h output ho => ((ht (id, track) (mem_entries h)).2 output ho).1
      acyclic := fun id track h output ho => ((ht (id, track) (mem_entries h)).2 output ho).2
      oneMaster := hm
      master := hmaster }
  · intro h
    refine ⟨⟨⟨⟨⟨⟨?_, ?_⟩, h.laneOrders, by simp, ?_⟩, ?_⟩, ?_⟩, h.oneMaster⟩, h.master⟩
    · rintro ⟨id, instrument⟩ he
      have hget := OrderedMap.get?_eq_some_iff.2 he
      exact ⟨h.routes id instrument hget, h.ports id instrument hget⟩
    · rintro ⟨id, pattern⟩ he ⟨i, sequence⟩ hs
      have hget := OrderedMap.get?_eq_some_iff.2 he
      have hget' := OrderedMap.get?_eq_some_iff.2 hs
      exact ⟨h.sequenceInstruments id pattern hget i sequence hget',
        h.sparse id pattern hget i sequence hget', h.notes id pattern hget i sequence hget'⟩
    · rintro ⟨id, lane⟩ he
      exact h.laneGroups id lane (OrderedMap.get?_eq_some_iff.2 he)
    · rintro ⟨id, clip⟩ he
      have hget := OrderedMap.get?_eq_some_iff.2 he
      exact ⟨h.clipLanes id clip hget, h.clipRanges id clip hget, h.clipSources id clip hget⟩
    · rintro ⟨id, track⟩ he
      have hget := OrderedMap.get?_eq_some_iff.2 he
      exact ⟨⟨h.effectIds id track hget, h.effects id track hget⟩,
        fun output ho => ⟨h.outputs id track hget output ho, h.acyclic id track hget output ho⟩⟩

end Tables

end OneBeat
