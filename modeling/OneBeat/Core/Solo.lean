import Mathlib.Algebra.Group.Prod
import Mathlib.Algebra.Module.Basic
import Mathlib.Algebra.Module.Hom
import OneBeat.Core.RenderOrder
import OneBeat.Model.Invariants

/-!
# Solo

What the mixer lets through: `syncMixer` of `abi/onebeat_abi.cpp` turns solo into mutes, and
`renderMixer` of `core/engine.cpp` sums the buses in the order of the graph.

A signal is a pair of planes, left and right, over the rationals: sums and products are exact.
Inserts are additive.  Tracks past the sixty-fourth have no bus, so the results are about mixers
that have at most that many.

**Main theorem** (`soloed_iff`): what is soloed is heard, scaled by the levels on its way, and what
has nothing to do with a soloed track is not, exactly when every track on the way of a soloed one is
soloed too, the master included, or lets nothing through anyway.
-/

namespace OneBeat

namespace Solo

open SignalFlow

variable {M : Type*} [AddCommGroup M] [Module ℚ M]

/-! ### Levels -/

/-- The level of a track, as the audio thread reads it. -/
structure Level where
  gain : ℚ
  pan : ℚ

/-- `std::clamp`; what is not a number has no level. -/
def clampTo (low high : ℚ) : Double → Option ℚ
  | .finite value => some (max low (min value high))
  | .infinite negative => some (if negative then low else high)
  | .nan => none

/-- The level of a track that is not muted. -/
def openLevel (track : MixerTrack) : Option Level :=
  (clampTo 0 2 track.gain).bind fun gain => (clampTo (-1) 1 track.pan).map (Level.mk gain)

def anySolo (tracks : List (MixerTrackId × MixerTrack)) : Bool :=
  tracks.any fun entry => entry.2.soloed

/-- The mute that the engine is handed: solo is a gate for the others. -/
def gated (tracks : List (MixerTrackId × MixerTrack)) (track : MixerTrack) : Bool :=
  track.muted || (anySolo tracks && !track.soloed)

/-- A bus at a level: the pan takes away from the other side. -/
def Level.scale (level : Level) : M × M →+ M × M :=
  AddMonoidHom.prodMap
    (DistribSMul.toAddMonoidHom M (level.gain * if 0 < level.pan then 1 - level.pan else 1))
    (DistribSMul.toAddMonoidHom M (level.gain * if level.pan < 0 then 1 + level.pan else 1))

theorem Level.scale_of_gain_eq_zero {level : Level} (h : level.gain = 0) :
    level.scale (M := M) = 0 := by
  ext x <;> simp [Level.scale, h]

/-! ### The buses -/

/-- A track as the audio thread has it. -/
structure Bus where
  trackId : MixerTrackId
  /-- The bus it feeds; the master feeds the device. -/
  output : Option ℕ
  level : Level
  muted : Bool

/-- The level at which a bus is summed. -/
def Bus.heard (bus : Bus) : Level := ⟨if bus.muted then 0 else bus.level.gain, bus.level.pan⟩

def busOf (all tracks : List (MixerTrackId × MixerTrack)) (entry : MixerTrackId × MixerTrack)
    (level : Level) : Bus where
  trackId := entry.1
  output := entry.2.output.bind fun output =>
    tracks.findIdx? fun other => decide (other.1 = output)
  level := level
  muted := gated all entry.2

/-- The tracks that the engine takes, with their levels. -/
def mixerBuses (all : List (MixerTrackId × MixerTrack)) : Option (List Bus) :=
  (all.take maxMixerTracks).mapM fun entry =>
    (openLevel entry.2).map (busOf all (all.take maxMixerTracks) entry)

/-- One bus of `renderMixer`: the inserts in place, then the sum into what it feeds. -/
def renderBus (inserts : MixerTrackId → M × M →+ M × M) (buses : List Bus)
    (mix : Mix ℕ (M × M)) (index : ℕ) : Mix ℕ (M × M) :=
  match buses[index]? with
  | none => mix
  | some bus =>
    let signal := inserts bus.trackId (mix.buses index)
    let rendered := Function.update mix.buses index signal
    if bus.heard.gain = 0 then ⟨rendered, mix.device⟩
    else
      match bus.output with
      | none => ⟨rendered, mix.device + bus.heard.scale signal⟩
      | some output =>
        ⟨Function.update rendered output (rendered output + bus.heard.scale signal), mix.device⟩

/-- What is on the buses before the mixer is rendered: the tracks' own signals. -/
def ownBuses (own : MixerTrackId → M × M) (buses : List Bus) (index : ℕ) : M × M :=
  (buses[index]?.map fun bus => own bus.trackId).getD 0

/-- What the device gets; there is none if the graph was refused or a level is not a number. -/
def deviceOutput (project : Tables) (inserts : MixerTrackId → M × M →+ M × M)
    (own : MixerTrackId → M × M) : Option (M × M) :=
  (mixerBuses project.mixerTracks.entries).bind fun buses =>
    if (buses.map Bus.output).any Option.isNone then
      (renderOrder (buses.map Bus.output)).map fun order =>
        (order.foldl (renderBus inserts buses) ⟨ownBuses own buses, 0⟩).device
    else none

section Buses

variable {all : List (MixerTrackId × MixerTrack)} {buses : List Bus}

/-- The level of a track, where it is a number. -/
def levelOf (track : MixerTrack) : Level := (openLevel track).getD ⟨0, 0⟩

theorem mapM_eq_map {α β : Type*} (f : α → Option β) (g : α → β) (l : List α)
    (h : ∀ a ∈ l, (f a).isSome → f a = some (g a)) :
    l.mapM f = if ∀ a ∈ l, (f a).isSome then some (l.map g) else none := by
  induction l with
  | nil => simp
  | cons a l ih =>
    rw [List.mapM_cons, ih fun b hb => h b (List.mem_cons_of_mem _ hb)]
    cases ha : f a with
    | none => simp [ha]
    | some b =>
      have hb : b = g a := by
        have := h a List.mem_cons_self (by rw [ha]; rfl)
        rw [ha] at this
        exact Option.some.inj this
      by_cases hl : ∀ a ∈ l, (f a).isSome
      · rw [if_pos hl, if_pos (List.forall_mem_cons.2 ⟨by rw [ha]; rfl, hl⟩), List.map_cons, ← hb]
        rfl
      · rw [if_neg hl, if_neg fun hall => hl fun b hb => hall b (List.mem_cons_of_mem _ hb)]
        rfl

/-- The buses there are, where all levels are numbers. -/
theorem mixerBuses_eq_some_iff : mixerBuses all = some buses ↔
    (∀ entry ∈ all.take maxMixerTracks, (openLevel entry.2).isSome) ∧
      buses = (all.take maxMixerTracks).map fun entry =>
        busOf all (all.take maxMixerTracks) entry (levelOf entry.2) := by
  have hf : ∀ entry ∈ all.take maxMixerTracks,
      ((openLevel entry.2).map (busOf all (all.take maxMixerTracks) entry)).isSome →
      (openLevel entry.2).map (busOf all (all.take maxMixerTracks) entry) =
        some (busOf all (all.take maxMixerTracks) entry (levelOf entry.2)) := by
    intro entry _ hsome
    rw [Option.isSome_map] at hsome
    obtain ⟨level, hlevel⟩ := Option.isSome_iff_exists.1 hsome
    rw [levelOf, hlevel]
    rfl
  rw [mixerBuses, mapM_eq_map _ _ _ hf]
  simp only [Option.isSome_map]
  split_ifs with hall
  · exact ⟨fun h => ⟨hall, (Option.some.inj h).symm⟩, fun h => congrArg some h.2.symm⟩
  · exact ⟨False.elim, fun h => absurd h.1 hall⟩

end Buses

/-! ### The rendering -/

section Rendering

variable (inserts : MixerTrackId → M × M →+ M × M)

/-- The nodes as a signal meets them. -/
def nodeStages (buses : List Bus) : Stages ℕ (M × M) where
  inserts index := buses[index]?.elim 0 fun bus => inserts bus.trackId
  level index := buses[index]?.elim 0 fun bus => bus.heard.scale

/-- A bus at level zero adds nothing, as one that is summed at level zero. -/
theorem renderBus_eq {buses : List Bus} {index : ℕ} (hindex : index < buses.length)
    (mix : Mix ℕ (M × M)) :
    renderBus inserts buses mix index =
      process (fun a => (buses.map Bus.output).getD a none) (nodeStages inserts buses) mix index := by
  have hget : buses[index]? = some buses[index] := List.getElem?_eq_getElem hindex
  have hnext : (buses.map Bus.output).getD index none = buses[index].output := by
    rw [List.getD_eq_getElem?_getD, List.getElem?_map, hget]
    rfl
  simp only [renderBus, process, nodeStages, hget, hnext, Option.elim_some]
  split_ifs with hgain
  · rw [Level.scale_of_gain_eq_zero hgain]
    cases buses[index].output with
    | none => simp
    | some output => simp
  · cases buses[index].output <;> rfl

theorem foldl_renderBus {buses : List Bus} {order : List ℕ}
    (horder : ∀ index ∈ order, index < buses.length) (mix : Mix ℕ (M × M)) :
    order.foldl (renderBus inserts buses) mix =
      flow (fun a => (buses.map Bus.output).getD a none) (nodeStages inserts buses) mix order := by
  induction order generalizing mix with
  | nil => rfl
  | cons index order ih =>
    rw [List.foldl_cons, flow, List.foldl_cons,
      renderBus_eq inserts (horder index List.mem_cons_self)]
    exact ih (fun a ha => horder a (List.mem_cons_of_mem _ ha)) _

end Rendering

/-! ### Tracks and nodes -/

section Nodes

variable {project : Tables}

/-- The node of a track. -/
def nodeOf (project : Tables) (id : MixerTrackId) : ℕ := project.mixerTracks.keys.idxOf id

theorem findIdx?_fst (tracks : List (MixerTrackId × MixerTrack)) (id : MixerTrackId) :
    (tracks.findIdx? fun other => decide (other.1 = id)) =
      if id ∈ tracks.map Prod.fst then some ((tracks.map Prod.fst).idxOf id) else none := by
  induction tracks with
  | nil => rfl
  | cons entry tracks ih =>
    rw [List.findIdx?_cons, List.map_cons, List.idxOf_cons, ih]
    by_cases hid : entry.1 = id
    · simp [hid]
    · have hid' : ¬id = entry.1 := fun h => hid h.symm
      have hbeq : (entry.1 == id) = false := beq_eq_false_iff_ne.2 hid
      by_cases hmem : id ∈ tracks.map Prod.fst
      · simp [hid, hmem, hbeq]
      · simp [hid, hid', hmem]

theorem getElem?_nodeOf {id : MixerTrackId} {track : MixerTrack}
    (h : project.mixerTracks.get? id = some track) :
    project.mixerTracks.entries[nodeOf project id]? = some (id, track) := by
  have hlt := List.idxOf_lt_length_iff.2 (OrderedMap.mem_keys.2 ⟨track, h⟩)
  have hkey : project.mixerTracks.keys[nodeOf project id]? = some id :=
    (List.getElem?_eq_getElem hlt).trans (congrArg some (List.getElem_idxOf hlt))
  rw [OrderedMap.keys, List.getElem?_map] at hkey
  obtain ⟨⟨id', track'⟩, hentry, rfl⟩ := Option.map_eq_some_iff.1 hkey
  -- the keys are distinct, so the track there is the one the map finds
  have hget := OrderedMap.get?_eq_some_iff.2 (List.mem_of_getElem? hentry)
  rw [hentry, Option.some.inj (h.symm.trans hget)]

theorem getElem?_nodeOf_of_get?_eq_none {id : MixerTrackId}
    (h : project.mixerTracks.get? id = none) :
    project.mixerTracks.entries[nodeOf project id]? = none := by
  have hnot : id ∉ project.mixerTracks.keys := fun hmem => by
    obtain ⟨track, htrack⟩ := OrderedMap.mem_keys.1 hmem
    rw [h] at htrack
    cases htrack
  rw [List.getElem?_eq_none_iff, nodeOf, List.idxOf_eq_length_iff.2 hnot, OrderedMap.keys,
    List.length_map]

theorem exists_nodeOf {index : ℕ} (h : index < project.mixerTracks.entries.length) :
    ∃ id track, project.mixerTracks.get? id = some track ∧ nodeOf project id = index := by
  refine ⟨(project.mixerTracks.entries[index]).1, (project.mixerTracks.entries[index]).2,
    OrderedMap.get?_eq_some_iff.2 (List.getElem_mem h), ?_⟩
  have hnodup : project.mixerTracks.keys.Nodup := project.mixerTracks.sorted.imp ne_of_lt
  have hlt : index < project.mixerTracks.keys.length := by
    rwa [OrderedMap.keys, List.length_map]
  have hkey : project.mixerTracks.keys[index] = (project.mixerTracks.entries[index]).1 := by
    simp [OrderedMap.keys]
  rw [← hkey]
  exact hnodup.idxOf_getElem index hlt

/-- The buses of a mixer that fits. -/
def allBuses (project : Tables) : List Bus :=
  project.mixerTracks.entries.map fun entry =>
    busOf project.mixerTracks.entries project.mixerTracks.entries entry (levelOf entry.2)

/-- The nodes feed each other as the tracks do. -/
theorem getD_output_nodeOf (hproject : project.Consistent) (id : MixerTrackId) :
    ((allBuses project).map Bus.output).getD (nodeOf project id) none =
      (project.outputOf id).map (nodeOf project) := by
  rw [List.getD_eq_getElem?_getD, List.getElem?_map, allBuses, List.getElem?_map]
  cases hget : project.mixerTracks.get? id with
  | none => rw [getElem?_nodeOf_of_get?_eq_none hget, Tables.outputOf, hget]; rfl
  | some track =>
    rw [getElem?_nodeOf hget, Tables.outputOf, hget, Option.bind_some, Option.map_some,
      Option.map_some, Option.getD_some, busOf]
    dsimp only
    cases houtput : track.output with
    | none => rfl
    | some output =>
      obtain ⟨-, other, hother⟩ := hproject.outputs id track hget output houtput
      rw [Option.bind_some, findIdx?_fst, Option.map_some]
      exact if_pos (OrderedMap.mem_keys.2 ⟨other, hother⟩)

/-- Where every level is a number. -/
def Numbers (project : Tables) : Prop :=
  ∀ entry ∈ project.mixerTracks.entries, (openLevel entry.2).isSome

theorem mixerBuses_eq_allBuses (hsize : project.mixerTracks.size ≤ maxMixerTracks)
    (hnumbers : Numbers project) :
    mixerBuses project.mixerTracks.entries = some (allBuses project) := by
  have htake : project.mixerTracks.entries.take maxMixerTracks = project.mixerTracks.entries :=
    List.take_of_length_le hsize
  rw [mixerBuses_eq_some_iff, htake]
  exact ⟨hnumbers, rfl⟩

omit [Module ℚ M] in
theorem ownBuses_update {id : MixerTrackId} {track : MixerTrack}
    (h : project.mixerTracks.get? id = some track) (own : MixerTrackId → M × M) (x : M × M) :
    ownBuses (Function.update own id x) (allBuses project) =
      Function.update (ownBuses own (allBuses project)) (nodeOf project id) x := by
  funext index
  by_cases hindex : index = nodeOf project id
  · subst hindex
    rw [Function.update_self, ownBuses, allBuses, List.getElem?_map, getElem?_nodeOf h]
    exact Function.update_self id x own
  · rw [Function.update_of_ne hindex, ownBuses, ownBuses, allBuses, List.getElem?_map]
    by_cases hlt : index < project.mixerTracks.entries.length
    · -- another node is another track's
      obtain ⟨other, track', hother, rfl⟩ := exists_nodeOf hlt
      rw [getElem?_nodeOf hother]
      have hne : other ≠ id := fun heq => hindex (congrArg (nodeOf project) heq)
      exact Function.update_of_ne hne x own
    · rw [List.getElem?_eq_none (Nat.le_of_not_lt hlt)]
      rfl

omit [Module ℚ M] in
theorem ownBuses_nodeOf {id : MixerTrackId} {track : MixerTrack}
    (h : project.mixerTracks.get? id = some track) (own : MixerTrackId → M × M) :
    ownBuses own (allBuses project) (nodeOf project id) = own id := by
  rw [ownBuses, allBuses, List.getElem?_map, getElem?_nodeOf h]
  rfl

theorem length_outputs_allBuses : ((allBuses project).map Bus.output).length =
    project.mixerTracks.entries.length := by
  rw [List.length_map, allBuses, List.length_map]

theorem getD_output_of_not_lt {index : ℕ} (h : ¬index < project.mixerTracks.entries.length) :
    ((allBuses project).map Bus.output).getD index none = none := by
  rw [List.getD_eq_getElem?_getD,
    List.getElem?_eq_none (by rw [length_outputs_allBuses]; omega)]
  rfl

/-- Every walk along the outputs of the buses ends, as it does along those of the tracks. -/
theorem ends_allBuses (hproject : project.Consistent) (index : ℕ) :
    Ends (fun a => ((allBuses project).map Bus.output).getD a none) index := by
  by_cases hlt : index < project.mixerTracks.entries.length
  · obtain ⟨id, track, -, rfl⟩ := exists_nodeOf hlt
    exact ends_map (getD_output_nodeOf hproject) (hproject.ends id)
  · exact .stop (getD_output_of_not_lt hlt)

theorem lt_of_output_allBuses (hproject : project.Consistent) (a b : ℕ)
    (hb : ((allBuses project).map Bus.output).getD a none = some b) :
    b < ((allBuses project).map Bus.output).length := by
  rw [length_outputs_allBuses]
  by_cases hlt : a < project.mixerTracks.entries.length
  · obtain ⟨id, track, htrack, rfl⟩ := exists_nodeOf hlt
    rw [getD_output_nodeOf hproject] at hb
    obtain ⟨output, houtput, rfl⟩ := Option.map_eq_some_iff.1 hb
    obtain ⟨track', htrack', hout⟩ := Tables.outputOf_eq_some_iff.1 houtput
    obtain ⟨-, other, hother⟩ := hproject.outputs id track' htrack' output hout
    exact (List.getElem?_eq_some_iff.1 (getElem?_nodeOf hother)).1
  · rw [getD_output_of_not_lt hlt] at hb
    cases hb

/-- The master feeds none. -/
theorem any_isNone_allBuses (hproject : project.Consistent) :
    ((allBuses project).map Bus.output).any Option.isNone = true := by
  obtain ⟨id, hid⟩ := List.exists_mem_of_length_pos
    (hproject.oneMaster ▸ Nat.one_pos : 0 < project.masters.length)
  obtain ⟨track, htrack, houtput⟩ := OrderedMap.mem_keysWhere.1 hid
  have hnone : project.outputOf id = none := by
    rw [Tables.outputOf, htrack]
    exact Option.isNone_iff_eq_none.1 houtput
  have hlt := (List.getElem?_eq_some_iff.1 (getElem?_nodeOf htrack)).1
  have hnext := getD_output_nodeOf hproject id
  rw [hnone, List.getD_eq_getElem?_getD,
    List.getElem?_eq_getElem (by rw [length_outputs_allBuses]; exact hlt)] at hnext
  exact List.any_eq_true.2 ⟨_, List.getElem_mem _, Option.isNone_iff_eq_none.2 hnext⟩

/-- In a consistent project the graph is not refused. -/
theorem exists_order (hproject : project.Consistent)
    (hsize : project.mixerTracks.size ≤ maxMixerTracks) (hnumbers : Numbers project)
    (inserts : MixerTrackId → M × M →+ M × M) :
    ∃ order, InOrder (fun a => ((allBuses project).map Bus.output).getD a none) order ∧
      (∀ index, index ∈ order ↔ index < project.mixerTracks.entries.length) ∧
      (∀ index, Ends (fun a => ((allBuses project).map Bus.output).getD a none) index) ∧
      ∀ own, deviceOutput project inserts own =
        some (flow (fun a => ((allBuses project).map Bus.output).getD a none)
          (nodeStages inserts (allBuses project)) ⟨ownBuses own (allBuses project), 0⟩
            order).device := by
  obtain ⟨order, horder, hinorder, hmem⟩ :=
    renderOrder_spec (lt_of_output_allBuses hproject) (ends_allBuses hproject)
  rw [length_outputs_allBuses] at hmem
  refine ⟨order, hinorder, hmem, ends_allBuses hproject, fun own => ?_⟩
  rw [deviceOutput, mixerBuses_eq_allBuses hsize hnumbers, Option.bind_some,
    if_pos (any_isNone_allBuses hproject), horder, Option.map_some,
    foldl_renderBus inserts fun index hindex => ?_]
  rw [allBuses, List.length_map]
  exact (hmem index).1 hindex

end Nodes

/-! ### What is heard -/

section Heard

variable (project : Tables) (inserts : MixerTrackId → M × M →+ M × M)

/-- The tracks at the levels they are set to. -/
def openStages : Stages MixerTrackId (M × M) where
  inserts := inserts
  level id := (project.mixerTracks.get? id).elim 0 fun track => (levelOf track).scale

/-- The tracks at the levels the engine has for them. -/
def heardStages : Stages MixerTrackId (M × M) where
  inserts := inserts
  level id := (project.mixerTracks.get? id).elim 0 fun track =>
    (busOf project.mixerTracks.entries project.mixerTracks.entries (id, track)
      (levelOf track)).heard.scale

/-- A soloed track and its way to the device, on which nothing is muted. -/
structure SoloRoute (id : MixerTrackId) (path : List MixerTrackId) : Prop where
  soloed : ∃ track, project.mixerTracks.get? id = some track ∧ track.soloed = true
  route : Route project.outputOf id path
  unmuted : ∀ b ∈ path, ∀ track, project.mixerTracks.get? b = some track → track.muted = false

/-- What is soloed is heard, at the levels on its way. -/
def SoloAudible : Prop :=
  ∀ id path, SoloRoute project id path → ∀ own x, ∃ device,
    deviceOutput project inserts own = some device ∧
      deviceOutput project inserts (Function.update own id (own id + x)) =
        some (device + (openStages project inserts).along path x)

/-- A track that is not soloed, and not on the way of one that is, either way. -/
structure Apart (id : MixerTrackId) : Prop where
  unsoloed : ∃ track, project.mixerTracks.get? id = some track ∧ track.soloed = false
  upstream : ∀ other track, project.mixerTracks.get? other = some track → track.soloed = true →
    ¬Leads project.outputOf other id
  downstream : ∀ other track, project.mixerTracks.get? other = some track → track.soloed = true →
    ¬Leads project.outputOf id other

/-- While something is soloed, what is apart from it adds nothing of its own. -/
def SoloIsolates : Prop :=
  anySolo project.mixerTracks.entries = true → ∀ id, Apart project id → ∀ own x,
    deviceOutput project inserts (Function.update own id x) = deviceOutput project inserts own

/-- On the way of a soloed track everything is soloed, or nothing gets through at all. -/
def RoutesSoloed : Prop :=
  ∀ id path, SoloRoute project id path → Numbers project ∧
    ((∀ b ∈ path, ∀ track, project.mixerTracks.get? b = some track → track.soloed = true) ∨
      (openStages project inserts).along path = 0)

variable {project inserts}

/-- A way that starts in the mixer stays in it. -/
theorem mem_route (hproject : project.Consistent) {id : MixerTrackId} {path : List MixerTrackId}
    (h : Route project.outputOf id path) (hid : ∃ track, project.mixerTracks.get? id = some track) :
    ∀ b ∈ path, ∃ track, project.mixerTracks.get? b = some track := by
  induction h with
  | last _ => exact fun b hb => List.mem_singleton.1 hb ▸ hid
  | @feeds id output path hnext _ ih =>
    obtain ⟨track, htrack, houtput⟩ := Tables.outputOf_eq_some_iff.1 hnext
    obtain ⟨-, hother⟩ := hproject.outputs id track htrack output houtput
    intro b hb
    rcases List.mem_cons.1 hb with rfl | hb
    · exact hid
    · exact ih hother b hb

theorem stage_nodeOf {id : MixerTrackId} {track : MixerTrack}
    (h : project.mixerTracks.get? id = some track) :
    (nodeStages inserts (allBuses project)).stage (nodeOf project id) =
      (heardStages project inserts).stage id := by
  simp only [Stages.stage, nodeStages, heardStages, allBuses, List.getElem?_map, getElem?_nodeOf h,
    h, Option.map_some, Option.elim_some]
  rfl

theorem along_nodes (hproject : project.Consistent) {id : MixerTrackId}
    (hid : ∃ track, project.mixerTracks.get? id = some track) {path : List MixerTrackId}
    (hpath : Route project.outputOf id path) :
    (nodeStages inserts (allBuses project)).along (path.map (nodeOf project)) =
      (heardStages project inserts).along path :=
  Stages.along_map fun b hb => by
    obtain ⟨track, htrack⟩ := mem_route hproject hpath hid b hb
    exact stage_nodeOf htrack

variable (inserts) in
/-- **What a track has of its own comes out carried along its way, as the engine hears it.** -/
theorem exists_deviceOutput (hproject : project.Consistent)
    (hsize : project.mixerTracks.size ≤ maxMixerTracks) (hnumbers : Numbers project)
    {id : MixerTrackId} (hid : ∃ track, project.mixerTracks.get? id = some track)
    {path : List MixerTrackId} (hpath : Route project.outputOf id path) (own : MixerTrackId → M × M)
    (x : M × M) : ∃ device, deviceOutput project inserts own = some device ∧
      deviceOutput project inserts (Function.update own id (own id + x)) =
        some (device + (heardStages project inserts).along path x) := by
  obtain ⟨order, hinorder, hmem, hends, hdevice⟩ := exists_order hproject hsize hnumbers inserts
  obtain ⟨track, htrack⟩ := hid
  have hnode : nodeOf project id ∈ order :=
    (hmem _).2 (List.getElem?_eq_some_iff.1 (getElem?_nodeOf htrack)).1
  refine ⟨_, hdevice own, ?_⟩
  rw [hdevice, ownBuses_update htrack, ← ownBuses_nodeOf htrack own,
    device_flow_add hinorder (fun a _ => hends a) hnode
      (hpath.map (getD_output_nodeOf hproject)), along_nodes hproject ⟨track, htrack⟩ hpath]

/-- The nodes are the tracks, in another order. -/
theorem perm_nodes {order : List ℕ} (hnodup : order.Nodup)
    (hmem : ∀ index, index ∈ order ↔ index < project.mixerTracks.entries.length) :
    order.Perm (project.mixerTracks.keys.map (nodeOf project)) := by
  have hkeys : project.mixerTracks.keys.Nodup := project.mixerTracks.sorted.imp ne_of_lt
  refine (List.perm_ext_iff_of_nodup hnodup
    (hkeys.map_on fun id hid _ _ h => (List.idxOf_inj hid).1 h)).2 fun index => ?_
  rw [hmem, List.mem_map]
  constructor
  · intro hlt
    obtain ⟨id, track, htrack, rfl⟩ := exists_nodeOf hlt
    exact ⟨id, OrderedMap.mem_keys.2 ⟨track, htrack⟩, rfl⟩
  · rintro ⟨id, hid, rfl⟩
    obtain ⟨track, htrack⟩ := OrderedMap.mem_keys.1 hid
    exact (List.getElem?_eq_some_iff.1 (getElem?_nodeOf htrack)).1

/-- **The device gets every track's own signal, carried along its way**, each once; the buses in
place and the order of the graph cannot be heard. -/
theorem deviceOutput_eq_sum (project : Tables) (inserts : MixerTrackId → M × M →+ M × M)
    (own : MixerTrackId → M × M)
    (hproject : project.checkReferentialIntegrity = [])
    (hsize : project.mixerTracks.size ≤ maxMixerTracks) (hnumbers : Numbers project) :
    ∃ routes : MixerTrackId → List MixerTrackId, (∀ id, Route project.outputOf id (routes id)) ∧
      deviceOutput project inserts own = some (project.mixerTracks.keys.map fun id =>
        (heardStages project inserts).along (routes id) (own id)).sum := by
  have hproject := Tables.checkReferentialIntegrity_eq_nil_iff.1 hproject
  obtain ⟨order, hinorder, hmem, hends, hdevice⟩ := exists_order hproject hsize hnumbers inserts
  choose routes hroutes using fun id => exists_route (hproject.ends id)
  choose paths hpaths using fun index => exists_route (hends index)
  refine ⟨routes, hroutes, (hdevice own).trans (congrArg some ?_)⟩
  rw [device_flow hinorder fun index _ => hpaths index, zero_add,
    ((perm_nodes hinorder.nodup hmem).map _).sum_eq, List.map_map]
  refine congrArg List.sum (List.map_congr_left fun id hid => ?_)
  obtain ⟨track, htrack⟩ := OrderedMap.mem_keys.1 hid
  rw [Function.comp_apply, (hpaths _).unique ((hroutes id).map (getD_output_nodeOf hproject)),
    along_nodes hproject ⟨track, htrack⟩ (hroutes id)]
  exact congrArg _ (ownBuses_nodeOf htrack own)

/-- A track that is not soloed is silent while another is. -/
theorem level_eq_zero (hsolo : anySolo project.mixerTracks.entries = true) {id : MixerTrackId}
    {track : MixerTrack} (htrack : project.mixerTracks.get? id = some track)
    (hunsoloed : track.soloed = false) : (heardStages project inserts).level id = 0 := by
  have hgated : gated project.mixerTracks.entries track = true := by
    rw [gated, hsolo, hunsoloed]
    simp
  simp only [heardStages, htrack, Option.elim_some]
  exact Level.scale_of_gain_eq_zero (by simp [Bus.heard, busOf, hgated])

theorem anySolo_of_soloed {id : MixerTrackId} {track : MixerTrack}
    (htrack : project.mixerTracks.get? id = some track) (hsoloed : track.soloed = true) :
    anySolo project.mixerTracks.entries = true :=
  List.any_eq_true.2 ⟨(id, track), OrderedMap.get?_eq_some_iff.1 htrack, hsoloed⟩

/-- Where everything on the way is soloed, the engine hears the levels that are set. -/
theorem along_eq_of_soloed {id : MixerTrackId} {path : List MixerTrackId}
    (h : SoloRoute project id path)
    (hsoloed : ∀ b ∈ path, ∀ track, project.mixerTracks.get? b = some track →
      track.soloed = true) :
    (heardStages project inserts).along path = (openStages project inserts).along path := by
  refine (congrArg _ path.map_id.symm).trans (Stages.along_map fun b hb => ?_)
  have hlevel : (heardStages project inserts).level b = (openStages project inserts).level b := by
    simp only [heardStages, openStages]
    cases htrack : project.mixerTracks.get? b with
    | none => rfl
    | some track =>
      have hgated : gated project.mixerTracks.entries track = false := by
        rw [gated, h.unmuted b hb track htrack, hsoloed b hb track htrack]
        simp
      simp [Bus.heard, busOf, hgated]
  rw [id_eq, Stages.stage, Stages.stage, hlevel]
  rfl

/-- Where something on the way is not, it hears nothing. -/
theorem along_eq_zero_of_unsoloed {id : MixerTrackId} {path : List MixerTrackId}
    (h : SoloRoute project id path)
    (hunsoloed : ¬∀ b ∈ path, ∀ track, project.mixerTracks.get? b = some track →
      track.soloed = true) :
    (heardStages project inserts).along path = 0 := by
  push Not at hunsoloed
  obtain ⟨b, hb, track, htrack, hsoloed⟩ := hunsoloed
  obtain ⟨track', htrack', hsoloed'⟩ := h.soloed
  exact Stages.along_eq_zero hb (level_eq_zero (anySolo_of_soloed htrack' hsoloed') htrack
    (Bool.eq_false_iff.2 hsoloed))

theorem numbers_of_deviceOutput (hsize : project.mixerTracks.size ≤ maxMixerTracks)
    {own : MixerTrackId → M × M} {device : M × M}
    (h : deviceOutput project inserts own = some device) : Numbers project := by
  obtain ⟨buses, hbuses, -⟩ := Option.bind_eq_some_iff.1 h
  have hnumbers := (mixerBuses_eq_some_iff.1 hbuses).1
  rwa [List.take_of_length_le hsize] at hnumbers

/-- Solo keeps silent what it should, whatever the routing. -/
theorem isolates (hproject : project.Consistent)
    (hsize : project.mixerTracks.size ≤ maxMixerTracks) : SoloIsolates project inserts := by
  intro hsolo id hid own x
  obtain ⟨track, htrack, hunsoloed⟩ := hid.unsoloed
  by_cases hnumbers : Numbers project
  · obtain ⟨path, hpath⟩ := exists_route (hproject.ends id)
    have hmem : id ∈ path := by cases hpath <;> exact List.mem_cons_self
    obtain ⟨device, hdevice, hadded⟩ := exists_deviceOutput inserts hproject hsize
      hnumbers ⟨track, htrack⟩ hpath own (x - own id)
    rw [Stages.along_eq_zero hmem (level_eq_zero hsolo htrack hunsoloed), AddMonoidHom.zero_apply,
      add_zero, add_sub_cancel] at hadded
    rw [hadded, hdevice]
  · -- nothing is heard at all
    have hnone : ∀ own, deviceOutput project inserts own = none := fun own =>
      Option.eq_none_iff_forall_ne_some.2 fun device hdevice =>
        hnumbers (numbers_of_deviceOutput hsize hdevice)
    rw [hnone, hnone]

theorem audible_iff (hproject : project.Consistent)
    (hsize : project.mixerTracks.size ≤ maxMixerTracks) :
    SoloAudible project inserts ↔ RoutesSoloed project inserts := by
  constructor
  · intro h id path hroute
    have hid : ∃ track, project.mixerTracks.get? id = some track := by
      obtain ⟨track, htrack, -⟩ := hroute.soloed
      exact ⟨track, htrack⟩
    have hnumbers : Numbers project := by
      obtain ⟨device, hdevice, -⟩ := h id path hroute 0 0
      exact numbers_of_deviceOutput hsize hdevice
    refine ⟨hnumbers, or_iff_not_imp_left.2 fun hunsoloed => AddMonoidHom.ext fun x => ?_⟩
    -- what is heard is what should be, and it is nothing
    obtain ⟨device, hdevice, hadded⟩ := h id path hroute 0 x
    obtain ⟨device', hdevice', hheard⟩ := exists_deviceOutput inserts hproject hsize
      hnumbers hid hroute.route 0 x
    obtain rfl := Option.some.inj (hdevice.symm.trans hdevice')
    have heq := add_left_cancel (Option.some.inj (hadded.symm.trans hheard))
    rw [heq, along_eq_zero_of_unsoloed hroute hunsoloed]
  · intro h id path hroute own x
    have hid : ∃ track, project.mixerTracks.get? id = some track := by
      obtain ⟨track, htrack, -⟩ := hroute.soloed
      exact ⟨track, htrack⟩
    obtain ⟨hnumbers, hopen⟩ := h id path hroute
    obtain ⟨device, hdevice, hadded⟩ := exists_deviceOutput inserts hproject hsize
      hnumbers hid hroute.route own x
    refine ⟨device, hdevice, ?_⟩
    rw [hadded]
    by_cases hsoloed : ∀ b ∈ path, ∀ track, project.mixerTracks.get? b = some track →
        track.soloed = true
    · rw [along_eq_of_soloed hroute hsoloed]
    · rw [along_eq_zero_of_unsoloed hroute hsoloed, hopen.resolve_left hsoloed]

/-- **Solo is right exactly where the way of what is soloed is soloed as well.** -/
theorem soloed_iff (project : Tables) (inserts : MixerTrackId → M × M →+ M × M)
    (hproject : project.checkReferentialIntegrity = [])
    (hsize : project.mixerTracks.size ≤ maxMixerTracks) :
    SoloAudible project inserts ∧ SoloIsolates project inserts ↔ RoutesSoloed project inserts := by
  have hproject := Tables.checkReferentialIntegrity_eq_nil_iff.1 hproject
  rw [and_iff_left (isolates hproject hsize)]
  exact audible_iff hproject hsize

end Heard

/-- A soloed track that feeds the master. -/
def soloedDrums (masterSoloed : Bool) : Tables :=
  { newProject ⟨1⟩ with
    mixerTracks := (OrderedMap.empty.assign ⟨1⟩ { name := "Master", soloed := masterSoloed }).assign
      ⟨2⟩ { name := "Drums", output := some ⟨1⟩, soloed := true } }

/-- With the master soloed as well, the drums are heard. -/
theorem soloed_iff_drums :
    ((soloedDrums true).checkReferentialIntegrity = [] ∧
      (soloedDrums true).mixerTracks.size ≤ maxMixerTracks) ∧
      (SoloAudible (soloedDrums true) (fun _ => AddMonoidHom.id (ℚ × ℚ)) ∧
          SoloIsolates (soloedDrums true) (fun _ => AddMonoidHom.id (ℚ × ℚ)) ↔
        RoutesSoloed (soloedDrums true) fun _ => AddMonoidHom.id (ℚ × ℚ)) :=
  ⟨⟨by decide +kernel, by decide +kernel⟩,
    soloed_iff _ _ (by decide +kernel) (by decide +kernel)⟩

theorem deviceOutput_eq_sum_drums :
    ∃ routes : MixerTrackId → List MixerTrackId, (∀ id, Route (soloedDrums true).outputOf id (routes id)) ∧
      deviceOutput (soloedDrums true) (fun _ => AddMonoidHom.id (ℚ × ℚ)) (fun _ => (1, 1)) =
        some ((soloedDrums true).mixerTracks.keys.map fun id =>
          (heardStages (soloedDrums true) fun _ => AddMonoidHom.id (ℚ × ℚ)).along (routes id)
            (1, 1)).sum :=
  deviceOutput_eq_sum _ _ _ (by decide +kernel) (by decide +kernel) (by unfold Numbers; decide +kernel)

theorem soloRoute_drums (masterSoloed : Bool) :
    SoloRoute (soloedDrums masterSoloed) ⟨2⟩ [⟨2⟩, ⟨1⟩] where
  soloed := ⟨{ name := "Drums", output := some ⟨1⟩, soloed := true }, by cases masterSoloed <;> rfl, rfl⟩
  route := .feeds (by cases masterSoloed <;> rfl) (.last (by cases masterSoloed <;> rfl))
  unmuted b hb track htrack := by
    rcases List.mem_cons.1 hb with rfl | hb
    · cases masterSoloed <;> cases htrack <;> rfl
    · obtain rfl := List.mem_singleton.1 hb
      cases masterSoloed <;> cases htrack <;> rfl

/-- **Soloed drums are silent**: the master is not soloed, and gates them. -/
theorem not_soloAudible_drums :
    (soloedDrums false).checkReferentialIntegrity = [] ∧
      ¬SoloAudible (soloedDrums false) fun _ => AddMonoidHom.id (ℚ × ℚ) := by
  refine ⟨by decide +kernel, fun haudible => ?_⟩
  have hsoloed := (audible_iff (Tables.checkReferentialIntegrity_eq_nil_iff.1
    (by decide +kernel : (soloedDrums false).checkReferentialIntegrity = []))
    (by decide +kernel)).1 haudible ⟨2⟩ _ (soloRoute_drums false)
  rcases hsoloed.2 with hall | hzero
  · have := hall ⟨1⟩ (by decide) { name := "Master" } rfl
    cases this
  · -- at the default levels a signal gets through
    have hone := DFunLike.congr_fun hzero ((1, 1) : ℚ × ℚ)
    revert hone
    decide +kernel

end Solo

end OneBeat
