import OneBeat.Lib.ReflectedWalk
import OneBeat.Lib.RunningExtremes
import OneBeat.Lib.SortedLists
import OneBeat.Session.Calls

/-!
# Dragging clips

The playlist's side of a drag: `PlaylistStore` of `playlist_store.dart`.  The store begins with the
lane of every selected clip, sends each clip by the step from the last offset, and adds the lanes it
needs.  What it shows is the project of the engine, which it reads again after every edit.

**Main theorem** (`rigid_iff`): a drag ends where its last offsets alone take it, with the clips as
far apart as they began, exactly when its offsets let it (`TicksFit`, `LanesFit`): no clip is asked to
go before the first tick or above the first lane, unless all of the selection begins together.
-/

namespace OneBeat

open Session (orderedLanes)

/-! ### The engine's side -/

namespace Tables

/-- `readLanes`. -/
def laneIds (project : Tables) : List ArrangementLaneId := (orderedLanes project).map Prod.fst

/-- `createLane`, under the id that is minted. -/
def createLane (project : Tables) (minted : ArrangementLaneId) : Option Tables :=
  let applied := (addLane project minted ("Track " ++ toString (project.lanes.size + 1))).apply project
  if applied.ok then some applied.state else none

/-- `ob_engine_clip_move`; no lane is the clip's own. -/
def clipMove (project : Tables) (id : ClipId) (lane : Option ArrangementLaneId) (start : ℤ) :
    Option Tables :=
  if start < 0 ∨ (lane.any fun lane => !project.lanes.contains lane) then none
  else (editClip project id .start fun clip => { clip with start, lane := lane.getD clip.lane }).bind
    fun command =>
      let applied := command.apply project
      if applied.ok then some applied.state else none

end Tables

/-- A clip at another place. -/
def Clip.placed (lane : Option ArrangementLaneId) (start : ℤ) (clip : Clip) : Clip :=
  { clip with start, lane := lane.getD clip.lane }

/-! ### The store's side -/

/-- The state of the store that a drag is about. -/
structure PlaylistStore where
  project : Tables
  selectedClipIds : List ClipId := []
  /-- A move is being dragged. -/
  moving : Bool := false
  dragDelta : ℤ := 0
  dragLaneId : Option ArrangementLaneId := none
  dragLaneDelta : Option ℤ := none
  dragLaneIndexes : List (ClipId × ℕ) := []

/-- The arguments of `updateClipMove`, and the ids of the lanes that are added for it. -/
structure ClipMove where
  deltaTicks : ℤ
  laneId : Option ArrangementLaneId := none
  laneDelta : Option ℤ := none
  minted : List ArrangementLaneId := []

namespace PlaylistStore

variable (store : PlaylistStore)

def clipById (id : ClipId) : Option Clip := store.project.clips.get? id

/-- `_laneIndex`; a lane that is not there counts as the first. -/
def laneIndex (lane : ArrangementLaneId) : ℕ := (store.project.laneIds.idxOf? lane).getD 0

def beginClipDrag : PlaylistStore :=
  if store.selectedClipIds = [] then store
  else { store with
    moving := true
    dragDelta := 0
    dragLaneId := none
    dragLaneDelta := none
    dragLaneIndexes := store.selectedClipIds.map fun id =>
      (id, ((store.clipById id).map fun clip => store.laneIndex clip.lane).getD 0) }

/-- The lowest lane a drag needs; none is above the first. -/
def highestTarget (laneDelta : ℤ) : ℤ :=
  store.dragLaneIndexes.foldl (fun highest entry => max highest (entry.2 + laneDelta)) 0

/-- Add lanes until the lowest one is there. -/
def addLanes (move : ClipMove) : Option Tables :=
  match move.laneDelta with
  | none => some store.project
  | some laneDelta =>
    let missing := (store.highestTarget laneDelta + 1).toNat - store.project.laneIds.length
    if move.minted.length = missing then move.minted.foldlM Tables.createLane store.project else none

/-- The lane a clip is sent to. -/
def targetLane (move : ClipMove) (id : ClipId) (clip : Clip) : Option ArrangementLaneId :=
  match move.laneDelta with
  | none => move.laneId
  | some laneDelta =>
    let initialLane := (Entries.get? store.dragLaneIndexes id).getD (store.laneIndex clip.lane)
    let lanes := store.project.laneIds
    lanes[(max 0 (min (initialLane + laneDelta) (lanes.length - 1))).toNat]?

/-- Send the selected clips that are there, one after another. -/
def moveClips (move : ClipMove) : Option Tables :=
  store.selectedClipIds.foldlM (fun project id =>
    match store.clipById id with
    | none => some project
    | some clip => project.clipMove id (store.targetLane move id clip)
        (max 0 (clip.start + (move.deltaTicks - store.dragDelta)))) store.project

def refresh : PlaylistStore :=
  { store with
    selectedClipIds := store.selectedClipIds.filter fun id => store.project.clips.contains id }

/-- It throws when the engine refuses a lane or a clip. -/
def updateClipMove (move : ClipMove) : Option PlaylistStore :=
  if !store.moving then some store
  else if move.deltaTicks = store.dragDelta ∧ move.laneId = store.dragLaneId ∧
      move.laneDelta = store.dragLaneDelta then some store
  else
    (store.addLanes move).bind fun project =>
      let store := { store with project }
      (store.moveClips move).map fun project =>
        { store with
          project
          dragDelta := move.deltaTicks
          dragLaneId := move.laneId
          dragLaneDelta := move.laneDelta }.refresh

/-- A drag of the selection up to here. -/
def drag (moves : List ClipMove) : Option PlaylistStore :=
  moves.foldlM updateClipMove store.beginClipDrag

/-! ### What the engine does -/

end PlaylistStore

namespace Tables

variable {project project' : Tables} {minted : ArrangementLaneId}

/-- A value above all others is sorted to the end. -/
theorem insertionSort_assign {α β : Type*} [LinearOrder α] (order : β → ℤ) (value : β) {key : α}
    {l : List (α × β)} (hnew : key ∉ l.map Prod.fst) (hlast : ∀ e ∈ l, order e.2 < order value) :
    (Entries.assign l key value).insertionSort (fun a b => order a.2 ≤ order b.2) =
      l.insertionSort (fun a b => order a.2 ≤ order b.2) ++ [(key, value)] := by
  induction l with
  | nil => rfl
  | cons e l ih =>
    obtain ⟨k, v⟩ := e
    simp only [List.map_cons, List.mem_cons, not_or] at hnew
    have hv : order v < order value := hlast _ List.mem_cons_self
    have hl : ∀ e ∈ l, order e.2 < order value := fun e he => hlast e (List.mem_cons_of_mem _ he)
    rw [Entries.assign]
    split_ifs with hlt heq
    · rw [List.insertionSort_cons, orderedInsert_of_forall_not]
      intro e he
      rw [List.mem_insertionSort] at he
      exact not_le.2 (hlast e he)
    · exact absurd heq hnew.1
    · rw [List.insertionSort_cons, ih hnew.2 hl, List.insertionSort_cons]
      exact orderedInsert_concat (r := fun a b : α × β => order a.2 ≤ order b.2) hv.le _

theorem mem_laneIds {lane : ArrangementLaneId} :
    lane ∈ project.laneIds ↔ project.lanes.contains lane = true := by
  rw [laneIds, List.mem_map, OrderedMap.contains_eq_true_iff]
  constructor
  · rintro ⟨⟨_, value⟩, hentry, rfl⟩
    exact ⟨value, OrderedMap.get?_eq_some_iff.2 ((List.mem_insertionSort _).1 hentry)⟩
  · rintro ⟨value, hvalue⟩
    exact ⟨(lane, value), (List.mem_insertionSort _).2 (OrderedMap.get?_eq_some_iff.1 hvalue), rfl⟩

theorem createLane_eq_some_iff : project.createLane minted = some project' ↔
    (minted.valid = true ∧ minted ∉ project.laneIds) ∧
      project' = { project with
        lanes := project.lanes.assign minted
          { name := "Track " ++ toString (project.lanes.size + 1),
            order := nextOrder (project.lanes.entries.map fun entry => entry.2.order) } } := by
  rw [mem_laneIds, createLane]
  simp only [addLane, Command.apply, AddedEntity.apply, AddedEntity.restore, restoreLane]
  by_cases h : minted.valid = true ∧ ¬project.lanes.contains minted = true
  · simp [h.1, Bool.eq_false_iff.2 h.2, Outcome.ofOption, Outcome.map, eq_comm]
  · have hrefused : (!minted.valid || project.lanes.contains minted) = true := by
      rw [Bool.or_eq_true, Bool.not_eq_true']
      by_cases hvalid : minted.valid = true
      · exact .inr (by_contra fun hnew => h ⟨hvalid, hnew⟩)
      · exact .inl (Bool.eq_false_iff.2 hvalid)
    rw [if_pos hrefused]
    simp only [Outcome.ofOption, Outcome.map, Bool.false_eq_true, if_false, reduceCtorEq, h,
      false_and]

/-- A new lane is the last one. -/
theorem laneIds_createLane (h : project.createLane minted = some project') :
    project'.laneIds = project.laneIds ++ [minted] := by
  obtain ⟨⟨-, hnew⟩, rfl⟩ := createLane_eq_some_iff.1 h
  have hkey : minted ∉ project.lanes.keys := by
    rwa [OrderedMap.mem_keys, ← OrderedMap.contains_eq_true_iff, ← mem_laneIds]
  have hsorted := insertionSort_assign ArrangementLane.order
    { name := "Track " ++ toString (project.lanes.size + 1), order := nextOrder _ } hkey
    fun entry hentry => lt_nextOrder (List.mem_map_of_mem (f := fun entry => entry.2.order) hentry)
  exact (congrArg (List.map Prod.fst) hsorted).trans (List.map_append ..)

theorem clipMove_eq {id : ClipId} {clip : Clip} {lane : Option ArrangementLaneId} {start : ℤ}
    (hclip : project.clips.get? id = some clip) (hstart : 0 ≤ start) :
    project.clipMove id lane start =
      if ∀ lane' ∈ lane, lane' ∈ project.laneIds then
        some { project with clips := project.clips.modify id (Clip.placed lane start) }
      else none := by
  have hrefuses : (lane.any fun lane => !project.lanes.contains lane) = true ↔
      ¬∀ lane' ∈ lane, lane' ∈ project.laneIds := by
    cases lane with
    | none => simp
    | some lane => simp [mem_laneIds, -OrderedMap.contains_eq_true_iff]
  rw [clipMove]
  split_ifs with h₁ h₂ h₂
  · exact absurd h₂ (hrefuses.1 (h₁.resolve_left (not_lt.2 hstart)))
  · rfl
  · have hmodify : project.clips.modify id (fun _ => Clip.placed lane start clip) =
        project.clips.modify id (Clip.placed lane start) := by
      refine OrderedMap.ext_get? fun k => ?_
      rw [OrderedMap.get?_modify, OrderedMap.get?_modify]
      split_ifs with hk
      · rw [hk, hclip]; rfl
      · rfl
    rw [← hmodify]
    simp [editClip, hclip, Command.apply, EditCommand.apply, EditTarget.write, updateClip,
      OrderedMap.contains, Outcome.ofOption, Outcome.map, Clip.placed]
  · exact absurd (.inr (hrefuses.2 h₂)) h₁

theorem nodup_laneIds (project : Tables) : project.laneIds.Nodup := by
  have hperm : (orderedLanes project).Perm project.lanes.entries := List.perm_insertionSort ..
  refine (hperm.map Prod.fst).nodup_iff.2 ?_
  exact List.Pairwise.imp (fun h => ne_of_lt h) project.lanes.sorted

end Tables

namespace PlaylistStore

variable {store now next final : PlaylistStore}
  {move last : ClipMove} {moves : List ClipMove} {id : ClipId} {clip : Clip}

/-- A clip of the selection. -/
def Selected (store : PlaylistStore) (id : ClipId) (clip : Clip) : Prop :=
  id ∈ store.selectedClipIds ∧ store.clipById id = some clip

/-! ### Lanes -/

theorem laneIndex_getElem {k : ℕ} (h : k < store.project.laneIds.length) :
    store.laneIndex (store.project.laneIds[k]) = k := by
  rw [laneIndex, List.idxOf?_eq_some_iff.2 ⟨h, rfl, ?_⟩]
  · rfl
  · intro j hj
    have hj' := hj.trans h
    have hinj : store.project.laneIds[j] = store.project.laneIds[k] ↔ j = k :=
      (Tables.nodup_laneIds store.project).getElem_inj_iff
    simp [hinj, hj.ne]

theorem exists_of_mem_laneIds {lane : ArrangementLaneId} (h : lane ∈ store.project.laneIds) :
    ∃ k, ∃ hk : k < store.project.laneIds.length,
      store.project.laneIds[k] = lane ∧ store.laneIndex lane = k := by
  obtain ⟨k, hk, rfl⟩ := List.getElem_of_mem h
  exact ⟨k, hk, rfl, laneIndex_getElem hk⟩

/-- Lanes that are added do not move the others. -/
theorem laneIndex_of_append {lane : ArrangementLaneId} {more : List ArrangementLaneId}
    (hlanes : next.project.laneIds = store.project.laneIds ++ more)
    (h : lane ∈ store.project.laneIds) : next.laneIndex lane = store.laneIndex lane := by
  obtain ⟨k, hk, rfl, hindex⟩ := exists_of_mem_laneIds h
  have hk' : k < next.project.laneIds.length := by
    rw [hlanes, List.length_append]
    exact Nat.lt_add_right _ hk
  have hsame : next.project.laneIds[k] = store.project.laneIds[k] := by
    simp only [hlanes, List.getElem_append_left hk]
  rw [hindex, ← hsame, laneIndex_getElem hk']

theorem laneIndex_inj {lane lane' : ArrangementLaneId} (h : lane ∈ store.project.laneIds)
    (h' : lane' ∈ store.project.laneIds) (heq : store.laneIndex lane = store.laneIndex lane') :
    lane = lane' := by
  obtain ⟨k, hk, rfl, hindex⟩ := exists_of_mem_laneIds h
  obtain ⟨k', hk', rfl, hindex'⟩ := exists_of_mem_laneIds h'
  have hkk : k = k' := by rw [← hindex, heq, hindex']
  subst hkk
  rfl

theorem foldlM_createLane_eq {minted : List ArrangementLaneId} {project project' : Tables}
    (h : minted.foldlM Tables.createLane project = some project') :
    project'.laneIds = project.laneIds ++ minted ∧ project'.clips = project.clips ∧
      ∀ id ∈ minted, id.valid = true := by
  induction minted generalizing project with
  | nil =>
    cases Option.some_inj.1 h
    exact ⟨(List.append_nil _).symm, rfl, by simp⟩
  | cons first minted ih =>
    rw [List.foldlM_cons, Option.bind_eq_bind, Option.bind_eq_some_iff] at h
    obtain ⟨next, hfirst, hrest⟩ := h
    obtain ⟨hlanes, hclips, hvalid⟩ := ih hrest
    obtain ⟨⟨hvalid', -⟩, rfl⟩ := Tables.createLane_eq_some_iff.1 hfirst
    refine ⟨?_, hclips, List.forall_mem_cons.2 ⟨hvalid', hvalid⟩⟩
    rw [hlanes, Tables.laneIds_createLane hfirst, List.append_assoc, List.singleton_append]

theorem exists_foldlM_createLane {minted : List ArrangementLaneId} {project : Tables}
    (hvalid : ∀ id ∈ minted, id.valid = true) (hnodup : (project.laneIds ++ minted).Nodup) :
    ∃ project', minted.foldlM Tables.createLane project = some project' := by
  induction minted generalizing project with
  | nil => exact ⟨project, rfl⟩
  | cons first minted ih =>
    have hnew : first ∉ project.laneIds := by
      intro hmem
      exact (List.nodup_append.1 hnodup).2.2 first hmem first List.mem_cons_self rfl
    obtain ⟨next, hfirst⟩ : ∃ next, project.createLane first = some next :=
      ⟨_, Tables.createLane_eq_some_iff.2 ⟨⟨hvalid first List.mem_cons_self, hnew⟩, rfl⟩⟩
    have hnodup' : (next.laneIds ++ minted).Nodup := by
      rw [Tables.laneIds_createLane hfirst, List.append_assoc]
      exact hnodup
    obtain ⟨project', hrest⟩ := ih (fun id hid => hvalid id (List.mem_cons_of_mem _ hid)) hnodup'
    refine ⟨project', ?_⟩
    rw [List.foldlM_cons, hfirst, Option.bind_eq_bind, Option.bind_some, hrest]

theorem le_highestTarget {began : ℕ} (h : (id, began) ∈ store.dragLaneIndexes) (delta : ℤ) :
    began + delta ≤ store.highestTarget delta ∧ 0 ≤ store.highestTarget delta := by
  have hbounds : 0 ≤ store.highestTarget delta ∧
      ∀ entry ∈ store.dragLaneIndexes, (entry.2 : ℤ) + delta ≤ store.highestTarget delta :=
    le_foldl_max (f := fun entry : ClipId × ℕ => (entry.2 : ℤ) + delta)
  exact ⟨hbounds.2 _ h, hbounds.1⟩

/-- What adding lanes does. -/
theorem addLanes_spec {project : Tables} (h : store.addLanes move = some project) :
    (∃ more, project.laneIds = store.project.laneIds ++ more ∧ ∀ id ∈ more, id.valid = true) ∧
      project.clips = store.project.clips ∧
      ∀ delta ∈ move.laneDelta, store.highestTarget delta < project.laneIds.length := by
  rw [addLanes] at h
  cases hdelta : move.laneDelta with
  | none =>
    rw [hdelta] at h
    cases Option.some_inj.1 h
    exact ⟨⟨[], (List.append_nil _).symm, by simp⟩, rfl, by simp⟩
  | some delta =>
    rw [hdelta] at h
    obtain ⟨hlength, hadded⟩ := Option.ite_none_right_eq_some.1 h
    obtain ⟨hlanes, hclips, hvalid⟩ := foldlM_createLane_eq hadded
    refine ⟨⟨_, hlanes, hvalid⟩, hclips, fun delta' hdelta => ?_⟩
    cases Option.mem_some_iff.1 hdelta
    rw [hlanes, List.length_append, hlength]
    omega

/-! ### One update -/

/-- What a move does to a clip. -/
def sent (store : PlaylistStore) (move : ClipMove) (id : ClipId) : Clip → Clip :=
  match store.clipById id with
  | none => fun clip => clip
  | some clip => Clip.placed (store.targetLane move id clip)
      (max 0 (clip.start + (move.deltaTicks - store.dragDelta)))

theorem sent_sent (store : PlaylistStore) (move : ClipMove) (id : ClipId) (clip : Clip) :
    store.sent move id (store.sent move id clip) = store.sent move id clip := by
  rw [sent]
  cases store.clipById id with
  | none => rfl
  | some clip' => simp only [Clip.placed]; cases store.targetLane move id clip' <;> rfl

/-- Every clip is sent to a lane that is there. -/
def Sendable (store : PlaylistStore) (move : ClipMove) : Prop :=
  ∀ id clip, store.Selected id clip → ∀ lane ∈ store.targetLane move id clip,
    lane ∈ store.project.laneIds

theorem foldlM_clipMove_eq_some_iff {ids : List ClipId} {project project' : Tables}
    (hlanes : project.laneIds = store.project.laneIds)
    (hclips : ∀ id, (project.clips.get? id).isSome = (store.clipById id).isSome) :
    ids.foldlM (fun project id =>
      match store.clipById id with
      | none => some project
      | some clip => project.clipMove id (store.targetLane move id clip)
          (max 0 (clip.start + (move.deltaTicks - store.dragDelta)))) project = some project' ↔
      (∀ id ∈ ids, ∀ clip, store.clipById id = some clip →
        ∀ lane ∈ store.targetLane move id clip, lane ∈ store.project.laneIds) ∧
      project' = { project with
        clips := ids.foldl (fun clips id => clips.modify id (store.sent move id))
          project.clips } := by
  induction ids generalizing project with
  | nil => simp [eq_comm]
  | cons id ids ih =>
    rw [List.foldlM_cons, List.forall_mem_cons, List.foldl_cons]
    cases hclip : store.clipById id with
    | none =>
      have hnone : project.clips.get? id = none := by
        rw [← Option.isNone_iff_eq_none, ← Option.not_isSome, hclips, hclip]; rfl
      rw [OrderedMap.modify_of_get?_eq_none hnone]
      simpa using ih hlanes hclips
    | some clip =>
      obtain ⟨clip', hclip'⟩ := Option.isSome_iff_exists.1
        ((hclips id).trans (congrArg Option.isSome hclip))
      have hsent : store.sent move id = Clip.placed (store.targetLane move id clip)
          (max 0 (clip.start + (move.deltaTicks - store.dragDelta))) := by
        rw [sent, hclip]
      dsimp only
      rw [Tables.clipMove_eq hclip' (le_max_left ..), hlanes, ← hsent]
      split_ifs with hlane
      · have hclips' : ∀ k, ((project.clips.modify id (store.sent move id)).get? k).isSome =
            (store.clipById k).isSome := by
          intro k
          rw [OrderedMap.get?_modify]
          split_ifs with hk
          · rw [hk, Option.isSome_map, hclips]
          · exact hclips k
        have hrest := @ih { project with clips := project.clips.modify id (store.sent move id) }
          hlanes hclips'
        rw [Option.bind_eq_bind, Option.bind_some, hrest]
        refine and_congr_left' ⟨fun h => ⟨fun _ heq => ?_, h⟩, And.right⟩
        exact Option.some_inj.1 heq ▸ hlane
      · simp only [Option.bind_eq_bind, Option.bind_none, reduceCtorEq, Option.some.injEq,
          forall_eq', false_iff, not_and]
        exact fun h => absurd h.1 hlane

/-- **What one update leaves.** -/
theorem moveClips_spec {project : Tables} (h : store.moveClips move = some project) :
    store.Sendable move ∧ project.laneIds = store.project.laneIds ∧
      ∀ id, project.clips.get? id =
        if id ∈ store.selectedClipIds then (store.clipById id).map (store.sent move id)
        else store.clipById id := by
  obtain ⟨hsend, rfl⟩ := (foldlM_clipMove_eq_some_iff rfl fun _ => rfl).1 h
  refine ⟨fun id clip hclip => hsend id hclip.1 clip hclip.2, rfl, fun id => ?_⟩
  have hget := OrderedMap.get?_foldl_modify (m := store.project.clips) (fun id => id)
    (store.sent move) (store.sent move id) (store.sent_sent move id) store.selectedClipIds
    fun e _ he => congrArg (store.sent move) he
  rw [List.map_id'] at hget
  refine hget.trans ?_
  split_ifs <;> rfl

theorem exists_moveClips (h : store.Sendable move) : ∃ project, store.moveClips move = some project :=
  ⟨_, (foldlM_clipMove_eq_some_iff rfl fun _ => rfl).2
    ⟨fun id hid clip hclip => h id clip ⟨hid, hclip⟩, rfl⟩⟩

/-! ### A drag -/

/-- What a move says of lanes. -/
inductive LaneAim
  | keep
  | lane (id : ArrangementLaneId)
  | shift (delta : ℤ)
  deriving DecidableEq

/-- A lane delta counts before a lane. -/
def aim (move : ClipMove) : LaneAim :=
  match move.laneDelta, move.laneId with
  | some delta, _ => .shift delta
  | none, some lane => .lane lane
  | none, none => .keep

theorem aim_eq_keep_iff : aim move = .keep ↔ move.laneDelta = none ∧ move.laneId = none := by
  rw [aim]
  cases move.laneDelta <;> cases move.laneId <;> simp

theorem aim_eq_lane_iff {lane : ArrangementLaneId} :
    aim move = .lane lane ↔ move.laneDelta = none ∧ move.laneId = some lane := by
  rw [aim]
  cases move.laneDelta <;> cases move.laneId <;> simp

theorem aim_eq_shift_iff {delta : ℤ} : aim move = .shift delta ↔ move.laneDelta = some delta := by
  rw [aim]
  cases move.laneDelta <;> cases move.laneId <;> simp

/-- The last thing that was said of lanes. -/
def aimOf (moves : List ClipMove) : LaneAim :=
  moves.foldl (fun before move => if aim move = .keep then before else aim move) .keep

/-- A clip that began on a lane is where it was aimed at. -/
def Meets (store : PlaylistStore) (began : ℕ) (lane : ArrangementLaneId) : LaneAim → Prop
  | .keep => store.laneIndex lane = began
  | .lane id => lane = id
  | .shift delta => (store.laneIndex lane : ℤ) = max 0 (began + delta)

theorem aimOf_concat (moves : List ClipMove) (move : ClipMove) :
    aimOf (moves ++ [move]) = if aim move = .keep then aimOf moves else aim move := by
  rw [aimOf, List.foldl_append]
  rfl

/-- Saying it again says nothing new. -/
theorem aimOf_concat_last (h : aim move = aim (moves.getLastD { deltaTicks := 0 })) :
    aimOf (moves ++ [move]) = aimOf moves := by
  rw [aimOf_concat]
  split_ifs with hkeep
  · rfl
  · rcases List.eq_nil_or_concat moves with rfl | ⟨before, final, rfl⟩
    · exact absurd h hkeep
    · rw [List.concat_eq_append, List.getLastD_concat] at h
      rw [List.concat_eq_append, aimOf_concat, ← h, if_neg (h ▸ hkeep)]

/-- The state of the store within a drag. -/
structure Dragged (start : PlaylistStore) (moves : List ClipMove) (now : PlaylistStore) : Prop where
  moving : now.moving = true
  delta : now.dragDelta = (moves.getLastD { deltaTicks := 0 }).deltaTicks
  laneId : now.dragLaneId = (moves.getLastD { deltaTicks := 0 }).laneId
  laneDelta : now.dragLaneDelta = (moves.getLastD { deltaTicks := 0 }).laneDelta
  selected : ∀ id clip, start.clipById id = some clip →
    (id ∈ now.selectedClipIds ↔ id ∈ start.selectedClipIds)
  indexes : now.dragLaneIndexes = start.beginClipDrag.dragLaneIndexes
  lanes : ∃ more, now.project.laneIds = start.project.laneIds ++ more ∧ ∀ id ∈ more, id.valid = true
  /-- There are lanes for the last offset. -/
  enough : ∀ delta ∈ now.dragLaneDelta, now.highestTarget delta < now.project.laneIds.length
  /-- No clip comes, and none goes. -/
  clips : ∀ id, (now.clipById id).isSome = (start.clipById id).isSome
  placed : ∀ id clip, start.Selected id clip → ∃ clip', now.clipById id = some clip' ∧
    clip'.start = reflected 0 clip.start (moves.map ClipMove.deltaTicks) ∧
    clip'.lane ∈ now.project.laneIds ∧
    now.Meets (start.laneIndex clip.lane) clip'.lane (aimOf moves)

theorem mem_laneIds_of_clipById (hconsistent : store.project.Consistent)
    (h : store.clipById id = some clip) : clip.lane ∈ store.project.laneIds :=
  Tables.mem_laneIds.2 (OrderedMap.contains_eq_true_iff.2 (hconsistent.clipLanes id clip h))

/-- What a drag begins with. -/
theorem beginClipDrag_eq (hsome : store.selectedClipIds ≠ []) :
    ∃ indexes, store.beginClipDrag =
      { project := store.project, selectedClipIds := store.selectedClipIds, moving := true,
        dragLaneIndexes := indexes } := by
  rw [beginClipDrag, if_neg hsome]
  exact ⟨_, rfl⟩

theorem dragged_nil (hconsistent : store.project.Consistent) (hsome : store.selectedClipIds ≠ []) :
    Dragged store [] store.beginClipDrag := by
  obtain ⟨indexes, hbegin⟩ := beginClipDrag_eq hsome
  have hlane : ∀ id clip, store.Selected id clip → clip.lane ∈ store.project.laneIds :=
    fun id clip hclip => mem_laneIds_of_clipById hconsistent hclip.2
  rw [hbegin]
  exact
    { moving := rfl
      delta := rfl
      laneId := rfl
      laneDelta := rfl
      selected := fun _ _ _ => .rfl
      indexes := by rw [hbegin]
      lanes := ⟨[], (List.append_nil _).symm, by simp⟩
      enough := by simp
      clips := fun _ => rfl
      placed := fun id clip hclip => ⟨clip, hclip.2, rfl, hlane id clip hclip, rfl⟩ }

theorem get?_dragLaneIndexes (hclip : store.Selected id clip) :
    Entries.get? store.beginClipDrag.dragLaneIndexes id = some (store.laneIndex clip.lane) := by
  have hsome : store.selectedClipIds ≠ [] := List.ne_nil_of_mem hclip.1
  have hget : ∀ (ids : List ClipId) (f : ClipId → ℕ), id ∈ ids →
      Entries.get? (ids.map fun id => (id, f id)) id = some (f id) := by
    intro ids f hid
    induction ids with
    | nil => exact absurd hid List.not_mem_nil
    | cons other ids ih =>
      rw [List.map_cons, Entries.get?_cons]
      split_ifs with heq
      · rw [heq]
      · exact ih ((List.mem_cons.1 hid).resolve_left (Ne.symm heq))
  rw [beginClipDrag, if_neg hsome, hget _ _ hclip.1, hclip.2]
  rfl

/-- A lane delta reaches its lane: there are enough of them. -/
theorem targetLane_shift (clip : Clip) {delta : ℤ} {began : ℕ} (h : move.laneDelta = some delta)
    (hbegan : Entries.get? store.dragLaneIndexes id = some began)
    (henough : store.highestTarget delta < store.project.laneIds.length) :
    ∃ lane ∈ store.project.laneIds, store.targetLane move id clip = some lane ∧
      (store.laneIndex lane : ℤ) = max 0 (began + delta) := by
  obtain ⟨hhigh, hzero⟩ := le_highestTarget (Entries.mem_of_get? hbegan) delta
  have hindex : max 0 (min ((began : ℤ) + delta) (store.project.laneIds.length - 1)) =
      max 0 (began + delta) := by omega
  have hk : (max 0 ((began : ℤ) + delta)).toNat < store.project.laneIds.length := by omega
  refine ⟨_, List.getElem_mem hk, ?_, ?_⟩
  · simp only [targetLane, h, hbegan, Option.getD_some]
    rw [hindex, List.getElem?_eq_getElem hk]
  · rw [laneIndex_getElem hk]
    omega

theorem deltaTicks_getLastD (moves : List ClipMove) :
    (moves.getLastD { deltaTicks := 0 }).deltaTicks =
      (moves.map ClipMove.deltaTicks).getLastD 0 := by
  rcases List.eq_nil_or_concat moves with rfl | ⟨before, last, rfl⟩
  · rfl
  · rw [List.concat_eq_append, List.getLastD_concat, List.map_append, List.map_singleton,
      List.getLastD_concat]

/-- Where a move sends a clip, as soon as there are enough lanes. -/
theorem meets_targetLane (clip : Clip) {began : ℕ} {lane : ArrangementLaneId} {aim' : LaneAim}
    (hbegan : Entries.get? store.dragLaneIndexes id = some began)
    (henough : ∀ delta ∈ move.laneDelta, store.highestTarget delta < store.project.laneIds.length)
    (hmeets : store.Meets began lane aim') :
    store.Meets began ((store.targetLane move id clip).getD lane)
      (if aim move = .keep then aim' else aim move) := by
  cases hdelta : move.laneDelta with
  | some delta =>
    obtain ⟨lane', -, htarget, hindex⟩ := targetLane_shift clip hdelta hbegan
      (henough delta hdelta)
    simp only [aim, hdelta, htarget, reduceCtorEq, if_false]
    exact hindex
  | none =>
    cases hlane : move.laneId with
    | none => simpa [aim, targetLane, hdelta, hlane] using hmeets
    | some lane' => simp [aim, targetLane, hdelta, hlane, Meets]

/-- Lanes that are added change nothing for the others. -/
theorem meets_of_append {began : ℕ} {lane : ArrangementLaneId} {aim' : LaneAim}
    {more : List ArrangementLaneId} (hlanes : next.project.laneIds = store.project.laneIds ++ more)
    (h : lane ∈ store.project.laneIds) (hmeets : store.Meets began lane aim') :
    next.Meets began lane aim' := by
  cases aim' with
  | keep => exact (laneIndex_of_append hlanes h).trans hmeets
  | lane id => exact hmeets
  | shift delta => exact (congrArg _ (laneIndex_of_append hlanes h)).trans hmeets

/-- An offset that is told again changes nothing. -/
theorem Dragged.again (hconsistent : store.project.Consistent) (h : Dragged store moves now)
    (hdelta : move.deltaTicks = now.dragDelta) (hlaneId : move.laneId = now.dragLaneId)
    (hlaneDelta : move.laneDelta = now.dragLaneDelta) : Dragged store (moves ++ [move]) now := by
  have haim : aim move = aim (moves.getLastD { deltaTicks := 0 }) := by
    rw [aim, aim, hlaneId, hlaneDelta, h.laneId, h.laneDelta]
  refine
    { h with
      delta := by rw [List.getLastD_concat, hdelta]
      laneId := by rw [List.getLastD_concat, hlaneId]
      laneDelta := by rw [List.getLastD_concat, hlaneDelta]
      placed := fun id clip hclip => ?_ }
  obtain ⟨clip', hclip', hstart, hlane, hmeets⟩ := h.placed id clip hclip
  refine ⟨clip', hclip', ?_, hlane, (aimOf_concat_last haim).symm ▸ hmeets⟩
  rw [List.map_append, List.map_singleton, reflected_concat, hdelta, h.delta, deltaTicks_getLastD,
    sub_self, add_zero,
    max_eq_right (reflected_nonneg (hconsistent.clipRanges id clip hclip.2).1 _), hstart]

/-- **One update within a drag.** -/
theorem Dragged.update (hconsistent : store.project.Consistent) (h : Dragged store moves now)
    (hupdate : now.updateClipMove move = some next) : Dragged store (moves ++ [move]) next := by
  rw [updateClipMove, if_neg (by rw [h.moving]; decide)] at hupdate
  split_ifs at hupdate with hsame
  · cases hupdate
    exact h.again hconsistent hsame.1 hsame.2.1 hsame.2.2
  · rw [Option.bind_eq_some_iff] at hupdate
    obtain ⟨project, hadded, hupdate⟩ := hupdate
    obtain ⟨⟨more, hlanes, hvalid⟩, hclips, henough⟩ := addLanes_spec hadded
    obtain ⟨project', hmoved, rfl⟩ := Option.map_eq_some_iff.1 hupdate
    obtain ⟨hsend, hlanes', hget⟩ := moveClips_spec hmoved
    have hsome : ∀ id, (project'.clips.get? id).isSome = (store.clipById id).isSome := by
      intro id
      rw [hget, ← h.clips id, clipById, clipById]
      split_ifs
      · rw [Option.isSome_map, hclips]
      · rw [hclips]
    refine
      { moving := h.moving
        delta := by rw [List.getLastD_concat]; rfl
        laneId := by rw [List.getLastD_concat]; rfl
        laneDelta := by rw [List.getLastD_concat]; rfl
        selected := fun id clip hclip => ?_
        indexes := h.indexes
        lanes := ?_
        enough := fun delta hdelta => hlanes'.symm ▸ henough delta hdelta
        clips := hsome
        placed := fun id clip hclip => ?_ }
    · rw [← h.selected id clip hclip]
      refine List.mem_filter.trans (and_iff_left ?_)
      rw [OrderedMap.contains, hsome, hclip]
      rfl
    · obtain ⟨earlier, hearlier, hvalid'⟩ := h.lanes
      refine ⟨earlier ++ more, ?_, fun id hid => ?_⟩
      · rw [← List.append_assoc, ← hearlier, ← hlanes, ← hlanes']; rfl
      · rcases List.mem_append.1 hid with hid | hid
        · exact hvalid' id hid
        · exact hvalid id hid
    · obtain ⟨clip', hclip', hstart, hlane, hmeets⟩ := h.placed id clip hclip
      have hid : id ∈ now.selectedClipIds := (h.selected id clip hclip.2).2 hclip.1
      have hbegan : Entries.get? now.dragLaneIndexes id = some (store.laneIndex clip.lane) := by
        rw [h.indexes, get?_dragLaneIndexes hclip]
      have hclip'' : ({ now with project } : PlaylistStore).clipById id = some clip' := by
        rw [clipById, hclips]; exact hclip'
      have hget := hget id
      rw [if_pos hid, hclip'', Option.map_some, sent, hclip''] at hget
      have hthere : (({ now with project } : PlaylistStore).targetLane move id clip').getD
          clip'.lane ∈ project.laneIds := by
        cases htarget : ({ now with project } : PlaylistStore).targetLane move id clip' with
        | none => exact hlanes.symm ▸ List.mem_append_left _ hlane
        | some lane => exact hsend id clip' ⟨hid, hclip''⟩ lane htarget
      refine ⟨Clip.placed _ _ clip', hget, ?_, hlanes'.symm ▸ hthere, ?_⟩
      · rw [List.map_append, List.map_singleton, reflected_concat, ← hstart,
          ← deltaTicks_getLastD, ← h.delta]
        rfl
      · rw [aimOf_concat]
        have hadded := @meets_of_append now { now with project } _ _ _ _ hlanes hlane hmeets
        exact meets_of_append (hlanes'.trans (List.append_nil _).symm) hthere
          (meets_targetLane clip' hbegan henough hadded)

theorem dragged_drag (hconsistent : store.project.Consistent)
    (hsome : store.selectedClipIds ≠ []) (h : store.drag moves = some final) :
    Dragged store moves final := by
  induction moves using List.reverseRecOn generalizing final with
  | nil =>
    cases Option.some_inj.1 h
    exact dragged_nil hconsistent hsome
  | append_singleton moves move ih =>
    rw [drag, List.foldlM_append, Option.bind_eq_bind, Option.bind_eq_some_iff] at h
    obtain ⟨now, hnow, hupdate⟩ := h
    rw [List.foldlM_cons, Option.bind_eq_bind, Option.bind_eq_some_iff] at hupdate
    obtain ⟨next, hupdate, hfinal⟩ := hupdate
    cases Option.some_inj.1 hfinal
    exact (ih hnow).update hconsistent hupdate

theorem drag_singleton (store : PlaylistStore) (move : ClipMove) :
    store.drag [move] = store.beginClipDrag.updateClipMove move := by
  rw [drag, List.foldlM_cons, Option.bind_eq_bind]
  cases store.beginClipDrag.updateClipMove move <;> rfl

/-- The lanes a drag has added are enough for its last move alone. -/
theorem exists_addLanes (hsome : store.selectedClipIds ≠ [])
    (h : Dragged store (moves ++ [last]) final) :
    ∃ minted project, store.beginClipDrag.addLanes { last with minted } = some project := by
  obtain ⟨indexes, hbegin⟩ := beginClipDrag_eq hsome
  obtain ⟨more, hmore, hvalid⟩ := h.lanes
  cases hdelta : last.laneDelta with
  | none => exact ⟨[], _, by rw [addLanes]⟩
  | some delta =>
    have henough := h.enough delta (by rw [h.laneDelta, List.getLastD_concat, hdelta]; rfl)
    have htarget : final.highestTarget delta = store.beginClipDrag.highestTarget delta := by
      rw [highestTarget, highestTarget, h.indexes]
    have hproject : store.beginClipDrag.project = store.project := by rw [hbegin]
    rw [htarget, hmore, List.length_append] at henough
    set missing := (store.beginClipDrag.highestTarget delta + 1).toNat -
      store.beginClipDrag.project.laneIds.length with hmissing
    have hlength : (more.take missing).length = missing := by
      rw [List.length_take, hmissing, hproject]
      omega
    have hnodup : (store.project.laneIds ++ more.take missing).Nodup := by
      refine List.Nodup.sublist (List.Sublist.append_left (List.take_sublist ..) _) ?_
      exact hmore ▸ Tables.nodup_laneIds final.project
    obtain ⟨project, hadded⟩ := exists_foldlM_createLane
      (fun id hid => hvalid id (List.mem_of_mem_take hid)) hnodup
    refine ⟨more.take missing, project, ?_⟩
    simp only [addLanes]
    rw [if_pos hlength, hproject, hadded]

/-- The last move alone is refused only for a lane that is not there: what lanes it needs the drag
has added. -/
theorem exists_drag_singleton_iff (hsome : store.selectedClipIds ≠ [])
    (h : Dragged store (moves ++ [last]) final) :
    (∃ minted direct, store.drag [{ last with minted }] = some direct) ↔
      ∀ lane, aim last = .lane lane → ∀ id clip, store.Selected id clip →
        lane ∈ store.project.laneIds := by
  obtain ⟨indexes, hbegin⟩ := beginClipDrag_eq hsome
  simp only [drag_singleton]
  have hselected : ∀ {project}, project.clips = store.project.clips → ∀ {id clip},
      ({ store.beginClipDrag with project } : PlaylistStore).Selected id clip ↔
        store.Selected id clip := by
    intro project hclips id clip
    rw [Selected, clipById, hclips, hbegin]
    rfl
  constructor
  · rintro ⟨minted, direct, hdirect⟩ lane haim id clip hclip
    obtain ⟨hdelta, hlane⟩ := aim_eq_lane_iff.1 haim
    rw [updateClipMove, if_neg (by simp [hbegin]), if_neg (by simp [hbegin, hlane]),
      addLanes] at hdirect
    simp only [hdelta, Option.bind_some, Option.map_eq_some_iff] at hdirect
    obtain ⟨project', hmoved, -⟩ := hdirect
    obtain ⟨hsend, -⟩ := moveClips_spec hmoved
    have hproject : store.beginClipDrag.project = store.project := by rw [hbegin]
    rw [hproject] at hsend
    exact hsend id clip ((hselected rfl).2 hclip) lane (by simp [targetLane, hlane])
  · intro hlane
    obtain ⟨minted, project, hadded⟩ := exists_addLanes hsome h
    refine ⟨minted, ?_⟩
    rw [updateClipMove, if_neg (by simp [hbegin])]
    split_ifs with hsame
    · exact ⟨_, rfl⟩
    · obtain ⟨⟨more, hlanes, -⟩, hclips, henough⟩ := addLanes_spec hadded
      have hproject : store.beginClipDrag.project = store.project := by rw [hbegin]
      rw [hproject] at hlanes hclips
      have hsend : ({ store.beginClipDrag with project } : PlaylistStore).Sendable
          { last with minted } := by
        intro id clip hclip lane' htarget
        have hclip := (hselected hclips).1 hclip
        cases haim : aim last with
        | keep =>
          obtain ⟨hdelta, hnone⟩ := aim_eq_keep_iff.1 haim
          simp [targetLane, hdelta, hnone] at htarget
        | lane lane =>
          obtain ⟨hdelta, hsomeLane⟩ := aim_eq_lane_iff.1 haim
          have hmem := hlane lane haim id clip hclip
          simp only [targetLane, hdelta, hsomeLane, Option.mem_some_iff] at htarget
          exact hlanes.symm ▸ List.mem_append_left _ (htarget ▸ hmem)
        | shift delta =>
          have hdelta := aim_eq_shift_iff.1 haim
          obtain ⟨lane, hmem, hsent, -⟩ := @targetLane_shift { store.beginClipDrag with project }
            { last with minted } id clip _ _ hdelta (get?_dragLaneIndexes hclip) (henough delta hdelta)
          rw [hsent, Option.mem_some_iff] at htarget
          exact htarget ▸ hmem
      obtain ⟨project', hmoved⟩ := exists_moveClips hsend
      rw [hadded, Option.bind_some]
      exact ⟨_, congrArg (Option.map _) hmoved⟩

/-! ### The property -/

/-- A drag ends where its last offsets alone take it, with the clips of the selection as far apart as
they began. -/
structure Rigid (store : PlaylistStore) (last : ClipMove) (final : PlaylistStore) : Prop where
  direct : ∃ minted direct, store.drag [{ last with minted }] = some direct ∧
    ∀ id clip, store.Selected id clip → ∀ clip', final.clipById id = some clip' →
      ∃ clip'', direct.clipById id = some clip'' ∧ clip''.start = clip'.start ∧
        direct.laneIndex clip''.lane = final.laneIndex clip'.lane
  apart : ∀ id clip id' clip', store.Selected id clip → store.Selected id' clip' →
    ∀ moved moved', final.clipById id = some moved → final.clipById id' = some moved' →
      moved.start - moved'.start = clip.start - clip'.start ∧
        (final.laneIndex moved.lane : ℤ) - final.laneIndex moved'.lane =
          store.laneIndex clip.lane - store.laneIndex clip'.lane

/-- All of the selection begins at one place. -/
def Together {α : Type} (store : PlaylistStore) (place : Clip → α) : Prop :=
  ∀ id clip id' clip', store.Selected id clip → store.Selected id' clip' → place clip = place clip'

/-- The ticks a drag asks for let it be rigid. -/
def TicksFit (store : PlaylistStore) (moves : List ClipMove) (last : ClipMove) : Prop :=
  (∀ id clip, store.Selected id clip → ∀ move ∈ moves ++ [last], 0 ≤ clip.start + move.deltaTicks) ∨
    store.Together Clip.start ∧ ∀ move ∈ moves ++ [last], last.deltaTicks ≤ move.deltaTicks

/-- The lanes a drag asks for let it be rigid. -/
def LanesFit (store : PlaylistStore) (moves : List ClipMove) (last : ClipMove) : Prop :=
  match aim last with
  | .shift delta =>
    (∀ id clip, store.Selected id clip → 0 ≤ store.laneIndex clip.lane + delta) ∨
      store.Together fun clip => store.laneIndex clip.lane
  | .lane lane =>
    (∀ id clip, store.Selected id clip → lane ∈ store.project.laneIds) ∧
      store.Together fun clip => store.laneIndex clip.lane
  | .keep =>
    match aimOf moves with
    | .keep => True
    | .lane lane => ∀ id clip, store.Selected id clip → clip.lane = lane
    | .shift delta =>
      ∀ id clip, store.Selected id clip → max 0 (store.laneIndex clip.lane + delta) =
        store.laneIndex clip.lane

theorem ticksFit_iff (hend : ∀ id clip, store.Selected id clip → ∀ moved,
      final.clipById id = some moved →
        moved.start = reflected 0 clip.start ((moves ++ [last]).map ClipMove.deltaTicks))
    (hthere : ∀ id clip, store.Selected id clip → ∃ moved, final.clipById id = some moved) :
    store.TicksFit moves last ↔
      (∀ id clip, store.Selected id clip → ∀ moved, final.clipById id = some moved →
        moved.start = max 0 (clip.start + last.deltaTicks)) ∧
      ∀ id clip id' clip', store.Selected id clip → store.Selected id' clip' →
        ∀ moved moved', final.clipById id = some moved → final.clipById id' = some moved' →
          moved.start - moved'.start = clip.start - clip'.start := by
  have hrigid := reflected_rigid_iff (fun entry : ClipId × Clip => store.Selected entry.1 entry.2)
    (fun entry => entry.2.start) (moves.map ClipMove.deltaTicks) last.deltaTicks
  have hmap : moves.map ClipMove.deltaTicks ++ [last.deltaTicks] =
      (moves ++ [last]).map ClipMove.deltaTicks := by simp
  rw [hmap] at hrigid
  simp only [List.forall_mem_map, Prod.forall] at hrigid
  rw [TicksFit, Together, ← hrigid]
  refine and_congr ?_ ?_
  · constructor
    · intro h id clip hclip moved hmoved
      rw [hend id clip hclip moved hmoved, h id clip hclip]
    · intro h id clip hclip
      obtain ⟨moved, hmoved⟩ := hthere id clip hclip
      rw [← hend id clip hclip moved hmoved, h id clip hclip moved hmoved]
  · constructor
    · intro h id clip id' clip' hclip hclip' moved moved' hmoved hmoved'
      rw [hend id clip hclip moved hmoved, hend id' clip' hclip' moved' hmoved',
        h id clip id' clip' hclip hclip']
    · intro h id clip id' clip' hclip hclip'
      obtain ⟨moved, hmoved⟩ := hthere id clip hclip
      obtain ⟨moved', hmoved'⟩ := hthere id' clip' hclip'
      rw [← hend id clip hclip moved hmoved, ← hend id' clip' hclip' moved' hmoved',
        h id clip id' clip' hclip hclip' moved moved' hmoved hmoved']

/-- Lanes are kept apart above the floor, or where they are one. -/
theorem shift_apart_iff {ι : Type*} (moving : ι → Prop) (began : ι → ℤ) (delta : ℤ) :
    (∀ i j, moving i → moving j →
      max 0 (began i + delta) - max 0 (began j + delta) = began i - began j) ↔
      (∀ i, moving i → 0 ≤ began i + delta) ∨ ∀ i j, moving i → moving j → began i = began j := by
  constructor
  · intro h
    by_cases hfloor : ∀ i, moving i → 0 ≤ began i + delta
    · exact .inl hfloor
    · push Not at hfloor
      obtain ⟨i, hi, hbelow⟩ := hfloor
      have hall : ∀ j, moving j → began j = began i := by
        intro j hj
        have := h i j hi hj
        omega
      exact .inr fun j k hj hk => (hall j hj).trans (hall k hk).symm
  · rintro (h | h) i j hi hj
    · have := h i hi
      have := h j hj
      omega
    · rw [h i j hi hj, sub_self, sub_self]

theorem Dragged.exists_moved (h : Dragged store moves final) {id : ClipId} {clip : Clip}
    (hclip : store.Selected id clip) : ∃ moved, final.clipById id = some moved := by
  obtain ⟨moved, hmoved, -⟩ := h.placed id clip hclip
  exact ⟨moved, hmoved⟩

/-- A moved clip is where the last move says, or where it was said before. -/
theorem Dragged.meets (h : Dragged store (moves ++ [last]) final) {id : ClipId} {clip moved : Clip}
    (hclip : store.Selected id clip) (hmoved : final.clipById id = some moved) :
    moved.lane ∈ final.project.laneIds ∧ final.Meets (store.laneIndex clip.lane) moved.lane
      (if aim last = .keep then aimOf moves else aim last) := by
  obtain ⟨moved', hmoved', -, hmem, hmeets⟩ := h.placed id clip hclip
  rw [aimOf_concat] at hmeets
  cases Option.some_inj.1 (hmoved.symm.trans hmoved')
  exact ⟨hmem, hmeets⟩

/-- Where the last move keeps the lanes, the clips are back on theirs when nothing else was said, or
nothing that moves them. -/
theorem stays_iff_of_keep (hconsistent : store.project.Consistent)
    (h : Dragged store (moves ++ [last]) final) (haim : aim last = .keep) :
    (∀ id clip, store.Selected id clip → ∀ moved, final.clipById id = some moved →
      final.laneIndex moved.lane = store.laneIndex clip.lane) ↔
      match aimOf moves with
      | .keep => True
      | .lane lane => ∀ id clip, store.Selected id clip → clip.lane = lane
      | .shift delta => ∀ id clip, store.Selected id clip →
        max 0 (store.laneIndex clip.lane + delta) = store.laneIndex clip.lane := by
  have hmeets : ∀ id clip, store.Selected id clip → ∀ moved, final.clipById id = some moved →
      moved.lane ∈ final.project.laneIds ∧
        final.Meets (store.laneIndex clip.lane) moved.lane (aimOf moves) := by
    intro id clip hclip moved hmoved
    have hsaid := h.meets hclip hmoved
    rwa [if_pos haim] at hsaid
  cases hbefore : aimOf moves with
  | keep =>
    rw [hbefore] at hmeets
    exact iff_true_intro fun id clip hclip moved hmoved =>
      (hmeets id clip hclip moved hmoved).2
  | lane lane =>
    rw [hbefore] at hmeets
    obtain ⟨more, hlanes, -⟩ := h.lanes
    refine forall_congr' fun id => forall_congr' fun clip => forall_congr' fun hclip => ?_
    obtain ⟨moved, hmoved⟩ := h.exists_moved hclip
    obtain ⟨hmem, hlane⟩ := hmeets id clip hclip moved hmoved
    have hbegan := mem_laneIds_of_clipById hconsistent hclip.2
    have hkept := laneIndex_of_append hlanes hbegan
    have hbegan' : clip.lane ∈ final.project.laneIds :=
      hlanes.symm ▸ List.mem_append_left _ hbegan
    rw [← hkept]
    constructor
    · intro hsame
      exact (laneIndex_inj hmem hbegan' (hsame moved hmoved)).symm.trans hlane
    · intro hsame moved' hmoved'
      cases Option.some_inj.1 (hmoved.symm.trans hmoved')
      rw [hsame, hlane]
  | shift delta =>
    rw [hbefore] at hmeets
    refine forall_congr' fun id => forall_congr' fun clip => forall_congr' fun hclip => ?_
    obtain ⟨moved, hmoved⟩ := h.exists_moved hclip
    have hshift := (hmeets id clip hclip moved hmoved).2
    constructor
    · intro hsame
      rw [← hshift, hsame moved hmoved]
    · intro hsame moved' hmoved'
      cases Option.some_inj.1 (hmoved.symm.trans hmoved')
      exact Int.ofNat_inj.1 (hshift.trans hsame)

theorem lanesFit_iff (hconsistent : store.project.Consistent)
    (hsome : store.selectedClipIds ≠ []) (h : Dragged store (moves ++ [last]) final) :
    store.LanesFit moves last ↔
      (∃ minted direct, store.drag [{ last with minted }] = some direct) ∧
      (∀ id clip, store.Selected id clip → ∀ moved, final.clipById id = some moved →
        final.Meets (store.laneIndex clip.lane) moved.lane (aim last)) ∧
      ∀ id clip id' clip', store.Selected id clip → store.Selected id' clip' →
        ∀ moved moved', final.clipById id = some moved → final.clipById id' = some moved' →
          (final.laneIndex moved.lane : ℤ) - final.laneIndex moved'.lane =
            store.laneIndex clip.lane - store.laneIndex clip'.lane := by
  have hmeets := fun (id : ClipId) (clip : Clip) (hclip : store.Selected id clip) (moved : Clip)
    (hmoved : final.clipById id = some moved) => h.meets hclip hmoved
  rw [exists_drag_singleton_iff hsome h, LanesFit]
  cases haim : aim last with
  | shift delta =>
    simp only [haim, reduceCtorEq, if_false, false_implies, implies_true, true_and] at hmeets ⊢
    have hiff := shift_apart_iff (fun entry : ClipId × Clip => store.Selected entry.1 entry.2)
      (fun entry => (store.laneIndex entry.2.lane : ℤ)) delta
    simp only [Prod.forall, Nat.cast_inj] at hiff
    rw [Together, ← hiff,
      and_iff_right fun id clip hclip moved hmoved => (hmeets id clip hclip moved hmoved).2]
    constructor
    · intro hapart id clip id' clip' hclip hclip' moved moved' hmoved hmoved'
      rw [(hmeets id clip hclip moved hmoved).2, (hmeets id' clip' hclip' moved' hmoved').2,
        hapart id clip id' clip' hclip hclip']
    · intro hapart id clip id' clip' hclip hclip'
      obtain ⟨moved, hmoved⟩ := h.exists_moved hclip
      obtain ⟨moved', hmoved'⟩ := h.exists_moved hclip'
      rw [← (hmeets id clip hclip moved hmoved).2, ← (hmeets id' clip' hclip' moved' hmoved').2,
        hapart id clip id' clip' hclip hclip' moved moved' hmoved hmoved']
  | lane lane =>
    simp only [haim, reduceCtorEq, if_false, LaneAim.lane.injEq, forall_eq'] at hmeets ⊢
    refine and_congr_right fun _ => ?_
    rw [Together, and_iff_right fun id clip hclip moved hmoved => (hmeets id clip hclip moved hmoved).2]
    -- all clips end on the one lane
    have hzero : ∀ id clip, store.Selected id clip → ∀ moved, final.clipById id = some moved →
        final.laneIndex moved.lane = final.laneIndex lane := fun id clip hclip moved hmoved =>
      congrArg final.laneIndex (hmeets id clip hclip moved hmoved).2
    constructor
    · intro hone id clip id' clip' hclip hclip' moved moved' hmoved hmoved'
      rw [hzero id clip hclip moved hmoved, hzero id' clip' hclip' moved' hmoved',
        hone id clip id' clip' hclip hclip', sub_self, sub_self]
    · intro hapart id clip id' clip' hclip hclip'
      obtain ⟨moved, hmoved⟩ := h.exists_moved hclip
      obtain ⟨moved', hmoved'⟩ := h.exists_moved hclip'
      have := hapart id clip id' clip' hclip hclip' moved moved' hmoved hmoved'
      rw [hzero id clip hclip moved hmoved, hzero id' clip' hclip' moved' hmoved'] at this
      omega
  | keep =>
    simp only [haim, if_true, reduceCtorEq, false_implies, implies_true, true_and] at hmeets ⊢
    rw [← stays_iff_of_keep hconsistent h haim]
    refine ⟨fun hstays => ⟨hstays, ?_⟩, And.left⟩
    intro id clip id' clip' hclip hclip' moved moved' hmoved hmoved'
    rw [hstays id clip hclip moved hmoved, hstays id' clip' hclip' moved' hmoved']

/-- The move alone takes a clip to the lane the drag took it to exactly when the last move says so. -/
theorem laneIndex_direct_iff (hconsistent : store.project.Consistent)
    {direct : PlaylistStore} {minted : List ArrangementLaneId}
    (hdirect : store.drag [{ last with minted }] = some direct)
    (h : Dragged store (moves ++ [last]) final) (hclip : store.Selected id clip)
    {alone moved : Clip}
    (halone : direct.clipById id = some alone) (hmoved : final.clipById id = some moved) :
    direct.laneIndex alone.lane = final.laneIndex moved.lane ↔
      final.Meets (store.laneIndex clip.lane) moved.lane (aim last) := by
  have hsome : store.selectedClipIds ≠ [] := List.ne_nil_of_mem hclip.1
  have hdragged := dragged_drag hconsistent hsome hdirect
  obtain ⟨alone', halone', -, hmem, hmeets⟩ := hdragged.placed id clip hclip
  cases Option.some_inj.1 (halone.symm.trans halone')
  obtain ⟨moved', hmoved', -, -, hmeets'⟩ := h.placed id clip hclip
  cases Option.some_inj.1 (hmoved.symm.trans hmoved')
  rw [← List.nil_append [_], aimOf_concat] at hmeets
  rw [aimOf_concat] at hmeets'
  have hsame : aim { last with minted } = aim last := rfl
  rw [hsame] at hmeets
  cases haim : aim last with
  | keep =>
    have hmeets : direct.laneIndex alone.lane = store.laneIndex clip.lane := by
      rw [if_pos haim] at hmeets
      exact hmeets
    rw [hmeets]
    exact eq_comm
  | shift delta =>
    simp only [haim, reduceCtorEq, if_false] at hmeets hmeets'
    exact iff_of_true (Int.ofNat_inj.1 (hmeets.trans hmeets'.symm)) hmeets'
  | lane lane =>
    simp only [haim, reduceCtorEq, if_false] at hmeets hmeets'
    have hlane := (exists_drag_singleton_iff hsome h).1 ⟨minted, direct, hdirect⟩ lane
      haim id clip hclip
    obtain ⟨more, hmore, -⟩ := hdragged.lanes
    obtain ⟨more', hmore', -⟩ := h.lanes
    refine iff_of_true ?_ hmeets'
    rw [show alone.lane = lane from hmeets, show moved.lane = lane from hmeets',
      laneIndex_of_append hmore hlane, laneIndex_of_append hmore' hlane]

/-- **A drag is rigid exactly when its offsets let it be.** -/
theorem rigid_iff (hconsistent : store.project.Consistent) (hsome : store.selectedClipIds ≠ [])
    (h : store.drag (moves ++ [last]) = some final) :
    Rigid store last final ↔ store.TicksFit moves last ∧ store.LanesFit moves last := by
  have hdragged := dragged_drag hconsistent hsome h
  have hthere : ∀ id clip, store.Selected id clip → ∃ moved, final.clipById id = some moved :=
    fun id clip hclip => let ⟨moved, hmoved, _⟩ := hdragged.placed id clip hclip; ⟨moved, hmoved⟩
  have hend : ∀ id clip, store.Selected id clip → ∀ moved, final.clipById id = some moved →
      moved.start = reflected 0 clip.start ((moves ++ [last]).map ClipMove.deltaTicks) := by
    intro id clip hclip moved hmoved
    obtain ⟨moved', hmoved', hstart, -⟩ := hdragged.placed id clip hclip
    cases Option.some_inj.1 (hmoved.symm.trans hmoved')
    exact hstart
  have halone : ∀ minted direct, store.drag [{ last with minted }] = some direct →
      ∀ id clip, store.Selected id clip → ∃ alone, direct.clipById id = some alone ∧
        alone.start = max 0 (clip.start + last.deltaTicks) := by
    intro minted direct hdirect id clip hclip
    obtain ⟨alone, hthere, hstart, -⟩ :=
      (dragged_drag hconsistent hsome hdirect).placed id clip hclip
    refine ⟨alone, hthere, hstart.trans ?_⟩
    rw [List.map_singleton, reflected, reflected, sub_zero]
  rw [ticksFit_iff hend hthere, lanesFit_iff hconsistent hsome hdragged]
  constructor
  · rintro ⟨⟨minted, direct, hdirect, hsame⟩, hapart⟩
    refine ⟨⟨fun id clip hclip moved hmoved => ?_, fun id clip id' clip' hclip hclip' moved moved'
      hmoved hmoved' => (hapart id clip id' clip' hclip hclip' moved moved' hmoved hmoved').1⟩,
      ⟨minted, direct, hdirect⟩, fun id clip hclip moved hmoved => ?_, fun id clip id' clip' hclip hclip'
        moved moved' hmoved hmoved' =>
          (hapart id clip id' clip' hclip hclip' moved moved' hmoved hmoved').2⟩
    · obtain ⟨alone, hthere, hstart⟩ := halone minted direct hdirect id clip hclip
      obtain ⟨alone', hthere', hstart', -⟩ := hsame id clip hclip moved hmoved
      cases Option.some_inj.1 (hthere.symm.trans hthere')
      rw [← hstart', hstart]
    · obtain ⟨alone, hthere, -, hlane⟩ := hsame id clip hclip moved hmoved
      exact (laneIndex_direct_iff hconsistent hdirect hdragged hclip hthere hmoved).1 hlane
  · rintro ⟨⟨hticks, hticksApart⟩, ⟨minted, direct, hdirect⟩, hmeets, hlanesApart⟩
    refine ⟨⟨minted, direct, hdirect, fun id clip hclip moved hmoved => ?_⟩, fun id clip id' clip' hclip
      hclip' moved moved' hmoved hmoved' =>
        ⟨hticksApart id clip id' clip' hclip hclip' moved moved' hmoved hmoved',
          hlanesApart id clip id' clip' hclip hclip' moved moved' hmoved hmoved'⟩⟩
    obtain ⟨alone, hthere, hstart⟩ := halone minted direct hdirect id clip hclip
    refine ⟨alone, hthere, hstart.trans (hticks id clip hclip moved hmoved).symm, ?_⟩
    exact (laneIndex_direct_iff hconsistent hdirect hdragged hclip hthere hmoved).2
      (hmeets id clip hclip moved hmoved)

/-! ### Two clips on one lane -/

/-- Two selected clips on a lane, a bar apart. -/
def twoClips : PlaylistStore where
  project := { newProject ⟨1⟩ with
    patterns := OrderedMap.empty.assign ⟨4⟩ {}
    lanes := OrderedMap.empty.assign ⟨6⟩ {}
    clips := (OrderedMap.empty.assign ⟨8⟩
      { lane := ⟨6⟩, start := 0, length := 960, source := .pattern ⟨4⟩ }).assign ⟨9⟩
      { lane := ⟨6⟩, start := 3840, length := 960, source := .pattern ⟨4⟩ } }
  selectedClipIds := [⟨8⟩, ⟨9⟩]

theorem consistent_twoClips : twoClips.project.Consistent :=
  Tables.checkReferentialIntegrity_eq_nil_iff.1 (by decide +kernel)

/-- Dragged past the first tick and back, the clips lie on top of one another. -/
theorem not_rigid_twoClips :
    ∃ final, twoClips.drag [{ deltaTicks := -3840, laneDelta := some 0 },
        { deltaTicks := 0, laneDelta := some 0 }] = some final ∧
      (final.clipById ⟨8⟩).map Clip.start = some 3840 ∧
      (final.clipById ⟨9⟩).map Clip.start = some 3840 ∧
      ¬Rigid twoClips { deltaTicks := 0, laneDelta := some 0 } final := by
  refine ⟨_, rfl, rfl, rfl, fun hrigid => ?_⟩
  have hapart := hrigid.apart ⟨8⟩ _ ⟨9⟩ _ ⟨by decide, rfl⟩ ⟨by decide, rfl⟩ _ _ rfl rfl
  exact absurd hapart.1 (by decide)

theorem rigid_iff_twoClips :
    ∃ final, twoClips.drag ([{ deltaTicks := 960, laneDelta := some 1, minted := [⟨7⟩] }] ++
        [{ deltaTicks := 480, laneDelta := some 0 }]) = some final ∧
      (Rigid twoClips { deltaTicks := 480, laneDelta := some 0 } final ↔
        twoClips.TicksFit [{ deltaTicks := 960, laneDelta := some 1, minted := [⟨7⟩] }]
            { deltaTicks := 480, laneDelta := some 0 } ∧
          twoClips.LanesFit [{ deltaTicks := 960, laneDelta := some 1, minted := [⟨7⟩] }]
            { deltaTicks := 480, laneDelta := some 0 }) :=
  ⟨_, rfl, rigid_iff consistent_twoClips (by decide) rfl⟩

end PlaylistStore
end OneBeat
