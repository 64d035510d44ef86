import OneBeat.Model.LoadedRecords

/-!
# The lanes of a loaded project

What `loadLanes` makes of a record: the first member that names an id gives the lane, its group is
resolved, and the lanes are renumbered in their saved order.

* `get?_readLanes` : the lane that a record becomes.
* `laneOrderAmbiguous_mem_iff` : the warning is there exactly when the saved numbers are not the
  positions of the lanes, and without it every lane keeps its number (`order_loadLanes`).
* `loadLanes_setHeight` : the height of a lane makes no difference to anything else.
-/

namespace OneBeat

/-! ### Records -/

/-- A member of the lanes that becomes the lane `id`, unless another one has. -/
def NamesLane (id : ArrangementLaneId) (entry : String × Json.Value) : Prop :=
  entry.2.asObject.isSome ∧ TypedId.parse .arrangementLane entry.1 = some id

theorem get?_readLaneEntry (loaded : LoadedLanes) {entry : String × Json.Value}
    {id : ArrangementLaneId} (h : ¬NamesLane id entry) :
    (readLaneEntry loaded entry).lanes.get? id = loaded.lanes.get? id := by
  unfold readLaneEntry
  cases hfields : entry.2.asObject with
  | none => rfl
  | some fields =>
    cases hparse : TypedId.parse .arrangementLane entry.1 with
    | none => rfl
    | some other =>
      have hne : id ≠ other := by
        rintro rfl
        exact h ⟨by rw [hfields]; rfl, hparse⟩
      simp [OrderedMap.get?_emplace, hne]

theorem get?_readLaneEntry_of_some {loaded : LoadedLanes} (entry : String × Json.Value)
    {id : ArrangementLaneId} {lane : ArrangementLane} (h : loaded.lanes.get? id = some lane) :
    (readLaneEntry loaded entry).lanes.get? id = some lane := by
  unfold readLaneEntry
  cases entry.2.asObject with
  | none => exact h
  | some fields =>
    cases TypedId.parse .arrangementLane entry.1 with
    | none => exact h
    | some other =>
      simp only [OrderedMap.get?_emplace]
      split_ifs with hother
      · subst hother
        simp [h]
      · exact h

/-- The lanes of a file in which `fields` is the record of the key. -/
def lanesWith (before after : Json.Object) (key : String) (fields : Json.Object) : Json.Object :=
  before ++ (key, .object fields) :: after

variable {before after : Json.Object} {key : String} {id : ArrangementLaneId}

theorem get?_foldl_readLaneEntry (hfirst : ∀ entry ∈ before, ¬NamesLane id entry)
    (loaded : LoadedLanes) :
    (before.foldl readLaneEntry loaded).lanes.get? id = loaded.lanes.get? id := by
  induction before generalizing loaded with
  | nil => rfl
  | cons entry before ih =>
    rw [List.forall_mem_cons] at hfirst
    rw [List.foldl_cons, ih hfirst.2, get?_readLaneEntry loaded hfirst.1]

theorem get?_foldl_readLaneEntry_of_some {loaded : LoadedLanes} {lane : ArrangementLane}
    (h : loaded.lanes.get? id = some lane) :
    (after.foldl readLaneEntry loaded).lanes.get? id = some lane := by
  induction after generalizing loaded with
  | nil => exact h
  | cons entry after ih => exact ih (get?_readLaneEntry_of_some entry h)

/-- The first record that names an id is its lane. -/
theorem get?_readLanes (hkey : TypedId.parse .arrangementLane key = some id)
    (hfirst : ∀ entry ∈ before, ¬NamesLane id entry) (fields : Json.Object) :
    (readLanes (lanesWith before after key fields)).lanes.get? id = some (readLane fields).1 := by
  rw [readLanes, lanesWith, List.foldl_append, List.foldl_cons]
  refine get?_foldl_readLaneEntry_of_some ?_
  have hnone := get?_foldl_readLaneEntry hfirst {}
  simp [readLaneEntry, Json.Value.asObject, hkey, OrderedMap.get?_emplace, hnone]

/-! ### Renumbering -/

theorem order_resolveLaneGroup (loaded : LoadedLanes) (id : ArrangementLaneId)
    (lane : ArrangementLane) : (resolveLaneGroup loaded id lane).1.order = lane.order := by
  unfold resolveLaneGroup
  split
  · rfl
  · split <;> rfl

theorem renumber_of_false {s : OrderedMap ArrangementLaneId ArrangementLane × Bool}
    {placed : ArrangementLaneId × ℕ} (hs : s.2 = false) :
    (renumber s placed).2 = false ↔ ∀ lane, s.1.get? placed.1 = some lane → lane.order = placed.2 := by
  unfold renumber
  cases s.1.get? placed.1 with
  | none => simp [hs]
  | some lane =>
    by_cases horder : lane.order = placed.2 <;> simp [horder, hs]

theorem renumber_eq_self {s : OrderedMap ArrangementLaneId ArrangementLane × Bool}
    {placed : ArrangementLaneId × ℕ}
    (h : ∀ lane, s.1.get? placed.1 = some lane → lane.order = placed.2) :
    renumber s placed = s := by
  unfold renumber
  cases hget : s.1.get? placed.1 with
  | none => rfl
  | some lane => simp [h lane hget]

theorem renumber_snd_mono {s : OrderedMap ArrangementLaneId ArrangementLane × Bool}
    (hs : s.2 = true) (places : List (ArrangementLaneId × ℕ)) :
    (places.foldl renumber s).2 = true := by
  induction places generalizing s with
  | nil => exact hs
  | cons placed places ih =>
    refine ih ?_
    unfold renumber
    cases s.1.get? placed.1 with
    | none => exact hs
    | some lane => by_cases horder : lane.order = placed.2 <;> simp [horder, hs]

/-- Nothing is renumbered exactly when every lane has its place; then the lanes are as they were. -/
theorem foldl_renumber (lanes : OrderedMap ArrangementLaneId ArrangementLane)
    (places : List (ArrangementLaneId × ℕ)) :
    ((places.foldl renumber (lanes, false)).2 = false ↔
        ∀ placed ∈ places, ∀ lane, lanes.get? placed.1 = some lane → lane.order = placed.2) ∧
      ((places.foldl renumber (lanes, false)).2 = false →
        (places.foldl renumber (lanes, false)).1 = lanes) := by
  induction places with
  | nil => simp
  | cons placed places ih =>
    rw [List.foldl_cons, List.forall_mem_cons]
    by_cases hplaced : ∀ lane, lanes.get? placed.1 = some lane → lane.order = placed.2
    · rw [renumber_eq_self (s := (lanes, false)) hplaced]
      exact ⟨ih.1.trans (and_iff_right hplaced).symm, ih.2⟩
    · have htrue : (renumber (lanes, false) placed).2 = true := by
        rw [← Bool.not_eq_false]
        exact mt (renumber_of_false rfl).1 hplaced
      rw [renumber_snd_mono htrue]
      simp [hplaced]

/-- The saved numbers of the lanes, in the order of their ids. -/
def savedNumbers (lanes : OrderedMap ArrangementLaneId ArrangementLane) : List ℤ :=
  lanes.entries.map fun entry => entry.2.order

/-- The numbers of as many lanes, from zero on. -/
def laneNumbers (count : ℕ) : List ℤ := (List.range count).map Nat.cast

/-- Every lane has its place exactly when the saved numbers are those from zero on. -/
theorem places_iff_perm (lanes : OrderedMap ArrangementLaneId ArrangementLane) :
    (∀ placed ∈ ((savedOrder lanes).map Prod.fst).zipIdx, ∀ lane,
        lanes.get? placed.1 = some lane → lane.order = placed.2) ↔
      (savedNumbers lanes).Perm (laneNumbers lanes.size) := by
  have hperm : (savedOrder lanes).Perm lanes.entries := List.perm_insertionSort _ _
  have hlength : (savedOrder lanes).length = lanes.size := hperm.length_eq
  have hsorted : ((savedOrder lanes).map fun entry => entry.2.order).Pairwise (· ≤ ·) := by
    rw [List.pairwise_map]
    exact List.pairwise_insertionSort (fun a b : ArrangementLaneId × ArrangementLane =>
      a.2.order ≤ b.2.order) _
  have hnumbers : (laneNumbers lanes.size).Pairwise (· ≤ ·) := by
    rw [laneNumbers, List.pairwise_map]
    exact List.pairwise_lt_range.imp fun h => by exact_mod_cast h.le
  have hplaces : (∀ placed ∈ ((savedOrder lanes).map Prod.fst).zipIdx, ∀ lane,
      lanes.get? placed.1 = some lane → lane.order = placed.2) ↔
      ((savedOrder lanes).map fun entry => entry.2.order) = laneNumbers lanes.size := by
    constructor
    · intro h
      refine List.ext_getElem (by simp [laneNumbers, hlength]) fun i hi _ => ?_
      rw [List.length_map] at hi
      have hget : lanes.get? (savedOrder lanes)[i].1 = some (savedOrder lanes)[i].2 :=
        lanes.get?_eq_some_iff.2 (hperm.mem_iff.1 (List.getElem_mem hi))
      have hplaced : ((savedOrder lanes)[i].1, i) ∈ ((savedOrder lanes).map Prod.fst).zipIdx := by
        rw [List.mem_zipIdx_iff_getElem?, List.getElem?_map, List.getElem?_eq_getElem hi]
        rfl
      simpa [laneNumbers] using h _ hplaced _ hget
    · rintro h ⟨other, i⟩ hplaced lane hget
      rw [List.mem_zipIdx_iff_getElem?, List.getElem?_map] at hplaced
      obtain ⟨entry, hentry, hother⟩ := Option.map_eq_some_iff.1 hplaced
      obtain ⟨hi, hentry⟩ := List.getElem?_eq_some_iff.1 hentry
      have hlane : lanes.get? entry.1 = some entry.2 :=
        lanes.get?_eq_some_iff.2 (hperm.mem_iff.1 (hentry ▸ List.getElem_mem hi))
      have hnumber := congrArg (fun numbers => numbers[i]?) h
      rw [hother, hget] at hlane
      obtain rfl := Option.some.inj hlane
      simpa [laneNumbers, hi, hentry, hlength ▸ hi] using hnumber
  rw [hplaces]
  constructor
  · intro h
    exact ((hperm.map _).symm).trans (List.Perm.of_eq h)
  · intro h
    exact List.Perm.eq_of_pairwise' hsorted hnumbers ((hperm.map _).trans h)

/-! ### Reports -/

theorem severity_foldl_readLaneEntry (map : Json.Object) {loaded : LoadedLanes}
    (h : ∀ issue ∈ loaded.report, issue.severity = .info) :
    ∀ issue ∈ (map.foldl readLaneEntry loaded).report, issue.severity = .info := by
  induction map generalizing loaded with
  | nil => exact h
  | cons entry map ih =>
    refine ih ?_
    unfold readLaneEntry
    cases entry.2.asObject with
    | none => exact h
    | some fields =>
      cases TypedId.parse .arrangementLane entry.1 with
      | none =>
        intro issue hissue
        rcases List.mem_append.1 hissue with hissue | hissue
        · exact h issue hissue
        · rw [List.mem_singleton.1 hissue]
      | some id => exact h

theorem laneOrderAmbiguous_notMem_resolveLaneGroup (loaded : LoadedLanes) (id : ArrangementLaneId)
    (lane : ArrangementLane) : laneOrderAmbiguous ∉ (resolveLaneGroup loaded id lane).2 := by
  have hne : ∀ issue : LoadIssue, issue.message = "Lane '" ++ lane.name ++
      "' is grouped under a lane that is not there; ungrouped." → laneOrderAmbiguous ≠ issue := by
    rintro issue hissue rfl
    have hsixth := congrArg (fun text => text.toList[5]?) hissue
    simp [laneOrderAmbiguous] at hsixth
  unfold resolveLaneGroup
  split
  · simp
  · split
    · simp
    · rw [List.mem_singleton]
      exact hne _ rfl

theorem laneOrderAmbiguous_notMem_resolveLaneGroups (map : Json.Object) :
    laneOrderAmbiguous ∉ (resolveLaneGroups (readLanes map)).report := by
  intro h
  rcases List.mem_append.1 h with h | h
  · have hseverity := @severity_foldl_readLaneEntry map {} (by simp) _ h
    cases hseverity
  · obtain ⟨entry, -, h⟩ := List.mem_flatMap.1 h
    exact laneOrderAmbiguous_notMem_resolveLaneGroup _ _ _ h

theorem savedNumbers_resolveLaneGroups (loaded : LoadedLanes) :
    savedNumbers (resolveLaneGroups loaded).lanes = savedNumbers loaded.lanes := by
  simp [savedNumbers, resolveLaneGroups, OrderedMap.mapValues, order_resolveLaneGroup]

/-- The warning says that the saved numbers are not those from zero on. -/
theorem laneOrderAmbiguous_mem_iff (map : Json.Object) :
    laneOrderAmbiguous ∈ (loadLanes map).report ↔
      ¬(savedNumbers (readLanes map).lanes).Perm (laneNumbers (readLanes map).lanes.size) := by
  have hsize : (resolveLaneGroups (readLanes map)).lanes.size = (readLanes map).lanes.size := by
    simp [resolveLaneGroups, OrderedMap.mapValues, OrderedMap.size]
  rw [← savedNumbers_resolveLaneGroups, ← hsize, ← places_iff_perm, ← (foldl_renumber _ _).1,
    Bool.not_eq_false]
  change _ ∈ _ ++ _ ↔ _
  rw [List.mem_append, or_iff_right (laneOrderAmbiguous_notMem_resolveLaneGroups map)]
  split <;> simp [*]

/-- Without the warning a lane keeps its number. -/
theorem order_loadLanes {map : Json.Object} (h : laneOrderAmbiguous ∉ (loadLanes map).report)
    {id : ArrangementLaneId} {lane read : ArrangementLane}
    (hread : (readLanes map).lanes.get? id = some read)
    (hlane : (loadLanes map).lanes.get? id = some lane) : lane.order = read.order := by
  have hfixed : (loadLanes map).lanes = (resolveLaneGroups (readLanes map)).lanes := by
    refine (foldl_renumber _ _).2 ?_
    rw [← Bool.not_eq_true]
    intro htrue
    refine h (List.mem_append_right _ ?_)
    rw [if_pos htrue]
    exact List.mem_singleton_self _
  rw [hfixed, resolveLaneGroups, OrderedMap.get?_mapValues, hread] at hlane
  rw [← Option.some.inj hlane]
  exact order_resolveLaneGroup _ _ _

/-! ### Heights -/

def ArrangementLane.withHeight (height : ℤ) (lane : ArrangementLane) : ArrangementLane :=
  { lane with height }

/-- The same lanes, one of them of another height. -/
def LoadedLanes.setHeight (id : ArrangementLaneId) (height : ℤ) (loaded : LoadedLanes) :
    LoadedLanes :=
  { loaded with lanes := loaded.lanes.modify id (ArrangementLane.withHeight height) }

theorem entries_modify_withHeight (lanes : OrderedMap ArrangementLaneId ArrangementLane)
    (id : ArrangementLaneId) (height : ℤ) :
    (lanes.modify id (ArrangementLane.withHeight height)).entries =
      lanes.entries.map fun entry =>
        (entry.1, if entry.1 = id then entry.2.withHeight height else entry.2) := by
  refine List.map_congr_left fun entry _ => ?_
  by_cases hentry : entry.1 = id <;> simp [hentry]

theorem readLaneEntry_setHeight (height : ℤ) {loaded : LoadedLanes} {id : ArrangementLaneId}
    {lane : ArrangementLane} (h : loaded.lanes.get? id = some lane) (entry : String × Json.Value) :
    readLaneEntry (loaded.setHeight id height) entry =
      (readLaneEntry loaded entry).setHeight id height := by
  unfold readLaneEntry
  cases entry.2.asObject with
  | none => rfl
  | some fields =>
    cases TypedId.parse .arrangementLane entry.1 with
    | none => rfl
    | some other =>
      simp only [LoadedLanes.setHeight, LoadedLanes.mk.injEq, and_true]
      refine OrderedMap.ext_get? fun k => ?_
      simp only [OrderedMap.get?_emplace, OrderedMap.get?_modify]
      by_cases hk : k = id
      · subst hk
        by_cases hother : k = other
        · subst hother
          simp [h]
        · simp [hother]
      · by_cases hother : k = other
        · subst hother
          simp [hk]
        · simp [hk, hother]

theorem foldl_readLaneEntry_setHeight (height : ℤ) {loaded : LoadedLanes}
    {id : ArrangementLaneId} {lane : ArrangementLane} (h : loaded.lanes.get? id = some lane)
    (map : Json.Object) :
    map.foldl readLaneEntry (loaded.setHeight id height) =
      (map.foldl readLaneEntry loaded).setHeight id height := by
  induction map generalizing loaded with
  | nil => rfl
  | cons entry map ih =>
    rw [List.foldl_cons, List.foldl_cons, readLaneEntry_setHeight height h entry,
      ih (get?_readLaneEntry_of_some entry h)]

theorem readLane_setHeight (fields : Json.Object) (height : ℤ) :
    readLane (withInt fields "height" height) =
      ((readLane fields).1.withHeight (toInt32 height), (readLane fields).2) := by
  simp [readLane, ArrangementLane.withHeight, Bundle.takeString, takeInt, takeBool, get?_withInt,
    Json.Value.isNumber, Json.Value.asInt]

theorem readLanes_setHeight (hkey : TypedId.parse .arrangementLane key = some id)
    (hfirst : ∀ entry ∈ before, ¬NamesLane id entry) (fields : Json.Object) (height : ℤ) :
    readLanes (lanesWith before after key (withInt fields "height" height)) =
      (readLanes (lanesWith before after key fields)).setHeight id (toInt32 height) := by
  have hnone := get?_foldl_readLaneEntry hfirst {}
  have hentry : ∀ fields : Json.Object,
      (readLaneEntry (before.foldl readLaneEntry {}) (key, .object fields)).lanes.get? id =
        some (readLane fields).1 := by
    intro fields
    simp [readLaneEntry, Json.Value.asObject, hkey, OrderedMap.get?_emplace, hnone]
  have hstep : readLaneEntry (before.foldl readLaneEntry {})
      (key, .object (withInt fields "height" height)) =
      (readLaneEntry (before.foldl readLaneEntry {}) (key, .object fields)).setHeight id
        (toInt32 height) := by
    simp only [readLaneEntry, Json.Value.asObject, hkey, LoadedLanes.setHeight, readLane_setHeight,
      LoadedLanes.mk.injEq, and_true]
    refine OrderedMap.ext_get? fun k => ?_
    simp only [OrderedMap.get?_emplace, OrderedMap.get?_modify]
    by_cases hk : k = id
    · subst hk
      simp [hnone]
    · simp [hk]
  simp only [readLanes, lanesWith, List.foldl_append, List.foldl_cons]
  rw [hstep, foldl_readLaneEntry_setHeight _ (hentry fields)]

theorem resolveLaneGroup_setHeight (loaded : LoadedLanes) (id : ArrangementLaneId) (height : ℤ) :
    resolveLaneGroup (loaded.setHeight id height) = resolveLaneGroup loaded := by
  have hcontains : (loaded.setHeight id height).lanes.contains = loaded.lanes.contains := by
    funext k
    simp only [OrderedMap.contains, LoadedLanes.setHeight, OrderedMap.get?_modify]
    split_ifs <;> simp
  funext other lane
  unfold resolveLaneGroup
  rw [hcontains]
  rfl

theorem resolveLaneGroup_withHeight (loaded : LoadedLanes) (id : ArrangementLaneId) (height : ℤ)
    (lane : ArrangementLane) :
    resolveLaneGroup loaded id (lane.withHeight height) =
      ((resolveLaneGroup loaded id lane).1.withHeight height,
        (resolveLaneGroup loaded id lane).2) := by
  unfold resolveLaneGroup
  split
  · rfl
  · split <;> rfl

theorem resolveLaneGroups_setHeight (loaded : LoadedLanes) (id : ArrangementLaneId) (height : ℤ) :
    resolveLaneGroups (loaded.setHeight id height) =
      (resolveLaneGroups loaded).setHeight id height := by
  have hlanes : (loaded.lanes.modify id (ArrangementLane.withHeight height)).mapValues
      (fun other lane => (resolveLaneGroup loaded other lane).1) =
      (loaded.lanes.mapValues fun other lane => (resolveLaneGroup loaded other lane).1).modify id
        (ArrangementLane.withHeight height) := by
    refine OrderedMap.ext_get? fun other => ?_
    simp only [OrderedMap.get?_mapValues, OrderedMap.get?_modify, Option.map_map]
    by_cases hother : other = id
    · simp [hother, Function.comp_def, resolveLaneGroup_withHeight]
    · simp [hother]
  have hreport : (loaded.lanes.modify id (ArrangementLane.withHeight height)).entries.flatMap
      (fun entry => (resolveLaneGroup loaded entry.1 entry.2).2) =
      loaded.lanes.entries.flatMap fun entry => (resolveLaneGroup loaded entry.1 entry.2).2 := by
    rw [entries_modify_withHeight, List.flatMap_map]
    refine List.flatMap_congr fun entry _ => ?_
    split_ifs
    · rw [resolveLaneGroup_withHeight]
    · rfl
  simp only [resolveLaneGroups, resolveLaneGroup_setHeight]
  simp only [LoadedLanes.setHeight, hlanes, hreport]

theorem renumber_setHeight (id : ArrangementLaneId) (height : ℤ)
    (s : OrderedMap ArrangementLaneId ArrangementLane × Bool) (placed : ArrangementLaneId × ℕ) :
    renumber (s.1.modify id (ArrangementLane.withHeight height), s.2) placed =
      ((renumber s placed).1.modify id (ArrangementLane.withHeight height),
        (renumber s placed).2) := by
  have hget : (s.1.modify id (ArrangementLane.withHeight height)).get? placed.1 =
      (s.1.get? placed.1).map fun lane =>
        if placed.1 = id then lane.withHeight height else lane := by
    rw [OrderedMap.get?_modify]
    split_ifs <;> simp
  unfold renumber
  rw [hget]
  cases s.1.get? placed.1 with
  | none => rfl
  | some lane =>
    have horder : (if placed.1 = id then lane.withHeight height else lane).order = lane.order := by
      split_ifs <;> rfl
    simp only [Option.map_some, horder]
    split_ifs with hplaced
    · rw [Prod.mk.injEq]
      refine ⟨OrderedMap.ext_get? fun other => ?_, rfl⟩
      simp only [OrderedMap.get?_modify]
      split_ifs <;> simp [Function.comp_def, ArrangementLane.withHeight]
    · rfl

theorem fixLaneOrder_setHeight (loaded : LoadedLanes) (id : ArrangementLaneId) (height : ℤ) :
    fixLaneOrder (loaded.setHeight id height) = (fixLaneOrder loaded).setHeight id height := by
  have horder : (savedOrder (loaded.setHeight id height).lanes).map Prod.fst =
      (savedOrder loaded.lanes).map Prod.fst := by
    let change (entry : ArrangementLaneId × ArrangementLane) :=
      (entry.1, if entry.1 = id then entry.2.withHeight height else entry.2)
    have hchange : ∀ entry, (change entry).2.order = entry.2.order := by
      intro entry
      change (if entry.1 = id then entry.2.withHeight height else entry.2).order = _
      split_ifs <;> rfl
    have hsort : (savedOrder loaded.lanes).map change =
        savedOrder (loaded.setHeight id height).lanes := by
      rw [savedOrder, savedOrder, LoadedLanes.setHeight, entries_modify_withHeight]
      refine List.map_insertionSort (fun a b : ArrangementLaneId × ArrangementLane =>
        a.2.order ≤ b.2.order) _ change _ fun a _ b _ => ?_
      rw [hchange, hchange]
    rw [← hsort, List.map_map]
    rfl
  have hfold : ∀ (places : List (ArrangementLaneId × ℕ))
      (s : OrderedMap ArrangementLaneId ArrangementLane × Bool),
      places.foldl renumber (s.1.modify id (ArrangementLane.withHeight height), s.2) =
        ((places.foldl renumber s).1.modify id (ArrangementLane.withHeight height),
          (places.foldl renumber s).2) := by
    intro places
    induction places with
    | nil => intro s; rfl
    | cons placed places ih =>
      intro s
      rw [List.foldl_cons, renumber_setHeight, ih]
      rfl
  unfold fixLaneOrder
  rw [horder]
  simp only [LoadedLanes.setHeight, hfold _ (loaded.lanes, false)]

/-- The height of a lane is all that depends on what is written for it. -/
theorem loadLanes_setHeight (hkey : TypedId.parse .arrangementLane key = some id)
    (hfirst : ∀ entry ∈ before, ¬NamesLane id entry) (fields : Json.Object) (height : ℤ) :
    loadLanes (lanesWith before after key (withInt fields "height" height)) =
      (loadLanes (lanesWith before after key fields)).setHeight id (toInt32 height) := by
  rw [loadLanes, readLanes_setHeight hkey hfirst, resolveLaneGroups_setHeight,
    fixLaneOrder_setHeight, loadLanes]

end OneBeat
