import OneBeat.Commands.RackOrder
import OneBeat.Lib.RankedRows

/-!
# Dragging a row of the rack

`_onReorderRow` of `features/channel_rack/rack_binding.dart` passes the visible position that a row
is dropped on to `reorderInstrument`, which takes it for an order.  Visible are all rows, or those
with a sequence in the current pattern (`visibleRows` of `rack_store.dart`).

* `visible_iff` : which row is at a visible position;
* `lands_iff` : **a row lands where it was dropped exactly when as many visible others are in front of
  that order as there are visible positions in front of the drop**.
-/

namespace OneBeat

namespace RackStore

/-- The row is shown. -/
def visible (pattern : Pattern) (showAll : Bool) (entry : InstrumentId × Instrument) : Bool :=
  showAll || pattern.sequences.contains entry.1

/-- The rows under the filter. -/
def visibleRows (project : Tables) (pattern : Pattern) (showAll : Bool) : List InstrumentId :=
  ((RankedRows.shown project.instruments.entries fun entry => entry.2.order).filter
    (visible pattern showAll)).map Prod.fst

/-- The project after the drop; a command that does nothing is an error that is ignored. -/
def onReorderRow (project : Tables) (pattern : Pattern) (showAll : Bool) (oldIndex newIndex : ℕ) :
    Tables :=
  let rows := visibleRows project pattern showAll
  match rows[oldIndex]? with
  | none => project
  | some id =>
    if newIndex = oldIndex ∨ rows.length ≤ newIndex then project
    else afterReorder project id newIndex

/-- How many visible others are in front of an order, or have it when it is a later one. -/
def visibleUpTo (project : Tables) (pattern : Pattern) (showAll : Bool) (id : InstrumentId)
    (source target : ℤ) : ℕ :=
  project.instruments.entries.countP fun entry => visible pattern showAll entry && (entry.1 ≠ id &&
    (entry.2.order < target || (source < target && entry.2.order = target)))

/-- The row is at the position, and the others are as they were among themselves. -/
structure Lands (project project' : Tables) (pattern : Pattern) (showAll : Bool) (id : InstrumentId)
    (position : ℕ) : Prop where
  landed : (visibleRows project' pattern showAll)[position]? = some id
  others : ∀ a b, a ≠ id → b ≠ id → ∀ i j, project.orders a = some i → project.orders b = some j →
    ∃ i' j', project'.orders a = some i' ∧ project'.orders b = some j' ∧ (i' < j' ↔ i < j)

variable {project : Tables} {pattern : Pattern} {showAll : Bool} {id : InstrumentId} {i j : ℕ}

theorem visible_iff (hdistinct : DistinctOrders project) (j : ℕ) :
    (visibleRows project pattern showAll)[j]? = some id ↔
      ∃ instrument, project.instruments.get? id = some instrument ∧
        visible pattern showAll (id, instrument) = true ∧
        project.instruments.entries.countP (fun other =>
          visible pattern showAll other && other.2.order < instrument.order) = j := by
  rw [visibleRows, List.getElem?_map, Option.map_eq_some_iff]
  constructor
  · rintro ⟨⟨_, instrument⟩, hentry, rfl⟩
    obtain ⟨⟨hmem, hvisible⟩, hcount⟩ := (RankedRows.getElem?_filter_shown_iff hdistinct _ _).1 hentry
    exact ⟨instrument, OrderedMap.get?_eq_some_iff.2 hmem, hvisible, hcount⟩
  · rintro ⟨instrument, hget, hvisible, hcount⟩
    exact ⟨(id, instrument), (RankedRows.getElem?_filter_shown_iff hdistinct _ _).2
      ⟨⟨OrderedMap.get?_eq_some_iff.1 hget, hvisible⟩, hcount⟩, rfl⟩

theorem orders_reordered {other : InstrumentId} {order source target : ℤ}
    (h : project.orders other = some order) :
    (project.reordered id source target).orders other =
      some (reorderedTo id other source target order) := by
  obtain ⟨instrument, hget, rfl⟩ := Option.map_eq_some_iff.1 h
  rw [Tables.orders, Tables.reordered, OrderedMap.get?_mapValues, hget]
  rfl

/-- Where the row is after a reorder. -/
theorem landed_reordered_iff {moving : Instrument} (hdistinct : DistinctOrders project)
    (hmoving : project.instruments.get? id = some moving)
    (hvisible : visible pattern showAll (id, moving) = true) (target : ℤ) (j : ℕ) :
    (visibleRows (project.reordered id moving.order target) pattern showAll)[j]? = some id ↔
      visibleUpTo project pattern showAll id moving.order target = j := by
  have hmoved : (project.reordered id moving.order target).instruments.get? id =
      some (moving.withOrder target) := by
    rw [Tables.reordered, OrderedMap.get?_mapValues, hmoving, Option.map_some, reorderedTo_self]
  have hcount : (project.reordered id moving.order target).instruments.entries.countP (fun other =>
      visible pattern showAll other && other.2.order < target) =
        visibleUpTo project pattern showAll id moving.order target := by
    rw [Tables.reordered, OrderedMap.mapValues, List.countP_map, visibleUpTo]
    refine List.countP_congr fun entry _ => ?_
    simp only [Function.comp_apply, Bool.and_eq_true, decide_eq_true_eq, Bool.or_eq_true]
    refine and_congr_right fun _ => ?_
    change reorderedTo id entry.1 moving.order target entry.2.order < target ↔ _
    by_cases hid : entry.1 = id
    · rw [hid, reorderedTo_self]
      exact iff_of_false (lt_irrefl _) fun h => h.1 rfl
    · rw [reorderedTo_lt_target_iff hid, and_iff_right hid]
  rw [visible_iff (distinct_reordered hmoving hdistinct target)]
  constructor
  · rintro ⟨instrument, hget, -, hj⟩
    obtain rfl := Option.some.inj (hmoved.symm.trans hget)
    rw [← hcount]
    exact hj
  · intro hj
    exact ⟨_, hmoved, hvisible, hcount.trans hj⟩

/-- **A row lands where it was dropped** exactly when as many visible others are in front of the order
it is given. -/
theorem lands_iff (source : ℤ) (hdistinct : DistinctOrders project)
    (hi : (visibleRows project pattern showAll)[i]? = some id)
    (hsource : project.orders id = some source)
    (hj : j < (visibleRows project pattern showAll).length) :
    Lands project (onReorderRow project pattern showAll i j) pattern showAll id j ↔
      j = i ∨ visibleUpTo project pattern showAll id source j = j := by
  obtain ⟨moving, hmoving, hvisible, -⟩ := (visible_iff hdistinct i).1 hi
  obtain rfl : moving.order = source := by
    rw [Tables.orders, hmoving] at hsource
    exact Option.some.inj hsource
  by_cases hsame : j = i
  · have hnone : onReorderRow project pattern showAll i j = project := by
      simp only [onReorderRow, hi, hsame, true_or, if_true]
    rw [hnone, hsame]
    exact iff_of_true ⟨hi, fun a b _ _ x y hx hy => ⟨x, y, hx, hy, Iff.rfl⟩⟩ (.inl rfl)
  · -- a visible position is a place that there is
    have hsize : (j : ℤ) = askedPlace project j := by
      have hle : (visibleRows project pattern showAll).length ≤ project.instruments.size := by
        have hperm : (RankedRows.shown project.instruments.entries fun entry =>
            entry.2.order).Perm _ := RankedRows.perm_shown hdistinct
        rw [visibleRows, List.length_map, OrderedMap.size, ← hperm.length_eq]
        exact List.length_filter_le _ _
      unfold askedPlace
      omega
    have hafter : onReorderRow project pattern showAll i j =
        project.reordered id moving.order j := by
      simp only [onReorderRow, hi, hsame, false_or, if_neg (Nat.not_le.2 hj)]
      rw [afterReorder_eq hmoving, ← hsize]
    rw [hafter, or_iff_right hsame]
    constructor
    · intro h
      exact (landed_reordered_iff hdistinct hmoving hvisible j j).1 h.landed
    · intro h
      refine ⟨(landed_reordered_iff hdistinct hmoving hvisible j j).2 h,
        fun a b ha hb x y hx hy => ⟨_, _, orders_reordered hx, orders_reordered hy, ?_⟩⟩
      obtain ⟨first, hfirst, rfl⟩ := Option.map_eq_some_iff.1 hx
      obtain ⟨second, hsecond, rfl⟩ := Option.map_eq_some_iff.1 hy
      exact reorderedTo_lt_iff ha hb (order_ne hmoving hdistinct hfirst ha)
        (order_ne hmoving hdistinct hsecond hb)

theorem lands_iff_three :
    Lands threeVoices (onReorderRow threeVoices {} true 0 2) {} true ⟨2⟩ 2 :=
  (lands_iff 0 (by decide +kernel) (by decide +kernel) (by decide +kernel) (by decide +kernel)).2
    (.inr (by decide +kernel))

/-- The first of three rows has been deleted: the two that are left do not change places. -/
theorem not_lands_gapped :
    ¬ Lands gappedVoices (onReorderRow gappedVoices {} true 0 1) {} true ⟨3⟩ 1 := by
  intro h
  exact absurd h.landed (by decide +kernel)

end RackStore

end OneBeat
