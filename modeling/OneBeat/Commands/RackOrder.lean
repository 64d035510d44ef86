import OneBeat.Commands.Factories
import Mathlib.Data.Int.Interval

/-!
# The order of the rack

`reorderInstrument` of `model/commands.cpp` is given a place in the rack and takes it for an order.
The two are the same while the orders have no gap, and deleting an instrument leaves one.

* `apply_reorderInstrument` : the orders after a reorder.
* `distinct_reordered` : orders stay distinct.
* `reorders_iff` : the instrument gets its place exactly when no order is missing on the way to it.
-/

namespace OneBeat

/-! ### Orders -/

section Orders

variable {id a b : InstrumentId} {source target i j : ℤ}

/-- The one that moves leaves its order free, and the others close up. -/
theorem reorderedTo_lt_iff (ha : a ≠ id) (hb : b ≠ id) (hi : i ≠ source) (hj : j ≠ source) :
    reorderedTo id a source target i < reorderedTo id b source target j ↔ i < j := by
  unfold reorderedTo
  split_ifs <;> first | contradiction | omega

theorem reorderedTo_ne_target (ha : a ≠ id) (hi : i ≠ source) :
    reorderedTo id a source target i ≠ target := by
  unfold reorderedTo
  split_ifs <;> first | contradiction | omega

theorem reorderedTo_lt_target_iff (ha : a ≠ id) :
    reorderedTo id a source target i < target ↔ i < target ∨ (source < target ∧ i = target) := by
  unfold reorderedTo
  split_ifs <;> first | contradiction | omega

theorem reorderedTo_self : reorderedTo id id source target i = target := if_pos rfl

/-- An instrument that stays moves no other. -/
theorem reorderedTo_of_eq (ha : a ≠ id) : reorderedTo id a source source i = i := by
  unfold reorderedTo
  split_ifs <;> first | contradiction | omega

end Orders

/-! ### The command -/

variable {project : Tables} {id : InstrumentId} {moving : Instrument} {targetOrder : ℤ}

def Instrument.withOrder (instrument : Instrument) (order : ℤ) : Instrument :=
  { instrument with order }

/-- The place an instrument is asked to go to, of those there are. -/
def askedPlace (project : Tables) (targetOrder : ℤ) : ℤ :=
  max 0 (min targetOrder (project.instruments.size - 1))

/-- A project with an instrument moved to an order. -/
def Tables.reordered (project : Tables) (id : InstrumentId) (source target : ℤ) : Tables :=
  { project with
    instruments := project.instruments.mapValues fun other instrument =>
      instrument.withOrder (reorderedTo id other source target instrument.order) }

/-- The edit of the order of one instrument, when there is something to edit. -/
def orderEdit (project : Tables) (next : InstrumentId × Instrument → ℤ)
    (entry : InstrumentId × Instrument) : Option Command :=
  if next entry = entry.2.order then none
  else editInstrument project entry.1 .order fun instrument => instrument.withOrder (next entry)

/-- Edits of the orders of some instruments, each made from what was there before the first. -/
theorem applyAll_orderEdits (next : InstrumentId × Instrument → ℤ)
    {entries : List (InstrumentId × Instrument)} {project' : Tables}
    (hget : ∀ entry ∈ entries, project.instruments.get? entry.1 = some entry.2)
    (hthere : ∀ entry ∈ entries, project'.instruments.contains entry.1 = true) :
    (Command.applyAll (entries.filterMap (orderEdit project next)) project').ok = true ∧
      (Command.applyAll (entries.filterMap (orderEdit project next)) project').state =
        { project' with
          instruments := (entries.filter fun entry => next entry ≠ entry.2.order).foldl
            (fun instruments entry =>
              instruments.modify entry.1 fun _ => entry.2.withOrder (next entry))
            project'.instruments } := by
  induction entries generalizing project' with
  | nil => exact ⟨rfl, rfl⟩
  | cons entry entries ih =>
    obtain ⟨hentry, hentries⟩ := List.forall_mem_cons.1 hget
    obtain ⟨hthis, hlater⟩ := List.forall_mem_cons.1 hthere
    by_cases hsame : next entry = entry.2.order
    · have hedit : orderEdit project next entry = none := if_pos hsame
      rw [List.filterMap_cons_none hedit, List.filter_cons_of_neg (by simp [hsame])]
      exact ih hentries hlater
    · have hedit : orderEdit project next entry =
          some (.edit ⟨.instrument entry.1, .order, entry.2, entry.2.withOrder (next entry)⟩) := by
        rw [orderEdit, if_neg hsame, editInstrument, hentry, Option.map_some]
      rw [List.filterMap_cons_some hedit, List.filter_cons_of_pos (by simpa using hsame),
        List.foldl_cons]
      set between : Tables :=
        { project' with
          instruments := project'.instruments.modify entry.1 fun _ =>
            entry.2.withOrder (next entry) } with hbetween
      have hwrite : project'.updateInstrument entry.1 (fun _ => entry.2.withOrder (next entry)) =
          some between := if_pos hthis
      obtain ⟨hok, hstate⟩ := @ih between hentries fun other hother => by
        obtain ⟨held, hheld⟩ := OrderedMap.contains_eq_true_iff.1 (hlater other hother)
        rw [OrderedMap.contains_eq_true_iff, hbetween, OrderedMap.get?_modify, hheld]
        split_ifs <;> exact ⟨_, rfl⟩
      simp only [Command.applyAll, Command.apply, EditCommand.apply, EditTarget.write, hwrite,
        Outcome.ofOption, Outcome.map, if_true, hok]
      exact ⟨trivial, hstate⟩

/-- All instruments together. -/
theorem foldl_withOrder (next : InstrumentId × Instrument → ℤ) :
    (project.instruments.entries.filter fun entry => next entry ≠ entry.2.order).foldl
        (fun instruments entry =>
          instruments.modify entry.1 fun _ => entry.2.withOrder (next entry))
        project.instruments =
      project.instruments.mapValues fun id instrument =>
        instrument.withOrder (next (id, instrument)) := by
  refine OrderedMap.ext_get? fun id => ?_
  rw [OrderedMap.get?_mapValues]
  cases hget : project.instruments.get? id with
  | none =>
    rw [Option.map_none, ← Option.not_isSome_iff_eq_none,
      OrderedMap.isSome_get?_foldl_modify Prod.fst fun (entry : InstrumentId × Instrument) _ => entry.2.withOrder (next entry),
      hget]
    simp
  | some instrument =>
    rw [OrderedMap.get?_foldl_modify Prod.fst
      (fun (entry : InstrumentId × Instrument) _ => entry.2.withOrder (next entry))
      (fun _ => instrument.withOrder (next (id, instrument))) (fun _ => rfl) _ ?_, hget]
    · split_ifs with hedited
      · rfl
      · -- what is not edited has its order already
        have hsame : next (id, instrument) = instrument.order := by
          by_contra hne
          exact hedited (List.mem_map.2 ⟨(id, instrument),
            List.mem_filter.2 ⟨OrderedMap.get?_eq_some_iff.1 hget, by simpa using hne⟩, rfl⟩)
        rw [Option.map_some, hsame]
        rfl
    · rintro ⟨other, held⟩ hentry rfl
      have hheld := OrderedMap.get?_eq_some_iff.2 (List.mem_filter.1 hentry).1
      rw [hget, Option.some_inj] at hheld
      rw [hheld]

/-- **The orders after a reorder**: one composite that applies, or nothing because the order is the
one asked for. -/
theorem apply_reorderInstrument (hmoving : project.instruments.get? id = some moving)
    (targetOrder : ℤ) :
    (reorderInstrument project id targetOrder = none ∧
        project.reordered id moving.order (askedPlace project targetOrder) = project) ∨
      ∃ command, reorderInstrument project id targetOrder = some command ∧
        (command.apply project).ok = true ∧ (command.apply project).state =
          project.reordered id moving.order (askedPlace project targetOrder) := by
  have hcommand : reorderInstrument project id targetOrder =
      if moving.order = askedPlace project targetOrder then none
      else some (.composite (project.instruments.entries.filterMap (orderEdit project fun entry =>
        reorderedTo id entry.1 moving.order (askedPlace project targetOrder) entry.2.order))) := by
    rw [reorderInstrument, hmoving]
    rfl
  rw [hcommand]
  split_ifs with hsame
  · refine .inl ⟨rfl, ?_⟩
    have hinstruments : project.instruments.mapValues (fun other instrument =>
        instrument.withOrder (reorderedTo id other moving.order (askedPlace project targetOrder)
          instrument.order)) = project.instruments := by
      rw [← hsame]
      refine OrderedMap.mapValues_eq_self fun other instrument hother => ?_
      by_cases hid : other = id
      · subst hid
        rw [hmoving, Option.some_inj] at hother
        rw [reorderedTo_self, hother]
        rfl
      · rw [reorderedTo_of_eq hid]
        rfl
    rw [Tables.reordered, hinstruments]
  · obtain ⟨hok, hstate⟩ := @applyAll_orderEdits project (fun entry =>
      reorderedTo id entry.1 moving.order (askedPlace project targetOrder) entry.2.order)
      _ project (fun entry hentry => OrderedMap.get?_eq_some_iff.2 hentry)
      fun entry hentry => OrderedMap.contains_eq_true_iff.2
        ⟨entry.2, OrderedMap.get?_eq_some_iff.2 hentry⟩
    refine .inr ⟨_, rfl, hok, hstate.trans ?_⟩
    rw [foldl_withOrder]
    rfl

/-! ### The rack -/

/-- No two instruments have one order. -/
def DistinctOrders (project : Tables) : Prop :=
  (project.instruments.entries.map fun entry => entry.2.order).Nodup

instance (project : Tables) : Decidable (DistinctOrders project) :=
  inferInstanceAs (Decidable (List.Nodup _))

/-- The orders of the instruments there are. -/
def Tables.orders (project : Tables) (id : InstrumentId) : Option ℤ :=
  (project.instruments.get? id).map Instrument.order

theorem Tables.orders_eq_some_iff {id : InstrumentId} {order : ℤ} :
    project.orders id = some order ↔
      ∃ instrument, (id, instrument) ∈ project.instruments.entries ∧ instrument.order = order := by
  rw [Tables.orders, Option.map_eq_some_iff]
  simp only [OrderedMap.get?_eq_some_iff]

theorem lt_nextInstrumentOrder {id : InstrumentId} {order : ℤ}
    (h : project.orders id = some order) : order < nextInstrumentOrder project := by
  obtain ⟨instrument, hmem, rfl⟩ := Tables.orders_eq_some_iff.1 h
  exact lt_nextOrder (List.mem_map_of_mem (f := fun entry => entry.2.order) hmem)

/-- How many instruments are displayed before an order. -/
def displayedBefore (project : Tables) (order : ℤ) : ℕ :=
  (project.instruments.entries.filter fun entry => entry.2.order < order).length

/-- What a reorder leaves, also when there is nothing to do. -/
def afterReorder (project : Tables) (id : InstrumentId) (targetOrder : ℤ) : Tables :=
  match reorderInstrument project id targetOrder with
  | none => project
  | some command => (command.apply project).state

/-- An instrument has been put in a place, and the others are as they were among themselves. -/
structure PutInPlace (project project' : Tables) (id : InstrumentId) (place : ℤ) : Prop where
  distinct : DistinctOrders project'
  others : ∀ a b, a ≠ id → b ≠ id → ∀ i j, project.instruments.get? a = some i →
    project.instruments.get? b = some j →
    ∃ i' j', project'.instruments.get? a = some i' ∧ project'.instruments.get? b = some j' ∧
      (i'.order < j'.order ↔ i.order < j.order)
  place : ∃ moved, project'.instruments.get? id = some moved ∧
    (displayedBefore project' moved.order : ℤ) = place

/-- How many others are in front of an order, or have it when it is a later one. -/
def othersUpTo (project : Tables) (id : InstrumentId) (source target : ℤ) : ℕ :=
  (project.instruments.entries.filter fun entry => entry.1 ≠ id &&
    (entry.2.order < target || (source < target && entry.2.order = target))).length

theorem afterReorder_eq (hmoving : project.instruments.get? id = some moving) (targetOrder : ℤ) :
    afterReorder project id targetOrder =
      project.reordered id moving.order (askedPlace project targetOrder) := by
  rw [afterReorder]
  rcases apply_reorderInstrument hmoving targetOrder with ⟨hnone, hsame⟩ | ⟨command, hsome, -, hstate⟩
  · rw [hnone, hsame]
  · rw [hsome, ← hstate]

theorem order_ne (hmoving : project.instruments.get? id = some moving)
    (hdistinct : DistinctOrders project) {other : InstrumentId} {instrument : Instrument}
    (hother : project.instruments.get? other = some instrument) (hne : other ≠ id) :
    instrument.order ≠ moving.order := fun heq =>
  hne ((OrderedMap.nodup_map_entries_iff _ Instrument.order).1 hdistinct _ _ hother _ _ hmoving heq)

/-- **Orders stay distinct.** -/
theorem distinct_reordered (hmoving : project.instruments.get? id = some moving)
    (hdistinct : DistinctOrders project) (target : ℤ) :
    DistinctOrders (project.reordered id moving.order target) := by
  refine (OrderedMap.nodup_map_entries_iff _ Instrument.order).2 fun a i' hi' b j' hj' heq => ?_
  rw [Tables.reordered, OrderedMap.get?_mapValues] at hi' hj'
  obtain ⟨i, hi, rfl⟩ := Option.map_eq_some_iff.1 hi'
  obtain ⟨j, hj, rfl⟩ := Option.map_eq_some_iff.1 hj'
  have heq : reorderedTo id a moving.order target i.order =
      reorderedTo id b moving.order target j.order := heq
  by_cases ha : a = id
  · by_cases hb : b = id
    · rw [ha, hb]
    · rw [ha, reorderedTo_self] at heq
      exact absurd heq.symm (reorderedTo_ne_target hb (order_ne hmoving hdistinct hj hb))
  · have hi_ne := order_ne hmoving hdistinct hi ha
    by_cases hb : b = id
    · rw [hb, reorderedTo_self] at heq
      exact absurd heq (reorderedTo_ne_target ha hi_ne)
    · have hj_ne := order_ne hmoving hdistinct hj hb
      have hlt := (reorderedTo_lt_iff ha hb hi_ne hj_ne).not.1 heq.not_lt
      have hgt := (reorderedTo_lt_iff hb ha hj_ne hi_ne).not.1 heq.not_gt
      exact (OrderedMap.nodup_map_entries_iff _ Instrument.order).1 hdistinct _ _ hi _ _ hj
        (by omega)

/-- Before the place that was moved to are the others that were in front of it. -/
theorem displayedBefore_reordered (project : Tables) (id : InstrumentId) (source target : ℤ) :
    displayedBefore (project.reordered id source target) target =
      othersUpTo project id source target := by
  rw [displayedBefore, Tables.reordered, OrderedMap.mapValues, List.filter_map, List.length_map,
    othersUpTo]
  congr 1
  refine List.filter_congr fun entry _ => ?_
  rw [Bool.eq_iff_iff]
  simp only [Function.comp_apply, decide_eq_true_eq, Bool.and_eq_true, Bool.or_eq_true]
  change reorderedTo id entry.1 source target entry.2.order < target ↔ _
  by_cases hid : entry.1 = id
  · rw [hid, reorderedTo_self]
    exact iff_of_false (lt_irrefl _) fun h => h.1 rfl
  · rw [reorderedTo_lt_target_iff hid, and_iff_right hid]

/-- **An instrument gets the place it is asked to exactly when as many others are in front of the
order as there are places.** -/
theorem reorders_iff (hmoving : project.instruments.get? id = some moving)
    (hdistinct : DistinctOrders project) (targetOrder : ℤ) :
    PutInPlace project (afterReorder project id targetOrder) id (askedPlace project targetOrder) ↔
      (othersUpTo project id moving.order (askedPlace project targetOrder) : ℤ) =
        askedPlace project targetOrder := by
  rw [afterReorder_eq hmoving]
  set target := askedPlace project targetOrder with htarget
  have hget : ∀ {other instrument}, project.instruments.get? other = some instrument →
      (project.reordered id moving.order target).instruments.get? other =
        some (instrument.withOrder (reorderedTo id other moving.order target instrument.order)) := by
    intro other instrument hother
    rw [Tables.reordered, OrderedMap.get?_mapValues, hother, Option.map_some]
  have hmoved : (project.reordered id moving.order target).instruments.get? id =
      some (moving.withOrder target) := by
    rw [hget hmoving, reorderedTo_self]
  rw [← displayedBefore_reordered]
  constructor
  · intro h
    obtain ⟨moved, hmoved', hplace⟩ := h.place
    rw [hmoved, Option.some_inj] at hmoved'
    rw [← hmoved'] at hplace
    exact hplace
  · intro hplace
    refine ⟨distinct_reordered hmoving hdistinct target, fun a b ha hb i j hi hj => ?_,
      ⟨_, hmoved, hplace⟩⟩
    exact ⟨_, _, hget hi, hget hj, reorderedTo_lt_iff ha hb (order_ne hmoving hdistinct hi ha)
      (order_ne hmoving hdistinct hj hb)⟩

/-- Three instruments in a rack without a gap. -/
def threeVoices : Tables :=
  { newProject ⟨1⟩ with
    instruments := ((OrderedMap.empty.assign ⟨2⟩ { order := 0 }).assign ⟨3⟩ { order := 1 }).assign
      ⟨4⟩ { order := 2 } }

/-- The first of three goes to the end. -/
theorem reorders_iff_three :
    PutInPlace threeVoices (afterReorder threeVoices ⟨2⟩ 2) ⟨2⟩ (askedPlace threeVoices 2) :=
  (reorders_iff (show threeVoices.instruments.get? ⟨2⟩ = some { order := 0 } by decide +kernel)
    (by decide +kernel) 2).2 (by decide +kernel)

/-- The rack when the first has been deleted. -/
def gappedVoices : Tables :=
  { newProject ⟨1⟩ with
    instruments := (OrderedMap.empty.assign ⟨3⟩ { order := 1 }).assign ⟨4⟩ { order := 2 } }

/-- The two that are left are asked to change places, and nothing moves. -/
theorem not_reorders_gapped : threeVoices.deleteInstrument ⟨2⟩ = some gappedVoices ∧
    DistinctOrders gappedVoices ∧ askedPlace gappedVoices 1 = 1 ∧
      reorderInstrument gappedVoices ⟨3⟩ 1 = none ∧
      ¬PutInPlace gappedVoices (afterReorder gappedVoices ⟨3⟩ 1) ⟨3⟩ 1 := by
  have hnone : reorderInstrument gappedVoices ⟨3⟩ 1 = none := rfl
  refine ⟨by decide +kernel, by decide +kernel, by decide +kernel, hnone, fun h => ?_⟩
  obtain ⟨moved, hmoved, hplace⟩ := h.place
  rw [afterReorder, hnone] at hmoved hplace
  have hfirst : gappedVoices.instruments.get? ⟨3⟩ = some { order := 1 } := by decide +kernel
  rw [hfirst, Option.some_inj] at hmoved
  rw [← hmoved] at hplace
  exact absurd hplace (by decide +kernel)

end OneBeat
