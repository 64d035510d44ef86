import Mathlib.Data.List.Count
import Mathlib.Data.List.Nodup
import Mathlib.Data.List.Range
import Mathlib.Order.Defs.LinearOrder
import Mathlib.Data.List.Perm.Subperm
import Mathlib.Order.Lattice

/-!
# Rows by rank

A list of rows is shown in the order of their keys without being sorted: the row at a position is
the first one that has as many smaller keys below it (`rowAt`).

* `map_rank_perm_range_iff` : the ranks are the positions, each of them once, exactly when no two
  rows have one key.
* `shown_iff_nodup` : so the positions show every row once and in order exactly then.
* `rowAt_eq_of_forall_lt` : the row with the largest key is the last one, in any case.
-/

namespace OneBeat

namespace RankedRows

variable {α β : Type*} [LinearOrder α] {rows : List β} {key : β → α} {x y : β} {i : ℕ}

/-- How many rows have a smaller key. -/
def rank (rows : List β) (key : β → α) (x : β) : ℕ := rows.countP fun y => key y < key x

/-- The first row of a rank. -/
def rowAt (rows : List β) (key : β → α) (i : ℕ) : Option β :=
  rows.find? fun x => rank rows key x = i

/-- Every position shows a row, no two show the same, and later ones show no smaller key. -/
structure Shown (rows : List β) (key : β → α) : Prop where
  defined : ∀ i < rows.length, ∃ x, rowAt rows key i = some x
  distinct : ∀ i j x, rowAt rows key i = some x → rowAt rows key j = some x → i = j
  ordered : ∀ i j x y, i ≤ j → rowAt rows key i = some x → rowAt rows key j = some y →
    key x ≤ key y

theorem rank_eq_of_rowAt (h : rowAt rows key i = some x) : x ∈ rows ∧ rank rows key x = i :=
  ⟨List.mem_of_find?_eq_some h, by simpa using List.find?_some h⟩

theorem rank_lt_length (hx : x ∈ rows) : rank rows key x < rows.length :=
  List.countP_lt_length_iff.2 ⟨x, hx, by simp⟩

theorem rank_mono (h : key x ≤ key y) : rank rows key x ≤ rank rows key y :=
  List.countP_mono_left fun z _ hz => by
    rw [decide_eq_true_eq] at hz ⊢
    exact hz.trans_le h

/-- A row with a smaller key has a smaller rank: it is counted for the other, and not for itself. -/
theorem rank_lt_rank (hx : x ∈ rows) (h : key x < key y) : rank rows key x < rank rows key y := by
  induction rows with
  | nil => cases hx
  | cons z rows ih =>
    have hmono : rank rows key x ≤ rank rows key y := rank_mono h.le
    unfold rank at hmono ih ⊢
    rw [List.countP_cons, List.countP_cons]
    rcases List.mem_cons.1 hx with rfl | hx
    · simp only [lt_irrefl, decide_false, Bool.false_eq_true, if_false, h, decide_true, if_true]
      omega
    · have hrest := ih hx
      by_cases hz : key z < key x
      · simp only [hz, hz.trans h, decide_true, if_true]
        omega
      · simp only [hz, decide_false, Bool.false_eq_true, if_false]
        omega

theorem rank_eq_iff (hx : x ∈ rows) (hy : y ∈ rows) :
    rank rows key x = rank rows key y ↔ key x = key y := by
  constructor
  · intro h
    rcases lt_trichotomy (key x) (key y) with hlt | heq | hgt
    · exact absurd h (rank_lt_rank hx hlt).ne
    · exact heq
    · exact absurd h (rank_lt_rank hy hgt).ne'
  · intro h
    unfold rank
    rw [h]

/-- The ranks repeat exactly as the keys do. -/
theorem nodup_map_rank_iff : (rows.map (rank rows key)).Nodup ↔ (rows.map key).Nodup := by
  rw [List.Nodup, List.Nodup, List.pairwise_map, List.pairwise_map]
  constructor
  · intro h
    exact h.imp_of_mem fun hx hy hne heq => hne ((rank_eq_iff hx hy).2 heq)
  · intro h
    exact h.imp_of_mem fun hx hy hne heq => hne ((rank_eq_iff hx hy).1 heq)

theorem map_rank_subset_range : rows.map (rank rows key) ⊆ List.range rows.length := by
  intro i hi
  obtain ⟨x, hx, rfl⟩ := List.mem_map.1 hi
  exact List.mem_range.2 (rank_lt_length hx)

/-- **The ranks are the positions**, each of them once. -/
theorem map_rank_perm_range_iff :
    (rows.map (rank rows key)).Perm (List.range rows.length) ↔ (rows.map key).Nodup := by
  constructor
  · intro h
    exact nodup_map_rank_iff.1 (h.nodup_iff.2 List.nodup_range)
  · intro h
    refine (List.subperm_of_subset (nodup_map_rank_iff.2 h)
      map_rank_subset_range).perm_of_length_le ?_
    rw [List.length_range, List.length_map]

/-- **Every row is shown once and in order** exactly when no two rows have one key. -/
theorem shown_iff_nodup : Shown rows key ↔ (rows.map key).Nodup := by
  rw [← map_rank_perm_range_iff]
  constructor
  · intro h
    -- as many ranks as positions, and every position among them
    refine ((List.subperm_of_subset List.nodup_range fun i hi => ?_).perm_of_length_le ?_).symm
    · obtain ⟨x, hx⟩ := h.defined i (List.mem_range.1 hi)
      obtain ⟨hmem, hrank⟩ := rank_eq_of_rowAt hx
      exact List.mem_map.2 ⟨x, hmem, hrank⟩
    · rw [List.length_range, List.length_map]
  · intro h
    refine ⟨fun i hi => ?_, fun i j x hi hj => ?_, fun i j x y hij hi hj => ?_⟩
    · obtain ⟨x, hx, hrank⟩ := List.mem_map.1 (h.mem_iff.2 (List.mem_range.2 hi))
      exact Option.isSome_iff_exists.1 (List.find?_isSome.2 ⟨x, hx, by simpa using hrank⟩)
    · exact (rank_eq_of_rowAt hi).2.symm.trans (rank_eq_of_rowAt hj).2
    · obtain ⟨hx, rfl⟩ := rank_eq_of_rowAt hi
      obtain ⟨hy, rfl⟩ := rank_eq_of_rowAt hj
      exact not_lt.1 fun hlt => (rank_lt_rank hy hlt).not_ge hij

/-- Where no two rows have one key, every row is at its rank. -/
theorem rowAt_rank (hnodup : (rows.map key).Nodup) (hx : x ∈ rows) :
    rowAt rows key (rank rows key x) = some x := by
  obtain ⟨y, hy⟩ := Option.isSome_iff_exists.1 (List.find?_isSome.2
    (⟨x, hx, by simp⟩ : ∃ y ∈ rows, decide (rank rows key y = rank rows key x) = true))
  obtain ⟨hmem, hrank⟩ := rank_eq_of_rowAt hy
  have heq := List.inj_on_of_nodup_map hnodup hmem hx ((rank_eq_iff hmem hx).1 hrank)
  exact hy.trans (congrArg some heq)

/-- The row with the largest key is the last one, whatever the others have. -/
theorem rowAt_eq_of_forall_lt (hx : x ∈ rows) (hnodup : rows.Nodup)
    (hlast : ∀ y ∈ rows, y ≠ x → key y < key x) :
    rowAt rows key (rows.length - 1) = some x := by
  have honce : rank rows key x + 1 = rows.length := by
    classical
    -- the one row that is not before it is the row itself
    have hself : rows.countP (fun y => ¬key y < key x) = rows.count x := by
      refine List.countP_congr fun y hy => ?_
      by_cases heq : y = x
      · simp [heq]
      · simp [heq, hlast y hy heq]
    rw [rank, List.length_eq_countP_add_countP (fun y => decide (key y < key x)),
      ← List.count_eq_one_of_mem hnodup hx, ← hself]
    simp
  obtain ⟨y, hy⟩ := Option.isSome_iff_exists.1 (List.find?_isSome.2
    (⟨x, hx, by simp; omega⟩ : ∃ x ∈ rows, decide (rank rows key x = rows.length - 1) = true))
  obtain ⟨hmem, hrank⟩ := rank_eq_of_rowAt hy
  by_cases heq : y = x
  · rw [← heq]
    exact hy
  · have hlt := rank_lt_rank hmem (hlast y hmem heq)
    omega

/-- The rows in the order of their positions. -/
def shown (rows : List β) (key : β → α) : List β :=
  (List.range rows.length).filterMap (rowAt rows key)

theorem sorted_shown : (shown rows key).Pairwise fun x y => key x < key y := by
  refine List.pairwise_filterMap.2 (List.pairwise_lt_range.imp fun {i j} hij x hx y hy => ?_)
  obtain ⟨hmem, rfl⟩ := rank_eq_of_rowAt hx
  obtain ⟨hmem', rfl⟩ := rank_eq_of_rowAt hy
  exact not_le.1 fun hle => (rank_mono hle).not_gt hij

theorem perm_shown (hnodup : (rows.map key).Nodup) : (shown rows key).Perm rows := by
  refine (List.perm_ext_iff_of_nodup (sorted_shown.imp fun hlt heq => ?_)
    (hnodup.of_map key)).2 fun x => ?_
  · rw [heq] at hlt
    exact lt_irrefl _ hlt
  · rw [shown, List.mem_filterMap]
    constructor
    · rintro ⟨i, -, hrow⟩
      exact (rank_eq_of_rowAt hrow).1
    · intro hx
      exact ⟨_, List.mem_range.2 (rank_lt_length hx), rowAt_rank hnodup hx⟩

/-- In a sorted list a row is behind those with smaller keys. -/
theorem getElem?_of_sorted {list : List β} (h : list.Pairwise fun x y => key x < key y) (j : ℕ) :
    list[j]? = some x ↔ x ∈ list ∧ list.countP (fun y => key y < key x) = j := by
  induction list generalizing j with
  | nil => simp
  | cons y list ih =>
    obtain ⟨hfirst, hlist⟩ := List.pairwise_cons.1 h
    rw [List.countP_cons, List.mem_cons]
    by_cases hx : x ∈ list
    · have hlt := hfirst x hx
      have hne : x ≠ y := by
        rintro rfl
        exact lt_irrefl _ hlt
      simp only [hx, hne, hlt, decide_true, if_true, false_or, true_and]
      cases j with
      | zero => simp [hne.symm]
      | succ j => rw [List.getElem?_cons_succ, ih hlist, and_iff_right hx, Nat.add_right_cancel_iff]
    · cases j with
      | zero =>
        rw [List.getElem?_cons_zero, Option.some_inj]
        refine ⟨?_, fun h => (h.1.resolve_right hx).symm⟩
        rintro rfl
        refine ⟨.inl rfl, ?_⟩
        rw [List.countP_eq_zero.2 fun z hz => by simpa using (hfirst z hz).le]
        simp
      | succ j =>
        rw [List.getElem?_cons_succ]
        refine ⟨fun hj => absurd (List.mem_of_getElem? hj) hx, ?_⟩
        rintro ⟨hmem, hcount⟩
        obtain rfl := hmem.resolve_right hx
        rw [List.countP_eq_zero.2 fun z hz => by simpa using (hfirst z hz).le] at hcount
        simp at hcount

/-- **The position of a row among some of the rows**: it is behind those with smaller keys. -/
theorem getElem?_filter_shown_iff (hnodup : (rows.map key).Nodup) (p : β → Bool) (j : ℕ) :
    ((shown rows key).filter p)[j]? = some x ↔
      (x ∈ rows ∧ p x = true) ∧ rows.countP (fun y => p y && key y < key x) = j := by
  rw [getElem?_of_sorted (sorted_shown.filter p), List.mem_filter, (perm_shown hnodup).mem_iff,
    List.countP_filter, (perm_shown hnodup).countP_eq]
  simp only [Bool.and_comm]

end RankedRows

end OneBeat
