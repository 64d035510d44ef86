import Mathlib.Data.List.Basic
import Mathlib.Data.List.Nodup

/-!
# Rows under keys

A table is a list of rows, and a row carries its key.  `upsert` puts a row in the place of the row
with its key, or at the end.

* `Keyed` : one row a key;
* `mem_upsert`, `Keyed.upsert` : what a table has after an `upsert`;
* `mem_foldl_upsert` : and after many, where the last row of a key counts.
-/

namespace OneBeat.KeyedRows

variable {ρ κ : Type*} (key : ρ → κ)

/-- One row a key. -/
def Keyed (rows : List ρ) : Prop := (rows.map key).Nodup

variable [DecidableEq κ]

instance (rows : List ρ) : Decidable (Keyed key rows) :=
  inferInstanceAs (Decidable (rows.map key).Nodup)

/-- Insert, or replace the first row with the same key. -/
def upsert : List ρ → ρ → List ρ
  | [], row => [row]
  | existing :: rows, row =>
    if key existing = key row then row :: rows else existing :: upsert rows row

variable {key} {rows news : List ρ} {row new : ρ}

omit [DecidableEq κ] in
theorem Keyed.eq_of_mem (h : Keyed key rows) (hrow : row ∈ rows) (hnew : new ∈ rows)
    (hkey : key row = key new) : row = new :=
  List.inj_on_of_nodup_map h hrow hnew hkey

theorem mem_map_upsert {k : κ} :
    k ∈ (upsert key rows new).map key ↔ k ∈ rows.map key ∨ k = key new := by
  induction rows with
  | nil => simp [upsert]
  | cons existing rows ih =>
    by_cases hkey : key existing = key new
    · simp only [upsert, hkey, if_true, List.map_cons, List.mem_cons]
      tauto
    · simp only [upsert, hkey, if_false, List.map_cons, List.mem_cons, ih]
      tauto

/-- What has been put in is there, and the others are still there. -/
theorem mem_upsert (h : Keyed key rows) :
    row ∈ upsert key rows new ↔ row = new ∨ row ∈ rows ∧ key row ≠ key new := by
  induction rows with
  | nil => simp [upsert]
  | cons existing rows ih =>
    obtain ⟨hnotin, hrest⟩ := List.nodup_cons.1 h
    by_cases hkey : key existing = key new
    · -- the rest has no row with the key
      have hother : ∀ row ∈ rows, key row ≠ key new := by
        intro row hrow heq
        exact hnotin (hkey.trans heq.symm ▸ List.mem_map_of_mem hrow)
      simp only [upsert, hkey, if_true, List.mem_cons]
      constructor
      · rintro (rfl | hrow)
        · exact .inl rfl
        · exact .inr ⟨.inr hrow, hother row hrow⟩
      · rintro (rfl | ⟨rfl | hrow, hne⟩)
        · exact .inl rfl
        · exact absurd hkey hne
        · exact .inr hrow
    · simp only [upsert, hkey, if_false, List.mem_cons, ih hrest]
      constructor
      · rintro (rfl | rfl | ⟨hrow, hne⟩)
        · exact .inr ⟨.inl rfl, hkey⟩
        · exact .inl rfl
        · exact .inr ⟨.inr hrow, hne⟩
      · rintro (rfl | ⟨rfl | hrow, hne⟩)
        · exact .inr (.inl rfl)
        · exact .inl rfl
        · exact .inr (.inr ⟨hrow, hne⟩)

theorem Keyed.upsert (h : Keyed key rows) (new : ρ) : Keyed key (upsert key rows new) := by
  induction rows with
  | nil => exact List.nodup_singleton _
  | cons existing rows ih =>
    obtain ⟨hnotin, hrest⟩ := List.nodup_cons.1 h
    by_cases hkey : key existing = key new
    · simp only [Keyed, KeyedRows.upsert, hkey, if_true, List.map_cons]
      exact List.nodup_cons.2 ⟨hkey ▸ hnotin, hrest⟩
    · simp only [Keyed, KeyedRows.upsert, hkey, if_false, List.map_cons]
      refine List.nodup_cons.2 ⟨?_, ih hrest⟩
      rw [mem_map_upsert]
      rintro (hmem | heq)
      · exact hnotin hmem
      · exact hkey heq

/-- A row that is there already. -/
theorem upsert_of_mem (h : Keyed key rows) (hnew : new ∈ rows) : upsert key rows new = rows := by
  induction rows with
  | nil => cases hnew
  | cons row rows ih =>
    obtain ⟨hnot, hrest⟩ := List.nodup_cons.1 h
    rw [upsert]
    split_ifs with hkey
    · rw [h.eq_of_mem List.mem_cons_self hnew hkey]
    · rcases List.mem_cons.1 hnew with rfl | hnew
      · exact absurd rfl hkey
      · rw [ih hrest hnew]

theorem foldl_upsert_of_forall_mem (h : Keyed key rows) {news : List ρ}
    (hnews : ∀ new ∈ news, new ∈ rows) : news.foldl (upsert key) rows = rows := by
  induction news with
  | nil => rfl
  | cons new news ih =>
    rw [List.foldl_cons, upsert_of_mem h (hnews new List.mem_cons_self)]
    exact ih fun other hother => hnews other (List.mem_cons_of_mem _ hother)

omit [DecidableEq κ] in
theorem Keyed.filter (h : Keyed key rows) (p : ρ → Bool) : Keyed key (rows.filter p) :=
  List.Nodup.sublist (List.filter_sublist.map key) h

/-- Of the rows put in, those whose key no later one has are there, and of the others those whose
key none has. -/
theorem mem_foldl_upsert (h : Keyed key rows) :
    row ∈ news.foldl (upsert key) rows ↔
      (news.filter fun new => key new = key row).getLast? = some row ∨
        row ∈ rows ∧ key row ∉ news.map key := by
  induction news generalizing rows with
  | nil => simp
  | cons new news ih =>
    rw [List.foldl_cons, ih (h.upsert new), mem_upsert h]
    by_cases hkey : key new = key row
    · rw [List.filter_cons_of_pos (by simpa using hkey), List.getLast?_cons]
      cases hlast : (news.filter fun new => key new = key row).getLast? with
      | some last =>
        -- a later row has the key
        have hmem := List.mem_of_mem_getLast? hlast
        have hin : key row ∈ news.map key := by
          obtain ⟨hlast', heq⟩ := List.mem_filter.1 hmem
          exact List.mem_map.2 ⟨last, hlast', by simpa using heq⟩
        simp [hin]
      | none =>
        have hnotin : key row ∉ news.map key := by
          intro hin
          obtain ⟨other, hother, heq⟩ := List.mem_map.1 hin
          have hnil := List.getLast?_eq_none_iff.1 hlast
          exact List.not_mem_nil (hnil ▸ List.mem_filter.2 ⟨hother, by simpa using heq⟩)
        simp [hnotin, hkey, eq_comm]
    · rw [List.filter_cons_of_neg (by simpa using hkey)]
      have hne : row ≠ new := by
        rintro rfl
        exact hkey rfl
      simp [hne, Ne.symm hkey]

/-- When rows of one key are put in only once, all that are put in are there. -/
theorem mem_foldl_upsert_of_agree (h : Keyed key rows)
    (hagree : ∀ a ∈ news, ∀ b ∈ news, key a = key b → a = b) :
    row ∈ news.foldl (upsert key) rows ↔ row ∈ news ∨ row ∈ rows ∧ key row ∉ news.map key := by
  rw [mem_foldl_upsert h]
  refine or_congr_left ?_
  constructor
  · intro hlast
    exact (List.mem_filter.1 (List.mem_of_mem_getLast? hlast)).1
  · intro hrow
    have hmem : row ∈ news.filter fun new => key new = key row :=
      List.mem_filter.2 ⟨hrow, by simp⟩
    cases hlast : (news.filter fun new => key new = key row).getLast? with
    | none => exact absurd hmem (List.getLast?_eq_none_iff.1 hlast ▸ List.not_mem_nil)
    | some last =>
      obtain ⟨hin, heq⟩ := List.mem_filter.1 (List.mem_of_mem_getLast? hlast)
      rw [hagree last hin row hrow (by simpa using heq)]

end OneBeat.KeyedRows
