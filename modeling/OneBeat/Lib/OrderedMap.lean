import Mathlib.Data.List.Sort
import Mathlib.Data.List.Pairwise
import Mathlib.Order.Basic

/-!
# Ordered maps as sorted association lists

An executable model of an ordered map with unique keys: the entries are a list whose keys
increase strictly, so iteration is in key order and two maps with the same lookups are equal
(`OrderedMap.ext_get?`).

* `Entries.get?`, `Entries.assign`, `Entries.erase` work on bare lists of entries, for data
  types that cannot carry the proof of sortedness;
* `OrderedMap` bundles a list with that proof, and `OrderedMap.get?_assign`, `get?_emplace`,
  `get?_erase`, `get?_modify`, `get?_filter`, `get?_mapValues` say what every operation does to
  a lookup.
-/

namespace OneBeat

namespace Entries

variable {α β γ : Type*}

/-- The keys increase strictly. -/
def Sorted [LT α] (l : List (α × β)) : Prop := (l.map Prod.fst).Pairwise (· < ·)

instance [LT α] [DecidableLT α] (l : List (α × β)) : Decidable (Sorted l) :=
  inferInstanceAs (Decidable (List.Pairwise _ _))

/-- The value stored under `k`. -/
def get? [DecidableEq α] (l : List (α × β)) (k : α) : Option β :=
  match l with
  | [] => none
  | (k', v) :: l => if k' = k then some v else get? l k

/-- Store `v` under `k`, replacing what was there. -/
def assign [LinearOrder α] (l : List (α × β)) (k : α) (v : β) : List (α × β) :=
  match l with
  | [] => [(k, v)]
  | (k', v') :: l =>
    if k < k' then (k, v) :: (k', v') :: l
    else if k = k' then (k, v) :: l
    else (k', v') :: assign l k v

/-- Remove the entry of `k`. -/
def erase [DecidableEq α] (l : List (α × β)) (k : α) : List (α × β) :=
  l.filter fun e => e.1 ≠ k

section Lookup

variable [DecidableEq α]

@[simp] theorem get?_nil (k : α) : get? ([] : List (α × β)) k = none := rfl

theorem get?_cons (k k' : α) (v : β) (l : List (α × β)) :
    get? ((k', v) :: l) k = if k' = k then some v else get? l k := rfl

theorem get?_eq_none_iff {l : List (α × β)} {k : α} :
    get? l k = none ↔ k ∉ l.map Prod.fst := by
  induction l with
  | nil => simp
  | cons e l ih =>
    obtain ⟨k', v⟩ := e
    rw [get?_cons]
    split_ifs with h
    · simp [h]
    · simp only [ih, List.map_cons, List.mem_cons, not_or]
      exact ⟨fun hl => ⟨fun hk => h hk.symm, hl⟩, fun hl => hl.2⟩

theorem mem_of_get? {l : List (α × β)} {k : α} {v : β} (h : get? l k = some v) : (k, v) ∈ l := by
  induction l with
  | nil => simp at h
  | cons e l ih =>
    obtain ⟨k', v'⟩ := e
    rw [get?_cons] at h
    split_ifs at h with hk
    · cases h; subst hk; exact List.mem_cons_self
    · exact List.mem_cons_of_mem _ (ih h)

theorem get?_erase (l : List (α × β)) (k k' : α) :
    get? (erase l k) k' = if k' = k then none else get? l k' := by
  induction l with
  | nil => simp [erase]
  | cons e l ih =>
    obtain ⟨k₀, v₀⟩ := e
    unfold erase at ih ⊢
    rw [List.filter_cons]
    by_cases h₀ : k₀ = k
    · subst h₀
      simp only [ne_eq, not_true_eq_false, decide_false, Bool.false_eq_true, ↓reduceIte]
      rw [ih, get?_cons]
      by_cases h : k' = k₀
      · simp [h]
      · simp [h, Ne.symm h]
    · simp only [ne_eq, h₀, not_false_eq_true, decide_true, ↓reduceIte, get?_cons]
      rw [ih]
      by_cases h : k₀ = k'
      · subst h; simp [h₀]
      · simp [h]

theorem get?_append (l₁ l₂ : List (α × β)) (k : α) :
    get? (l₁ ++ l₂) k = (get? l₁ k).or (get? l₂ k) := by
  induction l₁ with
  | nil => simp
  | cons e l₁ ih =>
    obtain ⟨k', v⟩ := e
    rw [List.cons_append, get?_cons, get?_cons]
    split_ifs
    · rfl
    · exact ih

end Lookup

section Order

variable [LinearOrder α]

theorem sorted_cons {k : α} {v : β} {l : List (α × β)} :
    Sorted ((k, v) :: l) ↔ (∀ e ∈ l, k < e.1) ∧ Sorted l := by
  simp [Sorted, List.pairwise_cons]

theorem get?_eq_some_iff {l : List (α × β)} (hl : Sorted l) {k : α} {v : β} :
    get? l k = some v ↔ (k, v) ∈ l := by
  refine ⟨mem_of_get?, fun h => ?_⟩
  induction l with
  | nil => simp at h
  | cons e l ih =>
    obtain ⟨k', v'⟩ := e
    obtain ⟨hlt, hl'⟩ := sorted_cons.1 hl
    rw [get?_cons]
    rcases List.mem_cons.1 h with he | hm
    · cases he; simp
    · have : k' ≠ k := (hlt _ hm).ne
      rw [if_neg this, ih hl' hm]

theorem mem_assign {l : List (α × β)} {k : α} {v : β} {e : α × β} (h : e ∈ assign l k v) :
    e = (k, v) ∨ e ∈ l := by
  induction l with
  | nil => simpa [assign] using h
  | cons e' l ih =>
    obtain ⟨k', v'⟩ := e'
    rw [assign] at h
    split_ifs at h with h₁ h₂
    · simpa using h
    · rcases List.mem_cons.1 h with h | h
      · exact .inl h
      · exact .inr (List.mem_cons_of_mem _ h)
    · rcases List.mem_cons.1 h with h | h
      · exact .inr (h ▸ List.mem_cons_self)
      · exact (ih h).imp id (List.mem_cons_of_mem _)

theorem get?_assign (l : List (α × β)) (k k' : α) (v : β) :
    get? (assign l k v) k' = if k' = k then some v else get? l k' := by
  induction l with
  | nil =>
    simp only [assign, get?_cons, get?_nil]
    simp [eq_comm]
  | cons e l ih =>
    obtain ⟨k₀, v₀⟩ := e
    rw [assign]
    by_cases h₁ : k < k₀
    · rw [if_pos h₁, get?_cons]
      simp only [eq_comm]
    · rw [if_neg h₁]
      by_cases h₂ : k = k₀
      · subst h₂
        rw [if_pos rfl, get?_cons, get?_cons]
        by_cases h : k = k'
        · simp [h]
        · simp [h, Ne.symm h]
      · rw [if_neg h₂, get?_cons, get?_cons, ih]
        by_cases h : k₀ = k'
        · subst h; simp [Ne.symm h₂]
        · simp [h]

theorem Sorted.assign {l : List (α × β)} (hl : Sorted l) (k : α) (v : β) :
    Sorted (Entries.assign l k v) := by
  induction l with
  | nil => simp [Entries.assign, Sorted]
  | cons e l ih =>
    obtain ⟨k', v'⟩ := e
    obtain ⟨hlt, hl'⟩ := sorted_cons.1 hl
    rw [Entries.assign]
    split_ifs with h₁ h₂
    · refine sorted_cons.2 ⟨fun e he => ?_, hl⟩
      rcases List.mem_cons.1 he with rfl | he
      · exact h₁
      · exact h₁.trans (hlt e he)
    · subst h₂; exact sorted_cons.2 ⟨hlt, hl'⟩
    · refine sorted_cons.2 ⟨fun e he => ?_, ih hl'⟩
      rcases mem_assign he with rfl | he
      · exact lt_of_le_of_ne (not_lt.1 h₁) (Ne.symm h₂)
      · exact hlt e he

theorem Sorted.filter {l : List (α × β)} (hl : Sorted l) (p : α × β → Bool) :
    Sorted (l.filter p) :=
  List.Pairwise.sublist (List.filter_sublist.map _) hl

theorem Sorted.erase {l : List (α × β)} (hl : Sorted l) (k : α) : Sorted (Entries.erase l k) :=
  hl.filter _

/-- Sorted lists of entries with the same lookups are equal. -/
theorem ext_get? {l₁ l₂ : List (α × β)} (h₁ : Sorted l₁) (h₂ : Sorted l₂)
    (h : ∀ k, get? l₁ k = get? l₂ k) : l₁ = l₂ := by
  have hmem : ∀ e, e ∈ l₁ ↔ e ∈ l₂ := by
    rintro ⟨k, v⟩
    rw [← get?_eq_some_iff h₁, ← get?_eq_some_iff h₂, h]
  have hp₁ : l₁.Pairwise fun a b => a.1 < b.1 := List.pairwise_map.1 h₁
  have hp₂ : l₂.Pairwise fun a b => a.1 < b.1 := List.pairwise_map.1 h₂
  have hnd₁ : l₁.Nodup := hp₁.imp fun hlt he => hlt.ne (congrArg Prod.fst he)
  have hnd₂ : l₂.Nodup := hp₂.imp fun hlt he => hlt.ne (congrArg Prod.fst he)
  exact ((List.perm_ext_iff_of_nodup hnd₁ hnd₂).2 hmem).eq_of_pairwise
    (fun a b _ _ hab hba => absurd hab hba.asymm) hp₁ hp₂

/-- Store the entries of a list one after the other. -/
theorem get?_foldl_assign {l : List (α × β)}
    (hl : ∀ e ∈ l, ∀ e' ∈ l, e.1 = e'.1 → e = e') (m : List (α × β)) (k : α) :
    get? (l.foldl (fun m e => assign m e.1 e.2) m) k = (get? l k).or (get? m k) := by
  induction l generalizing m with
  | nil => rfl
  | cons e l ih =>
    obtain ⟨k', v⟩ := e
    rw [List.foldl_cons, ih fun e he e' he' => hl e (.tail _ he) e' (.tail _ he'), get?_assign,
      get?_cons]
    by_cases h : k' = k
    · subst h
      cases hget : get? l k' with
      | none => simp
      | some w =>
        have := hl (k', v) List.mem_cons_self (k', w) (.tail _ (mem_of_get? hget)) rfl
        cases this
        simp
    · simp [h, Ne.symm h]

theorem Sorted.foldl_assign {m : List (α × β)} (hm : Sorted m) (l : List (α × β)) :
    Sorted (l.foldl (fun m e => Entries.assign m e.1 e.2) m) := by
  induction l generalizing m with
  | nil => exact hm
  | cons e l ih => exact ih (hm.assign e.1 e.2)

/-- Storing the entries of a sorted list, in any order, builds that list. -/
theorem foldl_assign_eq {l l' : List (α × β)} (hl : Sorted l) (h : ∀ e, e ∈ l' ↔ e ∈ l) :
    l'.foldl (fun m e => assign m e.1 e.2) [] = l := by
  have hfunctional : ∀ e ∈ l', ∀ e' ∈ l', e.1 = e'.1 → e = e' := by
    rintro ⟨k, v⟩ he ⟨k', v'⟩ he' rfl
    have := (get?_eq_some_iff hl).2 ((h _).1 he)
    rw [(get?_eq_some_iff hl).2 ((h _).1 he')] at this
    cases this
    rfl
  refine ext_get? (Sorted.foldl_assign (m := []) List.Pairwise.nil l') hl fun k => ?_
  rw [get?_foldl_assign hfunctional, get?_nil, Option.or_none]
  cases hget : get? l k with
  | none =>
    rw [get?_eq_none_iff] at hget ⊢
    intro hk
    obtain ⟨e, he, rfl⟩ := List.mem_map.1 hk
    exact hget (List.mem_map_of_mem ((h e).1 he))
  | some v =>
    have hmem := (h _).2 (mem_of_get? hget)
    cases hget' : get? l' k with
    | none => exact absurd (List.mem_map_of_mem (f := Prod.fst) hmem) (get?_eq_none_iff.1 hget')
    | some w =>
      have := hfunctional _ hmem _ (mem_of_get? hget') rfl
      cases this
      rfl

end Order

end Entries

/-- A finite map from `α` to `β`: entries in strictly increasing key order. -/
structure OrderedMap (α β : Type*) [LinearOrder α] where
  /-- The entries, in key order. -/
  entries : List (α × β)
  /-- The keys increase strictly. -/
  sorted : Entries.Sorted entries

namespace OrderedMap

variable {α β γ : Type*} [LinearOrder α]

instance [DecidableEq β] : DecidableEq (OrderedMap α β) := fun m₁ m₂ =>
  decidable_of_iff (m₁.entries = m₂.entries) (by cases m₁; cases m₂; simp)

/-- The map without entries. -/
def empty : OrderedMap α β := ⟨[], List.Pairwise.nil⟩

instance : Inhabited (OrderedMap α β) := ⟨empty⟩

variable (m : OrderedMap α β)

/-- The value stored under `k`. -/
def get? (k : α) : Option β := Entries.get? m.entries k

/-- `k` has an entry. -/
def contains (k : α) : Bool := (m.get? k).isSome

/-- The keys, in order. -/
def keys : List α := m.entries.map Prod.fst

/-- The number of entries. -/
def size : ℕ := m.entries.length

/-- Store `v` under `k`, replacing what was there. -/
def assign (k : α) (v : β) : OrderedMap α β := ⟨Entries.assign m.entries k v, m.sorted.assign k v⟩

/-- Store `v` under `k` unless `k` has an entry. -/
def emplace (k : α) (v : β) : OrderedMap α β := if m.contains k then m else m.assign k v

/-- Remove the entry of `k`. -/
def erase (k : α) : OrderedMap α β := ⟨Entries.erase m.entries k, m.sorted.erase k⟩

/-- Keep the entries that satisfy `p`. -/
def filter (p : α → β → Bool) : OrderedMap α β :=
  ⟨m.entries.filter fun e => p e.1 e.2, m.sorted.filter _⟩

/-- Replace every value. -/
def mapValues (f : α → β → γ) : OrderedMap α γ :=
  ⟨m.entries.map fun e => (e.1, f e.1 e.2), by
    have h := m.sorted
    unfold Entries.Sorted at h ⊢
    rwa [List.map_map, show (Prod.fst ∘ fun e : α × β => (e.1, f e.1 e.2)) = Prod.fst from rfl]⟩

/-- Replace the value of `k`, if there is one. -/
def modify (k : α) (f : β → β) : OrderedMap α β :=
  m.mapValues fun k' v => if k' = k then f v else v

/-- The keys whose value satisfies `p`, in order. -/
def keysWhere (p : β → Bool) : List α := (m.entries.filter fun e => p e.2).map Prod.fst

variable {m}

theorem ext_get? {m₁ m₂ : OrderedMap α β} (h : ∀ k, m₁.get? k = m₂.get? k) : m₁ = m₂ := by
  obtain ⟨l₁, h₁⟩ := m₁
  obtain ⟨l₂, h₂⟩ := m₂
  have := Entries.ext_get? h₁ h₂ h
  subst this; rfl

@[simp] theorem get?_empty (k : α) : (empty : OrderedMap α β).get? k = none := rfl

@[simp] theorem contains_eq_true_iff {k : α} : m.contains k = true ↔ ∃ v, m.get? k = some v := by
  rw [contains, Option.isSome_iff_exists]

theorem contains_eq_false_iff {k : α} : m.contains k = false ↔ m.get? k = none := by
  rw [contains, Option.isSome_eq_false_iff, Option.isNone_iff_eq_none]

theorem get?_eq_some_iff {k : α} {v : β} : m.get? k = some v ↔ (k, v) ∈ m.entries :=
  Entries.get?_eq_some_iff m.sorted

@[simp] theorem get?_assign (k k' : α) (v : β) :
    (m.assign k v).get? k' = if k' = k then some v else m.get? k' :=
  Entries.get?_assign _ _ _ _

/-- What holds of every entry and of the one that is written. -/
theorem forall_assign {p : α → β → Prop} {k : α} {v : β} (h : ∀ k v, m.get? k = some v → p k v)
    (hv : p k v) (k' : α) (v' : β) (hget : (m.assign k v).get? k' = some v') : p k' v' := by
  rw [get?_assign] at hget
  split_ifs at hget with heq
  · cases hget
    exact heq ▸ hv
  · exact h k' v' hget

@[simp] theorem get?_erase (k k' : α) :
    (m.erase k).get? k' = if k' = k then none else m.get? k' :=
  Entries.get?_erase _ _ _

theorem forall_erase {p : α → β → Prop} (h : ∀ k v, m.get? k = some v → p k v) (k k' : α) (v : β)
    (hget : (m.erase k).get? k' = some v) : p k' v := by
  rw [get?_erase] at hget
  split_ifs at hget
  exact h k' v hget

theorem get?_emplace (k k' : α) (v : β) :
    (m.emplace k v).get? k' =
      if k' = k then some ((m.get? k).getD v) else m.get? k' := by
  unfold emplace
  cases h : m.get? k with
  | none => simp [contains, h]
  | some w =>
    simp only [contains, h, Option.isSome_some, ↓reduceIte, Option.getD_some]
    split_ifs with hk
    · rw [hk, h]
    · rfl

theorem get?_filter (p : α → β → Bool) (k : α) :
    (m.filter p).get? k = (m.get? k).filter (p k) := by
  ext v
  rw [get?_eq_some_iff, Option.filter_eq_some_iff, get?_eq_some_iff]
  simp [filter]

@[simp] theorem get?_mapValues (f : α → β → γ) (k : α) :
    (m.mapValues f).get? k = (m.get? k).map (f k) := by
  unfold get? mapValues
  simp only
  induction m.entries with
  | nil => rfl
  | cons e l ih =>
    obtain ⟨k', v⟩ := e
    rw [List.map_cons, Entries.get?_cons, Entries.get?_cons]
    split_ifs with h
    · subst h; rfl
    · exact ih

@[simp] theorem get?_modify (k k' : α) (f : β → β) :
    (m.modify k f).get? k' = if k' = k then (m.get? k').map f else m.get? k' := by
  rw [modify, get?_mapValues]
  split_ifs <;> simp

theorem forall_modify {p : α → β → Prop} {k : α} {f : β → β}
    (h : ∀ k v, m.get? k = some v → p k v) (hf : ∀ v, p k v → p k (f v)) (k' : α) (v : β)
    (hget : (m.modify k f).get? k' = some v) : p k' v := by
  rw [get?_modify] at hget
  split_ifs at hget with heq
  · obtain ⟨before, hbefore, rfl⟩ := Option.map_eq_some_iff.1 hget
    exact heq ▸ hf before (heq ▸ h k' before hbefore)
  · exact h k' v hget

theorem mapValues_mapValues {δ : Type*} (f : α → β → γ) (g : α → γ → δ) :
    (m.mapValues f).mapValues g = m.mapValues fun k v => g k (f k v) :=
  ext_get? fun k => by simp only [get?_mapValues, Option.map_map]; rfl

theorem mapValues_congr {f g : α → β → γ} (h : ∀ k v, m.get? k = some v → f k v = g k v) :
    m.mapValues f = m.mapValues g := by
  refine ext_get? fun k => ?_
  rw [get?_mapValues, get?_mapValues]
  cases hk : m.get? k with
  | none => rfl
  | some v => rw [Option.map_some, Option.map_some, h k v hk]

theorem mapValues_eq_self {f : α → β → β} (h : ∀ k v, m.get? k = some v → f k v = v) :
    m.mapValues f = m := by
  refine ext_get? fun k => ?_
  rw [get?_mapValues]
  cases hk : m.get? k with
  | none => rfl
  | some v => rw [Option.map_some, h k v hk]

theorem filter_eq_self {p : α → β → Bool} (h : ∀ k v, m.get? k = some v → p k v = true) :
    m.filter p = m := by
  refine ext_get? fun k => ?_
  rw [get?_filter]
  cases hk : m.get? k with
  | none => rfl
  | some v => rw [Option.filter_some, h k v hk]; rfl

theorem mem_keys {k : α} : k ∈ m.keys ↔ ∃ v, m.get? k = some v := by
  simp [keys, get?_eq_some_iff]

@[simp] theorem keys_modify (m : OrderedMap α β) (k : α) (f : β → β) :
    (m.modify k f).keys = m.keys := by
  simp only [keys, modify, mapValues, List.map_map, Function.comp_def]

theorem length_keys (m : OrderedMap α β) : m.keys.length = m.size := List.length_map ..

theorem nodup_keys (m : OrderedMap α β) : m.keys.Nodup := m.sorted.imp fun h => h.ne

theorem mem_keysWhere {p : β → Bool} {k : α} :
    k ∈ m.keysWhere p ↔ ∃ v, m.get? k = some v ∧ p v = true := by
  simp [keysWhere, get?_eq_some_iff]

theorem notMem_keysWhere {p : β → Bool} (h : ∀ k v, m.get? k = some v → p v = false) (k : α) :
    k ∉ m.keysWhere p := by
  intro hmem
  obtain ⟨v, hv, hp⟩ := mem_keysWhere.1 hmem
  rw [h k v hv] at hp
  cases hp

theorem nodup_keysWhere (m : OrderedMap α β) (p : β → Bool) : (m.keysWhere p).Nodup :=
  (List.Pairwise.sublist (List.filter_sublist.map _) m.sorted).imp fun h => h.ne

/-- A key list depends on what the test says of the values only. -/
theorem keysWhere_modify (m : OrderedMap α β) (k : α) (f : β → β) (p : β → Bool)
    (h : ∀ v, p (f v) = p v) : (m.modify k f).keysWhere p = m.keysWhere p := by
  obtain ⟨entries, hsorted⟩ := m
  simp only [keysWhere, modify, mapValues, List.filter_map, List.map_map]
  have hfilter : entries.filter ((fun e => p e.2) ∘ fun e =>
      (e.1, if e.1 = k then f e.2 else e.2)) = entries.filter fun e => p e.2 := by
    refine List.filter_congr fun e _ => ?_
    simp only [Function.comp_apply]
    split_ifs <;> simp [h]
  rw [hfilter]
  rfl

/-- A property of the values tells the keys apart. -/
theorem nodup_map_entries_iff {γ : Type*} (m : OrderedMap α β) (f : β → γ) :
    (m.entries.map fun e => f e.2).Nodup ↔
      ∀ k v, m.get? k = some v → ∀ k' v', m.get? k' = some v' → f v = f v' → k = k' := by
  constructor
  · intro h k v hk k' v' hk' hf
    have := List.inj_on_of_nodup_map h (get?_eq_some_iff.1 hk) (get?_eq_some_iff.1 hk') hf
    exact congrArg Prod.fst this
  · intro h
    have hnodup : (m.entries.map Prod.fst).Nodup := m.sorted.imp fun h => h.ne
    refine List.Nodup.map_on ?_ hnodup.of_map
    rintro ⟨k, v⟩ hk ⟨k', v'⟩ hk' hf
    have hv := get?_eq_some_iff.2 hk
    obtain rfl := h k v hv k' v' (get?_eq_some_iff.2 hk') hf
    rw [get?_eq_some_iff.2 hk'] at hv
    rw [Option.some_inj.1 hv]

/-- A new key makes a map larger by one. -/
theorem size_assign {k : α} {v : β} (h : m.get? k = none) : (m.assign k v).size = m.size + 1 := by
  obtain ⟨l, hl⟩ := m
  change Entries.get? l k = none at h
  change (Entries.assign l k v).length = l.length + 1
  induction l with
  | nil => rfl
  | cons entry l ih =>
    obtain ⟨k', v'⟩ := entry
    rw [Entries.get?_cons] at h
    have hk : k' ≠ k := fun heq => by
      rw [if_pos heq] at h
      cases h
    rw [if_neg hk] at h
    rw [Entries.assign]
    split_ifs with hlt heq
    · rfl
    · exact absurd heq.symm hk
    · exact congrArg (· + 1) (ih (List.pairwise_cons.1 hl).2 h)

/-- An entry stored under a key that was free is all that erasing the key takes away. -/
theorem erase_assign {k : α} (h : m.get? k = none) (v : β) : (m.assign k v).erase k = m := by
  refine ext_get? fun k' => ?_
  rw [get?_erase, get?_assign]
  split_ifs with hk
  · rw [hk, h]
  · rfl

/-- Storing an erased entry again gives the map back. -/
theorem assign_erase {k : α} {v : β} (h : m.get? k = some v) : (m.erase k).assign k v = m := by
  refine ext_get? fun k' => ?_
  rw [get?_assign, get?_erase]
  split_ifs with hk
  · rw [hk, h]
  · rfl

theorem assign_get? {k : α} {v : β} (h : m.get? k = some v) : m.assign k v = m := by
  refine ext_get? fun k' => ?_
  rw [get?_assign]
  split_ifs with hk
  · rw [hk, h]
  · rfl

theorem erase_of_get?_eq_none {k : α} (h : m.get? k = none) : m.erase k = m := by
  refine ext_get? fun k' => ?_
  rw [get?_erase]
  split_ifs with hk
  · rw [hk, h]
  · rfl

theorem modify_of_get?_eq_none {k : α} (h : m.get? k = none) (f : β → β) : m.modify k f = m := by
  refine ext_get? fun k' => ?_
  rw [get?_modify]
  split_ifs with hk
  · rw [hk, h]; rfl
  · rfl

theorem modify_modify (k : α) (f g : β → β) : (m.modify k f).modify k g = m.modify k (g ∘ f) := by
  refine ext_get? fun k' => ?_
  simp only [get?_modify]
  split_ifs <;> simp

theorem modify_of_forall {k : α} {f : β → β} (h : ∀ v, m.get? k = some v → f v = v) :
    m.modify k f = m := by
  refine mapValues_eq_self fun k' v hv => ?_
  split_ifs with hk
  · subst hk; exact h v hv
  · rfl

/-- Modifying entries one after the other, when all that touch `k` do the same idempotent thing. -/
theorem get?_foldl_modify {ε : Type*} (key : ε → α) (f : ε → β → β) (g : β → β) {k : α}
    (hg : ∀ v, g (g v) = g v) (es : List ε) (hes : ∀ e ∈ es, key e = k → f e = g) :
    (es.foldl (fun m e => m.modify (key e) (f e)) m).get? k =
      if k ∈ es.map key then (m.get? k).map g else m.get? k := by
  induction es generalizing m with
  | nil => simp
  | cons e es ih =>
    rw [List.foldl_cons, ih fun e' he' => hes e' (List.mem_cons_of_mem _ he'), get?_modify]
    by_cases hk : key e = k
    · subst hk
      rw [hes e List.mem_cons_self rfl]
      simp only [↓reduceIte, List.map_cons, List.mem_cons, true_or, Option.map_map]
      split_ifs with h
      · congr 1; funext v; exact hg v
      · rfl
    · simp only [Ne.symm hk, ↓reduceIte, List.map_cons, List.mem_cons, false_or]

/-- Modifying entries, one after the other, neither adds nor removes one. -/
theorem isSome_get?_foldl_modify {ε : Type*} (key : ε → α) (f : ε → β → β) (k : α) (es : List ε) :
    ((es.foldl (fun m e => m.modify (key e) (f e)) m).get? k).isSome = (m.get? k).isSome := by
  induction es generalizing m with
  | nil => rfl
  | cons e es ih =>
    rw [List.foldl_cons, ih, get?_modify]
    split_ifs <;> simp

theorem modify_assign (k : α) (v : β) (f : β → β) :
    (m.assign k v).modify k f = m.assign k (f v) := by
  refine ext_get? fun k' => ?_
  rw [get?_modify, get?_assign, get?_assign]
  split_ifs <;> rfl

/-- The keys of a map do not depend on what is stored. -/
theorem keys_assign_congr (k : α) (v v' : β) : (m.assign k v).keys = (m.assign k v').keys := by
  rw [← keys_modify (m.assign k v) k fun _ => v', modify_assign]

theorem entries_foldl_assign (l : List (α × β)) :
    (l.foldl (fun m e => m.assign e.1 e.2) m).entries =
      l.foldl (fun entries e => Entries.assign entries e.1 e.2) m.entries := by
  induction l generalizing m with
  | nil => rfl
  | cons e l ih => exact ih

/-- Storing the entries of a map one after the other builds the map. -/
theorem foldl_assign_entries : m.entries.foldl (fun m e => m.assign e.1 e.2) empty = m := by
  refine ext_get? fun k => ?_
  unfold get?
  rw [entries_foldl_assign]
  exact congrArg (fun entries => Entries.get? entries k)
    (Entries.foldl_assign_eq m.sorted fun _ => Iff.rfl)

end OrderedMap

end OneBeat
