import Mathlib.Data.List.Sort
import Mathlib.Data.List.Perm.Basic

/-!
# Stable sorting, one class of ties at a time

A sort by a key that is not injective orders elements with equal keys by how they came in.
`ties key k l` are the elements of `l` with key `k`, in order.

* `ties_insertionSort` : a stable sort keeps every class of ties as it is.
* `eq_of_ties_eq` : sorted lists with the same classes of ties are equal.
* `insertionSort_eq_iff` : so sorting gives a sorted list exactly when the classes agree.
* `ties_diff` : removing elements, the first equal one first, works inside the classes.
* `insertionSort_inj_of_map_eq` : a stable sort loses nothing when the keys are known.
* `insertionSort_append_eq_iff` : parts that the keys tell apart are sorted independently.
* `getLast?_insertionSort` : the last element of a stable sort is the last of the largest ones.
-/

namespace OneBeat

variable {α κ : Type*} [LinearOrder κ]

/-- The elements of `l` with key `k`, in order. -/
def ties (key : α → κ) (k : κ) (l : List α) : List α := l.filter fun a => key a = k

section Ties

variable {key : α → κ} {k : κ}

@[simp] theorem ties_nil : ties key k [] = [] := rfl

theorem ties_cons (a : α) (l : List α) :
    ties key k (a :: l) = if key a = k then a :: ties key k l else ties key k l := by
  simp [ties, List.filter_cons]

@[simp] theorem ties_append (l₁ l₂ : List α) :
    ties key k (l₁ ++ l₂) = ties key k l₁ ++ ties key k l₂ :=
  List.filter_append ..

@[simp] theorem ties_ties (l : List α) : ties key k (ties key k l) = ties key k l := by
  simp [ties]

theorem mem_ties {a : α} {l : List α} : a ∈ ties key k l ↔ a ∈ l ∧ key a = k := by
  simp [ties]

/-- Lists with the same keys and the same classes of ties are equal. -/
theorem eq_of_map_eq_of_ties_eq {l₁ l₂ : List α} (hkeys : l₁.map key = l₂.map key)
    (h : ∀ k, ties key k l₁ = ties key k l₂) : l₁ = l₂ := by
  induction l₁ generalizing l₂ with
  | nil => exact (List.map_eq_nil_iff.1 hkeys.symm).symm
  | cons a l₁ ih =>
    cases l₂ with
    | nil => cases hkeys
    | cons b l₂ =>
      obtain ⟨hab, htail⟩ := List.cons.inj hkeys
      have hhead := h (key a)
      rw [ties_cons, ties_cons, if_pos rfl, if_pos hab.symm] at hhead
      obtain ⟨rfl, -⟩ := List.cons.inj hhead
      refine congrArg (List.cons a) (ih htail fun k => ?_)
      have hk := h k
      rw [ties_cons, ties_cons] at hk
      split_ifs at hk
      · exact (List.cons.inj hk).2
      · exact hk

/-- Sorted lists with the same classes of ties are equal. -/
theorem eq_of_ties_eq {l₁ l₂ : List α} (h₁ : l₁.Pairwise fun a b => key a ≤ key b)
    (h₂ : l₂.Pairwise fun a b => key a ≤ key b) (h : ∀ k, ties key k l₁ = ties key k l₂) :
    l₁ = l₂ := by
  have hcount : ∀ k (l : List α), (l.map key).count k = (ties key k l).length := by
    intro k l
    rw [List.count_eq_countP, List.countP_map, List.countP_eq_length_filter]
    rfl
  -- a class is as large as its key is frequent
  have hkeys : (l₁.map key).Perm (l₂.map key) :=
    List.perm_iff_count.2 fun k => by rw [hcount, hcount, h]
  exact eq_of_map_eq_of_ties_eq
    (hkeys.eq_of_pairwise' (List.pairwise_map.2 h₁) (List.pairwise_map.2 h₂)) h

/-- Lists that agree in two respects are equal when an element is known by these. -/
theorem eq_of_map_eq_of_map_eq {β γ : Type*} {f : α → β} {g : α → γ}
    (hfg : ∀ a b, f a = f b → g a = g b → a = b) {l₁ l₂ : List α} (hf : l₁.map f = l₂.map f)
    (hg : l₁.map g = l₂.map g) : l₁ = l₂ := by
  induction l₁ generalizing l₂ with
  | nil => exact (List.map_eq_nil_iff.1 hf.symm).symm
  | cons a l₁ ih =>
    cases l₂ with
    | nil => cases hf
    | cons b l₂ =>
      obtain ⟨hab, hf⟩ := List.cons.inj hf
      obtain ⟨hab', hg⟩ := List.cons.inj hg
      rw [hfg a b hab hab', ih hf hg]

theorem diff_self [DecidableEq α] (l : List α) : l.diff l = [] := by
  induction l with
  | nil => rfl
  | cons a l ih => rw [List.diff_cons, List.erase_cons_head, ih]

/-- Removing elements, the first equal one first, works inside the classes. -/
theorem ties_diff [DecidableEq α] (l l' : List α) :
    ties key k (l.diff l') = (ties key k l).diff (ties key k l') := by
  have herase : ∀ (a : α) (l : List α), ties key k (l.erase a) =
      if key a = k then (ties key k l).erase a else ties key k l := by
    intro a l
    induction l with
    | nil => simp
    | cons b l ih =>
      rw [List.erase_cons]
      by_cases hab : b = a
      · subst hab
        simp only [beq_self_eq_true, ↓reduceIte, ties_cons]
        split_ifs <;> simp
      · simp only [beq_eq_false_iff_ne.2 hab, Bool.false_eq_true, ↓reduceIte, ties_cons, ih]
        split_ifs <;> simp [hab]
  induction l' generalizing l with
  | nil => simp
  | cons a l' ih =>
    rw [List.diff_cons, ih, herase, ties_cons]
    split_ifs
    · rw [List.diff_cons]
    · rfl

end Ties

section Stable

variable {key : α → κ} {k : κ} {r : α → α → Prop} [DecidableRel r]

omit [DecidableRel r] in
theorem total_of_key (hr : ∀ a b, r a b ↔ key a ≤ key b) : Std.Total r :=
  ⟨fun a b => by simpa only [hr] using le_total _ _⟩

omit [DecidableRel r] in
theorem trans_of_key (hr : ∀ a b, r a b ↔ key a ≤ key b) : IsTrans α r :=
  ⟨fun _ _ _ hab hbc => (hr _ _).2 (((hr _ _).1 hab).trans ((hr _ _).1 hbc))⟩

/-- A stable sort keeps every class of ties as it is. -/
theorem ties_insertionSort (hr : ∀ a b, r a b ↔ key a ≤ key b) (l : List α) :
    ties key k (l.insertionSort r) = ties key k l := by
  have := total_of_key hr
  have := trans_of_key hr
  have hties : (ties key k l).Pairwise r := by
    refine List.Pairwise.imp_of_mem (R := fun _ _ => True) (fun ha hb _ => ?_)
      (List.pairwise_of_forall fun _ _ => trivial)
    rw [hr, (mem_ties.1 ha).2, (mem_ties.1 hb).2]
  have hsub : (ties key k l).Sublist (l.insertionSort r) :=
    List.sublist_insertionSort hties List.filter_sublist
  have hsub' : (ties key k l).Sublist (ties key k (l.insertionSort r)) := by
    have := hsub.filter fun a => decide (key a = k)
    rwa [show (ties key k l).filter (fun a => decide (key a = k)) = ties key k l from
      ties_ties l] at this
  refine (hsub'.eq_of_length ?_).symm
  exact (((List.perm_insertionSort r l).filter _).length_eq).symm

/-- Sorting gives a sorted list exactly when the classes of ties agree. -/
theorem insertionSort_eq_iff (hr : ∀ a b, r a b ↔ key a ≤ key b) {l s : List α}
    (hs : s.Pairwise r) : l.insertionSort r = s ↔ ∀ k, ties key k l = ties key k s := by
  have := total_of_key hr
  have := trans_of_key hr
  refine ⟨fun h k => ?_, fun h => @eq_of_ties_eq _ _ _ key _ _ ?_ ?_ fun k => ?_⟩
  · rw [← h, ties_insertionSort hr]
  · exact (List.pairwise_insertionSort r l).imp fun h => (hr _ _).1 h
  · exact hs.imp fun h => (hr _ _).1 h
  · rw [ties_insertionSort hr, h]

/-- A stable sort keeps every sublist in order: sorting a selection is selecting from the sorted. -/
theorem filter_insertionSort (hr : ∀ a b, r a b ↔ key a ≤ key b) (p : α → Bool) (l : List α) :
    (l.insertionSort r).filter p = (l.filter p).insertionSort r := by
  have hties : ∀ k (l : List α), ties key k (l.filter p) = (ties key k l).filter p := by
    intro k l
    simp only [ties, List.filter_filter, Bool.and_comm]
  have := total_of_key hr
  have := trans_of_key hr
  refine ((insertionSort_eq_iff hr ?_).2 fun k => ?_).symm
  · exact (List.pairwise_insertionSort r l).sublist List.filter_sublist
  · rw [hties, hties, ties_insertionSort hr]

/-- Sorted lists are equal exactly when the classes of ties of the unsorted ones are. -/
theorem insertionSort_eq_insertionSort_iff (hr : ∀ a b, r a b ↔ key a ≤ key b) {l₁ l₂ : List α} :
    l₁.insertionSort r = l₂.insertionSort r ↔ ∀ k, ties key k l₁ = ties key k l₂ := by
  have := total_of_key hr
  have := trans_of_key hr
  rw [insertionSort_eq_iff hr (List.pairwise_insertionSort r l₂)]
  simp only [ties_insertionSort hr]

/-- A stable sort loses nothing when the keys are known. -/
theorem insertionSort_inj_of_map_eq (hr : ∀ a b, r a b ↔ key a ≤ key b) {l₁ l₂ : List α}
    (hkeys : l₁.map key = l₂.map key) (h : l₁.insertionSort r = l₂.insertionSort r) : l₁ = l₂ :=
  eq_of_map_eq_of_ties_eq hkeys ((insertionSort_eq_insertionSort_iff hr).1 h)

/-- Two parts that a test on the keys tells apart are sorted independently. -/
theorem insertionSort_append_eq_iff (hr : ∀ a b, r a b ↔ key a ≤ key b) (p : α → Bool)
    {l₁ l₂ m₁ m₂ : List α} (hl₁ : ∀ a ∈ l₁, p a) (hl₂ : ∀ a ∈ l₂, p a) (hm₁ : ∀ a ∈ m₁, ¬p a)
    (hm₂ : ∀ a ∈ m₂, ¬p a) : (l₁ ++ m₁).insertionSort r = (l₂ ++ m₂).insertionSort r ↔
      l₁.insertionSort r = l₂.insertionSort r ∧ m₁.insertionSort r = m₂.insertionSort r := by
  have hfst : ∀ {l m : List α}, (∀ a ∈ l, p a) → (∀ a ∈ m, ¬p a) → (l ++ m).filter p = l :=
    fun hl hm => by
      rw [List.filter_append, List.filter_eq_self.2 hl, List.filter_eq_nil_iff.2 hm,
        List.append_nil]
  have hsnd : ∀ {l m : List α}, (∀ a ∈ l, p a) → (∀ a ∈ m, ¬p a) →
      (l ++ m).filter (fun a => !p a) = m := fun hl hm => by
    rw [List.filter_append, List.filter_eq_nil_iff.2 fun a ha => by simp [hl a ha],
      List.filter_eq_self.2 fun a ha => by simpa using hm a ha, List.nil_append]
  constructor
  · intro h
    have h₁ := congrArg (List.filter p) h
    have h₂ := congrArg (List.filter fun a => !p a) h
    rw [filter_insertionSort hr, filter_insertionSort hr] at h₁ h₂
    rw [hfst hl₁ hm₁, hfst hl₂ hm₂] at h₁
    rw [hsnd hl₁ hm₁, hsnd hl₂ hm₂] at h₂
    exact ⟨h₁, h₂⟩
  · rintro ⟨hl, hm⟩
    rw [insertionSort_eq_insertionSort_iff hr] at hl hm ⊢
    intro k
    rw [ties_append, ties_append, hl, hm]

/-- The keys of a sorted list depend on the keys only, not on their order. -/
theorem map_insertionSort_eq_of_perm (hr : ∀ a b, r a b ↔ key a ≤ key b) {l₁ l₂ : List α}
    (h : l₁.Perm l₂) : (l₁.insertionSort r).map key = (l₂.insertionSort r).map key := by
  have := total_of_key hr
  have := trans_of_key hr
  have hsorted : ∀ l : List α, ((l.insertionSort r).map key).Pairwise (· ≤ ·) := fun l =>
    List.pairwise_map.2 ((List.pairwise_insertionSort r l).imp fun h => (hr _ _).1 h)
  refine List.Perm.eq_of_pairwise (fun a b _ _ hab hba => le_antisymm hab hba)
    (hsorted l₁) (hsorted l₂) (List.Perm.map key ?_)
  exact ((List.perm_insertionSort r l₁).trans h).trans (List.perm_insertionSort r l₂).symm

/-- The last of the largest elements of a list. -/
def lastLargest (key : α → κ) : List α → Option α
  | [] => none
  | a :: l =>
    match lastLargest key l with
    | none => some a
    | some b => if key b < key a then some a else some b

theorem mem_of_lastLargest {l : List α} {a : α} (h : lastLargest key l = some a) : a ∈ l := by
  induction l with
  | nil => cases h
  | cons b l ih =>
    rw [lastLargest] at h
    cases hlast : lastLargest key l with
    | none =>
      rw [hlast] at h
      exact Option.some_inj.1 h ▸ List.mem_cons_self
    | some c =>
      rw [hlast] at h
      dsimp only at h
      split_ifs at h
      · exact Option.some_inj.1 h ▸ List.mem_cons_self
      · exact List.mem_cons_of_mem _ (ih (hlast.trans h))

/-- Only the order of the keys matters. -/
theorem lastLargest_congr {κ' : Type*} [LinearOrder κ'] {key' : α → κ'} {l : List α}
    (h : ∀ a ∈ l, ∀ b ∈ l, key b < key a ↔ key' b < key' a) :
    lastLargest key l = lastLargest key' l := by
  induction l with
  | nil => rfl
  | cons a l ih =>
    rw [lastLargest, lastLargest, ih fun b hb c hc =>
      h b (List.mem_cons_of_mem _ hb) c (List.mem_cons_of_mem _ hc)]
    cases hlast : lastLargest key' l with
    | none => rfl
    | some b =>
      simp only [h a List.mem_cons_self b (List.mem_cons_of_mem _ (mem_of_lastLargest hlast))]

theorem getLast?_orderedInsert (hr : ∀ a b, r a b ↔ key a ≤ key b) (a : α) {l : List α}
    (hl : l.Pairwise r) : (l.orderedInsert r a).getLast? =
      match l.getLast? with
      | none => some a
      | some b => if key b < key a then some a else some b := by
  induction l with
  | nil => rfl
  | cons c l ih =>
    obtain ⟨hc, hl⟩ := List.pairwise_cons.1 hl
    rw [List.orderedInsert_cons]
    split_ifs with hac
    · -- `a` goes to the front, and nothing after it is smaller
      cases hlast : (c :: l).getLast? with
      | none => simp at hlast
      | some b =>
        rw [List.getLast?_cons_cons, hlast]
        have hb : key a ≤ key b := by
          rcases List.mem_cons.1 (List.mem_of_getLast? hlast) with rfl | hb
          · exact (hr _ _).1 hac
          · exact ((hr _ _).1 hac).trans ((hr _ _).1 (hc b hb))
        exact (if_neg (not_lt.2 hb)).symm
    · have hca : key c < key a := not_le.1 fun h => hac ((hr _ _).2 h)
      rw [List.getLast?_cons, ih hl, List.getLast?_cons]
      cases l.getLast? with
      | none => simp [hca]
      | some b =>
        dsimp only [Option.getD_some]
        split_ifs <;> rfl

/-- The last element of a stable sort is the last of the largest ones. -/
theorem getLast?_insertionSort (hr : ∀ a b, r a b ↔ key a ≤ key b) (l : List α) :
    (l.insertionSort r).getLast? = lastLargest key l := by
  have := total_of_key hr
  have := trans_of_key hr
  induction l with
  | nil => rfl
  | cons a l ih =>
    rw [List.insertionSort_cons, getLast?_orderedInsert hr a (List.pairwise_insertionSort r l), ih]
    rfl

end Stable

end OneBeat
