import OneBeat.Lib.TieClasses

/-!
# Cutting sorted lists

Where a predicate holds of a front of a list (`Front`), scanning the list and bisecting it find the
same place, and both select what a filter selects.  A list that is sorted by a natural number is
the list of its classes of ties, one number after the other (`eq_flatMap_ties`).  What is inserted
goes to the end when nothing there comes after it (`orderedInsert_of_forall_not`).
-/

namespace OneBeat

variable {α : Type*} {p : α → Bool} {l : List α}

/-- Where the predicate holds of an element, it holds of those before it. -/
def Front (p : α → Bool) (l : List α) : Prop := l.Pairwise fun a b => p b = true → p a = true

theorem Front.filter_eq_nil {a : α} (h : Front p (a :: l)) (ha : p a = false) :
    l.filter p = [] := by
  refine List.filter_eq_nil_iff.2 fun b hb hpb => ?_
  have hpa := (List.pairwise_cons.1 h).1 b hb hpb
  exact absurd (ha.symm.trans hpa) (by simp)

theorem Front.takeWhile_eq_filter (h : Front p l) : l.takeWhile p = l.filter p := by
  induction l with
  | nil => rfl
  | cons a l ih =>
    cases ha : p a with
    | true => rw [List.takeWhile_cons_of_pos ha, List.filter_cons_of_pos ha, ih (List.Pairwise.of_cons h)]
    | false => simp [ha, h.filter_eq_nil ha]

theorem Front.drop_countP (h : Front p l) : l.drop (l.countP p) = l.filter fun a => !p a := by
  induction l with
  | nil => rfl
  | cons a l ih =>
    cases ha : p a with
    | true => simp [ha, ih (List.Pairwise.of_cons h)]
    | false =>
      have hcount : l.countP p = 0 := by
        rw [List.countP_eq_length_filter, h.filter_eq_nil ha, List.length_nil]
      have hall : ∀ b ∈ l, (!p b) = true := by
        intro b hb
        simpa using List.filter_eq_nil_iff.1 (h.filter_eq_nil ha) b hb
      simp [ha, hcount, List.filter_eq_self.2 hall]

/-- The predicate holds of as many elements as it holds of at the front. -/
theorem Front.getElem_iff (h : Front p l) {i : ℕ} {a : α} (ha : l[i]? = some a) :
    p a = true ↔ i < l.countP p := by
  induction l generalizing i with
  | nil => simp at ha
  | cons b l ih =>
    cases hb : p b with
    | true =>
      rw [List.countP_cons_of_pos hb]
      cases i with
      | zero =>
        obtain rfl : b = a := by simpa using ha
        simp [hb]
      | succ i => rw [ih (List.Pairwise.of_cons h) (by simpa using ha), Nat.succ_lt_succ_iff]
    | false =>
      have hnone : ∀ c ∈ b :: l, p c = false := by
        intro c hc
        rcases List.mem_cons.1 hc with rfl | hc
        · exact hb
        · simpa using List.filter_eq_nil_iff.1 (h.filter_eq_nil hb) c hc
      have hcount : (b :: l).countP p = 0 := List.countP_eq_zero.2 fun c hc => by simp [hnone c hc]
      rw [hcount, hnone a (List.mem_of_getElem? ha)]
      simp

theorem ties_of_ne {κ : Type*} [LinearOrder κ] {key : α → κ} {j k : κ} (h : j ≠ k) (l : List α) :
    ties key j (ties key k l) = [] := by
  refine List.filter_eq_nil_iff.2 fun a ha => ?_
  rw [(mem_ties.1 ha).2]
  simpa using h.symm

theorem ties_flatMap_ties (key : α → ℕ) (k n : ℕ) (l : List α) :
    ties key k ((List.range n).flatMap fun t => ties key t l) = if k < n then ties key k l else [] := by
  induction n with
  | zero => rfl
  | succ n ih =>
    rw [List.range_succ, List.flatMap_append, ties_append, ih, List.flatMap_singleton]
    rcases Nat.lt_trichotomy k n with hlt | rfl | hgt
    · rw [if_pos hlt, if_pos (by omega), ties_of_ne (Nat.ne_of_lt hlt), List.append_nil]
    · simp
    · rw [if_neg (by omega), if_neg (by omega), ties_of_ne (by omega), List.append_nil]

/-- A list sorted by a number is the list of its ties. -/
theorem eq_flatMap_ties {key : α → ℕ} {n : ℕ} (h : l.Pairwise fun a b => key a ≤ key b)
    (hlt : ∀ a ∈ l, key a < n) : l = (List.range n).flatMap fun t => ties key t l := by
  refine eq_of_ties_eq h ?_ fun k => ?_
  · rw [List.pairwise_flatMap]
    refine ⟨fun t _ => ?_, ?_⟩
    · exact h.filter _
    · refine List.pairwise_lt_range.imp fun {t u} htu a ha b hb => ?_
      rw [(mem_ties.1 ha).2, (mem_ties.1 hb).2]
      exact Nat.le_of_lt htu
  · rw [ties_flatMap_ties]
    split
    · rfl
    · rename_i hk
      refine List.filter_eq_nil_iff.2 fun a ha hkey => hk ?_
      rw [← of_decide_eq_true hkey]
      exact hlt a ha

/-- What stands before nothing is put last. -/
theorem orderedInsert_of_forall_not {r : α → α → Prop} [DecidableRel r] {a : α}
    (h : ∀ b ∈ l, ¬r a b) : l.orderedInsert r a = l ++ [a] := by
  induction l with
  | nil => rfl
  | cons b l ih =>
    rw [List.orderedInsert_cons, if_neg (h b List.mem_cons_self),
      ih fun c hc => h c (List.mem_cons_of_mem _ hc), List.cons_append]

theorem orderedInsert_concat {r : α → α → Prop} [DecidableRel r] {a last : α}
    (h : r a last) (l : List α) :
    (l ++ [last]).orderedInsert r a = l.orderedInsert r a ++ [last] := by
  induction l with
  | nil => exact if_pos h
  | cons b l ih =>
    rw [List.cons_append, List.orderedInsert_cons, List.orderedInsert_cons, ih]
    split_ifs <;> rfl

end OneBeat
