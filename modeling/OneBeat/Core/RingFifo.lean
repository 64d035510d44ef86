import Mathlib.Algebra.Order.Group.Nat
import Mathlib.Data.Nat.ModEq
import OneBeat.Core.Ring

/-!
# The ring is a queue

Between the first position that the consumer has not released and one capacity further on, every
position has a cell of its own, and its sequence number says whether it has been published.

* `Consistent` : where everybody is, and what the cells hold;
* `Step.consistent` : the steps keep it, when there is more than one cell;
* `exclusive_of_run` : then no two threads are ever at one cell;
* `fifo_iff` : **the values popped are a prefix of those claimed, no value is overwritten before it
  is popped, and a push is refused by a full ring only, exactly when the capacity is not one.**

A ring of one cell passes the assertion on the capacity too, but there a published position has
the sequence number of the next free one.
-/

namespace OneBeat.Ring

variable {k : ℕ} {T P : Type}

/-! ### What is claimed -/

/-- Values come out in the order in which they were claimed, and a value that has been written stays
in its cell until it is popped. -/
structure Fifo (s : Ring k T P) : Prop where
  popped : s.popped <+: s.claimed
  kept : ∀ i value, s.popped.length ≤ i → s.claimed[i]? = some value →
    (∀ p other, s.producers p ≠ .writing other i) → (s.cells (index k i)).data = value

/-- As many positions are claimed and not released as there are cells. -/
def Full (s : Ring k T P) : Prop := s.released + capacity k ≤ s.claimed.length

/-- No position comes near the largest signed word. -/
def Short (s : Ring k T P) : Prop := s.claimed.length + capacity k < 2 ^ 63

/-! ### Positions and cells -/

/-- Positions less than one lap apart have different cells. -/
theorem index_inj {lo i j : ℕ} (hi : lo ≤ i) (hi' : i < lo + capacity k) (hj : lo ≤ j)
    (hj' : j < lo + capacity k) (h : index k i = index k j) : i = j := by
  have hmod : i ≡ j [MOD capacity k] := index_eq_iff.1 h
  refine hmod.eq_of_abs_lt ?_
  rw [abs_lt]
  constructor <;> omega

theorem index_add_capacity (i : ℕ) : index k (i + capacity k) = index k i :=
  index_eq_iff.2 (Nat.add_mod_right i _)

theorem cells_setCell_self {s : Ring k T P} {pos : ℕ} {cell : Cell T} :
    (s.setCell pos cell).cells (index k pos) = cell :=
  Function.update_self ..

/-- The other cells of a lap. -/
theorem cells_setCell_of_ne {s : Ring k T P} {lo pos i : ℕ} {cell : Cell T} (hpos : lo ≤ pos)
    (hpos' : pos < lo + capacity k) (hi : lo ≤ i) (hi' : i < lo + capacity k) (hne : i ≠ pos) :
    (s.setCell pos cell).cells (index k i) = s.cells (index k i) :=
  Function.update_of_ne (fun h => hne (index_inj hi hi' hpos hpos' h)) ..

theorem sequence_setCell {s : Ring k T P} {pos : ℕ} {cell : Cell T}
    (h : cell.sequence = (s.cells (index k pos)).sequence) (i : Fin (capacity k)) :
    ((s.setCell pos cell).cells i).sequence = (s.cells i).sequence := by
  by_cases heq : i = index k pos
  · subst heq
    rw [cells_setCell_self, h]
  · exact congrArg Cell.sequence (Function.update_of_ne heq ..)

theorem data_setCell {s : Ring k T P} {pos : ℕ} {cell : Cell T}
    (h : cell.data = (s.cells (index k pos)).data) (i : Fin (capacity k)) :
    ((s.setCell pos cell).cells i).data = (s.cells i).data := by
  by_cases heq : i = index k pos
  · subst heq
    rw [cells_setCell_self, h]
  · exact congrArg Cell.data (Function.update_of_ne heq ..)

/-- The producer has claimed the position and not published it. -/
def ProducerPc.Holds (i : ℕ) : ProducerPc T → Prop
  | .writing _ pos => pos = i
  | .releasing pos => pos = i
  | _ => False

/-- A producer is still at the position. -/
def Pending (s : Ring k T P) (i : ℕ) : Prop := ∃ p, (s.producers p).Holds i

/-- There is a published value to take. -/
def Ready (s : Ring k T P) : Prop := s.released < s.claimed.length ∧ ¬ s.Pending s.released

/-- What the consumer knows. -/
def ConsumerAt (s : Ring k T P) : ConsumerPc → Prop
  | .idle | .entered => s.dequeuePos = s.released ∧ s.popped.length = s.released
  | .loaded pos => pos = s.released ∧ s.dequeuePos = s.released ∧ s.popped.length = s.released
  | .claiming pos =>
    pos = s.released ∧ s.dequeuePos = s.released ∧ s.popped.length = s.released ∧ s.Ready
  | .reading pos =>
    pos = s.released ∧ s.dequeuePos = s.released + 1 ∧ s.popped.length = s.released ∧ s.Ready
  | .releasing pos =>
    pos = s.released ∧ s.dequeuePos = s.released + 1 ∧ s.popped.length = s.released + 1 ∧ s.Ready

/-- The sequence numbers, the positions of the parties and the data agree with the books. -/
structure Consistent (s : Ring k T P) : Prop where
  enqueuePos : s.enqueuePos = s.claimed.length
  room : s.claimed.length ≤ s.released + capacity k
  /-- A published position is numbered one higher. -/
  published : ∀ i, s.released ≤ i → i < s.claimed.length → ¬ s.Pending i →
    (s.cells (index k i)).sequence = i + 1
  unpublished : ∀ i, s.released ≤ i → i < s.released + capacity k →
    s.claimed.length ≤ i ∨ s.Pending i → (s.cells (index k i)).sequence = i
  loaded : ∀ p value pos, s.producers p = .loaded value pos → pos ≤ s.claimed.length
  claiming : ∀ p value pos, s.producers p = .claiming value pos → pos < s.released + capacity k
  pending : ∀ i, s.Pending i → s.released ≤ i ∧ i < s.claimed.length
  alone : ∀ p q i, (s.producers p).Holds i → (s.producers q).Holds i → p = q
  writing : ∀ p value pos, s.producers p = .writing value pos → s.claimed[pos]? = some value
  fifo : Fifo s
  consumer : s.ConsumerAt s.consumer

variable {s s' : Ring k T P}

theorem consistent_init [Inhabited T] : Consistent (init : Ring k T P) where
  enqueuePos := rfl
  room := Nat.zero_le _
  published := by simp [init]
  unpublished := by
    intro i _ hi _
    have hlt : i < capacity k := by simpa [init] using hi
    have hmod : i &&& mask k = i % 2 ^ k := Nat.and_two_pow_sub_one_eq_mod i k
    simpa [init, index, hmod] using Nat.mod_eq_of_lt (show i < 2 ^ k from hlt)
  loaded := by simp [init]
  claiming := by simp [init]
  pending := by
    rintro i ⟨p, hp⟩
    exact hp.elim
  alone := by
    intro p q i hp
    exact hp.elim
  writing := by simp [init]
  fifo := ⟨List.nil_prefix, by simp [init]⟩
  consumer := ⟨rfl, rfl⟩

theorem Consistent.popped_length (h : Consistent s) :
    s.popped.length = s.released ∨ s.popped.length = s.released + 1 ∧ s.Ready := by
  have hat := h.consumer
  cases hc : s.consumer <;> simp only [hc, ConsumerAt] at hat
  case releasing => exact .inr hat.2.2
  all_goals
    left
    omega

theorem Consistent.released_le (h : Consistent s) : s.released ≤ s.claimed.length := by
  have hle := h.fifo.popped.length_le
  rcases h.popped_length with hpopped | ⟨hpopped, -⟩ <;> omega

/-! ### Producers that move -/

theorem ConsumerAt.congr {c : ConsumerPc} (h : s.ConsumerAt c)
    (hdequeue : s'.dequeuePos = s.dequeuePos) (hpopped : s'.popped = s.popped)
    (hreleased : s'.released = s.released) (hready : s.Ready → s'.Ready) : s'.ConsumerAt c := by
  cases c <;> simp only [ConsumerAt, hdequeue, hpopped, hreleased] at h ⊢
  all_goals first
    | exact h
    | exact ⟨h.1, h.2.1, h.2.2.1, hready h.2.2.2⟩

section Producers

variable [DecidableEq P] {p : P} {pc : ProducerPc T}

theorem producers_setProducer_self : (s.setProducer p pc).producers p = pc :=
  Function.update_self ..

theorem producers_setProducer_of_ne {q : P} (h : q ≠ p) :
    (s.setProducer p pc).producers q = s.producers q :=
  Function.update_of_ne h ..

/-- A place where the producer that moved is not. -/
theorem producers_of_setProducer {q : P} {pc' : ProducerPc T} (hpc : pc ≠ pc')
    (h : (s.setProducer p pc).producers q = pc') : s.producers q = pc' := by
  rwa [producers_setProducer_of_ne] at h
  rintro rfl
  rw [producers_setProducer_self] at h
  exact hpc h

/-- A producer that holds what it held. -/
theorem pending_setProducer (h : ∀ i, pc.Holds i ↔ (s.producers p).Holds i) {i : ℕ} :
    (s.setProducer p pc).Pending i ↔ s.Pending i := by
  refine exists_congr fun q => ?_
  by_cases hq : q = p
  · subst hq
    rw [producers_setProducer_self]
    exact h i
  · rw [producers_setProducer_of_ne hq]

theorem alone_setProducer (h : ∀ i, pc.Holds i → (s.producers p).Holds i)
    (halone : ∀ p q i, (s.producers p).Holds i → (s.producers q).Holds i → p = q) :
    ∀ q r i, ((s.setProducer p pc).producers q).Holds i →
      ((s.setProducer p pc).producers r).Holds i → q = r := by
  have hback : ∀ q i, ((s.setProducer p pc).producers q).Holds i → (s.producers q).Holds i := by
    intro q i hq
    by_cases heq : q = p
    · subst heq
      rw [producers_setProducer_self] at hq
      exact h i hq
    · rwa [producers_setProducer_of_ne heq] at hq
  intro q r i hq hr
  exact halone q r i (hback q i hq) (hback r i hr)

/-- A producer that has written what it held, if anything, goes where it holds the same. -/
theorem Consistent.setProducer (h : Consistent s)
    (hholds : ∀ i, pc.Holds i ↔ (s.producers p).Holds i) (hpc : ∀ value pos, pc ≠ .writing value pos)
    (hwritten : ∀ value pos, s.producers p = .writing value pos →
      (s.cells (index k pos)).data = value)
    (hloaded : ∀ value pos, pc = .loaded value pos → pos ≤ s.claimed.length)
    (hclaiming : ∀ value pos, pc = .claiming value pos → pos < s.released + capacity k) :
    Consistent (s.setProducer p pc) := by
  have hpending : ∀ i, (s.setProducer p pc).Pending i ↔ s.Pending i := fun i =>
    pending_setProducer hholds
  constructor
  case enqueuePos => exact h.enqueuePos
  case room => exact h.room
  case published =>
    intro i hlo hlt hi
    exact h.published i hlo hlt (mt (hpending i).2 hi)
  case unpublished =>
    intro i hlo hlt hi
    exact h.unpublished i hlo hlt (hi.imp_right (hpending i).1)
  case loaded =>
    intro q value pos hq
    by_cases hpc : pc = .loaded value pos
    · exact hloaded value pos hpc
    · exact h.loaded q value pos (producers_of_setProducer hpc hq)
  case claiming =>
    intro q value pos hq
    by_cases hpc : pc = .claiming value pos
    · exact hclaiming value pos hpc
    · exact h.claiming q value pos (producers_of_setProducer hpc hq)
  case pending =>
    intro i hi
    exact h.pending i ((hpending i).1 hi)
  case alone => exact alone_setProducer (fun i => (hholds i).1) h.alone
  case writing =>
    intro q value pos hq
    exact h.writing q value pos (producers_of_setProducer (hpc value pos) hq)
  case fifo =>
    refine ⟨h.fifo.popped, fun i value hi hvalue hwriting => ?_⟩
    by_cases hp : s.producers p = .writing value i
    · exact hwritten value i hp
    · refine h.fifo.kept i value hi hvalue fun q other hq => hwriting q other ?_
      rwa [producers_setProducer_of_ne]
      rintro rfl
      have hclaimed := h.writing q other i hq
      rw [show s.claimed[i]? = some value from hvalue] at hclaimed
      exact hp (Option.some.inj hclaimed ▸ hq)
  case consumer =>
    refine h.consumer.congr rfl rfl rfl fun hready => ⟨hready.1, ?_⟩
    exact mt (hpending s.released).1 hready.2

end Producers

/-! ### Claiming, writing and publishing -/

theorem Consistent.claim [DecidableEq P] (h : Consistent s) (hshort : s.claimed.length < 2 ^ 63 - 1)
    {p : P} {value : T} (hpc : s.producers p = .claiming value s.enqueuePos) :
    Consistent { s.setProducer p (.writing value s.enqueuePos) with
      enqueuePos := word (s.enqueuePos + 1), claimed := s.claimed ++ [value] } := by
  have hword : word (s.enqueuePos + 1) = s.claimed.length + 1 := by
    rw [h.enqueuePos]
    exact word_of_lt (by omega)
  have hfree : s.claimed.length < s.released + capacity k := by
    rw [← h.enqueuePos]
    exact h.claiming p value _ hpc
  rw [hword]
  rw [h.enqueuePos] at hpc ⊢
  set s' : Ring k T P := { s.setProducer p (.writing value s.claimed.length) with
    enqueuePos := s.claimed.length + 1, claimed := s.claimed ++ [value] } with hs'
  have hlength : s'.claimed.length = s.claimed.length + 1 := List.length_append
  have hself : s'.producers p = .writing value s.claimed.length := producers_setProducer_self
  have hothers : ∀ q, q ≠ p → s'.producers q = s.producers q := fun q hq =>
    producers_setProducer_of_ne hq
  have hback : ∀ q pc, .writing value s.claimed.length ≠ pc → s'.producers q = pc →
      s.producers q = pc := fun q pc => producers_of_setProducer
  -- who holds a position holds the new one or held it before
  have hholds : ∀ q i, (s'.producers q).Holds i →
      q = p ∧ s.claimed.length = i ∨ (s.producers q).Holds i := by
    intro q i hq
    by_cases heq : q = p
    · subst heq
      rw [hself] at hq
      exact .inl ⟨rfl, hq⟩
    · rw [hothers q heq] at hq
      exact .inr hq
  have hpending : ∀ i, s'.Pending i ↔ i = s.claimed.length ∨ s.Pending i := by
    intro i
    constructor
    · rintro ⟨q, hq⟩
      exact (hholds q i hq).imp (fun hnew => hnew.2.symm) fun hq => ⟨q, hq⟩
    · rintro (rfl | ⟨q, hq⟩)
      · exact ⟨p, hself ▸ rfl⟩
      · refine ⟨q, ?_⟩
        rwa [hothers q]
        rintro rfl
        rw [hpc] at hq
        exact hq
  -- no other producer is at the end of what was claimed
  have hnew : ∀ q, ¬ (s.producers q).Holds s.claimed.length := by
    intro q hq
    exact (h.pending _ ⟨q, hq⟩).2.ne rfl
  constructor
  case enqueuePos => exact hlength.symm
  case room =>
    rw [hlength]
    exact hfree
  case published =>
    intro i hlo hlt hi
    rw [hpending, not_or] at hi
    rw [hlength] at hlt
    exact h.published i hlo (by omega) hi.2
  case unpublished =>
    intro i hlo hlt hi
    rw [hpending, hlength] at hi
    refine h.unpublished i hlo hlt ?_
    rcases hi with hi | rfl | hi
    · exact .inl (by omega)
    · exact .inl le_rfl
    · exact .inr hi
  case loaded =>
    intro q value' pos hq
    rw [hlength]
    exact Nat.le_succ_of_le (h.loaded q value' pos (hback q _ nofun hq))
  case claiming =>
    intro q value' pos hq
    exact h.claiming q value' pos (hback q _ nofun hq)
  case pending =>
    intro i hi
    rw [hlength]
    rcases (hpending i).1 hi with rfl | hi
    · exact ⟨h.released_le, Nat.lt_succ_self _⟩
    · obtain ⟨hlo, hlt⟩ := h.pending i hi
      exact ⟨hlo, by omega⟩
  case alone =>
    intro q r i hq hr
    rcases hholds q i hq with ⟨hqp, hi⟩ | hq' <;> rcases hholds r i hr with ⟨hrp, hi'⟩ | hr'
    · rw [hqp, hrp]
    · exact (hnew r (hi ▸ hr')).elim
    · exact (hnew q (hi' ▸ hq')).elim
    · exact h.alone q r i hq' hr'
  case writing =>
    intro q value' pos hq
    by_cases heq : q = p
    · subst heq
      rw [hself] at hq
      cases hq
      exact List.getElem?_concat_length ..
    · rw [hothers q heq] at hq
      have hget := h.writing q value' pos hq
      rw [← hget]
      exact List.getElem?_append_left (List.getElem?_eq_some_iff.1 hget).1
  case fifo =>
    refine ⟨h.fifo.popped.trans (List.prefix_append _ _), fun i value' hi hvalue hwriting => ?_⟩
    have hne : i ≠ s.claimed.length := by
      rintro rfl
      exact hwriting p value hself
    refine h.fifo.kept i value' hi ?_ fun q other hq => ?_
    · have hlt : i < s.claimed.length := by
        have := (List.getElem?_eq_some_iff.1 hvalue).1
        omega
      rw [← hvalue]
      exact (List.getElem?_append_left hlt).symm
    · refine hwriting q other ?_
      rwa [hothers q]
      rintro rfl
      rw [hpc] at hq
      cases hq
  case consumer =>
    refine h.consumer.congr rfl rfl rfl fun hready => ⟨?_, ?_⟩
    · have := hready.1
      change s.released < s'.claimed.length
      omega
    · intro hi
      rcases (hpending _).1 hi with heq | hi
      · exact hready.1.ne heq
      · exact hready.2 hi

theorem Consistent.write [DecidableEq P] (h : Consistent s) {p : P} {value : T} {pos : ℕ}
    (hpc : s.producers p = .writing value pos) :
    Consistent ((s.setCell pos { s.cells (index k pos) with data := value }).setProducer p
      (.releasing pos)) := by
  obtain ⟨hlo, hlt⟩ := h.pending pos ⟨p, hpc ▸ rfl⟩
  have hroom := h.room
  set s' : Ring k T P := s.setCell pos { s.cells (index k pos) with data := value } with hs'
  have hsequence : ∀ i, (s'.cells i).sequence = (s.cells i).sequence := sequence_setCell rfl
  have hfifo : Fifo s' := by
    refine ⟨h.fifo.popped, fun i value' hi hvalue hwriting => ?_⟩
    have hne : i ≠ pos := by
      rintro rfl
      exact hwriting p value hpc
    have hlt' := (List.getElem?_eq_some_iff.1 hvalue).1
    change i < s.claimed.length at hlt'
    change s.popped.length ≤ i at hi
    have hlo' : s.released ≤ i := by
      rcases h.popped_length with hpopped | ⟨hpopped, -⟩ <;> omega
    have hcell : s'.cells (index k i) = s.cells (index k i) :=
      cells_setCell_of_ne hlo (by omega) hlo' (by omega) hne
    rw [hcell]
    exact h.fifo.kept i value' hi hvalue hwriting
  have hbetween : Consistent s' :=
    { h with
      published := fun i hlo hlt hi => (hsequence _).trans (h.published i hlo hlt hi)
      unpublished := fun i hlo hlt hi => (hsequence _).trans (h.unpublished i hlo hlt hi)
      fifo := hfifo }
  refine hbetween.setProducer (fun i => ?_) nofun (fun value' i hp => ?_) nofun nofun
  · rw [show s'.producers p = _ from hpc]
    rfl
  · obtain ⟨rfl, rfl⟩ := ProducerPc.writing.inj (hpc.symm.trans hp)
    exact congrArg Cell.data cells_setCell_self

theorem Consistent.release [DecidableEq P] (h : Consistent s) (hshort : Short s) {p : P} {pos : ℕ}
    (hpc : s.producers p = .releasing pos) :
    Consistent ((s.setCell pos { s.cells (index k pos) with sequence := word (pos + 1) }).setProducer
      p .idle) := by
  obtain ⟨hlo, hlt⟩ := h.pending pos ⟨p, hpc ▸ rfl⟩
  have hroom := h.room
  have hword : word (pos + 1) = pos + 1 := by
    refine word_of_lt ?_
    have := hshort
    unfold Short at this
    omega
  rw [hword]
  set s' : Ring k T P :=
    (s.setCell pos { s.cells (index k pos) with sequence := pos + 1 }).setProducer p .idle with hs'
  have hself : s'.producers p = .idle := producers_setProducer_self
  have hothers : ∀ q, q ≠ p → s'.producers q = s.producers q := fun q hq =>
    producers_setProducer_of_ne hq
  have hback : ∀ q pc, .idle ≠ pc → s'.producers q = pc → s.producers q = pc :=
    fun q pc => producers_of_setProducer
  -- the position is the producer's alone, so it is the only one that is not pending any more
  have hpending : ∀ i, s'.Pending i ↔ i ≠ pos ∧ s.Pending i := by
    intro i
    constructor
    · rintro ⟨q, hq⟩
      by_cases heq : q = p
      · subst heq
        rw [hself] at hq
        exact hq.elim
      · rw [hothers q heq] at hq
        refine ⟨?_, q, hq⟩
        rintro rfl
        exact heq (h.alone q p i hq (hpc ▸ rfl))
    · rintro ⟨hne, q, hq⟩
      refine ⟨q, ?_⟩
      rwa [hothers q]
      rintro rfl
      rw [hpc] at hq
      exact hne hq.symm
  have hdata : ∀ i, (s'.cells i).data = (s.cells i).data := data_setCell rfl
  have hcell : ∀ i, s.released ≤ i → i < s.released + capacity k → i ≠ pos →
      s'.cells (index k i) = s.cells (index k i) := fun i hlo' hlt' =>
    cells_setCell_of_ne hlo (by omega) hlo' hlt'
  constructor
  case enqueuePos => exact h.enqueuePos
  case room => exact h.room
  case published =>
    intro i hlo' hlt' hi
    change i < s.claimed.length at hlt'
    by_cases heq : i = pos
    · subst heq
      exact congrArg Cell.sequence cells_setCell_self
    · rw [hcell i hlo' (by omega) heq]
      refine h.published i hlo' hlt' fun hp => hi ?_
      exact (hpending i).2 ⟨heq, hp⟩
  case unpublished =>
    intro i hlo' hlt' hi
    have hne : i ≠ pos := by
      rintro rfl
      rcases hi with hi | hi
      · exact absurd hlt (Nat.not_lt.2 hi)
      · exact ((hpending i).1 hi).1 rfl
    rw [hcell i hlo' hlt' hne]
    exact h.unpublished i hlo' hlt' (hi.imp_right fun hi => ((hpending i).1 hi).2)
  case loaded =>
    intro q value' i hq
    exact h.loaded q value' i (hback q _ nofun hq)
  case claiming =>
    intro q value' i hq
    exact h.claiming q value' i (hback q _ nofun hq)
  case pending =>
    intro i hi
    exact h.pending i ((hpending i).1 hi).2
  case alone => exact alone_setProducer (fun i hi => hi.elim) h.alone
  case writing =>
    intro q value' i hq
    exact h.writing q value' i (hback q _ nofun hq)
  case fifo =>
    refine ⟨h.fifo.popped, fun i value' hi hvalue hwriting => ?_⟩
    rw [hdata]
    refine h.fifo.kept i value' hi hvalue fun q other hq => hwriting q other ?_
    rwa [hothers q]
    rintro rfl
    rw [hpc] at hq
    cases hq
  case consumer =>
    refine h.consumer.congr rfl rfl rfl fun hready => ⟨hready.1, fun hi => ?_⟩
    exact hready.2 ((hpending _).1 hi).2

/-! ### Popping -/

theorem Consistent.read (h : Consistent s) {pos : ℕ} (hpc : s.consumer = .reading pos) :
    Consistent { s with
      consumer := .releasing pos
      popped := s.popped ++ [(s.cells (index k pos)).data] } := by
  have hat := h.consumer
  rw [hpc] at hat
  obtain ⟨rfl, hdequeue, hpopped, hready⟩ := hat
  obtain ⟨value, hvalue⟩ : ∃ value, s.claimed[s.released]? = some value :=
    ⟨_, List.getElem?_eq_getElem hready.1⟩
  have hdata : (s.cells (index k s.released)).data = value := by
    refine h.fifo.kept s.released value hpopped.le hvalue fun p other hp => hready.2 ⟨p, ?_⟩
    rw [hp]
    rfl
  refine { h with fifo := ⟨?_, ?_⟩, consumer := ⟨rfl, hdequeue, ?_, hready⟩ }
  · rw [hdata]
    obtain ⟨rest, hrest⟩ := h.fifo.popped
    rw [← hrest, List.getElem?_append_right hpopped.le, hpopped, Nat.sub_self] at hvalue
    obtain ⟨rest', rfl⟩ : ∃ rest', rest = value :: rest' := by
      cases rest with
      | nil => cases hvalue
      | cons head rest' => exact ⟨rest', by rw [Option.some.inj hvalue]⟩
    exact ⟨rest', by rw [← hrest, List.append_assoc, List.singleton_append]⟩
  · intro i value' hi
    rw [List.length_append] at hi
    exact h.fifo.kept i value' (Nat.le_of_add_right_le hi)
  · rw [List.length_append, hpopped]
    rfl

theorem Consistent.recycle (h : Consistent s) (hshort : Short s) {pos : ℕ}
    (hpc : s.consumer = .releasing pos) :
    Consistent { s.setCell pos { s.cells (index k pos) with sequence := word (pos + mask k + 1) } with
      consumer := .idle, released := s.released + 1 } := by
  have hat := h.consumer
  rw [hpc] at hat
  obtain ⟨rfl, hdequeue, hpopped, hready⟩ := hat
  have hroom := h.room
  have hpos : 0 < capacity k := Nat.two_pow_pos k
  have hword : word (s.released + mask k + 1) = s.released + capacity k := by
    have hlap : s.released + mask k + 1 = s.released + capacity k := by
      unfold mask
      omega
    rw [hlap]
    refine word_of_lt ?_
    have := hready.1
    unfold Short at hshort
    omega
  rw [hword]
  set s' : Ring k T P :=
    { s.setCell s.released { s.cells (index k s.released) with
        sequence := s.released + capacity k } with
      consumer := .idle, released := s.released + 1 } with hs'
  have hdata : ∀ i, (s'.cells i).data = (s.cells i).data := data_setCell rfl
  have hcell : ∀ i, s.released + 1 ≤ i → i < s.released + capacity k →
      s'.cells (index k i) = s.cells (index k i) := fun i hlo hlt =>
    cells_setCell_of_ne le_rfl (by omega) (Nat.le_of_succ_le hlo) hlt (Nat.ne_of_gt hlo)
  have hlater : ∀ i, s.Pending i → s.released + 1 ≤ i := by
    intro i hi
    refine Nat.lt_of_le_of_ne (h.pending i hi).1 ?_
    rintro rfl
    exact hready.2 hi
  constructor
  case enqueuePos => exact h.enqueuePos
  case room =>
    change s.claimed.length ≤ s.released + 1 + capacity k
    omega
  case published =>
    intro i hlo hlt hi
    change s.released + 1 ≤ i at hlo
    change i < s.claimed.length at hlt
    rw [hcell i hlo (by omega)]
    exact h.published i (Nat.le_of_succ_le hlo) hlt hi
  case unpublished =>
    intro i hlo hlt hi
    change s.released + 1 ≤ i at hlo
    change i < s.released + 1 + capacity k at hlt
    by_cases heq : i = s.released + capacity k
    · -- the cell is free for the position one lap later
      subst heq
      rw [index_add_capacity]
      exact congrArg Cell.sequence cells_setCell_self
    · rw [hcell i hlo (by omega)]
      exact h.unpublished i (Nat.le_of_succ_le hlo) (by omega) hi
  case loaded => exact h.loaded
  case claiming =>
    intro p value i hp
    have := h.claiming p value i hp
    change i < s.released + 1 + capacity k
    omega
  case pending =>
    intro i hi
    exact ⟨hlater i hi, (h.pending i hi).2⟩
  case alone => exact h.alone
  case writing => exact h.writing
  case fifo =>
    refine ⟨h.fifo.popped, fun i value hi hvalue hwriting => ?_⟩
    rw [hdata]
    exact h.fifo.kept i value hi hvalue hwriting
  case consumer => exact ⟨hdequeue, hpopped⟩

/-! ### Every run -/

/-- Every position shares its cell with one of the lap. -/
theorem exists_index (lo pos : ℕ) :
    ∃ i, lo ≤ i ∧ i < lo + capacity k ∧ index k i = index k pos := by
  have hpos : 0 < capacity k := Nat.two_pow_pos k
  induction lo with
  | zero =>
    refine ⟨pos % capacity k, Nat.zero_le _, ?_, index_eq_iff.2 (Nat.mod_mod _ _)⟩
    rw [Nat.zero_add]
    exact Nat.mod_lt _ hpos
  | succ lo ih =>
    obtain ⟨i, hlo, hlt, hindex⟩ := ih
    rcases Nat.eq_or_lt_of_le hlo with rfl | hlo
    · exact ⟨lo + capacity k, by omega, by omega, (index_add_capacity lo).trans hindex⟩
    · exact ⟨i, hlo, by omega, hindex⟩

theorem Consistent.sequence_cases (h : Consistent s) {i : ℕ} (hlo : s.released ≤ i)
    (hlt : i < s.released + capacity k) :
    (s.cells (index k i)).sequence = i ∨
      (s.cells (index k i)).sequence = i + 1 ∧ i < s.claimed.length := by
  by_cases hi : s.claimed.length ≤ i ∨ s.Pending i
  · exact .inl (h.unpublished i hlo hlt hi)
  · rw [not_or, not_le] at hi
    exact .inr ⟨h.published i hlo hi.1 hi.2, hi.1⟩

/-- The difference, without the words. -/
theorem Consistent.diff_eq (h : Consistent s) (hshort : Short s) {pos expected : ℕ}
    (hexpected : expected < 2 ^ 63) :
    s.diff pos expected = (s.cells (index k pos)).sequence - (expected : ℤ) := by
  obtain ⟨i, hlo, hlt, hindex⟩ := exists_index (k := k) s.released pos
  have hsequence : (s.cells (index k pos)).sequence < 2 ^ 63 := by
    have hle := h.released_le
    unfold Short at hshort
    rw [← hindex]
    rcases h.sequence_cases hlo hlt with heq | ⟨heq, hclaimed⟩ <;> omega
  unfold diff
  rw [signed_of_lt hsequence, signed_of_lt hexpected]

theorem Consistent.loadFree [DecidableEq P] (h : Consistent s) (hshort : Short s) (hk : k ≠ 0)
    {p : P} {value : T} {pos : ℕ} (hpc : s.producers p = .loaded value pos)
    (hdiff : s.diff pos pos = 0) : Consistent (s.setProducer p (.claiming value pos)) := by
  have hpos := h.loaded p value pos hpc
  have hroom := h.room
  have hbound := hshort
  unfold Short at hbound
  have hfree : pos < s.released + capacity k := by
    by_contra hnot
    -- one lap on, the cell is that of the first position
    obtain rfl : pos = s.released + capacity k := by omega
    rw [h.diff_eq hshort (by omega), index_add_capacity] at hdiff
    have hcells : 2 ≤ capacity k := Nat.le_self_pow hk 2
    rcases h.sequence_cases le_rfl (by omega) with heq | ⟨heq, -⟩
    all_goals
      rw [heq] at hdiff
      push_cast at hdiff
      omega
  refine h.setProducer (fun i => ?_) nofun (fun value' i hp => ?_) nofun ?_
  · rw [hpc]
    rfl
  · cases hpc.symm.trans hp
  · rintro value' pos' ⟨⟩
    exact hfree

theorem Consistent.loadReady (h : Consistent s) (hshort : Short s) {pos : ℕ}
    (hpc : s.consumer = .loaded pos) (hdiff : s.diff pos (word (pos + 1)) = 0) :
    Consistent { s with consumer := .claiming pos } := by
  have hat := h.consumer
  rw [hpc] at hat
  obtain ⟨rfl, hdequeue, hpopped⟩ := hat
  have hle := h.released_le
  have hcells : 0 < capacity k := Nat.two_pow_pos k
  have hbound := hshort
  unfold Short at hbound
  have hready : s.Ready := by
    by_contra hnot
    have hsequence := h.unpublished s.released le_rfl (by omega) (by
      by_contra hor
      rw [not_or, not_le] at hor
      exact hnot hor)
    rw [word_of_lt (by omega), h.diff_eq hshort (by omega), hsequence] at hdiff
    push_cast at hdiff
    omega
  exact { h with fifo := ⟨h.fifo.popped, h.fifo.kept⟩, consumer := ⟨rfl, hdequeue, hpopped, hready⟩ }

theorem Consistent.advance (h : Consistent s) (hshort : Short s)
    (hpc : s.consumer = .claiming s.dequeuePos) :
    Consistent { s with
      consumer := .reading s.dequeuePos, dequeuePos := word (s.dequeuePos + 1) } := by
  have hat := h.consumer
  rw [hpc] at hat
  obtain ⟨hdequeue, -, hpopped, hready⟩ := hat
  have hword : word (s.dequeuePos + 1) = s.released + 1 := by
    rw [hdequeue]
    refine word_of_lt ?_
    have := hready.1
    unfold Short at hshort
    omega
  exact { h with
    fifo := ⟨h.fifo.popped, h.fifo.kept⟩
    consumer := ⟨hdequeue, hword, hpopped, hready⟩ }

/-- The consumer goes where it takes nothing. -/
theorem Consistent.consume (h : Consistent s) {pc : ConsumerPc}
    (hreading : ∀ pos, s.consumer ≠ .reading pos) (hreleasing : ∀ pos, s.consumer ≠ .releasing pos)
    (hpc : pc = .idle ∨ pc = .entered ∨ pc = .loaded s.dequeuePos) :
    Consistent { s with consumer := pc } := by
  have hat : s.dequeuePos = s.released ∧ s.popped.length = s.released := by
    have hat := h.consumer
    cases hc : s.consumer <;> simp only [hc, ConsumerAt] at hat
    case reading => exact (hreading _ hc).elim
    case releasing => exact (hreleasing _ hc).elim
    case idle | entered => exact hat
    case loaded => exact hat.2
    case claiming => exact ⟨hat.2.1, hat.2.2.1⟩
  refine { h with fifo := ⟨h.fifo.popped, h.fifo.kept⟩, consumer := ?_ }
  rcases hpc with rfl | rfl | rfl
  · exact hat
  · exact hat
  · exact ⟨hat.1, hat⟩

variable [DecidableEq P]

theorem Step.short (h : Step s s') (hshort : Short s') : Short s := by
  have hle : s.claimed.length ≤ s'.claimed.length := by
    cases h
    case claim => simp
    all_goals exact le_rfl
  unfold Short at hshort ⊢
  omega

/-- **The steps keep the ring consistent**, when it has more than one cell. -/
theorem Step.consistent (hk : k ≠ 0) (hshort : Short s') (h : Step s s') (hs : Consistent s) :
    Consistent s' := by
  have hbefore := h.short hshort
  cases h with
  | move p pc hreleasing hwriting hpc =>
    refine hs.setProducer (fun i => iff_of_false ?_ fun hi => ?_) ?_
      (fun value pos hp => (hwriting value pos hp).elim) ?_ ?_
    · rcases hpc with rfl | ⟨value, rfl⟩ | ⟨value, rfl⟩ <;> exact id
    · cases hp : s.producers p with
      | writing value pos => exact hwriting value pos hp
      | releasing pos => exact hreleasing pos hp
      | _ =>
        rw [hp] at hi
        exact hi
    · rcases hpc with rfl | ⟨value, rfl⟩ | ⟨value, rfl⟩ <;> exact nofun
    · rintro value pos rfl
      rcases hpc with hpc | ⟨_, hpc⟩ | ⟨_, hpc⟩ <;> cases hpc
      exact hs.enqueuePos.le
    · rintro value pos rfl
      rcases hpc with hpc | ⟨_, hpc⟩ | ⟨_, hpc⟩ <;> cases hpc
  | loadFree hpc hdiff => exact hs.loadFree hbefore hk hpc hdiff
  | claim hpc =>
    refine hs.claim ?_ hpc
    have hcells : 0 < capacity k := Nat.two_pow_pos k
    simp only [Short, List.length_append, List.length_singleton] at hshort
    omega
  | write hpc => exact hs.write hpc
  | release hpc => exact hs.release hbefore hpc
  | consume pc hreading hreleasing hpc => exact hs.consume hreading hreleasing hpc
  | loadReady hpc hdiff => exact hs.loadReady hbefore hpc hdiff
  | advance hpc => exact hs.advance hbefore hpc
  | read hpc => exact hs.read hpc
  | recycle hpc => exact hs.recycle hbefore hpc

theorem consistent_of_run [Inhabited T] (hk : k ≠ 0) {ls : List (Label T P)}
    (h : system.run (init : Ring k T P) ls = some s) (hshort : Short s) : Consistent s := by
  refine TransitionSystem.invariant (I := fun _ s => Short s → Consistent s)
    (fun _ => consistent_init) ?_ h hshort
  intro ls s l s' _ ih hstep hshort
  have hs := step_cases hstep
  exact hs.consistent hk hshort (ih (hs.short hshort))

omit [DecidableEq P] in
/-- A push is refused by a full ring only. -/
theorem Consistent.full (h : Consistent s) (hshort : Short s) {p : P} (hp : s.Refuses p) :
    Full s := by
  obtain ⟨value, pos, hpc, hdiff⟩ := hp
  have hpos := h.loaded p value pos hpc
  have hroom := h.room
  have hbound := hshort
  unfold Short at hbound
  obtain ⟨i, hlo, hlt, hindex⟩ := exists_index (k := k) s.released pos
  rw [h.diff_eq hshort (by omega), ← hindex] at hdiff
  have hless : i < pos := by
    rcases h.sequence_cases hlo hlt with heq | ⟨heq, -⟩ <;> rw [heq] at hdiff <;> omega
  unfold Full
  by_contra hnot
  exact hless.ne (index_inj hlo hlt (by omega) (by omega) hindex)

/-! ### Cells apart -/

/-- A push that nobody interrupts. -/
def pushRun (p : P) (value : T) : List (Label T P) :=
  [.push p value, .loadEnqueuePos p, .loadFree p, .claim p false, .write p, .release p]

/-- The consumer has taken the position and not released it. -/
def ConsumerPc.Holds (i : ℕ) : ConsumerPc → Prop
  | .reading pos => pos = i
  | .releasing pos => pos = i
  | _ => False

/-- Whoever holds a position is alone at its cell. -/
structure Exclusive (s : Ring k T P) : Prop where
  producers : ∀ p q i j, (s.producers p).Holds i → (s.producers q).Holds j →
    index k i = index k j → p = q
  consumer : ∀ p i j, (s.producers p).Holds i → s.consumer.Holds j → index k i ≠ index k j

/-- **No two threads are ever at one cell**, when there is more than one. -/
theorem exclusive_of_run [Inhabited T] (hk : k ≠ 0) {ls : List (Label T P)}
    (hrun : system.run (init : Ring k T P) ls = some s) (hshort : Short s) : Exclusive s := by
  have h := consistent_of_run hk hrun hshort
  have hroom := h.room
  refine ⟨fun p q i j hp hq hindex => ?_, fun p i j hp hj hindex => ?_⟩
  · obtain ⟨hi, hi'⟩ := h.pending i ⟨p, hp⟩
    obtain ⟨hj, hj'⟩ := h.pending j ⟨q, hq⟩
    obtain rfl := index_inj hi (by omega) hj (by omega) hindex
    exact h.alone p q i hp hq
  · -- the consumer holds the first position, where no producer is any more
    obtain ⟨rfl, hready⟩ : j = s.released ∧ s.Ready := by
      have hat := h.consumer
      cases hc : s.consumer <;> simp only [hc, ConsumerAt, ConsumerPc.Holds] at hat hj
      case reading | releasing => exact ⟨hj ▸ hat.1, hat.2.2.2⟩
    obtain ⟨hi, hi'⟩ := h.pending i ⟨p, hp⟩
    obtain rfl := index_inj hi (by omega) le_rfl (by omega) hindex
    exact hready.2 ⟨p, hp⟩

/-- A value is read while the next one is written. -/
theorem exclusive_of_run_midway : ∃ s, s.consumer = .reading 0 ∧ Exclusive (s : Ring 1 Bool Unit) := by
  obtain ⟨s, hrun, hclaimed, hconsumer⟩ : ∃ s, system.run (init : Ring 1 Bool Unit)
      (pushRun () true ++ [.pop, .loadDequeuePos, .loadReady, .advance false] ++
        (pushRun () false).take 4) = some s ∧ s.claimed.length = 2 ∧ s.consumer = .reading 0 :=
    ⟨_, rfl, rfl, rfl⟩
  exact ⟨s, hconsumer, exclusive_of_run (by decide) hrun (by norm_num [Short, capacity, hclaimed])⟩

/-! ### One cell -/

theorem run_pushRun {p : P} (value : T) (hidle : s.producers p = .idle)
    (hfree : (s.cells (index k s.enqueuePos)).sequence = s.enqueuePos) :
    system.run s (pushRun p value) = some
      { s.setCell s.enqueuePos { sequence := word (s.enqueuePos + 1), data := value } with
        enqueuePos := word (s.enqueuePos + 1), claimed := s.claimed ++ [value] } := by
  have hproducers : Function.update s.producers p .idle = s.producers := by
    rw [← hidle, Function.update_eq_self]
  have hdiff : ∀ producers : P → ProducerPc T,
      diff { s with producers } s.enqueuePos s.enqueuePos = 0 := by
    intro producers
    unfold diff
    rw [hfree, sub_self]
  simp [pushRun, TransitionSystem.run, system, stepProducer, hidle, setProducer, hdiff, afterLoad,
    setCell, hproducers]

/-- In a ring of one cell, a second push overwrites what the first has written. -/
theorem exists_run_overwritten [Inhabited T] (p : P) (first second : T) :
    ∃ s : Ring 0 T P, system.run init (pushRun p first ++ pushRun p second) = some s ∧
      s.claimed = [first, second] ∧ s.popped = [] ∧ s.producers = (fun _ => .idle) ∧
      (s.cells (index 0 0)).data = second := by
  have hindex : ∀ i, index 0 i = index 0 0 := fun i => index_eq_iff.2 (by simp [capacity, Nat.mod_one])
  have hfirst := run_pushRun (k := 0) (s := init) (p := p) first rfl
    (Nat.zero_and _)
  rw [show (init : Ring 0 T P).enqueuePos = 0 from rfl] at hfirst
  set s₁ : Ring 0 T P :=
    { init.setCell 0 { sequence := word (0 + 1), data := first } with
      enqueuePos := word (0 + 1), claimed := [] ++ [first] } with hs₁
  -- the cell that was published is numbered as the next free one
  have hfree : (s₁.cells (index 0 s₁.enqueuePos)).sequence = s₁.enqueuePos := by
    rw [hindex]
    exact congrArg Cell.sequence cells_setCell_self
  have hsecond := run_pushRun (p := p) (s := s₁) second rfl hfree
  have hrun : system.run init (pushRun p first ++ pushRun p second) =
      system.run s₁ (pushRun p second) := by
    rw [TransitionSystem.run_append, hfirst]
    rfl
  refine ⟨_, hrun.trans hsecond, rfl, rfl, rfl, ?_⟩
  rw [← hindex s₁.enqueuePos]
  exact congrArg Cell.data cells_setCell_self

/-- So the value written is lost. -/
theorem exists_run_not_fifo [Inhabited T] (p : P) {first second : T} (hne : first ≠ second) :
    ∃ s : Ring 0 T P, system.run init (pushRun p first ++ pushRun p second) = some s ∧ Short s ∧
      ¬ Fifo s := by
  obtain ⟨s, hrun, hclaimed, hpopped, hproducers, hdata⟩ := exists_run_overwritten p first second
  refine ⟨s, hrun, ?_, fun hfifo => hne ?_⟩
  · unfold Short
    rw [hclaimed]
    norm_num [capacity]
  · have hkept := hfifo.kept 0 first (by simp [hpopped]) (by simp [hclaimed]) (by simp [hproducers])
    exact hkept.symm.trans hdata

/-- **The ring is a queue exactly when its capacity is not one.** -/
theorem fifo_iff [Inhabited T] [Nontrivial T] [Nonempty P] :
    (∀ (ls : List (Label T P)) (s : Ring k T P), system.run init ls = some s → Short s →
      Fifo s ∧ ∀ p, s.Refuses p → Full s) ↔ capacity k ≠ 1 := by
  have hcapacity : capacity k ≠ 1 ↔ k ≠ 0 := by
    unfold capacity
    rw [ne_eq, Nat.pow_eq_one]
    omega
  rw [hcapacity]
  constructor
  · rintro h rfl
    obtain ⟨p⟩ := ‹Nonempty P›
    obtain ⟨first, second, hne⟩ := exists_pair_ne T
    obtain ⟨s, hrun, hshort, hnot⟩ := exists_run_not_fifo p hne
    exact hnot (h _ s hrun hshort).1
  · intro hk ls s hrun hshort
    have hs := consistent_of_run hk hrun hshort
    exact ⟨hs.fifo, fun p hp => hs.full hshort hp⟩

/-- The smallest ring that is a queue. -/
theorem fifo_two :
    (∀ (ls : List (Label Bool Unit)) (s : Ring 1 Bool Unit), system.run init ls = some s → Short s →
      Fifo s ∧ ∀ p, s.Refuses p → Full s) ↔ capacity 1 ≠ 1 :=
  fifo_iff

/-- The values 1 and 2, pushed by one thread into a ring of one cell. -/
theorem not_fifo_one :
    capacity 0 = 1 ∧ ∃ s : Ring 0 ℕ Unit,
      system.run init (pushRun () 1 ++ pushRun () 2) = some s ∧ Short s ∧ ¬ Fifo s :=
  ⟨rfl, exists_run_not_fifo () (by decide)⟩

end OneBeat.Ring
