import Mathlib.Data.Nat.Bitwise
import Mathlib.Logic.Function.Basic
import Mathlib.Tactic.NormNum
import OneBeat.Lib.TransitionSystem

/-!
# The ring between threads

`core/rt/mpsc_ring.h`: a bounded queue without locks, any number of producers and one consumer.
Every cell carries a sequence number that says whose turn it is: of the producer that claimed that
position, or of the consumer that will take it.

Every load, compare-exchange and store is a step of its own, so the steps interleave as they may; a
weak compare-exchange may fail for no reason.  Words are natural numbers below `2 ^ 64`, and sums
of words wrap.

* `Ring.system` : the steps of the parties;
* `Ring.step_cases` : what a step can do.
-/

namespace OneBeat

/-- The number of values of a machine word. -/
def wordSize : ℕ := 2 ^ 64

/-- A sum as a machine word. -/
def word (n : ℕ) : ℕ := n % wordSize

/-- A machine word as a signed integer. -/
def signed (w : ℕ) : ℤ := Int.bmod w wordSize

theorem word_of_lt {n : ℕ} (h : n < 2 ^ 63) : word n = n :=
  Nat.mod_eq_of_lt (h.trans (by norm_num [wordSize]))

theorem signed_of_lt {n : ℕ} (h : n < 2 ^ 63) : signed n = n := by
  unfold signed wordSize
  apply Int.bmod_eq_of_le
  · omega
  · norm_num
    exact_mod_cast h

namespace Ring

/-- Where a producer is in `tryPush`. -/
inductive ProducerPc (T : Type)
  | idle
  /-- About to load the position. -/
  | entered (value : T)
  /-- About to load the sequence number of the cell. -/
  | loaded (value : T) (pos : ℕ)
  /-- The cell was free: about to claim the position. -/
  | claiming (value : T) (pos : ℕ)
  | writing (value : T) (pos : ℕ)
  | releasing (pos : ℕ)

/-- Where the consumer is in `tryPop`. -/
inductive ConsumerPc
  | idle
  | entered
  | loaded (pos : ℕ)
  | claiming (pos : ℕ)
  | reading (pos : ℕ)
  | releasing (pos : ℕ)

structure Cell (T : Type) where
  sequence : ℕ
  data : T

/-- `Capacity`, a power of two as the assertion wants it. -/
def capacity (k : ℕ) : ℕ := 2 ^ k

def mask (k : ℕ) : ℕ := capacity k - 1

theorem and_mask_lt (k pos : ℕ) : pos &&& mask k < capacity k := by
  have hpos : 0 < 2 ^ k := Nat.two_pow_pos k
  exact lt_of_le_of_lt Nat.and_le_right (Nat.sub_lt hpos Nat.one_pos)

/-- The cell of a position. -/
def index (k pos : ℕ) : Fin (capacity k) := ⟨pos &&& mask k, and_mask_lt k pos⟩

theorem index_eq_iff {k i j : ℕ} : index k i = index k j ↔ i % capacity k = j % capacity k := by
  simp only [index, mask, capacity, Fin.mk.injEq, Nat.and_two_pow_sub_one_eq_mod]

end Ring

/-- The ring, the parties, and the books: the values claimed and popped so far, and how many
positions the consumer has released. -/
structure Ring (k : ℕ) (T P : Type) where
  cells : Fin (Ring.capacity k) → Ring.Cell T
  enqueuePos : ℕ := 0
  dequeuePos : ℕ := 0
  producers : P → Ring.ProducerPc T := fun _ => .idle
  consumer : Ring.ConsumerPc := .idle
  claimed : List T := []
  popped : List T := []
  released : ℕ := 0

namespace Ring

/-- The steps: of a producer, of the consumer. -/
inductive Label (T P : Type)
  | push (p : P) (value : T)
  | loadEnqueuePos (p : P)
  | loadFree (p : P)
  | claim (p : P) (spurious : Bool)
  | write (p : P)
  | release (p : P)
  | pop
  | loadDequeuePos
  | loadReady
  | advance (spurious : Bool)
  | read
  | recycle

variable {k : ℕ} {T P : Type} [DecidableEq P]

/-! ### The steps -/

/-- The sequence number of the cell, less what it should be. -/
def diff (s : Ring k T P) (pos expected : ℕ) : ℤ :=
  signed (s.cells (index k pos)).sequence - signed expected

/-- The producer `p` is at `pc`. -/
def setProducer (s : Ring k T P) (p : P) (pc : ProducerPc T) : Ring k T P :=
  { s with producers := Function.update s.producers p pc }

def setCell (s : Ring k T P) (pos : ℕ) (cell : Cell T) : Ring k T P :=
  { s with cells := Function.update s.cells (index k pos) cell }

/-- Where a producer goes that found the difference. -/
def afterLoad (value : T) (pos : ℕ) (diff : ℤ) : ProducerPc T :=
  if diff = 0 then .claiming value pos
  -- full: `tryPush` returns false
  else if diff < 0 then .idle
  else .entered value

/-- `tryPush`. -/
def stepProducer (s : Ring k T P) : Label T P → Option (Ring k T P)
  | .push p value =>
    match s.producers p with
    | .idle => some (s.setProducer p (.entered value))
    | _ => none
  | .loadEnqueuePos p =>
    match s.producers p with
    | .entered value => some (s.setProducer p (.loaded value s.enqueuePos))
    | _ => none
  | .loadFree p =>
    match s.producers p with
    | .loaded value pos => some (s.setProducer p (afterLoad value pos (s.diff pos pos)))
    | _ => none
  | .claim p spurious =>
    match s.producers p with
    | .claiming value pos =>
      some <|
        if s.enqueuePos = pos && !spurious then
          { s.setProducer p (.writing value pos) with
            enqueuePos := word (pos + 1), claimed := s.claimed ++ [value] }
        -- a failed compare-exchange loads the position
        else s.setProducer p (.loaded value s.enqueuePos)
    | _ => none
  | .write p =>
    match s.producers p with
    | .writing value pos =>
      some ((s.setCell pos { s.cells (index k pos) with data := value }).setProducer p
        (.releasing pos))
    | _ => none
  | .release p =>
    match s.producers p with
    | .releasing pos =>
      some ((s.setCell pos { s.cells (index k pos) with sequence := word (pos + 1) }).setProducer p
        .idle)
    | _ => none
  | _ => none

/-- `tryPop`. -/
def stepConsumer (s : Ring k T P) : Label T P → Option (Ring k T P)
  | .pop =>
    match s.consumer with
    | .idle => some { s with consumer := .entered }
    | _ => none
  | .loadDequeuePos =>
    match s.consumer with
    | .entered => some { s with consumer := .loaded s.dequeuePos }
    | _ => none
  | .loadReady =>
    match s.consumer with
    | .loaded pos =>
      let diff := s.diff pos (word (pos + 1))
      let consumer : ConsumerPc :=
        if diff = 0 then .claiming pos
        -- empty: `tryPop` returns false
        else if diff < 0 then .idle
        else .entered
      some { s with consumer }
    | _ => none
  | .advance spurious =>
    match s.consumer with
    | .claiming pos =>
      some <|
        if s.dequeuePos = pos && !spurious then
          { s with consumer := .reading pos, dequeuePos := word (pos + 1) }
        else { s with consumer := .loaded s.dequeuePos }
    | _ => none
  | .read =>
    match s.consumer with
    | .reading pos =>
      some { s with
        consumer := .releasing pos
        popped := s.popped ++ [(s.cells (index k pos)).data] }
    | _ => none
  | .recycle =>
    match s.consumer with
    | .releasing pos =>
      let cell := { s.cells (index k pos) with sequence := word (pos + mask k + 1) }
      some { s.setCell pos cell with consumer := .idle, released := s.released + 1 }
    | _ => none
  | _ => none

/-- The system of all parties. -/
def system : TransitionSystem (Ring k T P) (Label T P) where
  step s l := (stepProducer s l).or (stepConsumer s l)

/-- The constructor: every cell waits for the producer of its index. -/
def init [Inhabited T] : Ring k T P :=
  { cells := fun i => { sequence := i, data := default } }

/-- `p` is about to find the ring full: its `tryPush` returns false. -/
def Refuses (s : Ring k T P) (p : P) : Prop :=
  ∃ value pos, s.producers p = .loaded value pos ∧ s.diff pos pos < 0

/-! ### What a step can do -/

/-- The steps of the parties, one for each branch. -/
inductive Step : Ring k T P → Ring k T P → Prop
  /-- A producer moves on, without a claim to a position. -/
  | move {s} (p pc) (hpending : ∀ pos, s.producers p ≠ .releasing pos)
    (hwriting : ∀ value pos, s.producers p ≠ .writing value pos)
    (hpc : pc = .idle ∨ (∃ value, pc = .entered value) ∨ ∃ value, pc = .loaded value s.enqueuePos) :
    Step s (s.setProducer p pc)
  | loadFree {s p value pos} (hpc : s.producers p = .loaded value pos) (hdiff : s.diff pos pos = 0) :
    Step s (s.setProducer p (.claiming value pos))
  | claim {s p value} (hpc : s.producers p = .claiming value s.enqueuePos) :
    Step s { s.setProducer p (.writing value s.enqueuePos) with
      enqueuePos := word (s.enqueuePos + 1), claimed := s.claimed ++ [value] }
  | write {s p value pos} (hpc : s.producers p = .writing value pos) :
    Step s ((s.setCell pos { s.cells (index k pos) with data := value }).setProducer p
      (.releasing pos))
  | release {s p pos} (hpc : s.producers p = .releasing pos) :
    Step s ((s.setCell pos { s.cells (index k pos) with sequence := word (pos + 1) }).setProducer p
      .idle)
  /-- The consumer moves on, without taking a position. -/
  | consume {s} (pc) (hreading : ∀ pos, s.consumer ≠ .reading pos)
    (hreleasing : ∀ pos, s.consumer ≠ .releasing pos)
    (hpc : pc = .idle ∨ pc = .entered ∨ pc = .loaded s.dequeuePos) :
    Step s { s with consumer := pc }
  | loadReady {s pos} (hpc : s.consumer = .loaded pos) (hdiff : s.diff pos (word (pos + 1)) = 0) :
    Step s { s with consumer := .claiming pos }
  | advance {s} (hpc : s.consumer = .claiming s.dequeuePos) :
    Step s { s with consumer := .reading s.dequeuePos, dequeuePos := word (s.dequeuePos + 1) }
  | read {s pos} (hpc : s.consumer = .reading pos) :
    Step s { s with
      consumer := .releasing pos
      popped := s.popped ++ [(s.cells (index k pos)).data] }
  | recycle {s pos} (hpc : s.consumer = .releasing pos) :
    Step s { s.setCell pos { s.cells (index k pos) with sequence := word (pos + mask k + 1) } with
      consumer := .idle, released := s.released + 1 }

variable {s s' : Ring k T P} {l : Label T P}

theorem step_producer (h : stepProducer s l = some s') : Step s s' := by
  cases l <;> simp only [stepProducer, reduceCtorEq] at h
  all_goals
    split at h <;> simp only [Option.some.injEq, reduceCtorEq] at h
    rename_i hpc
    subst h
  · exact .move _ _ (by simp [hpc]) (by simp [hpc]) (.inr (.inl ⟨_, rfl⟩))
  · exact .move _ _ (by simp [hpc]) (by simp [hpc]) (.inr (.inr ⟨_, rfl⟩))
  · unfold afterLoad
    split_ifs with hzero hneg
    · exact .loadFree hpc hzero
    · exact .move _ _ (by simp [hpc]) (by simp [hpc]) (.inl rfl)
    · exact .move _ _ (by simp [hpc]) (by simp [hpc]) (.inr (.inl ⟨_, rfl⟩))
  · split_ifs with hpos
    · simp only [Bool.and_eq_true, decide_eq_true_eq] at hpos
      obtain ⟨rfl, -⟩ := hpos
      exact .claim hpc
    · exact .move _ _ (by simp [hpc]) (by simp [hpc]) (.inr (.inr ⟨_, rfl⟩))
  · exact .write hpc
  · exact .release hpc

theorem step_consumer (h : stepConsumer s l = some s') : Step s s' := by
  cases l <;> simp only [stepConsumer, reduceCtorEq] at h
  all_goals
    split at h <;> simp only [Option.some.injEq, reduceCtorEq] at h
    rename_i hpc
    subst h
  · exact .consume _ (by simp [hpc]) (by simp [hpc]) (.inr (.inl rfl))
  · exact .consume _ (by simp [hpc]) (by simp [hpc]) (.inr (.inr rfl))
  · split_ifs with hzero hneg
    · exact .loadReady hpc hzero
    · exact .consume _ (by simp [hpc]) (by simp [hpc]) (.inl rfl)
    · exact .consume _ (by simp [hpc]) (by simp [hpc]) (.inr (.inl rfl))
  · split_ifs with hpos
    · simp only [Bool.and_eq_true, decide_eq_true_eq] at hpos
      obtain ⟨rfl, -⟩ := hpos
      exact .advance hpc
    · exact .consume _ (by simp [hpc]) (by simp [hpc]) (.inr (.inr rfl))
  · exact .read hpc
  · exact .recycle hpc

theorem step_cases (h : system.step s l = some s') : Step s s' := by
  simp only [system, Option.or_eq_some_iff] at h
  rcases h with h | ⟨_, h⟩
  · exact step_producer h
  · exact step_consumer h

end Ring

end OneBeat
