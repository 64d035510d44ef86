import Mathlib.Data.List.DropRight
import OneBeat.Lib.BinaryFloat
import OneBeat.Lib.TieClasses

/-!
# Events of a block

`plugin/event.h`: what a plug-in is told about a block, each event at a frame of the block.  A list
has a capacity; what does not fit is dropped and counted.  It is sorted by frame with an insertion
sort, which keeps the order of events at one frame (`sortByTime_spec`).
-/

namespace OneBeat

inductive PluginEventType
  | none | noteOn | noteOff | noteChoke | noteEnd | noteExpression | paramValue | paramModulation
  | paramGestureBegin | paramGestureEnd | transportDiscontinuity | midi1 | midi2 | midiSysex
  deriving DecidableEq

/-- What stands for every note, port, channel and key. -/
def wildcard : ℤ := -1

/-- An event; the payload is the one of notes and parameters. -/
structure PluginEvent where
  /-- In frames from the start of the block. -/
  time : ℕ := 0
  type : PluginEventType := .none
  dontRecord : Bool := false
  noteId : ℤ := wildcard
  portIndex : ℤ := wildcard
  channel : ℤ := wildcard
  key : ℤ := wildcard
  id : ℕ := 0
  value : Double := .finite 0
  deriving DecidableEq

namespace PluginEvent

def noteOn (time : ℕ) (key : ℤ) (velocity : Double) : PluginEvent :=
  { time, type := .noteOn, portIndex := 0, channel := 0, key, value := velocity }

def noteOff (time : ℕ) (key : ℤ) : PluginEvent :=
  { time, type := .noteOff, portIndex := 0, channel := 0, key }

/-- Release every voice. -/
def allNotesOff (time : ℕ) : PluginEvent := { time, type := .noteOff }

def paramValue (time param : ℕ) (value : Double) : PluginEvent :=
  { time, type := .paramValue, id := param, value }

def paramModulation (time param : ℕ) (amount : Double) : PluginEvent :=
  { time, type := .paramModulation, id := param, value := amount }

/-- The event in a block that starts earlier. -/
def later (offset : ℕ) (event : PluginEvent) : PluginEvent := { event with time := offset + event.time }

@[simp] theorem later_zero (event : PluginEvent) : event.later 0 = event := by
  simp [later]

@[simp] theorem later_later (a b : ℕ) (event : PluginEvent) :
    (event.later b).later a = event.later (a + b) := by
  simp [later, Nat.add_assoc]

end PluginEvent

/-- The events of a block, in storage that does not grow. -/
structure EventList where
  events : List PluginEvent := []
  capacity : ℕ
  /-- How many events have been dropped. -/
  overflow : ℕ := 0

namespace EventList

def push (list : EventList) (event : PluginEvent) : EventList :=
  if list.capacity ≤ list.events.length then { list with overflow := list.overflow + 1 }
  else { list with events := list.events ++ [event] }

/-- One event goes behind those that are not later. -/
def insertByTime (sorted : List PluginEvent) (key : PluginEvent) : List PluginEvent :=
  sorted.rdropWhile (fun event => key.time < event.time) ++
    key :: sorted.rtakeWhile fun event => key.time < event.time

def sortByTime (list : EventList) : EventList :=
  { list with events := list.events.foldl insertByTime [] }

/-! ### Pushing -/

theorem push_overflow_le (list : EventList) (event : PluginEvent) :
    list.overflow ≤ (list.push event).overflow := by
  unfold push
  split
  · exact Nat.le_succ _
  · exact Nat.le_refl _

theorem pushed_overflow_le (list : EventList) (pushed : List PluginEvent) :
    list.overflow ≤ (pushed.foldl push list).overflow := by
  induction pushed generalizing list with
  | nil => exact Nat.le_refl _
  | cons event pushed ih => exact (push_overflow_le list event).trans (ih (list.push event))

/-- Nothing has been dropped: everything is there. -/
theorem events_pushed {list : EventList} {pushed : List PluginEvent}
    (h : (pushed.foldl push list).overflow = 0) :
    (pushed.foldl push list).events = list.events ++ pushed := by
  induction pushed generalizing list with
  | nil => simp
  | cons event pushed ih =>
    have hpush : (list.push event).events = list.events ++ [event] := by
      have hle : (list.push event).overflow ≤ 0 := h ▸ pushed_overflow_le (list.push event) pushed
      unfold push at hle ⊢
      split
      · rename_i hfull
        rw [if_pos hfull] at hle
        exact absurd hle (Nat.not_succ_le_zero _)
      · rfl
    rw [List.foldl_cons] at h ⊢
    rw [ih h, hpush, List.append_assoc]
    rfl

/-! ### Sorting -/

/-- The last event of the sorted ones stays last, or the new one does. -/
theorem insertByTime_concat (sorted : List PluginEvent) (last key : PluginEvent) :
    insertByTime (sorted ++ [last]) key =
      if key.time < last.time then insertByTime sorted key ++ [last] else sorted ++ [last, key] := by
  unfold insertByTime
  rw [List.rdropWhile_concat, List.rtakeWhile_concat]
  by_cases h : key.time < last.time <;> simp [h]

theorem ties_insertByTime (sorted : List PluginEvent) (key : PluginEvent) (t : ℕ) :
    ties PluginEvent.time t (insertByTime sorted key) =
      ties PluginEvent.time t (sorted ++ [key]) := by
  induction sorted using List.reverseRecOn with
  | nil => rfl
  | append_singleton sorted last ih =>
    rw [insertByTime_concat]
    split
    · -- the two are not at one frame
      rename_i hlt
      rw [ties_append, ih, ties_append, ties_append, ties_append, List.append_assoc,
        List.append_assoc]
      congr 1
      by_cases hkey : key.time = t
      · simp [ties, show last.time ≠ t by omega]
      · simp [ties, hkey]
    · simp

theorem mem_insertByTime {sorted : List PluginEvent} {key event : PluginEvent}
    (h : event ∈ insertByTime sorted key) : event ∈ sorted ∨ event = key := by
  have hties : event ∈ ties PluginEvent.time event.time (insertByTime sorted key) :=
    mem_ties.2 ⟨h, rfl⟩
  rw [ties_insertByTime] at hties
  simpa using (mem_ties.1 hties).1

theorem pairwise_insertByTime {sorted : List PluginEvent} (key : PluginEvent)
    (h : sorted.Pairwise fun a b => a.time ≤ b.time) :
    (insertByTime sorted key).Pairwise fun a b => a.time ≤ b.time := by
  induction sorted using List.reverseRecOn with
  | nil => exact List.pairwise_singleton _ _
  | append_singleton sorted last ih =>
    obtain ⟨hsorted, _, hlast⟩ := List.pairwise_append.1 h
    have hle : ∀ event ∈ sorted, event.time ≤ last.time := fun event hevent =>
      hlast event hevent last (List.mem_singleton_self last)
    rw [insertByTime_concat]
    split
    · rename_i hlt
      refine List.pairwise_append.2 ⟨ih hsorted, List.pairwise_singleton _ _, ?_⟩
      intro event hevent _ hmem
      obtain rfl := List.mem_singleton.1 hmem
      rcases mem_insertByTime hevent with hevent | rfl
      · exact hle event hevent
      · exact Nat.le_of_lt hlt
    · rename_i hnot
      refine List.pairwise_append.2 ⟨hsorted, by simp; omega, ?_⟩
      intro event hevent e he
      have hlast' := hle event hevent
      rcases List.mem_pair.1 he with rfl | rfl <;> omega

theorem sortByTime_spec (list : EventList) :
    list.sortByTime.events.Pairwise (fun a b => a.time ≤ b.time) ∧
      ∀ t, ties PluginEvent.time t list.sortByTime.events = ties PluginEvent.time t list.events := by
  have hfold : ∀ (events sorted : List PluginEvent),
      sorted.Pairwise (fun a b => a.time ≤ b.time) →
      (events.foldl insertByTime sorted).Pairwise (fun a b => a.time ≤ b.time) ∧
        ∀ t, ties PluginEvent.time t (events.foldl insertByTime sorted) =
          ties PluginEvent.time t (sorted ++ events) := by
    intro events
    induction events with
    | nil => exact fun sorted hsorted => ⟨hsorted, fun t => by simp⟩
    | cons key events ih =>
      intro sorted hsorted
      obtain ⟨hpairwise, hties⟩ := ih (insertByTime sorted key) (pairwise_insertByTime key hsorted)
      refine ⟨hpairwise, fun t => (hties t).trans ?_⟩
      rw [ties_append, ties_insertByTime, ← ties_append, List.append_assoc]
      rfl
  exact hfold list.events [] List.Pairwise.nil

end EventList

end OneBeat
