import Mathlib.Data.Prod.Lex
import OneBeat.Lib.BinaryFloat
import OneBeat.Lib.TieClasses

/-!
# The flattened schedule

`core/schedule.h` and `core/schedule.cpp`: a list of events at absolute frames, sorted by frame, a
note-off before a note-on at the same frame, and otherwise in the order they were written.

`Alternates` says what the events of one voice look like, and `ScheduleBuilder.filter_events_build`
that sorting leaves the events of a voice alone when they already do.
-/

namespace OneBeat

inductive EventType
  | noteOn | noteOff | tempoChange | paramValue | paramModulation | audioStart | effectParam
  deriving DecidableEq

/-- The number of a type, which the sort compares. -/
def EventType.code : EventType → ℕ
  | noteOn => 0
  | noteOff => 1
  | tempoChange => 2
  | paramValue => 3
  | paramModulation => 4
  | audioStart => 5
  | effectParam => 6

structure ScheduleEvent where
  /-- Absolute frames from the origin of the schedule. -/
  frame : ℤ
  /-- A channel of the rack, or the dense index of an effect. -/
  instrument : ℕ
  type : EventType
  /-- A MIDI key, or `-1`. -/
  note : ℤ
  value : Double
  reserved : ℕ
  deriving DecidableEq

namespace ScheduleEvent

/-- The order of the schedule: by frame, then the larger type first. -/
def before (lhs rhs : ScheduleEvent) : Bool :=
  if lhs.frame ≠ rhs.frame then lhs.frame < rhs.frame else rhs.type.code < lhs.type.code

/-- `a` may stand before `b` in a schedule. -/
def le (a b : ScheduleEvent) : Prop := b.before a = false

instance : DecidableRel le := fun _ _ => inferInstanceAs (Decidable (_ = _))

/-- What the order compares. -/
def place (event : ScheduleEvent) : ℤ ×ₗ ℕᵒᵈ :=
  toLex (event.frame, OrderDual.toDual event.type.code)

theorem le_iff (a b : ScheduleEvent) : a.le b ↔ a.place ≤ b.place := by
  have hbefore : b.before a = true ↔ b.place < a.place := by
    simp only [before, place, Prod.Lex.toLex_lt_toLex, OrderDual.toDual_lt_toDual]
    split_ifs with h
    · simp [h]
    · simp [not_not.1 h]
  rw [le, ← Bool.not_eq_true, hbefore, not_lt]

end ScheduleEvent

/-- An immutable schedule. -/
structure Schedule where
  events : List ScheduleEvent
  lengthFrames : ℤ
  sampleRate : Double
  generation : ℕ

/-- Builds a schedule: the events in the order they were added. -/
structure ScheduleBuilder where
  events : List ScheduleEvent := []
  lengthFrames : ℤ := 0

namespace ScheduleBuilder

variable (builder : ScheduleBuilder)

def addEvent (event : ScheduleEvent) : ScheduleBuilder :=
  { builder with events := builder.events ++ [event] }

/-- A note-on and a note-off. -/
def addNote (instrument : ℕ) (note : ℤ) (velocity : Double) (startFrame durationFrames : ℤ) :
    ScheduleBuilder :=
  (builder.addEvent ⟨startFrame, instrument, .noteOn, note, velocity, 0⟩).addEvent
    ⟨startFrame + durationFrames, instrument, .noteOff, note, 0, 0⟩

def addParamValue (instrument param : ℕ) (value : Double) (frame : ℤ) : ScheduleBuilder :=
  builder.addEvent ⟨frame, instrument, .paramValue, -1, value, param⟩

def addEffectParam (effect param : ℕ) (value : Double) (frame : ℤ) : ScheduleBuilder :=
  builder.addEvent ⟨frame, effect, .effectParam, -1, value, param⟩

def addAudioStart (instrument : ℕ) (frame : ℤ) : ScheduleBuilder :=
  builder.addEvent ⟨frame, instrument, .audioStart, -1, 1, 0⟩

def setLengthFrames (frames : ℤ) : ScheduleBuilder := { builder with lengthFrames := frames }

/-- Sort the events, stably; a schedule without a length ends at its last event. -/
def build (sampleRate : Double) (generation : ℕ) : Schedule :=
  let events := builder.events.insertionSort ScheduleEvent.le
  { events
    lengthFrames :=
      if builder.lengthFrames ≤ 0 then
        match events.getLast? with
        | some last => last.frame
        | none => builder.lengthFrames
      else builder.lengthFrames
    sampleRate, generation }

end ScheduleBuilder

/-! ### Voices -/

/-- The event is addressed to one key of one instrument. -/
def ScheduleEvent.addresses (instrument : ℕ) (key : ℤ) (event : ScheduleEvent) : Bool :=
  event.instrument = instrument && event.note = key

/-- Note-on, note-off, note-on, note-off, …: every note-off is later than its note-on, and not later
than the note-on after it. -/
def Alternates : List ScheduleEvent → Prop
  | [] => True
  | [_] => False
  | on :: off :: events =>
    on.type = .noteOn ∧ off.type = .noteOff ∧ on.frame < off.frame ∧
      (∀ next ∈ events.head?, off.frame ≤ next.frame) ∧ Alternates events

instance instDecidableAlternates : (events : List ScheduleEvent) → Decidable (Alternates events)
  | [] => .isTrue trivial
  | [_] => .isFalse id
  | _ :: _ :: events =>
    have := instDecidableAlternates events
    inferInstanceAs (Decidable (_ ∧ _ ∧ _ ∧ _ ∧ _))

theorem Alternates.type_head {events : List ScheduleEvent} (h : Alternates events)
    {event : ScheduleEvent} (hevent : event ∈ events.head?) : event.type = .noteOn := by
  match events, h with
  | [], _ => cases hevent
  | on :: off :: events, h =>
    obtain rfl : on = event := Option.some_inj.1 hevent
    exact h.1

/-- What alternates is in the order of the schedule. -/
theorem Alternates.pairwise_le {events : List ScheduleEvent} (h : Alternates events) :
    events.Pairwise ScheduleEvent.le := by
  have htrans : IsTrans ScheduleEvent ScheduleEvent.le := ⟨fun a b c hab hbc =>
    (ScheduleEvent.le_iff a c).2
      (((ScheduleEvent.le_iff a b).1 hab).trans ((ScheduleEvent.le_iff b c).1 hbc))⟩
  refine List.isChain_iff_pairwise.1 ?_
  induction events using Alternates.induct with
  | case1 => exact .nil
  | case2 event => exact .singleton event
  | case3 on off events ih =>
    obtain ⟨hon, hoff, hlt, hnext, htail⟩ := h
    refine .cons_cons ?_ (List.isChain_cons.2 ⟨fun next hmem => ?_, ih htail⟩)
    · simp [ScheduleEvent.le, ScheduleEvent.before, hlt.ne', hlt.le]
    · -- at the same frame the larger type is first
      have htype := htail.type_head hmem
      have hle := hnext next hmem
      unfold ScheduleEvent.le ScheduleEvent.before
      split_ifs with hframe
      · simpa using hle
      · simp [htype, hoff, EventType.code]

/-- Sorting leaves the events of a voice alone when they alternate. -/
theorem ScheduleBuilder.filter_events_build (builder : ScheduleBuilder) (sampleRate : Double)
    (generation : ℕ) (p : ScheduleEvent → Bool) (h : Alternates (builder.events.filter p)) :
    (builder.build sampleRate generation).events.filter p = builder.events.filter p := by
  rw [build]
  exact (filter_insertionSort ScheduleEvent.le_iff p _).trans
    (List.Pairwise.insertionSort_eq h.pairwise_le)

end OneBeat
