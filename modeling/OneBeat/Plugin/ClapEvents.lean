import OneBeat.Plugin.Event

/-!
# Events in CLAP

`plugin/clap/clap_plugin_instance.cpp`: what a hosted plug-in is told is translated into events of
CLAP, and what it answers is translated back through the factories of `plugin/event.h`.

* `prepareInputEvents_eq` : the list that a plug-in sees;
* `Unchanged` : the fields that have to be as the factories set them;
* `faithful_iff` : **an event comes back as it was exactly when those fields are**.
-/

namespace OneBeat.Clap

/-- The union of the payloads; `number` is a velocity, a value or an amount. -/
inductive Payload (V : Type)
  | number (value : V)
  | sysex (bytes : List (BitVec 8))
  | midi1 (status first second : BitVec 8)
  | midi2 (a b c d : BitVec 32)
  deriving DecidableEq

/-- The payload is the one that the kind reads. -/
def Payload.Fits {V : Type} : Payload V → PluginEventType → Prop
  | .number _, type => type ≠ .midi1 ∧ type ≠ .midi2 ∧ type ≠ .midiSysex
  | .sysex _, type => type = .midiSysex
  | .midi1 .., type => type = .midi1
  | .midi2 .., type => type = .midi2

/-- Which notes are meant. -/
structure NoteAddress where
  noteId : BitVec 32 := -1
  portIndex : BitVec 16 := -1
  channel : BitVec 16 := -1
  key : BitVec 16 := -1
  deriving DecidableEq

/-- `PluginEvent`, with everything that is in it. -/
structure HostEvent (V : Type) where
  time : BitVec 32
  type : PluginEventType
  flags : BitVec 16 := 0
  address : NoteAddress := {}
  reserved : BitVec 16 := 0
  id : BitVec 32 := 0
  payload : Payload V
  fits : payload.Fits type

inductive NoteType
  | on | off | choke | ended
  deriving DecidableEq

/-- An event of CLAP behind its header. -/
inductive ClapBody (V : Type)
  | note (type : NoteType) (address : NoteAddress) (velocity : V)
  | noteExpression (expressionId : BitVec 32) (address : NoteAddress) (value : V)
  | paramValue (paramId : BitVec 32) (address : NoteAddress) (value : V)
  | paramMod (paramId : BitVec 32) (address : NoteAddress) (amount : V)
  | paramGesture (begins : Bool) (paramId : BitVec 32)
  | midi (port : BitVec 16) (status first second : BitVec 8)
  | sysex (port : BitVec 16) (bytes : List (BitVec 8)) (size : BitVec 32)
  | midi2 (port : BitVec 16) (a b c d : BitVec 32)

structure ClapEvent (V : Type) where
  time : BitVec 32
  spaceId : BitVec 16 := 0
  flags : BitVec 32
  body : ClapBody V

def coreEventSpaceId : BitVec 16 := 0

/-- What the host and CLAP call live and not to be recorded. -/
def isLive (n : ℕ) : BitVec n := 1
def dontRecord (n : ℕ) : BitVec n := 2

def clapFlags (flags : BitVec 16) : BitVec 32 :=
  (if flags &&& isLive 16 ≠ 0 then isLive 32 else 0) |||
    if flags &&& dontRecord 16 ≠ 0 then dontRecord 32 else 0

def onebeatFlags (flags : BitVec 32) : BitVec 16 :=
  (if flags &&& isLive 32 ≠ 0 then isLive 16 else 0) |||
    if flags &&& dontRecord 32 ≠ 0 then dontRecord 16 else 0

section

variable {V : Type}

/-! ### To the plug-in -/

/-- `none` for what CLAP has no event for. -/
def convertInput (event : HostEvent V) : Option (ClapEvent V) :=
  let clap (body : ClapBody V) : ClapEvent V :=
    { time := event.time, flags := clapFlags event.flags, body }
  match event.type, event.payload with
  | .noteOn, .number value => some (clap (.note .on event.address value))
  | .noteOff, .number value => some (clap (.note .off event.address value))
  | .noteChoke, .number value => some (clap (.note .choke event.address value))
  | .noteEnd, .number value => some (clap (.note .ended event.address value))
  | .noteExpression, .number value => some (clap (.noteExpression event.id event.address value))
  | .paramValue, .number value => some (clap (.paramValue event.id event.address value))
  | .paramModulation, .number value => some (clap (.paramMod event.id event.address value))
  | .paramGestureBegin, _ => some (clap (.paramGesture true event.id))
  | .paramGestureEnd, _ => some (clap (.paramGesture false event.id))
  | .midi1, .midi1 a b c => some (clap (.midi event.address.portIndex a b c))
  | .midiSysex, .sysex bytes => some (clap (.sysex event.address.portIndex bytes event.id))
  | .midi2, .midi2 a b c d => some (clap (.midi2 event.address.portIndex a b c d))
  | _, _ => none

/-- The headers that a plug-in sees, of a list with room for `reserved`. -/
def prepareInputEvents (reserved : ℕ) (input : List (HostEvent V)) : List (ClapEvent V) :=
  (input.take reserved).foldl (fun headers event =>
    match convertInput event with
    | some converted => headers ++ [converted]
    | none => headers) []

/-! ### From the plug-in -/

def makeNote (type : PluginEventType) (time : BitVec 32) (value : V) (address : NoteAddress)
    (fits : (Payload.number value).Fits type) : HostEvent V :=
  { time, type, address, payload := .number value, fits }

def makeParam (type : PluginEventType) (time param : BitVec 32) (value : V) (flags : BitVec 16)
    (fits : (Payload.number value).Fits type) : HostEvent V :=
  { time, type, flags, id := param, payload := .number value, fits }

def noteTypeOf : NoteType → PluginEventType
  | .on => .noteOn
  | .off => .noteOff
  | .choke => .noteChoke
  | .ended => .noteEnd

theorem fits_noteTypeOf (value : V) (type : NoteType) :
    (Payload.number value).Fits (noteTypeOf type) := by
  cases type <;> simp [Payload.Fits, noteTypeOf]

variable [Zero V]

/-- The factory of a note; those of a choke and an end take no velocity. -/
def ofNote (type : NoteType) (time : BitVec 32) (velocity : V) (address : NoteAddress) :
    HostEvent V :=
  makeNote (noteTypeOf type) time (if type = .on ∨ type = .off then velocity else 0) address
    (fits_noteTypeOf _ type)

/-- What is pushed for an event; nothing for the kinds that are ignored. -/
def collected (event : ClapEvent V) : Option (HostEvent V) :=
  let flags := onebeatFlags event.flags
  match event.body with
  | .note type address velocity => some (ofNote type event.time velocity address)
  | .noteExpression expression address value =>
    some { makeNote .noteExpression event.time value address (by simp [Payload.Fits]) with
      id := expression }
  | .paramValue param address value =>
    some { makeParam .paramValue event.time param value flags (by simp [Payload.Fits]) with address }
  | .paramMod param address amount =>
    some { makeParam .paramModulation event.time param amount 0 (by simp [Payload.Fits]) with
      address, flags }
  | .paramGesture true param =>
    some { makeParam .paramGestureBegin event.time param 0 0 (by simp [Payload.Fits]) with flags }
  | .paramGesture false param =>
    some { makeParam .paramGestureEnd event.time param 0 0 (by simp [Payload.Fits]) with flags }
  | .midi .. | .sysex .. | .midi2 .. => none

/-- The events that go out in a block. -/
structure OutputEvents (V : Type) where
  events : List (HostEvent V)
  capacity : ℕ

/-- `current_output_`, if there is one, and whether the event is taken. -/
def collectOutput (output : Option (OutputEvents V)) (event : ClapEvent V) :
    Bool × Option (OutputEvents V) :=
  match output with
  | none => (false, none)
  | some list =>
    if event.spaceId ≠ coreEventSpaceId then (false, some list)
    else
      match collected event with
      | none => (true, some list)
      | some converted =>
        if list.capacity ≤ list.events.length then (false, some list)
        else (true, some { list with events := list.events ++ [converted] })

/-! ### What comes back -/

/-- A kind that comes back: notes, expressions, parameters and gestures. -/
def Returning (type : PluginEventType) : Prop :=
  type ≠ .none ∧ type ≠ .transportDiscontinuity ∧ type ≠ .midi1 ∧ type ≠ .midi2 ∧ type ≠ .midiSysex

/-- Of the flags, those of CLAP come back, and of notes none. -/
def KeepsFlags (event : HostEvent V) : Prop :=
  match event.type with
  | .paramValue | .paramModulation | .paramGestureBegin | .paramGestureEnd => event.flags < 4
  | _ => event.flags = 0

/-- What else the factories set themselves. -/
def KeepsFields (event : HostEvent V) : Prop :=
  match event.type with
  | .noteOn | .noteOff => event.id = 0
  | .noteChoke | .noteEnd => event.id = 0 ∧ event.payload = .number 0
  | .paramGestureBegin | .paramGestureEnd => event.address = {} ∧ event.payload = .number 0
  | _ => True

/-- Every field of the event is one that comes back. -/
structure Unchanged (event : HostEvent V) : Prop where
  flags : KeepsFlags event
  fields : KeepsFields event
  reserved : event.reserved = 0

/-- The event, told to a plug-in that answers it, is pushed as it was, and the list of a block holds
the translation of everything that has one. -/
structure Faithful (event : HostEvent V) (reserved : ℕ) (input : List (HostEvent V)) : Prop where
  returns : ∃ clap, convertInput event = some clap ∧
    ∀ list : OutputEvents V, list.events.length < list.capacity →
      collectOutput (some list) clap = (true, some { list with events := list.events ++ [event] })
  listed : input.length ≤ reserved → prepareInputEvents reserved input = input.filterMap convertInput
  leftOut : ∀ other ∈ input,
    convertInput other = none → other.type = .none ∨ other.type = .transportDiscontinuity

omit [Zero V] in
theorem prepareInputEvents_eq (reserved : ℕ) (input : List (HostEvent V)) :
    prepareInputEvents reserved input = (input.take reserved).filterMap convertInput := by
  have hloop : ∀ (events : List (HostEvent V)) (headers : List (ClapEvent V)),
      events.foldl (fun headers event =>
        match convertInput event with
        | some converted => headers ++ [converted]
        | none => headers) headers = headers ++ events.filterMap convertInput := by
    intro events
    induction events with
    | nil => simp
    | cons event events ih =>
      intro headers
      rw [List.foldl_cons, ih]
      cases hconverted : convertInput event with
      | none => rw [List.filterMap_cons_none hconverted]
      | some converted =>
        rw [List.filterMap_cons_some hconverted, List.append_assoc, List.singleton_append]
  exact hloop _ []

omit [Zero V] in
/-- What has no translation. -/
theorem convertInput_eq_none_iff (event : HostEvent V) :
    convertInput event = none ↔ event.type = .none ∨ event.type = .transportDiscontinuity := by
  obtain ⟨time, type, flags, address, reserved, id, payload, fits⟩ := event
  cases type <;> cases payload <;>
    first | (simp [Payload.Fits] at fits; done) | simp [convertInput]

theorem onebeatFlags_clapFlags_iff (flags : BitVec 16) :
    onebeatFlags (clapFlags flags) = flags ↔ flags < 4 := by
  have hback : onebeatFlags (clapFlags flags) < 4 := by
    unfold onebeatFlags
    split_ifs <;> decide
  constructor
  · intro h
    rwa [h] at hback
  · intro h
    have hcases : flags = 0 ∨ flags = 1 ∨ flags = 2 ∨ flags = 3 := by
      bv_omega
    rcases hcases with rfl | rfl | rfl | rfl <;> decide

theorem unchanged_iff {event : HostEvent V} :
    Unchanged event ↔ KeepsFlags event ∧ KeepsFields event ∧ event.reserved = 0 :=
  ⟨fun h => ⟨h.flags, h.fields, h.reserved⟩, fun ⟨hflags, hfields, hreserved⟩ =>
    ⟨hflags, hfields, hreserved⟩⟩

/-- The two translations, one kind after the other. -/
theorem collected_convertInput {event : HostEvent V} (hreturning : Returning event.type) :
    ∃ clap back, convertInput event = some clap ∧ clap.spaceId = coreEventSpaceId ∧
      collected clap = some back ∧ (back = event ↔ Unchanged event) := by
  obtain ⟨time, type, flags, address, reserved, id, payload, fits⟩ := event
  obtain ⟨value, rfl⟩ : ∃ value, payload = .number value := by
    cases payload with
    | number value => exact ⟨value, rfl⟩
    | sysex _ => exact absurd fits hreturning.2.2.2.2
    | midi1 _ _ _ => exact absurd fits hreturning.2.2.1
    | midi2 _ _ _ _ => exact absurd fits hreturning.2.2.2.1
  have hflags := onebeatFlags_clapFlags_iff flags
  rw [unchanged_iff]
  cases type with
  | none => exact absurd rfl hreturning.1
  | transportDiscontinuity => exact absurd rfl hreturning.2.1
  | midi1 => exact absurd rfl hreturning.2.2.1
  | midi2 => exact absurd rfl hreturning.2.2.2.1
  | midiSysex => exact absurd rfl hreturning.2.2.2.2
  | _ =>
    refine ⟨_, _, rfl, rfl, rfl, ?_⟩
    simp only [ofNote, makeNote, makeParam, noteTypeOf, KeepsFlags, KeepsFields,
      HostEvent.mk.injEq, Payload.number.injEq, reduceCtorEq, or_true, or_false, or_self,
      if_true, if_false, true_and, and_true, eq_comm]
    try tauto

/-- **An event comes back as it was exactly when its fields are as the factories set them**; the list
that a plug-in sees holds everything that has a translation. -/
theorem faithful_iff {event : HostEvent V} (hreturning : Returning event.type) (reserved : ℕ)
    (input : List (HostEvent V)) : Faithful event reserved input ↔ Unchanged event := by
  obtain ⟨clap, back, hclap, hspace, hback, hiff⟩ := collected_convertInput hreturning
  rw [← hiff]
  have houtput : ∀ list : OutputEvents V, list.events.length < list.capacity →
      collectOutput (some list) clap = (true, some { list with events := list.events ++ [back] }) := by
    intro list hroom
    simp only [collectOutput, hspace, ne_eq, not_true_eq_false, if_false, hback,
      if_neg (Nat.not_le.2 hroom)]
  constructor
  · rintro ⟨⟨clap', hclap', hreturns⟩, -, -⟩
    obtain rfl := Option.some.inj (hclap.symm.trans hclap')
    have hone := (houtput ⟨[], 1⟩ Nat.one_pos).symm.trans (hreturns ⟨[], 1⟩ Nat.one_pos)
    simpa using hone
  · rintro rfl
    refine ⟨⟨clap, hclap, houtput⟩, fun hlength => ?_,
      fun other _ => (convertInput_eq_none_iff other).1⟩
    rw [prepareInputEvents_eq, List.take_of_length_le hlength]

end

/-! ### A velocity that is lost -/

/-- A choke with a velocity. -/
def choke : HostEvent ℤ := ⟨0, .noteChoke, 0, {}, 0, 0, .number 1, by simp [Payload.Fits]⟩

/-- The value of a parameter. -/
def turned : HostEvent ℤ := ⟨0, .paramValue, 3, {}, 0, 7, .number 1, by simp [Payload.Fits]⟩

theorem faithful_turned : Faithful turned 1 [turned] :=
  (@faithful_iff ℤ _ turned (by simp [Returning, turned]) 1 [turned]).2
    ⟨by simp [KeepsFlags, turned], trivial, rfl⟩

theorem not_faithful_choke :
    ¬ ∀ (event : HostEvent ℤ), Returning event.type → Faithful event 1 [event] := by
  intro h
  obtain ⟨⟨clap, hclap, hreturns⟩, -, -⟩ := h choke (by simp [Returning, choke])
  obtain rfl := Option.some.inj hclap
  have hone := congrArg (fun out => out.2.map fun list => list.events.map HostEvent.payload)
    (hreturns ⟨[], 1⟩ Nat.one_pos)
  simp [collectOutput, collected, ofNote, makeNote, choke, coreEventSpaceId] at hone

end OneBeat.Clap
