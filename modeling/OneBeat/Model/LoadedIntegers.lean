import OneBeat.Model.LoadedLanes
import OneBeat.Model.LoadedRouting

/-!
# Integers of a file

An integer of a file has 64 bits, and most fields have fewer.  The loader casts first; a key is
looked at after the cast, the numbers of lanes are put in order, and of two routes with one port the
checker complains.  Nothing else is said about an integer that does not fit.

**Main theorem** (`accounted_iff`): for every field, which integers are kept, clamped or reported.
-/

namespace OneBeat

open OneBeat.Bundle (takeString readState)

/-! ### Casts -/

/-- `int16_t` has the integer. -/
def FitsInt16 (n : ℤ) : Prop := -2 ^ 15 ≤ n ∧ n < 2 ^ 15

/-- `int32_t` has the integer. -/
def FitsInt32 (n : ℤ) : Prop := -2 ^ 31 ≤ n ∧ n < 2 ^ 31

theorem toInt16_eq_self {n : ℤ} : toInt16 n = n ↔ FitsInt16 n := by
  simp only [toInt16, FitsInt16, Int.bmod]
  split_ifs <;> omega

theorem toInt32_eq_self {n : ℤ} : toInt32 n = n ↔ FitsInt32 n := by
  simp only [toInt32, FitsInt32, Int.bmod]
  split_ifs <;> omega

theorem toUInt32_eq_self {n : ℤ} : (toUInt32 n : ℤ) = n ↔ 0 ≤ n ∧ n < 2 ^ 32 := by
  unfold toUInt32
  omega

/-! ### Silence -/

/-- Where the report does not depend on the integer, the cast is all there is. -/
theorem silent_iff {issues : ℤ → List LoadIssue} (h : ∀ n n', issues n = issues n')
    {written loaded : ℤ} :
    (loaded = written ∨ loaded = written ∨ ∃ issue ∈ issues written, ∃ other, issue ∉ issues other) ↔
      loaded = written := by
  have hreported : ¬∃ issue ∈ issues written, ∃ other, issue ∉ issues other := by
    rintro ⟨issue, hissue, other, hother⟩
    exact hother (h written other ▸ hissue)
  simp [hreported]

/-! ### Keys -/

def clampKey (key : ℤ) : ℤ := max 0 (min key 127)

/-- The key is in range, or what is left of it in 16 bits is not, or is what the key is clamped to. -/
def KeyKept (key : ℤ) : Prop :=
  0 ≤ key ∧ key ≤ 127 ∨ 127 < key % 2 ^ 16 ∨ key < 0 ∧ key % 2 ^ 16 = 0 ∨
    127 < key ∧ key % 2 ^ 16 = 127

/-- The record of a note. -/
def noteRecord (start length : Json.Value) (key : ℤ) (velocity : Json.Value)
    (rest : List Json.Value) : Json.Value :=
  .array (start :: length :: .int key :: velocity :: rest)

theorem accounted_key (patternName : String) (start length velocity : Json.Value)
    (rest : List Json.Value) (written : ℤ) {note : Note}
    (hnote : (readNote patternName (noteRecord start length written velocity rest)).1 = some note) :
    (note.key = written ∨ note.key = clampKey written ∨ keyOutOfRange patternName ∈
        (readNote patternName (noteRecord start length written velocity rest)).2) ↔
      KeyKept written := by
  have hvelocity : keyOutOfRange patternName ∉ (clampVelocity (velocity.asInt defaultVelocity)
      ("a note in pattern '" ++ patternName ++ "'")).2 := by
    unfold clampVelocity
    split_ifs
    · rw [List.mem_singleton]
      intro heq
      have hfirst := congrArg (fun issue => issue.message.toList[0]?) heq
      simp [keyOutOfRange] at hfirst
    · exact List.not_mem_nil
  have hread : readNote patternName (noteRecord start length written velocity rest) =
      if length.asInt ≤ 0 ∨ start.asInt < 0 then (none, _)
      else if toInt16 written < 0 ∨ 127 < toInt16 written then (some _, _ ++ [_])
      else (some _, _) := rfl
  rw [hread] at hnote ⊢
  by_cases hmalformed : length.asInt ≤ 0 ∨ start.asInt < 0
  · rw [if_pos hmalformed] at hnote
    cases hnote
  · rw [if_neg hmalformed] at hnote ⊢
    by_cases hrange : toInt16 written < 0 ∨ 127 < toInt16 written
    · rw [if_pos hrange] at hnote ⊢
      have hkept : KeyKept written := by
        simp only [toInt16, Int.bmod] at hrange
        unfold KeyKept
        split_ifs at hrange <;> omega
      simp [hkept]
    · rw [if_neg hrange] at hnote ⊢
      obtain rfl := Option.some.inj hnote
      simp only [hvelocity, or_false]
      simp only [toInt16, Int.bmod, KeyKept, clampKey, max_def, min_def, Json.Value.asInt]
        at hrange ⊢
      split_ifs at hrange ⊢ <;> omega

/-! ### Instruments -/

theorem readInstrument_order (fields : Json.Object) (fallbackOrder n : ℤ) :
    readInstrument (withInt fields "order" n) fallbackOrder =
      ({ (readInstrument fields fallbackOrder).1 with order := toInt32 n },
        (readInstrument fields fallbackOrder).2) := by
  simp [readInstrument, readState, takeInt_withInt, takeString, takeBool, takeFloat, takeDouble,
    takeObject, get?_withInt]

theorem readNoteDefaults_pitchOffset (name : String) (defaults : Json.Object) (n : ℤ) :
    readNoteDefaults name (withInt defaults "pitch_offset" n) =
      ({ (readNoteDefaults name defaults).1 with pitchOffset := toInt16 n },
        (readNoteDefaults name defaults).2) := by
  simp [readNoteDefaults, takeInt, takeFloat, takeDouble, get?_withInt, Json.Value.isNumber,
    Json.Value.asInt]

theorem readInstrument_pitchOffset (fields defaults : Json.Object) (fallbackOrder n n' : ℤ) :
    (readInstrument (withIntIn fields "note_defaults" defaults "pitch_offset" n)
        fallbackOrder).1.noteDefaults.pitchOffset = toInt16 n ∧
      (readInstrument (withIntIn fields "note_defaults" defaults "pitch_offset" n)
          fallbackOrder).2 =
        (readInstrument (withIntIn fields "note_defaults" defaults "pitch_offset" n')
          fallbackOrder).2 := by
  simp [readInstrument, withIntIn, takeString, takeObject, Entries.get?_assign,
    Json.Value.asObject, readNoteDefaults_pitchOffset]

theorem readInstrument_rootKey (fields settings : Json.Object) (fallbackOrder n n' : ℤ) :
    (readInstrument (withIntIn fields "channel_settings" settings "root_key" n)
        fallbackOrder).1.channelSettings.rootKey = toInt32 n ∧
      (readInstrument (withIntIn fields "channel_settings" settings "root_key" n)
          fallbackOrder).2 =
        (readInstrument (withIntIn fields "channel_settings" settings "root_key" n')
          fallbackOrder).2 := by
  simp [readInstrument, withIntIn, takeString, takeObject, Entries.get?_assign,
    Json.Value.asObject, readChannelSettings, takeInt_withInt]

/-! ### Clips -/

/-- The transforms of a clip are read apart from everything else. -/
theorem readClip_transpose (key : String) (fields transforms : Json.Object) (n n' : ℤ) :
    ((readClip key (.object (withIntIn fields "transforms" transforms "transpose" n))).1.map
        fun clip => clip.2.transforms.transpose) =
      ((readClip key (.object (withIntIn fields "transforms" transforms "transpose" n'))).1.map
        fun _ => toInt16 n) ∧
      (readClip key (.object (withIntIn fields "transforms" transforms "transpose" n))).2 =
        (readClip key (.object (withIntIn fields "transforms" transforms "transpose" n'))).2 := by
  have hget : ∀ (n : ℤ) (field : String), Entries.get?
      (withIntIn fields "transforms" transforms "transpose" n) field =
        if field = "transforms" then some (.object (withInt transforms "transpose" n))
        else Entries.get? fields field := fun n field => Entries.get?_assign _ _ _ _
  simp only [readClip, Json.Value.asObject, Json.Value.find, takeInt, takeString, takeBool,
    takeObject, Option.bind_some, hget]
  simp only [String.reduceEq, if_false, if_true]
  cases TypedId.parse .clip key with
  | none => exact ⟨rfl, rfl⟩
  | some id =>
    simp only
    split
    · exact ⟨rfl, rfl⟩
    · split_ifs
      · exact ⟨rfl, rfl⟩
      · exact ⟨rfl, rfl⟩
      · split
        · exact ⟨rfl, rfl⟩
        · refine ⟨?_, rfl⟩
          simp [Function.comp_def, Json.Value.asObject, readTransforms, takeInt_withInt]

/-! ### Fields -/

instance (id : ArrangementLaneId) (entry : String × Json.Value) : Decidable (NamesLane id entry) :=
  inferInstanceAs (Decidable (_ ∧ _))

/-- The lane that a record becomes, when no record before it has its id. -/
def laneOf (before : Json.Object) (key : String) : Option ArrangementLaneId :=
  (TypedId.parse .arrangementLane key).filter fun id => before.all fun entry => ¬NamesLane id entry

theorem of_laneOf {before : Json.Object} {key : String} {id : ArrangementLaneId}
    (h : laneOf before key = some id) :
    TypedId.parse .arrangementLane key = some id ∧ ∀ entry ∈ before, ¬NamesLane id entry := by
  obtain ⟨hkey, hfirst⟩ := Option.filter_eq_some_iff.1 h
  exact ⟨hkey, by simpa using hfirst⟩

/-- The fields that are cast, each with what is beside it in the file. -/
inductive IntegerField
  /-- The key of a note. -/
  | noteKey (patternName : String) (start length velocity : Json.Value) (rest : List Json.Value)
  /-- The order of an instrument. -/
  | instrumentOrder (fields : Json.Object) (fallbackOrder : ℤ)
  /-- The `pitch_offset` of the note defaults. -/
  | pitchOffset (fields defaults : Json.Object) (fallbackOrder : ℤ)
  /-- The `root_key` of the channel settings. -/
  | rootKey (fields settings : Json.Object) (fallbackOrder : ℤ)
  /-- The `transpose` of a clip. -/
  | transpose (key : String) (fields transforms : Json.Object)
  /-- The height of a lane. -/
  | laneHeight (before after : Json.Object) (key : String) (fields : Json.Object)
  /-- The order of a lane. -/
  | laneOrder (before after : Json.Object) (key : String) (fields : Json.Object)
  /-- The port of a route. -/
  | routingPort (tables : Tables) (id : InstrumentId) (instrument : Instrument)
      (before after : List Json.Value) (route : Json.Object)

namespace IntegerField

/-- The routing of an instrument, with a port in one of its routes. -/
def routedTo (tables : Tables) (instrument : Instrument) (before after : List Json.Value)
    (route : Json.Object) (n : ℤ) : Instrument :=
  { instrument with
    routing := loadedRouting tables instrument.name
      (before ++ .object (withInt route "port" n) :: after) }

/-- What is loaded when the field has the integer; nothing when the record is not. -/
def loaded : IntegerField → ℤ → Option ℤ
  | noteKey patternName start length velocity rest, n =>
    (readNote patternName (noteRecord start length n velocity rest)).1.map Note.key
  | instrumentOrder fields fallbackOrder, n =>
    some (readInstrument (withInt fields "order" n) fallbackOrder).1.order
  | pitchOffset fields defaults fallbackOrder, n =>
    some (readInstrument (withIntIn fields "note_defaults" defaults "pitch_offset" n)
      fallbackOrder).1.noteDefaults.pitchOffset
  | rootKey fields settings fallbackOrder, n =>
    some (readInstrument (withIntIn fields "channel_settings" settings "root_key" n)
      fallbackOrder).1.channelSettings.rootKey
  | transpose key fields transforms, n =>
    (readClip key (.object (withIntIn fields "transforms" transforms "transpose" n))).1.map
      fun clip => clip.2.transforms.transpose
  | laneHeight before after key fields, n =>
    (laneOf before key).bind fun id =>
      ((loadLanes (lanesWith before after key (withInt fields "height" n))).lanes.get? id).map
        ArrangementLane.height
  | laneOrder before after key fields, n =>
    (laneOf before key).bind fun id =>
      ((loadLanes (lanesWith before after key (withInt fields "order" n))).lanes.get? id).map
        ArrangementLane.order
  | routingPort tables _ instrument before after route, n =>
    (routeTrack tables route).bind fun _ =>
      ((routedTo tables instrument before after route n).routing[
        (liveRoutes tables instrument.name 0 before).length]?).map fun route => (route.port : ℤ)

/-- What is said while the field is read and when the checker looks at it. -/
def issues : IntegerField → ℤ → List LoadIssue
  | noteKey patternName start length velocity rest, n =>
    (readNote patternName (noteRecord start length n velocity rest)).2
  | instrumentOrder fields fallbackOrder, n =>
    (readInstrument (withInt fields "order" n) fallbackOrder).2
  | pitchOffset fields defaults fallbackOrder, n =>
    (readInstrument (withIntIn fields "note_defaults" defaults "pitch_offset" n) fallbackOrder).2
  | rootKey fields settings fallbackOrder, n =>
    (readInstrument (withIntIn fields "channel_settings" settings "root_key" n) fallbackOrder).2
  | transpose key fields transforms, n =>
    (readClip key (.object (withIntIn fields "transforms" transforms "transpose" n))).2
  | laneHeight before after key fields, n =>
    (loadLanes (lanesWith before after key (withInt fields "height" n))).report
  | laneOrder before after key fields, n =>
    (loadLanes (lanesWith before after key (withInt fields "order" n))).report
  | routingPort tables id instrument before after route, n =>
    let read := readRouting instrument.name 0 (before ++ .object (withInt route "port" n) :: after)
    read.2 ++ (resolveRouting tables instrument.name read.1).2 ++
      (tables.checkInstrument id (routedTo tables instrument before after route n)).map
        internalError

/-- The issue is about the integer: it is one that the loader has for the field, or where it has none,
one that another integer would not have raised. -/
def Concerns : IntegerField → ℤ → LoadIssue → Prop
  | noteKey patternName .., _, issue => issue = keyOutOfRange patternName
  | laneOrder .., _, issue => issue = laneOrderAmbiguous
  | routingPort _ id .., n, issue =>
    issue = internalError (routesTwice id (toUInt32 n))
  | field, _, issue => ∃ other, issue ∉ field.issues other

/-- The clamp of the field; only keys have one. -/
def clamp : IntegerField → ℤ → ℤ
  | noteKey .., n => clampKey n
  | _, n => n

/-- What is loaded is what is written or what that is clamped to, or the integer is reported. -/
def Accounted (field : IntegerField) (written loaded : ℤ) : Prop :=
  loaded = written ∨ loaded = field.clamp written ∨
    ∃ issue ∈ field.issues written, field.Concerns written issue

/-- The integers for which the field is right. -/
def Kept : IntegerField → ℤ → Prop
  | noteKey .., n => KeyKept n
  | instrumentOrder .., n => FitsInt32 n
  | pitchOffset .., n => FitsInt16 n
  | rootKey .., n => FitsInt32 n
  | transpose .., n => FitsInt16 n
  | laneHeight .., n => FitsInt32 n
  | laneOrder before after key fields, n =>
    let read := (readLanes (lanesWith before after key (withInt fields "order" n))).lanes
    FitsInt32 n ∨ ¬(savedNumbers read).Perm (laneNumbers read.size)
  | routingPort tables _ instrument before after _, n =>
    (0 ≤ n ∧ n < 2 ^ 32) ∨ ∃ other ∈ liveRoutes tables instrument.name 0 before ++
      liveRoutes tables instrument.name (before.length + 1) after, other.port = toUInt32 n

theorem accounted_laneHeight (before after : Json.Object) (key : String) (fields : Json.Object)
    {written loaded : ℤ} (h : (laneHeight before after key fields).loaded written = some loaded) :
    (laneHeight before after key fields).Accounted written loaded ↔ FitsInt32 written := by
  obtain ⟨id, hid, hlane⟩ := Option.bind_eq_some_iff.1 h
  obtain ⟨hkey, hfirst⟩ := of_laneOf hid
  have hload : ∀ n, loadLanes (lanesWith before after key (withInt fields "height" n)) =
      (loadLanes (lanesWith before after key fields)).setHeight id (toInt32 n) :=
    loadLanes_setHeight hkey hfirst fields
  obtain ⟨lane, hget, rfl⟩ := Option.map_eq_some_iff.1 hlane
  rw [hload, LoadedLanes.setHeight, OrderedMap.get?_modify, if_pos rfl] at hget
  obtain ⟨_, -, rfl⟩ := Option.map_eq_some_iff.1 hget
  have hreport : ∀ n n', (laneHeight before after key fields).issues n =
      (laneHeight before after key fields).issues n' := by
    intro n n'
    simp only [issues, hload]
    rfl
  exact (silent_iff hreport).trans toInt32_eq_self

theorem accounted_laneOrder (before after : Json.Object) (key : String) (fields : Json.Object)
    {written loaded : ℤ} (h : (laneOrder before after key fields).loaded written = some loaded) :
    (laneOrder before after key fields).Accounted written loaded ↔
      (laneOrder before after key fields).Kept written := by
  obtain ⟨id, hid, hlane⟩ := Option.bind_eq_some_iff.1 h
  obtain ⟨hkey, hfirst⟩ := of_laneOf hid
  obtain ⟨lane, hget, rfl⟩ := Option.map_eq_some_iff.1 hlane
  have hread := @get?_readLanes before after key id hkey hfirst (withInt fields "order" written)
  have hreported : (∃ issue ∈ (laneOrder before after key fields).issues written,
      (laneOrder before after key fields).Concerns written issue) ↔
      laneOrderAmbiguous ∈
        (loadLanes (lanesWith before after key (withInt fields "order" written))).report := by
    simp [issues, Concerns]
  rw [Accounted, hreported, Kept, ← laneOrderAmbiguous_mem_iff]
  -- a report covers whatever was loaded; without one the lanes kept the orders they were read with
  by_cases hambiguous : laneOrderAmbiguous ∈
      (loadLanes (lanesWith before after key (withInt fields "order" written))).report
  · simp [hambiguous]
  · have horder : lane.order = toInt32 written := by
      rw [order_loadLanes hambiguous hread hget, readLane, takeInt_withInt]
    simp [hambiguous, clamp, horder, toInt32_eq_self]

theorem accounted_routingPort (tables : Tables) (id : InstrumentId) (instrument : Instrument)
    (before after : List Json.Value) (route : Json.Object) {written loaded : ℤ}
    (h : (routingPort tables id instrument before after route).loaded written = some loaded) :
    (routingPort tables id instrument before after route).Accounted written loaded ↔
      (routingPort tables id instrument before after route).Kept written := by
  obtain ⟨track, htrack, hroute⟩ := Option.bind_eq_some_iff.1 h
  have hrouting := loadedRouting_port htrack instrument.name before after written
  have hlive := live_of_mem_loadedRouting htrack instrument.name before after written
  obtain ⟨other, hget, rfl⟩ := Option.map_eq_some_iff.1 hroute
  rw [routedTo, hrouting, List.getElem?_append_right le_rfl, Nat.sub_self] at hget
  obtain rfl := Option.some.inj hget
  have hreported : (∃ issue ∈ (routingPort tables id instrument before after route).issues written,
      (routingPort tables id instrument before after route).Concerns written issue) ↔
      routesTwice id (toUInt32 written) ∈
        tables.checkInstrument id (routedTo tables instrument before after route written) := by
    simp [issues, Concerns, internalError_notMem_readRouting, internalError_notMem_resolveRouting,
      internalError_injective.eq_iff]
  -- the checker sees the port that was cast, so only a route that already has it speaks up
  have htwice := @routesTwice_mem_iff tables id
    (routedTo tables instrument before after route written) _ _ ⟨toUInt32 written, track⟩ hrouting
    hlive
  rw [Accounted, hreported, htwice, Kept, ← toUInt32_eq_self]
  simp [clamp]

/-- **Integers of a file**: what is loaded is accounted for exactly when it is kept. -/
theorem accounted_iff (field : IntegerField) (written : ℤ) {loaded : ℤ}
    (h : field.loaded written = some loaded) :
    field.Accounted written loaded ↔ field.Kept written := by
  cases field with
  | noteKey patternName start length velocity rest =>
    obtain ⟨note, hnote, rfl⟩ := Option.map_eq_some_iff.1 h
    rw [Kept, ← accounted_key patternName start length velocity rest written hnote]
    simp [Accounted, clamp, issues, Concerns]
  | instrumentOrder fields fallbackOrder =>
    obtain rfl := Option.some.inj h
    refine (silent_iff fun n n' => ?_).trans ?_
    · simp only [issues, readInstrument_order]
    · rw [readInstrument_order]
      exact toInt32_eq_self
  | pitchOffset fields defaults fallbackOrder =>
    obtain rfl := Option.some.inj h
    refine (silent_iff fun n n' => (readInstrument_pitchOffset _ _ _ n n').2).trans ?_
    rw [(readInstrument_pitchOffset _ _ _ written written).1]
    exact toInt16_eq_self
  | rootKey fields settings fallbackOrder =>
    obtain rfl := Option.some.inj h
    refine (silent_iff fun n n' => (readInstrument_rootKey _ _ _ n n').2).trans ?_
    rw [(readInstrument_rootKey _ _ _ written written).1]
    exact toInt32_eq_self
  | transpose key fields transforms =>
    refine (silent_iff fun n n' => (readClip_transpose key fields transforms n n').2).trans ?_
    rw [IntegerField.loaded, (readClip_transpose key fields transforms written written).1] at h
    obtain ⟨_, -, rfl⟩ := Option.map_eq_some_iff.1 h
    exact toInt16_eq_self
  | laneHeight before after key fields => exact accounted_laneHeight before after key fields h
  | laneOrder before after key fields => exact accounted_laneOrder before after key fields h
  | routingPort tables id instrument before after route =>
    exact accounted_routingPort tables id instrument before after route h

/-- The key of a note of a quarter. -/
def leadKey : IntegerField := noteKey "Lead" (.int 0) (.int 960) (.int 12900) []

theorem accounted_iff_leadKey : leadKey.Accounted 300 127 ↔ leadKey.Kept 300 :=
  accounted_iff leadKey 300 rfl

/-- A key of `65596` is loaded as `60`, and nothing is said. -/
theorem not_accounted_leadKey :
    leadKey.loaded 65596 = some 60 ∧ ¬leadKey.Accounted 65596 60 := by
  refine ⟨rfl, ?_⟩
  rintro (h | h | ⟨issue, hissue, -⟩)
  · cases h
  · exact absurd h (by decide)
  · exact absurd hissue (List.not_mem_nil)

end IntegerField

end OneBeat
