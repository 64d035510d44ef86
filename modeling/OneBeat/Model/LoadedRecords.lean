import OneBeat.Model.Bundle
import OneBeat.Model.Invariants
import OneBeat.Model.Loader

/-!
# Reading the records of a project

How the loader of `model/project_io.cpp` reads notes, instruments and their routing, lanes and
clips: what it takes of a record, and what it says about it.

An object is only looked at; what is left of it for the next save is left out.  So are clips whose
references do not resolve, which `dropDanglingClips` takes out again.
-/

namespace OneBeat

open OneBeat.Bundle (takeString readState)

/-! ### Fields -/

/-- `static_cast<int16_t>`. -/
def toInt16 (n : ℤ) : ℤ := n.bmod (2 ^ 16)

/-- `static_cast<int32_t>`. -/
def toInt32 (n : ℤ) : ℤ := n.bmod (2 ^ 32)

/-- `static_cast<uint32_t>`. -/
def toUInt32 (n : ℤ) : ℕ := (n % 2 ^ 32).toNat

/-- The integer of a field; anything but a number is the fallback. -/
def takeInt (object : Json.Object) (key : String) (fallback : ℤ := 0) : ℤ :=
  match Entries.get? object key with
  | some value => if value.isNumber then value.asInt fallback else fallback
  | none => fallback

def takeDouble (object : Json.Object) (key : String) (fallback : Double := 0) : Double :=
  match Entries.get? object key with
  | some value => if value.isNumber then value.asDouble fallback else fallback
  | none => fallback

def takeFloat (object : Json.Object) (key : String) (fallback : Double) : Double :=
  (takeDouble object key fallback).toFloat

def takeBool (object : Json.Object) (key : String) (fallback : Bool := false) : Bool :=
  match Entries.get? object key with
  | some value => if value.isBool then value.asBool else fallback
  | none => fallback

/-- The object in a field. -/
def takeObject (object : Json.Object) (key : String) : Option Json.Object :=
  (Entries.get? object key).bind Json.Value.asObject

/-- The array in a field. -/
def takeArray (object : Json.Object) (key : String) : Option (List Json.Value) :=
  (Entries.get? object key).bind Json.Value.asArray

/-- A named reference, and what is said about its text. -/
def readReference (K : EntityKind) (text owner field : String) :
    Option (TypedId K) × List LoadIssue :=
  let found := ({} : Loader).reference K text owner field
  (found.2, found.1.report)

def clampVelocity (value : ℤ) (owner : String) : ℕ × List LoadIssue :=
  if value < 0 ∨ (maxVelocity : ℤ) < value then
    ((max 0 (min value maxVelocity)).toNat,
      [⟨.warning,
        "Velocity " ++ toString value ++ " in " ++ owner ++ " is out of range; clamped."⟩])
  else (value.toNat, [])

/-! ### Notes -/

def keyOutOfRange (patternName : String) : LoadIssue :=
  ⟨.warning, "A note in pattern '" ++ patternName ++ "' is outside the key range; clamped."⟩

/-- One record of a sequence: start, length, key and velocity. -/
def readNote (patternName : String) (record : Json.Value) : Option Note × List LoadIssue :=
  match record.asArray with
  | some (start :: length :: key :: velocity :: _) =>
    let start := start.asInt
    let length := length.asInt
    let key := toInt16 (key.asInt 60)
    let velocity := clampVelocity (velocity.asInt defaultVelocity)
      ("a note in pattern '" ++ patternName ++ "'")
    if length ≤ 0 ∨ start < 0 then (none, velocity.2)
    else if key < 0 ∨ 127 < key then
      (some { start, length, key := max 0 (min key 127), velocity := velocity.1 },
        velocity.2 ++ [keyOutOfRange patternName])
    else (some { start, length, key, velocity := velocity.1 }, velocity.2)
  | _ => (none, [])

def readSequence (records : List Json.Value) (patternName : String) :
    NoteSequence × List LoadIssue :=
  let notes := records.map (readNote patternName)
  let malformed := notes.countP (·.1.isNone)
  (.assignSorted (notes.filterMap Prod.fst),
    notes.flatMap Prod.snd ++
      if 0 < malformed then
        [⟨.warning, "Pattern '" ++ patternName ++ "' has " ++ toString malformed ++
          " unusable note record(s) — dropped."⟩]
      else [])

/-! ### Instruments -/

def pluginFormatFrom (text : String) : PluginFormat :=
  if text = "builtin" then .builtin
  else if text = "clap" then .clap
  else if text = "vst3" then .vst3
  else if text = "au" then .audioUnit
  else .unknown

/-- The plug-in of an instrument; a format that is not known stays in the file. -/
def readPlugin (instrumentName : String) (plugin : Json.Object) : PluginRef × List LoadIssue :=
  let formatText := (Entries.get? plugin "format").bind Json.Value.asString
  let format := (formatText.map pluginFormatFrom).getD .unknown
  ({ format
     id := takeString plugin "id"
     name := takeString plugin "name"
     vendor := takeString plugin "vendor"
     pathHint := takeString plugin "path_hint" },
    match formatText with
    | some text =>
      if format = .unknown then
        [⟨.info, "Kept, not understood: plug-in format '" ++ text ++ "' on '" ++ instrumentName ++
          "'."⟩]
      else []
    | none => [])

def readNoteDefaults (instrumentName : String) (defaults : Json.Object) :
    NoteDefaults × List LoadIssue :=
  let velocity := clampVelocity (takeInt defaults "velocity" defaultVelocity)
    ("note defaults of '" ++ instrumentName ++ "'")
  ({ velocity := velocity.1
     pan := takeFloat defaults "pan" 0
     pitchOffset := toInt16 (takeInt defaults "pitch_offset") },
    velocity.2)

def readChannelSettings (settings : Json.Object) : ChannelSettings where
  gatePercent := toInt32 (takeInt settings "gate_percent" 100)
  shiftTicks := takeInt settings "shift_ticks"
  cutGroup := toInt32 (takeInt settings "cut_group")
  cutByGroup := toInt32 (takeInt settings "cut_by_group")
  maxPolyphony := toInt32 (takeInt settings "max_polyphony")
  mono := takeBool settings "mono"
  portamento := takeBool settings "portamento"
  rootKey := toInt32 (takeInt settings "root_key" 60)
  keyLow := toInt32 (takeInt settings "key_low")
  keyHigh := toInt32 (takeInt settings "key_high" 127)
  fineTuneCents := toInt32 (takeInt settings "fine_tune_cents")
  velocityTracking := takeFloat settings "velocity_tracking" 1
  modX := toInt32 (takeInt settings "mod_x")
  modY := toInt32 (takeInt settings "mod_y")
  arpeggiator := takeBool settings "arpeggiator"
  arpeggiatorTimeTicks := toInt32 (takeInt settings "arpeggiator_time_ticks" (ticksPerQuarter / 4))
  arpeggiatorGatePercent := toInt32 (takeInt settings "arpeggiator_gate_percent" 100)
  echoTimeTicks := toInt32 (takeInt settings "echo_time_ticks")
  echoFeedbackPercent := toInt32 (takeInt settings "echo_feedback_percent")

/-- The fields of an instrument, its routing apart. -/
def readInstrument (fields : Json.Object) (fallbackOrder : ℤ) : Instrument × List LoadIssue :=
  let name := takeString fields "name" "Instrument"
  let plugin := ((takeObject fields "plugin").map (readPlugin name)).getD ({}, [])
  let noteDefaults := ((takeObject fields "note_defaults").map (readNoteDefaults name)).getD ({}, [])
  ({ name
     color := takeString fields "color" "#6C8CFF"
     order := toInt32 (takeInt fields "order" fallbackOrder)
     muted := takeBool fields "muted"
     soloed := takeBool fields "soloed"
     gain := takeFloat fields "gain" 1
     pan := takeFloat fields "pan" 0
     plugin := readState fields plugin.1
     noteDefaults := noteDefaults.1
     channelSettings := ((takeObject fields "channel_settings").map readChannelSettings).getD {} },
    plugin.2 ++ noteDefaults.2)

/-- One route: a bare id, whose port is its position, or an object. -/
def readRoute (instrumentName : String) (position : ℕ) (route : Json.Value) :
    Option OutputRoute × List LoadIssue :=
  let trackText := match route.asString with
    | some bare => bare
    | none => ((route.find "track_id").bind Json.Value.asString).getD ""
  let port := match route.find "port" with
    | some value => if value.isNumber then toUInt32 value.asInt else position
    | none => position
  let track := readReference .mixerTrack trackText ("Instrument '" ++ instrumentName ++ "'")
    "routing destination"
  (track.1.map fun track => ⟨port, track⟩, track.2)

/-- The routes from a position on. -/
def readRouting (instrumentName : String) (position : ℕ) :
    List Json.Value → List OutputRoute × List LoadIssue
  | [] => ([], [])
  | route :: routing =>
    let read := readRoute instrumentName position route
    let rest := readRouting instrumentName (position + 1) routing
    (read.1.toList ++ rest.1, read.2 ++ rest.2)

/-- Routes into tracks that are not there are dropped; an instrument without a route plays into the
master. -/
def resolveRouting (tables : Tables) (instrumentName : String) (pending : List OutputRoute) :
    List OutputRoute × List LoadIssue :=
  let routes := pending.filter fun route => tables.mixerTracks.contains route.track
  (if routes = [] then [⟨0, tables.master⟩] else routes,
    (pending.filter fun route => !tables.mixerTracks.contains route.track).map fun _ =>
      ⟨.warning, "Instrument '" ++ instrumentName ++
        "' was routed to a mixer track that is not there; routed to the master."⟩)

/-! ### Lanes -/

/-- The fields of a lane, and the text of its group, empty when there is none. -/
def readLane (fields : Json.Object) : ArrangementLane × String :=
  ({ name := takeString fields "name" "Lane"
     color := takeString fields "color" "#6C8CFF"
     height := toInt32 (takeInt fields "height" 88)
     order := toInt32 (takeInt fields "order")
     collapsed := takeBool fields "collapsed"
     muted := takeBool fields "muted"
     soloed := takeBool fields "soloed" },
    takeString fields "group_id")

/-- The lanes of a file, with the texts of their groups. -/
structure LoadedLanes where
  lanes : OrderedMap ArrangementLaneId ArrangementLane := .empty
  pendingLaneGroup : OrderedMap ArrangementLaneId String := .empty
  report : List LoadIssue := []

/-- One member of the lanes.  The first one that names an id counts. -/
def readLaneEntry (loaded : LoadedLanes) (entry : String × Json.Value) : LoadedLanes :=
  match entry.2.asObject with
  | none => loaded
  | some fields =>
    match TypedId.parse .arrangementLane entry.1 with
    | none =>
      { loaded with
        report := loaded.report ++ [⟨.info, "Kept, not understood: lane '" ++ entry.1 ++ "'."⟩] }
    | some id =>
      let lane := readLane fields
      { loaded with
        pendingLaneGroup :=
          if lane.2 = "" then loaded.pendingLaneGroup
          else loaded.pendingLaneGroup.emplace id lane.2
        lanes := loaded.lanes.emplace id lane.1 }

def readLanes (map : Json.Object) : LoadedLanes := map.foldl readLaneEntry {}

/-- The group of a lane is another lane. -/
def resolveLaneGroup (loaded : LoadedLanes) (id : ArrangementLaneId) (lane : ArrangementLane) :
    ArrangementLane × List LoadIssue :=
  match loaded.pendingLaneGroup.get? id with
  | none => (lane, [])
  | some text =>
    match (TypedId.parse .arrangementLane text).filter fun group =>
      loaded.lanes.contains group && group ≠ id with
    | some group => ({ lane with groupId := some group }, [])
    | none =>
      (lane, [⟨.warning,
        "Lane '" ++ lane.name ++ "' is grouped under a lane that is not there; ungrouped."⟩])

def resolveLaneGroups (loaded : LoadedLanes) : LoadedLanes :=
  { loaded with
    lanes := loaded.lanes.mapValues fun id lane => (resolveLaneGroup loaded id lane).1
    report := loaded.report ++ loaded.lanes.entries.flatMap fun entry =>
      (resolveLaneGroup loaded entry.1 entry.2).2 }

def laneOrderAmbiguous : LoadIssue :=
  ⟨.warning, "Lane order was ambiguous; lanes were renumbered in their saved order."⟩

/-- Renumber one lane, and remember whether it had another number. -/
def renumber (s : OrderedMap ArrangementLaneId ArrangementLane × Bool)
    (placed : ArrangementLaneId × ℕ) : OrderedMap ArrangementLaneId ArrangementLane × Bool :=
  match s.1.get? placed.1 with
  | none => s
  | some lane =>
    if lane.order ≠ placed.2 then
      (s.1.modify placed.1 fun lane => { lane with order := placed.2 }, true)
    else s

/-- The lanes in their saved order; of lanes with one number, the first id first. -/
def savedOrder (lanes : OrderedMap ArrangementLaneId ArrangementLane) :
    List (ArrangementLaneId × ArrangementLane) :=
  lanes.entries.insertionSort fun a b => a.2.order ≤ b.2.order

def fixLaneOrder (loaded : LoadedLanes) : LoadedLanes :=
  let fixed := ((savedOrder loaded.lanes).map Prod.fst).zipIdx.foldl renumber (loaded.lanes, false)
  { loaded with
    lanes := fixed.1
    report := loaded.report ++ if fixed.2 then [laneOrderAmbiguous] else [] }

/-- The lanes as a project gets them. -/
def loadLanes (map : Json.Object) : LoadedLanes := fixLaneOrder (resolveLaneGroups (readLanes map))

/-! ### Clips -/

def readTransforms (transforms : Json.Object) : ClipTransforms where
  transpose := toInt16 (takeInt transforms "transpose")
  loop := takeBool transforms "loop"
  windowStart := takeInt transforms "window_start"
  velocityScale := takeFloat transforms "velocity_scale" 1
  timeNudge := takeInt transforms "time_nudge"
  probability := takeFloat transforms "probability" 1

def stretchModeFrom (text : String) : StretchMode :=
  if text = "resample" then .resample else if text = "stretch" then .stretch else .off

/-- A point of a curve: position and value. -/
def readPoint (point : Json.Value) : Option AutomationPoint :=
  match point.asArray with
  | some (position :: value :: _) => some ⟨position.asInt, value.asDouble.toFloat⟩
  | _ => none

/-- A curve: what it drives, and its points in the order of their positions. -/
def readAutomation (key : String) (source : Json.Object) :
    Option AutomationSource × List LoadIssue :=
  let kind := takeString source "target_kind" "instrument"
  let target := takeString source "target_id"
  let points := (((takeArray source "points").getD []).filterMap readPoint).insertionSort
    fun a b => a.position ≤ b.position
  let curve : AutomationSource :=
    { parameter := toUInt32 (takeInt source "parameter" invalidParamId), points }
  let owner := "Clip '" ++ key ++ "'"
  if kind = "mixer_track" ∨ kind = "effect" then
    let track := readReference .mixerTrack target owner "target"
    match track.1 with
    | none => (none, track.2)
    | some mixerTrack =>
      if kind = "effect" then
        match TypedId.parse .effect (takeString source "effect_id") with
        | none =>
          (none, track.2 ++
            [⟨.error, owner ++ " automates an effect it does not name — dropped."⟩])
        | some effect => (some { curve with targetKind := .effect, mixerTrack, effect }, track.2)
      else (some { curve with targetKind := .mixerTrack, mixerTrack }, track.2)
  else
    let instrument := readReference .instrument target owner "target"
    (instrument.1.map fun instrument => { curve with instrument }, instrument.2)

/-- What a clip plays. -/
def readSource (key type : String) (source : Json.Object) : Option ClipSource × List LoadIssue :=
  let owner := "Clip '" ++ key ++ "'"
  if type = "pattern" then
    let pattern := readReference .pattern (takeString source "pattern_id") owner "pattern"
    (pattern.1.map .pattern, pattern.2)
  else if type = "audio" then
    let destination :=
      readReference .mixerTrack (takeString source "destination_id") owner "destination"
    (destination.1.map fun destination => .audio
      { path := takeString source "path"
        sourceOffset := takeInt source "source_offset"
        sourceLength := takeInt source "source_length"
        gain := takeFloat source "gain" 1
        reversed := takeBool source "reversed"
        stretchMode := stretchModeFrom (takeString source "stretch_mode" "off")
        sourceBpm := takeDouble source "source_bpm"
        destination }, destination.2)
  else
    let automation := readAutomation key source
    (automation.1.map .automation, automation.2)

/-- One member of the clips. -/
def readClip (key : String) (entry : Json.Value) : Option (ClipId × Clip) × List LoadIssue :=
  match entry.asObject with
  | none => (none, [])
  | some fields =>
    match TypedId.parse .clip key with
    | none => (none, [⟨.info, "Kept, not understood: clip '" ++ key ++ "'."⟩])
    | some id =>
      let owner := "Clip '" ++ key ++ "'"
      match (((entry.find "source").bind (·.find "type")).bind Json.Value.asString) with
      | none => (none, [⟨.error, owner ++ " does not say what it plays — dropped."⟩])
      | some type =>
        if type ≠ "pattern" ∧ type ≠ "audio" ∧ type ≠ "automation" then
          (none, [⟨.info,
            "Kept, not understood: clip '" ++ key ++ "' plays a '" ++ type ++ "' source."⟩])
        else if takeInt fields "length" ≤ 0 then
          (none, [⟨.error, owner ++ " has no length — dropped."⟩])
        else
          let lane := readReference .arrangementLane (takeString fields "lane_id") owner "lane"
          match lane.1 with
          | none => (none, lane.2 ++ [⟨.error, owner ++ " names no lane — dropped."⟩])
          | some laneId =>
            let source := readSource key type ((takeObject fields "source").getD [])
            (source.1.map fun source => (id,
              { lane := laneId
                start := takeInt fields "start"
                length := takeInt fields "length"
                muted := takeBool fields "muted"
                transforms := ((takeObject fields "transforms").map readTransforms).getD {}
                source }),
              lane.2 ++ source.2)

/-! ### Records with an integer -/

/-- A record with an integer in a field. -/
def withInt (object : Json.Object) (key : String) (n : ℤ) : Json.Object :=
  Entries.assign object key (.int n)

/-- A record with an integer in a field of a field. -/
def withIntIn (object : Json.Object) (field : String) (inner : Json.Object) (key : String) (n : ℤ) :
    Json.Object :=
  Entries.assign object field (.object (withInt inner key n))

theorem get?_withInt (object : Json.Object) (key key' : String) (n : ℤ) :
    Entries.get? (withInt object key n) key' =
      if key' = key then some (.int n) else Entries.get? object key' :=
  Entries.get?_assign _ _ _ _

theorem takeInt_withInt (object : Json.Object) (key : String) (n fallback : ℤ) :
    takeInt (withInt object key n) key fallback = n := by
  simp [takeInt, get?_withInt, Json.Value.isNumber, Json.Value.asInt]

end OneBeat
