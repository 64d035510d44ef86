import OneBeat.Model.LoadedRecords
import OneBeat.Model.ProjectJson

/-!
# Reading the patterns of a project

`Loader::readInstruments` and `Loader::readPatterns` of `model/project_io.cpp`, and the pass that
takes out sequences of instruments that are not there.

The properties of a note go beside the model, under the note's own values; the first record that has
some counts.  What is left of an object when its fields have been taken is not modelled.
-/

namespace OneBeat

open OneBeat.Bundle (takeString)

/-! ### Instruments -/

/-- The instruments of a file, with the routes that wait for the mixer tracks. -/
structure LoadedInstruments where
  instruments : OrderedMap InstrumentId Instrument := .empty
  pendingRouting : OrderedMap InstrumentId (List OutputRoute) := .empty
  fallbackOrder : ℤ := 0
  report : List LoadIssue := []

/-- `pending_routing_[id].push_back` for each route. -/
def pushRoutes (pending : OrderedMap InstrumentId (List OutputRoute)) (id : InstrumentId)
    (routes : List OutputRoute) : OrderedMap InstrumentId (List OutputRoute) :=
  if routes = [] then pending else pending.assign id ((pending.get? id).getD [] ++ routes)

/-- One member of the instruments. -/
def readInstrumentEntry (loaded : LoadedInstruments) (entry : String × Json.Value) :
    LoadedInstruments :=
  match entry.2.asObject with
  | none => loaded
  | some fields =>
    match TypedId.parse .instrument entry.1 with
    | none =>
      { loaded with
        report := loaded.report ++
          [⟨.info, "Kept, not understood: instrument '" ++ entry.1 ++ "'."⟩] }
    | some id =>
      let instrument := readInstrument fields loaded.fallbackOrder
      let routing := readRouting instrument.1.name 0 ((takeArray fields "routing").getD [])
      { instruments := loaded.instruments.emplace id instrument.1
        pendingRouting := pushRoutes loaded.pendingRouting id routing.1
        fallbackOrder := loaded.fallbackOrder + 1
        report := loaded.report ++ instrument.2 ++ routing.2 }

def readInstruments (map : Json.Object) : LoadedInstruments := map.foldl readInstrumentEntry {}

/-! ### Fields of a pattern -/

/-- A signature that is not positive is reported, and 4/4 stands in for it. -/
def readTimeSignature (fields : Json.Object) (patternName : String) :
    TimeSignature × List LoadIssue :=
  let signature : TimeSignature := match takeArray fields "time_signature" with
    | some [numerator, denominator] =>
      { numerator := toInt32 (numerator.asInt 4), denominator := toInt32 (denominator.asInt 4) }
    | _ => {}
  if signature.numerator ≤ 0 ∨ signature.denominator ≤ 0 then
    ({}, [⟨.warning, "Pattern '" ++ patternName ++ "' has an invalid time signature; using 4/4."⟩])
  else (signature, [])

def readLength (fields : Json.Object) (patternName : String) : ℤ × List LoadIssue :=
  let length := takeInt fields "length" (ticksPerBarFourFour * 4)
  if length < 0 then
    (0, [⟨.warning, "Pattern '" ++ patternName ++ "' has an invalid length; using Auto."⟩])
  else (length, [])

def readSwing (fields : Json.Object) (patternName : String) : Double × List LoadIssue :=
  let swing := takeDouble fields "swing"
  if swing.lt 0 ∨ Double.lt 1 swing then
    (0, [⟨.warning, "Pattern '" ++ patternName ++ "' has invalid swing; using none."⟩])
  else (swing, [])

/-- What a curve of a pattern drives, if it says so. -/
def readPatternTarget (source : Json.Object) : Option AutomationSource :=
  let target := takeString source "target_id"
  match takeString source "target_kind" with
  | "instrument" =>
    (TypedId.parse .instrument target).map fun instrument =>
      { targetKind := .instrument, instrument }
  | "mixer_track" =>
    (TypedId.parse .mixerTrack target).map fun mixerTrack =>
      { targetKind := .mixerTrack, mixerTrack }
  | "effect" =>
    (TypedId.parse .mixerTrack target).bind fun mixerTrack =>
      (TypedId.parse .effect (takeString source "effect_id")).map fun effect =>
        { targetKind := .effect, mixerTrack, effect }
  | _ => none

/-- A curve of a pattern; one without points is passed over. -/
def readPatternAutomation (entry : Json.Value) : Option AutomationSource :=
  entry.asObject.bind fun source =>
    (readPatternTarget source).bind fun curve =>
      (takeArray source "points").bind fun points =>
        let parameter := match Entries.get? source "parameter" with
          | none => invalidParamId
          | some value => toUInt32 value.asInt
        let points := points.filterMap readPoint
        if points = [] then none else some { curve with parameter, points }

/-- The fields of a pattern, its sequences apart. -/
def readPattern (fields : Json.Object) : Pattern × List LoadIssue :=
  let name := takeString fields "name" "Pattern"
  let signature := readTimeSignature fields name
  let length := readLength fields name
  let swing := readSwing fields name
  ({ name
     color := takeString fields "color" "#6C8CFF"
     length := length.1
     order := toInt32 (takeInt fields "order")
     group := takeString fields "group"
     timeSignature := signature.1
     swing := swing.1
     automation := ((takeArray fields "automation").getD []).filterMap readPatternAutomation },
    signature.2 ++ length.2 ++ swing.2)

/-! ### Sequences -/

/-- The properties of a record: the object after its four numbers. -/
def recordProperties (record : Json.Value) : Option Json.Object :=
  (record.asArray.bind fun fields => fields[4]?).bind Json.Value.asObject

/-- Keep the properties of a record whose note is kept, unless a record like it had some. -/
def keepProperties (pattern : PatternId) (instrument : InstrumentId) (patternName : String)
    (kept : OrderedMap String Json.Value) (record : Json.Value) : OrderedMap String Json.Value :=
  match (readNote patternName record).1, recordProperties record with
  | some note, some properties =>
    kept.emplace (Residue.noteKey pattern instrument note) (.object properties)
  | _, _ => kept

/-- The sequences of a pattern as they are read, with the properties of notes so far. -/
structure LoadedSequences where
  sequences : OrderedMap InstrumentId NoteSequence := .empty
  noteProperties : OrderedMap String Json.Value
  report : List LoadIssue

/-- One member of the sequences of a pattern. -/
def readSequenceEntry (pattern : PatternId) (patternName : String) (loaded : LoadedSequences)
    (entry : String × Json.Value) : LoadedSequences :=
  match TypedId.parse .instrument entry.1 with
  | none =>
    { loaded with
      report := loaded.report ++ [⟨.info, "Kept, not understood: sequence key '" ++ entry.1 ++
        "' in pattern '" ++ patternName ++ "'."⟩] }
  | some instrument =>
    match entry.2.asArray with
    | none => loaded
    | some records =>
      let sequence := readSequence records patternName
      { sequences := loaded.sequences.emplace instrument sequence.1
        noteProperties :=
          records.foldl (keepProperties pattern instrument patternName) loaded.noteProperties
        report := loaded.report ++ sequence.2 }

/-- The patterns of a file. -/
structure LoadedPatterns where
  patterns : OrderedMap PatternId Pattern := .empty
  noteProperties : OrderedMap String Json.Value := .empty
  report : List LoadIssue := []

/-- The members of an object in a field. -/
def membersOf (object : Json.Object) (key : String) : Json.Object := (takeObject object key).getD []

/-- One member of the patterns. -/
def readPatternEntry (loaded : LoadedPatterns) (entry : String × Json.Value) : LoadedPatterns :=
  match entry.2.asObject with
  | none => loaded
  | some fields =>
    match TypedId.parse .pattern entry.1 with
    | none =>
      { loaded with
        report := loaded.report ++ [⟨.info, "Kept, not understood: pattern '" ++ entry.1 ++ "'."⟩] }
    | some id =>
      let pattern := readPattern fields
      let read := (membersOf fields "sequences").foldl (readSequenceEntry id pattern.1.name)
        { noteProperties := loaded.noteProperties, report := loaded.report ++ pattern.2 }
      { patterns := loaded.patterns.emplace id { pattern.1 with sequences := read.sequences }
        noteProperties := read.noteProperties
        report := read.report }

def readPatterns (map : Json.Object) : LoadedPatterns := map.foldl readPatternEntry {}

/-! ### References -/

/-- The notes of an instrument that is gone go with it. -/
def dropSequences (instruments : OrderedMap InstrumentId Instrument) (pattern : Pattern) :
    Pattern × List LoadIssue :=
  ({ pattern with sequences := pattern.sequences.filter fun id _ => instruments.contains id },
    (pattern.sequences.entries.filter fun entry => !instruments.contains entry.1).map fun entry =>
      ⟨.error, "Pattern '" ++ pattern.name ++ "' has " ++ toString entry.2.notes.length ++
        " note(s) for an instrument that is not in this project — removed."⟩)

/-- The patterns as a project gets them. -/
def loadPatterns (root : Json.Object) : LoadedPatterns :=
  let instruments := (readInstruments (membersOf root "instruments")).instruments
  let read := readPatterns (membersOf root "patterns")
  { read with
    patterns := read.patterns.mapValues fun _ pattern => (dropSequences instruments pattern).1
    report := read.report ++ read.patterns.entries.flatMap fun entry =>
      (dropSequences instruments entry.2).2 }

end OneBeat
