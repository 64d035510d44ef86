import OneBeat.Model.Bundle
import OneBeat.Model.JsonWriter

/-!
# The document

`writeProjectJson` of `model/project_io.cpp`: every entity of a project as a JSON object, the
fields of the opened file nobody understood merged back in, and the canonical text of it all.

The text is empty exactly when some real of the project is not finite (`writeProjectJson_ne_nil_iff`),
as long as those fields are.
-/

namespace OneBeat

namespace Json

/-- `std::map::emplace`: what is there stays. -/
def emplace (object : Object) (key : String) (value : Value) : Object :=
  if (Entries.get? object key).isSome then object else Entries.assign object key value

/-- An object that members are put into, one after the other. -/
def objectOf (members : List (String × Value)) : Object :=
  members.foldl (fun object member => emplace object member.1 member.2) []

mutual

/-- What stands already, with what another value adds to it. -/
def mergeValue : Value → Value → Value
  | .object target, .object source => .object (mergeResidue target source)
  | existing, _ => existing

/-- Residue never overwrites: it only supplies what the model has no opinion about. -/
def mergeResidue : Object → Object → Object
  | object, [] => object
  | object, (key, value) :: residue =>
    let merged := match Entries.get? object key with
      | none => value
      | some existing => mergeValue existing value
    mergeResidue (Entries.assign object key merged) residue

end

end Json

open Json

/-- What an opened file had that nobody understood. -/
structure Residue where
  document : Value := .null
  noteProperties : OrderedMap String Value := .empty

/-- `Residue::noteKey`. -/
def Residue.noteKey (pattern : PatternId) (instrument : InstrumentId) (note : Note) : String :=
  pattern.str ++ "/" ++ instrument.str ++ "/" ++ toString note.start ++ "/" ++
    toString note.length ++ "/" ++ toString note.key ++ "/" ++ toString note.velocity

/-! ### Spellings -/

/-- An unrecognised format has no spelling. -/
def pluginFormatText : PluginFormat → String
  | .builtin => "builtin"
  | .clap => "clap"
  | .vst3 => "vst3"
  | .audioUnit => "au"
  | .unknown => ""

def stretchModeText : StretchMode → String
  | .off => "off"
  | .resample => "resample"
  | .stretch => "stretch"

/-- Text, or `null` where there is none. -/
def textOrNull (text : String) : Value := if text = "" then .null else .string text

/-- A member that is written only when there is something to say. -/
def memberIf (condition : Bool) (key : String) (value : Value) : List (String × Value) :=
  if condition then [(key, value)] else []

/-! ### Entities -/

def writeTransport (transport : TransportState) : Value :=
  .object (objectOf
    ([("tempo", .real transport.tempo)] ++
      memberIf transport.metronomeEnabled "metronome_enabled" (.bool true) ++
      [("time_signature",
          .array [.int transport.timeSignature.numerator, .int transport.timeSignature.denominator]),
        ("loop", .object (objectOf
          [("enabled", .bool transport.loopEnabled), ("start", .int transport.loopStart),
            ("end", .int transport.loopEnd)]))]))

/-- The reference to a plug-in, of an instrument or of an insert. -/
def writePlugin (plugin : PluginRef) : Value :=
  .object (objectOf
    (memberIf (pluginFormatText plugin.format ≠ "") "format"
        (.string (pluginFormatText plugin.format)) ++
      [("id", .string plugin.id), ("name", .string plugin.name), ("vendor", .string plugin.vendor),
        ("path_hint", .string plugin.pathHint)]))

def writeRoute (route : OutputRoute) : Value :=
  .object (objectOf [("port", .int route.port), ("track_id", .string route.track.str)])

def writeDefaults (defaults : NoteDefaults) : Value :=
  .object (objectOf
    [("velocity", .int defaults.velocity), ("pan", .real defaults.pan),
      ("pitch_offset", .int defaults.pitchOffset)])

def writeSettings (settings : ChannelSettings) : Value :=
  .object (objectOf
    [("gate_percent", .int settings.gatePercent), ("shift_ticks", .int settings.shiftTicks),
      ("cut_group", .int settings.cutGroup), ("cut_by_group", .int settings.cutByGroup),
      ("max_polyphony", .int settings.maxPolyphony), ("mono", .bool settings.mono),
      ("portamento", .bool settings.portamento), ("root_key", .int settings.rootKey),
      ("key_low", .int settings.keyLow), ("key_high", .int settings.keyHigh),
      ("fine_tune_cents", .int settings.fineTuneCents),
      ("velocity_tracking", .real settings.velocityTracking), ("mod_x", .int settings.modX),
      ("mod_y", .int settings.modY), ("arpeggiator", .bool settings.arpeggiator),
      ("arpeggiator_time_ticks", .int settings.arpeggiatorTimeTicks),
      ("arpeggiator_gate_percent", .int settings.arpeggiatorGatePercent),
      ("echo_time_ticks", .int settings.echoTimeTicks),
      ("echo_feedback_percent", .int settings.echoFeedbackPercent)])

/-- Some setting is not what a channel starts with; a NaN is not. -/
def nonDefaultSettings (settings : ChannelSettings) : Bool :=
  settings.gatePercent ≠ 100 || settings.shiftTicks ≠ 0 || settings.cutGroup ≠ 0 ||
    settings.cutByGroup ≠ 0 || settings.maxPolyphony ≠ 0 || settings.mono || settings.portamento ||
    settings.rootKey ≠ 60 || settings.keyLow ≠ 0 || settings.keyHigh ≠ 127 ||
    settings.fineTuneCents ≠ 0 || !settings.velocityTracking.beq 1 || settings.modX ≠ 0 ||
    settings.modY ≠ 0 || settings.arpeggiator ||
    settings.arpeggiatorTimeTicks ≠ ticksPerQuarter / 4 || settings.arpeggiatorGatePercent ≠ 100 ||
    settings.echoTimeTicks ≠ 0 || settings.echoFeedbackPercent ≠ 0

/-- A state that has just been written takes the place of the one that is on record. -/
def writeInstrument (instrument : Instrument) (record : Option Bundle.StateRecord) : Value :=
  let stateRef := (record.map Bundle.StateRecord.stateRef).getD instrument.plugin.stateRef
  let sha256 := (record.map Bundle.StateRecord.sha256).getD instrument.plugin.stateSha256
  .object (objectOf
    ([("name", .string instrument.name), ("color", .string instrument.color),
        ("order", .int instrument.order), ("muted", .bool instrument.muted)] ++
      memberIf instrument.soloed "soloed" (.bool true) ++
      [("gain", .real instrument.gain), ("pan", .real instrument.pan),
        ("plugin", writePlugin instrument.plugin),
        ("note_defaults", writeDefaults instrument.noteDefaults)] ++
      memberIf (nonDefaultSettings instrument.channelSettings) "channel_settings"
        (writeSettings instrument.channelSettings) ++
      [("routing", .array (instrument.routing.map writeRoute)), ("state_ref", textOrNull stateRef),
        ("state_sha256", textOrNull sha256)]))

def writePoint (point : AutomationPoint) : Value := .array [.int point.position, .real point.value]

/-- What a curve drives; `target_id` of an insert is the track it is on. -/
def writeTarget (source : AutomationSource) : List (String × Value) :=
  match source.targetKind with
  | .instrument =>
    [("target_kind", .string "instrument"), ("target_id", .string source.instrument.str)]
  | .mixerTrack =>
    [("target_kind", .string "mixer_track"), ("target_id", .string source.mixerTrack.str)]
  | .effect =>
    [("target_kind", .string "effect"), ("target_id", .string source.mixerTrack.str),
      ("effect_id", .string source.effect.str)]

/-- The members of a curve. -/
def writeCurve (source : AutomationSource) : List (String × Value) :=
  writeTarget source ++
    [("parameter", .int source.parameter), ("points", .array (source.points.map writePoint))]

def writePatternAutomation (source : AutomationSource) : Value :=
  .object (objectOf (writeCurve source))

/-- A note, with what the opened file said about a note like it. -/
def writeNote (residue : Residue) (pattern : PatternId) (instrument : InstrumentId) (note : Note) :
    Value :=
  .array ([.int note.start, .int note.length, .int note.key, .int note.velocity] ++
    (residue.noteProperties.get? (Residue.noteKey pattern instrument note)).toList)

def writePattern (residue : Residue) (id : PatternId) (pattern : Pattern) : Value :=
  .object (objectOf
    ([("name", .string pattern.name), ("color", .string pattern.color),
        ("length", .int pattern.length)] ++
      memberIf (pattern.order ≠ 0) "order" (.int pattern.order) ++
      memberIf (pattern.group ≠ "") "group" (.string pattern.group) ++
      memberIf (pattern.timeSignature.numerator ≠ 4 || pattern.timeSignature.denominator ≠ 4)
        "time_signature"
        (.array [.int pattern.timeSignature.numerator, .int pattern.timeSignature.denominator]) ++
      [("swing", .real pattern.swing),
        ("sequences", .object (objectOf (pattern.sequences.entries.map fun entry =>
          (entry.1.str, .array (entry.2.notes.map (writeNote residue id entry.1))))))] ++
      memberIf (pattern.automation ≠ []) "automation"
        (.array (pattern.automation.map writePatternAutomation))))

def writeLane (lane : ArrangementLane) : Value :=
  .object (objectOf
    [("name", .string lane.name), ("color", .string lane.color), ("height", .int lane.height),
      ("order", .int lane.order), ("collapsed", .bool lane.collapsed), ("muted", .bool lane.muted),
      ("soloed", .bool lane.soloed),
      ("group_id", (lane.groupId.map fun id => Value.string id.str).getD .null)])

def writeClipSource : ClipSource → Value
  | .pattern pattern =>
    .object (objectOf [("type", .string "pattern"), ("pattern_id", .string pattern.str)])
  | .audio source =>
    .object (objectOf
      [("type", .string "audio"), ("path", .string source.path),
        ("source_offset", .int source.sourceOffset), ("source_length", .int source.sourceLength),
        ("gain", .real source.gain), ("reversed", .bool source.reversed),
        ("stretch_mode", .string (stretchModeText source.stretchMode)),
        ("source_bpm", .real source.sourceBpm), ("destination_id", .string source.destination.str)])
  | .automation source =>
    .object (objectOf ([("type", .string "automation")] ++ writeCurve source))

def writeTransforms (transforms : ClipTransforms) : Value :=
  .object (objectOf
    [("transpose", .int transforms.transpose), ("loop", .bool transforms.loop),
      ("window_start", .int transforms.windowStart),
      ("velocity_scale", .real transforms.velocityScale), ("time_nudge", .int transforms.timeNudge),
      ("probability", .real transforms.probability)])

def writeClip (clip : Clip) : Value :=
  .object (objectOf
    [("lane_id", .string clip.lane.str), ("start", .int clip.start), ("length", .int clip.length),
      ("muted", .bool clip.muted), ("source", writeClipSource clip.source),
      ("transforms", writeTransforms clip.transforms)])

def writeSlot (slot : EffectSlot) : Value :=
  .object (objectOf
    [("id", .string slot.id.str), ("bypassed", .bool slot.bypassed),
      ("plugin", writePlugin slot.plugin),
      ("params", .object (objectOf (slot.params.entries.map fun entry =>
        (toString entry.1, .real entry.2))))])

def writeMixerTrack (track : MixerTrack) : Value :=
  .object (objectOf
    [("name", .string track.name), ("gain", .real track.gain), ("pan", .real track.pan),
      ("muted", .bool track.muted), ("soloed", .bool track.soloed),
      ("output_id", (track.output.map fun id => Value.string id.str).getD .null),
      ("chain", .array (track.effects.map writeSlot)), ("sends", .array [])])

/-! ### The document -/

def formatTag : String := "onebeat.project"

def formatVersion : ℤ := 1

/-- Entities under the texts of their ids. -/
def writeTable {K : EntityKind} {α : Type} (table : OrderedMap (TypedId K) α)
    (write : TypedId K → α → Value) : Value :=
  .object (objectOf (table.entries.map fun entry => (entry.1.str, write entry.1 entry.2)))

/-- What the model has to say. -/
def writeRoot (project : Tables) (residue : Residue) (createdWith : String)
    (state : OrderedMap InstrumentId Bundle.StateRecord) : Object :=
  objectOf
    [("format", .string formatTag), ("version", .int formatVersion),
      ("meta", .object (objectOf
        [("name", .string project.metadata.name),
          ("created_with",
            .string (if createdWith = "" then project.metadata.createdWith else createdWith)),
          ("ticks_per_quarter", .int ticksPerQuarter)])),
      ("transport", writeTransport project.transport),
      ("instruments", writeTable project.instruments fun id instrument =>
        writeInstrument instrument (state.get? id)),
      ("patterns", writeTable project.patterns (writePattern residue)),
      ("lanes", writeTable project.lanes fun _ => writeLane),
      ("clips", writeTable project.clips fun _ => writeClip),
      ("mixer_tracks", writeTable project.mixerTracks fun _ => writeMixerTrack)]

/-- The document, with the fields nobody understood. -/
def projectDocument (project : Tables) (residue : Residue) (createdWith : String)
    (state : OrderedMap InstrumentId Bundle.StateRecord) : Value :=
  .object (mergeResidue (writeRoot project residue createdWith state)
    (residue.document.asObject.getD []))

/-- The text of the document, empty where it has none. -/
def writeProjectJson (project : Tables) (residue : Residue) (createdWith : String := "")
    (state : OrderedMap InstrumentId Bundle.StateRecord := .empty) : List Char :=
  (writeCanonical (projectDocument project residue createdWith state)
    ["format", "version"]).getD []

/-! ### Objects -/

namespace Json

theorem members_iff {members : Object} :
    Value.membersFinite members = true ↔ ∀ member ∈ members, member.2.isFinite = true := by
  induction members with
  | nil => simp [Value.membersFinite]
  | cons member members ih => simp [Value.membersFinite, ih]

theorem items_iff {items : List Value} :
    Value.areFinite items = true ↔ ∀ item ∈ items, item.isFinite = true := by
  induction items with
  | nil => simp [Value.areFinite]
  | cons item items ih => simp [Value.areFinite, ih]

/-- What an assignment leaves out of an object is what it replaces. -/
theorem mem_assign_or {object : Object} {member : String × Value} (h : member ∈ object)
    (key : String) (value : Value) :
    member ∈ Entries.assign object key value ∨ Entries.get? object key = some member.2 := by
  induction object with
  | nil => cases h
  | cons head object ih =>
    obtain ⟨key', value'⟩ := head
    rw [Entries.assign, Entries.get?_cons]
    by_cases hlt : key < key'
    · rw [if_pos hlt]
      exact .inl (List.mem_cons_of_mem _ h)
    rw [if_neg hlt]
    by_cases heq : key = key'
    · subst heq
      rw [if_pos rfl, if_pos rfl]
      rcases List.mem_cons.1 h with rfl | hrest
      · exact .inr rfl
      · exact .inl (List.mem_cons_of_mem _ hrest)
    · rw [if_neg heq, if_neg (Ne.symm heq)]
      rcases List.mem_cons.1 h with rfl | hrest
      · exact .inl List.mem_cons_self
      · exact (ih hrest).imp_left (List.mem_cons_of_mem _)

theorem mem_assign_self (object : Object) (key : String) (value : Value) :
    (key, value) ∈ Entries.assign object key value := by
  induction object with
  | nil => exact List.mem_singleton.2 rfl
  | cons head object ih =>
    rw [Entries.assign]
    split_ifs
    · exact List.mem_cons_self
    · exact List.mem_cons_self
    · exact List.mem_cons_of_mem _ ih

/-- Members under keys of their own are all put in. -/
theorem mem_foldl_emplace {members : List (String × Value)} {object : Object}
    (hnodup : (members.map Prod.fst).Nodup)
    (hfresh : ∀ member ∈ members, Entries.get? object member.1 = none) {member : String × Value}
    (h : member ∈ object ∨ member ∈ members) :
    member ∈ members.foldl (fun object member => emplace object member.1 member.2) object := by
  induction members generalizing object with
  | nil => exact h.resolve_right List.not_mem_nil
  | cons first members ih =>
    rw [List.map_cons, List.nodup_cons] at hnodup
    have hfirst := hfresh first List.mem_cons_self
    have hemplace : emplace object first.1 first.2 = Entries.assign object first.1 first.2 := by
      rw [emplace, hfirst]
      rfl
    rw [List.foldl_cons, hemplace]
    refine ih hnodup.2 (fun other hother => ?_) ?_
    · have hne : other.1 ≠ first.1 := by
        intro heq
        exact hnodup.1 (heq ▸ List.mem_map_of_mem hother)
      rw [Entries.get?_assign, if_neg hne]
      exact hfresh other (List.mem_cons_of_mem _ hother)
    · rcases h with hold | hnew
      · refine .inl ((mem_assign_or hold first.1 first.2).resolve_right ?_)
        rw [hfirst]
        nofun
      · rcases List.mem_cons.1 hnew with rfl | hrest
        · exact .inl (mem_assign_self _ _ _)
        · exact .inr hrest

/-- Only members that were put in are there. -/
theorem mem_of_mem_foldl_emplace {members : List (String × Value)} {object : Object}
    {member : String × Value}
    (h : member ∈ members.foldl (fun object member => emplace object member.1 member.2) object) :
    member ∈ object ∨ member ∈ members := by
  induction members generalizing object with
  | nil => exact .inl h
  | cons first members ih =>
    rcases ih h with hobject | hrest
    · unfold emplace at hobject
      dsimp only at hobject
      split_ifs at hobject
      · exact .inl hobject
      · rcases Entries.mem_assign hobject with heq | hold
        · exact .inr (heq ▸ List.mem_cons_self)
        · exact .inl hold
    · exact .inr (List.mem_cons_of_mem _ hrest)

/-- **An object is finite exactly when its members are.** -/
theorem isFinite_objectOf {members : List (String × Value)}
    (hnodup : (members.map Prod.fst).Nodup) :
    (Value.object (objectOf members)).isFinite = true ↔
      ∀ member ∈ members, member.2.isFinite = true := by
  rw [Value.isFinite, members_iff]
  constructor
  · intro h member hmember
    exact h member (mem_foldl_emplace hnodup (fun _ _ => rfl) (.inr hmember))
  · intro h member hmember
    exact h member ((mem_of_mem_foldl_emplace hmember).resolve_left List.not_mem_nil)

theorem isFinite_array {items : List Value} :
    (Value.array items).isFinite = true ↔ ∀ item ∈ items, item.isFinite = true := by
  rw [Value.isFinite, items_iff]

mutual

/-- What is merged in takes nothing away. -/
theorem isFinite_of_mergeValue : ∀ existing value : Value,
    (mergeValue existing value).isFinite = true → existing.isFinite = true
  | .object target, .object source, h => by
    rw [mergeValue, Value.isFinite] at h
    rw [Value.isFinite]
    exact membersFinite_of_mergeResidue target source h
  | .object _, .null, h | .object _, .bool _, h | .object _, .int _, h | .object _, .real _, h
  | .object _, .string _, h | .object _, .array _, h => h
  | .null, _, h | .bool _, _, h | .int _, _, h | .real _, _, h | .string _, _, h
  | .array _, _, h => by simpa [mergeValue] using h

theorem membersFinite_of_mergeResidue : ∀ object residue : Object,
    Value.membersFinite (mergeResidue object residue) = true → Value.membersFinite object = true
  | object, [], h => h
  | object, (key, value) :: residue, h => by
    rw [mergeResidue] at h
    have hassigned := members_iff.1 (membersFinite_of_mergeResidue _ residue h)
    refine members_iff.2 fun member hmember => ?_
    rcases mem_assign_or hmember key _ with hkept | hreplaced
    · exact hassigned member hkept
    · have hmerged := hassigned _ (mem_assign_self object key _)
      rw [hreplaced] at hmerged
      exact isFinite_of_mergeValue member.2 value hmerged

end

mutual

theorem isFinite_mergeValue : ∀ existing value : Value, existing.isFinite = true →
    value.isFinite = true → (mergeValue existing value).isFinite = true
  | .object target, .object source, h, h' => by
    rw [Value.isFinite] at h h'
    rw [mergeValue, Value.isFinite]
    exact membersFinite_mergeResidue target source h h'
  | .object _, .null, h, _ | .object _, .bool _, h, _ | .object _, .int _, h, _
  | .object _, .real _, h, _ | .object _, .string _, h, _ | .object _, .array _, h, _ => h
  | .null, _, h, _ | .bool _, _, h, _ | .int _, _, h, _ | .real _, _, h, _ | .string _, _, h, _
  | .array _, _, h, _ => by simpa [mergeValue] using h

theorem membersFinite_mergeResidue : ∀ object residue : Object,
    Value.membersFinite object = true → Value.membersFinite residue = true →
      Value.membersFinite (mergeResidue object residue) = true
  | object, [], h, _ => h
  | object, (key, value) :: residue, h, h' => by
    rw [Value.membersFinite, Bool.and_eq_true] at h'
    rw [mergeResidue]
    refine membersFinite_mergeResidue _ residue (members_iff.2 fun member hmember => ?_) h'.2
    rcases Entries.mem_assign hmember with heq | hold
    · rw [heq]
      split
      · exact h'.1
      next existing hexisting =>
        have hfinite := members_iff.1 h _ (Entries.mem_of_get? hexisting)
        exact isFinite_mergeValue existing value hfinite h'.1
    · exact members_iff.1 h member hold

end

end Json

/-! ### Keys -/

theorem str_injective {K : EntityKind} : Function.Injective (TypedId.str (K := K)) := by
  rintro ⟨a⟩ ⟨b⟩ h
  rw [TypedId.str, TypedId.str] at h
  have htext := Bundle.encodeUlid_injective ((String.append_right_inj _).1 h)
  rw [show a = b from htext]

theorem toString_injective : Function.Injective (toString : ℕ → String) := by
  intro a b h
  have hdigits : Nat.toDigits 10 a = Nat.toDigits 10 b := String.ofList_injective h
  have hvalue := congrArg (fun digits => Nat.ofDigitChars 10 digits 0) hdigits
  simpa using hvalue

/-- A table is keyed by texts of its own. -/
theorem nodup_keys {α β : Type} [LinearOrder α] {m : OrderedMap α β} {text : α → String}
    (htext : Function.Injective text) (write : α × β → Value) :
    ((m.entries.map fun entry => (text entry.1, write entry)).map Prod.fst).Nodup := by
  rw [List.map_map]
  have hkeys : (m.entries.map Prod.fst).Nodup := m.sorted.imp ne_of_lt
  have htexts := hkeys.map htext
  rwa [List.map_map] at htexts

end OneBeat
