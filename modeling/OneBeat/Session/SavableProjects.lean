import OneBeat.Model.ProjectJson
import OneBeat.Session.HostedRuns
import OneBeat.Session.WrittenValues

/-!
# Projects that can be saved

A project that has a number in it which is not finite cannot be written at all.  The document has a
text exactly when every real of the project is finite (`Residue.writeProjectJson_ne_nil_iff`), and
the calls keep it so as long as no setter is handed a number that its check lets through and that is
not finite once it is stored (`OpenProject.StoresFinite`).

* `OpenProject.writable_of_run` : after every run of such calls the project can be written.
* `OpenProject.not_writable_swingNaN` : a swing that is a NaN passes its range check.
-/

namespace OneBeat

open Json

/-- Every real is finite. -/
def finiteReals : Values where
  plugin _ _ := True
  real number := number.isFinite = true
  finite _ := rfl

/-! ### Members -/

namespace Json

/-- The members to be put into an object are finite. -/
def FiniteMembers (members : List (String × Value)) : Prop :=
  ∀ member ∈ members, member.2.isFinite = true

@[simp] theorem finiteMembers_nil : FiniteMembers [] := nofun

@[simp] theorem finiteMembers_cons {member : String × Value} {members : List (String × Value)} :
    FiniteMembers (member :: members) ↔ member.2.isFinite = true ∧ FiniteMembers members :=
  List.forall_mem_cons

@[simp] theorem finiteMembers_append {members members' : List (String × Value)} :
    FiniteMembers (members ++ members') ↔ FiniteMembers members ∧ FiniteMembers members' :=
  List.forall_mem_append

@[simp] theorem finiteMembers_memberIf {condition : Bool} {key : String} {value : Value} :
    FiniteMembers (memberIf condition key value) ↔
      (condition = true → value.isFinite = true) := by
  cases condition <;> simp [memberIf]

@[simp] theorem isFinite_null : Value.null.isFinite = true := rfl

@[simp] theorem isFinite_real (number : Double) :
    (Value.real number).isFinite = number.isFinite := rfl

@[simp] theorem isFinite_int (n : ℤ) : (Value.int n).isFinite = true := rfl

@[simp] theorem isFinite_bool (b : Bool) : (Value.bool b).isFinite = true := rfl

@[simp] theorem isFinite_string (text : String) : (Value.string text).isFinite = true := rfl

@[simp] theorem isFinite_pair (n m : ℤ) : (Value.array [.int n, .int m]).isFinite = true := rfl

@[simp] theorem isFinite_textOrNull (text : String) : (textOrNull text).isFinite = true := by
  unfold textOrNull
  split_ifs <;> rfl

theorem isFinite_object {members : List (String × Value)} (hnodup : (members.map Prod.fst).Nodup) :
    (Value.object (objectOf members)).isFinite = true ↔ FiniteMembers members :=
  isFinite_objectOf hnodup

theorem isFinite_items {α : Type} {write : α → Value} {items : List α} :
    (Value.array (items.map write)).isFinite = true ↔
      ∀ item ∈ items, (write item).isFinite = true := by
  rw [isFinite_array, List.forall_mem_map]

/-- A table is finite exactly when what it holds is. -/
theorem isFinite_table {α β : Type} [LinearOrder α] {m : OrderedMap α β} {text : α → String}
    (htext : Function.Injective text) (write : α × β → Value) :
    (Value.object (objectOf (m.entries.map fun entry => (text entry.1, write entry)))).isFinite =
        true ↔
      ∀ id value, m.get? id = some value → (write (id, value)).isFinite = true := by
  rw [isFinite_object (nodup_keys htext write), FiniteMembers, List.forall_mem_map]
  constructor
  · intro h id value hget
    exact h (id, value) (OrderedMap.get?_eq_some_iff.1 hget)
  · intro h entry hentry
    exact h entry.1 entry.2 (OrderedMap.get?_eq_some_iff.2 hentry)

end Json

/-! ### Entities -/

theorem isFinite_writeTransport {transport : TransportState} :
    (writeTransport transport).isFinite = true ↔ transport.tempo.isFinite = true := by
  have hloop : (Value.object (objectOf [("enabled", .bool transport.loopEnabled),
      ("start", .int transport.loopStart), ("end", .int transport.loopEnd)])).isFinite = true :=
    (isFinite_object (by simp)).2 (by simp)
  rw [writeTransport, isFinite_object]
  · simp [hloop]
  · cases transport.metronomeEnabled <;> simp [memberIf]

theorem isFinite_writePlugin (plugin : PluginRef) : (writePlugin plugin).isFinite = true := by
  rw [writePlugin, isFinite_object]
  · simp
  · cases plugin.format <;> simp [memberIf, pluginFormatText]

theorem isFinite_writeRoute (route : OutputRoute) : (writeRoute route).isFinite = true := by
  rw [writeRoute, isFinite_object (by simp)]
  simp

theorem isFinite_writeDefaults {defaults : NoteDefaults} :
    (writeDefaults defaults).isFinite = true ↔ defaults.pan.isFinite = true := by
  rw [writeDefaults, isFinite_object (by simp)]
  simp

theorem isFinite_writeSettings {settings : ChannelSettings} :
    (writeSettings settings).isFinite = true ↔ settings.velocityTracking.isFinite = true := by
  rw [writeSettings, isFinite_object (by simp)]
  simp

/-- Settings that are left out have the tracking of a new channel. -/
theorem isFinite_of_not_nonDefault {settings : ChannelSettings}
    (h : nonDefaultSettings settings = false) : settings.velocityTracking.isFinite = true := by
  simp only [nonDefaultSettings, Bool.or_eq_false_iff] at h
  have htracking : settings.velocityTracking.beq 1 = true := by
    by_contra hne
    simp [Bool.eq_false_of_not_eq_true hne] at h
  cases hvalue : settings.velocityTracking with
  | finite q => rfl
  | infinite negative | nan =>
    rw [hvalue] at htracking
    cases htracking

theorem isFinite_writeInstrument {instrument : Instrument} (record : Option Bundle.StateRecord)
    (id : InstrumentId) : (writeInstrument instrument record).isFinite = true ↔
      finiteReals.instrument id instrument := by
  have hroutes : (Value.array (instrument.routing.map writeRoute)).isFinite = true :=
    isFinite_items.2 fun route _ => isFinite_writeRoute route
  have hsettings : (nonDefaultSettings instrument.channelSettings = true →
      (writeSettings instrument.channelSettings).isFinite = true) ↔
      instrument.channelSettings.velocityTracking.isFinite = true := by
    rw [isFinite_writeSettings]
    refine ⟨fun h => ?_, fun h _ => h⟩
    cases hdefault : nonDefaultSettings instrument.channelSettings with
    | true => exact h hdefault
    | false => exact isFinite_of_not_nonDefault hdefault
  rw [writeInstrument, isFinite_object]
  · simp only [finiteMembers_append, finiteMembers_cons, finiteMembers_nil, finiteMembers_memberIf,
      isFinite_string, isFinite_int, isFinite_bool, isFinite_real, isFinite_textOrNull,
      isFinite_writePlugin, isFinite_writeDefaults, hroutes, hsettings, true_and, and_true,
      implies_true]
    constructor
    · rintro ⟨⟨hgain, hpan, hdefaults⟩, htracking⟩
      exact ⟨trivial, hdefaults, htracking, hgain, hpan⟩
    · rintro ⟨-, hdefaults, htracking, hgain, hpan⟩
      exact ⟨⟨hgain, hpan, hdefaults⟩, htracking⟩
  · cases instrument.soloed <;> cases nonDefaultSettings instrument.channelSettings <;>
      simp [memberIf]

theorem isFinite_points {points : List AutomationPoint} :
    (Value.array (points.map writePoint)).isFinite = true ↔
      ∀ point ∈ points, point.value.isFinite = true := by
  rw [isFinite_items]
  simp [writePoint, Value.isFinite, Value.areFinite]

theorem finiteMembers_writeCurve {source : AutomationSource} :
    FiniteMembers (writeCurve source) ↔ finiteReals.points source := by
  have htarget : FiniteMembers (writeTarget source) := by
    unfold writeTarget
    split <;> simp
  rw [writeCurve, finiteMembers_append]
  simp [htarget, isFinite_points, Values.points, finiteReals]

theorem isFinite_writePatternAutomation {source : AutomationSource} :
    (writePatternAutomation source).isFinite = true ↔ finiteReals.points source := by
  rw [writePatternAutomation, isFinite_object, finiteMembers_writeCurve]
  unfold writeCurve writeTarget
  cases source.targetKind <;> simp

/-- Every real that is kept of the opened file is finite. -/
def Residue.isFinite (residue : Residue) : Bool :=
  Value.membersFinite (residue.document.asObject.getD []) &&
    residue.noteProperties.entries.all fun entry => entry.2.isFinite

namespace Residue

variable {residue : Residue}

theorem isFinite_document (h : residue.isFinite = true) :
    Value.membersFinite (residue.document.asObject.getD []) = true :=
  (Bool.and_eq_true_iff.1 h).1

theorem isFinite_note (h : residue.isFinite = true) (key : String) (value : Value)
    (hget : residue.noteProperties.get? key = some value) : value.isFinite = true :=
  List.all_eq_true.1 (Bool.and_eq_true_iff.1 h).2 (key, value)
    (OrderedMap.get?_eq_some_iff.1 hget)

theorem isFinite_writeNote (h : residue.isFinite = true) (pattern : PatternId)
    (instrument : InstrumentId) (note : Note) :
    (writeNote residue pattern instrument note).isFinite = true := by
  rw [writeNote, isFinite_array, List.forall_mem_append]
  refine ⟨by simp, fun value hvalue =>
    isFinite_note h (noteKey pattern instrument note) value ?_⟩
  exact Option.mem_toList.1 hvalue

theorem isFinite_writePattern (h : residue.isFinite = true) {pattern : Pattern}
    (id : PatternId) : (writePattern residue id pattern).isFinite = true ↔
      finiteReals.pattern pattern := by
  have hsequences : (Value.object (objectOf (pattern.sequences.entries.map fun entry =>
      (entry.1.str, .array (entry.2.notes.map (writeNote residue id entry.1)))))).isFinite =
        true :=
    (isFinite_table str_injective _).2 fun instrument _ _ =>
      isFinite_items.2 fun note _ => isFinite_writeNote h id instrument note
  have hautomation : (pattern.automation ≠ [] →
      (Value.array (pattern.automation.map writePatternAutomation)).isFinite = true) ↔
        ∀ source ∈ pattern.automation, finiteReals.points source := by
    rw [isFinite_items]
    simp only [isFinite_writePatternAutomation]
    refine ⟨fun hnonempty source hsource => ?_, fun hall _ => hall⟩
    exact hnonempty (List.ne_nil_of_mem hsource) source hsource
  rw [writePattern, isFinite_object]
  · simp only [finiteMembers_append, finiteMembers_cons, finiteMembers_nil, finiteMembers_memberIf,
      isFinite_string, isFinite_int, isFinite_real, isFinite_pair, hsequences, true_and, and_true,
      implies_true, decide_eq_true_eq, hautomation]
    rfl
  · cases decide (pattern.order ≠ 0) <;> cases decide (pattern.group ≠ "") <;>
      cases (pattern.timeSignature.numerator ≠ 4 || pattern.timeSignature.denominator ≠ 4 : Bool) <;>
        cases decide (pattern.automation ≠ []) <;> simp [memberIf]

end Residue

theorem isFinite_writeLane (lane : ArrangementLane) : (writeLane lane).isFinite = true := by
  rw [writeLane, isFinite_object (by simp)]
  cases hgroup : lane.groupId <;> simp

theorem isFinite_writeClipSource {source : ClipSource} :
    (writeClipSource source).isFinite = true ↔ finiteReals.source source := by
  cases source with
  | pattern pattern =>
    rw [writeClipSource, isFinite_object (by simp)]
    simp [Values.source]
  | audio source =>
    rw [writeClipSource, isFinite_object (by simp)]
    simp [Values.source, finiteReals]
  | automation source =>
    rw [writeClipSource, isFinite_object, finiteMembers_append, finiteMembers_writeCurve]
    · simp [Values.source]
    · unfold writeCurve writeTarget
      cases source.targetKind <;> simp

theorem isFinite_writeTransforms {transforms : ClipTransforms} :
    (writeTransforms transforms).isFinite = true ↔ finiteReals.transforms transforms := by
  rw [writeTransforms, isFinite_object (by simp)]
  simp [Values.transforms, finiteReals]

theorem isFinite_writeClip {clip : Clip} :
    (writeClip clip).isFinite = true ↔ finiteReals.clip clip := by
  rw [writeClip, isFinite_object (by simp)]
  simp [Values.clip, isFinite_writeClipSource, isFinite_writeTransforms]

theorem isFinite_writeSlot {slot : EffectSlot} :
    (writeSlot slot).isFinite = true ↔ finiteReals.slot slot := by
  have hparams : (Value.object (objectOf (slot.params.entries.map fun entry =>
      (toString entry.1, .real entry.2)))).isFinite = true ↔ finiteReals.slot slot :=
    isFinite_table toString_injective fun entry => .real entry.2
  rw [writeSlot, isFinite_object (by simp)]
  simp only [finiteMembers_cons, finiteMembers_nil, isFinite_string, isFinite_bool,
    isFinite_writePlugin, hparams, true_and, and_true]

theorem isFinite_writeMixerTrack {track : MixerTrack} :
    (writeMixerTrack track).isFinite = true ↔ finiteReals.track track := by
  have hchain : (Value.array (track.effects.map writeSlot)).isFinite = true ↔
      finiteReals.chain track.effects := by
    rw [isFinite_items]
    simp only [isFinite_writeSlot]
    rfl
  rw [writeMixerTrack, isFinite_object (by simp)]
  cases houtput : track.output <;> simp [Values.track, hchain, isFinite_array] <;> rfl

/-! ### The document -/

theorem isFinite_writeTable {K : EntityKind} {α : Type} {table : OrderedMap (TypedId K) α}
    {write : TypedId K → α → Value} : (writeTable table write).isFinite = true ↔
      ∀ id value, table.get? id = some value → (write id value).isFinite = true :=
  isFinite_table str_injective fun entry => write entry.1 entry.2

namespace Residue

variable {residue : Residue}

theorem isFinite_writeRoot (h : residue.isFinite = true) {project : Tables}
    (createdWith : String) (state : OrderedMap InstrumentId Bundle.StateRecord) :
    Value.membersFinite (writeRoot project residue createdWith state) = true ↔
      project.Upholds finiteReals.standard := by
  have hmeta : (Value.object (objectOf
      [("name", .string project.metadata.name),
        ("created_with",
          .string (if createdWith = "" then project.metadata.createdWith else createdWith)),
        ("ticks_per_quarter", .int ticksPerQuarter)])).isFinite = true :=
    (isFinite_object (by simp)).2 (by simp)
  rw [← Value.isFinite, writeRoot, isFinite_object (by simp)]
  simp only [finiteMembers_cons, finiteMembers_nil, isFinite_string, isFinite_int, hmeta,
    isFinite_writeTransport, isFinite_writeTable, isFinite_writeLane, isFinite_writeClip,
    isFinite_writeMixerTrack, isFinite_writePattern h, implies_true, true_and, and_true]
  constructor
  · rintro ⟨htransport, hinstruments, hpatterns, hclips, htracks⟩
    exact ⟨fun id value hget => (isFinite_writeInstrument _ id).1 (hinstruments id value hget),
      hpatterns, hclips, htracks, htransport⟩
  · rintro ⟨hinstruments, hpatterns, hclips, htracks, htransport⟩
    exact ⟨htransport, fun id value hget =>
      (isFinite_writeInstrument _ id).2 (hinstruments id value hget), hpatterns, hclips, htracks⟩

/-- **The document has a text exactly when every real of the project is finite.** -/
theorem writeProjectJson_ne_nil_iff (h : residue.isFinite = true) {project : Tables}
    (createdWith : String) (state : OrderedMap InstrumentId Bundle.StateRecord) :
    writeProjectJson project residue createdWith state ≠ [] ↔
      project.Upholds finiteReals.standard := by
  have hdocument : (projectDocument project residue createdWith state).isFinite = true ↔
      project.Upholds finiteReals.standard := by
    rw [projectDocument, Value.isFinite, ← isFinite_writeRoot h createdWith state]
    exact ⟨membersFinite_of_mergeResidue _ _,
      fun hroot => membersFinite_mergeResidue _ _ hroot (isFinite_document h)⟩
  rw [← hdocument, writeProjectJson, writeCanonical]
  split_ifs with hfinite
  · exact ⟨fun _ => hfinite, fun _ => by simp⟩
  · exact ⟨fun hne => absurd rfl hne, fun hfinite' => absurd hfinite' hfinite⟩

end Residue

/-! ### Sessions -/

/-- A number that stays finite when it is narrowed to single precision. -/
def Double.fitsFloat : Double → Bool
  | .finite q => |q| < BinaryFormat.single.overflow
  | _ => false

theorem Double.isFinite_toFloat {number : Double} (h : number.fitsFloat = true) :
    number.toFloat.isFinite = true := by
  cases number with
  | finite q =>
    have hq : |q| < BinaryFormat.single.overflow := of_decide_eq_true h
    rw [toFloat, BinaryFormat.ofRat, if_neg (not_le.2 hq)]
    rfl
  | infinite negative => cases h
  | nan => cases h

/-- Clamping leaves a finite number, unless it is handed a NaN. -/
theorem isFinite_clampDouble {value : Double} (h : value ≠ .nan) (low high : ℚ) :
    (clampDouble value (.finite low) (.finite high)).isFinite = true := by
  unfold clampDouble
  split_ifs with hlow hhigh
  · rfl
  · rfl
  · cases value with
    | finite q => rfl
    | nan => exact absurd rfl h
    | infinite negative =>
      cases negative with
      | false => exact absurd rfl hhigh
      | true => exact absurd rfl hlow

/-- A session, and what is kept of the file it opened. -/
structure OpenProject where
  session : Session
  residue : Residue := {}

/-- A call of the session; `residue` is what is left over of the file that is opened. -/
structure ProjectCall where
  call : Call
  residue : Residue := {}

namespace OpenProject

/-- A project just created. -/
def create (host : InstrumentId → HostAnswer) (ids : FreshIds) (sampleRate : Double) :
    OpenProject :=
  { session := Session.create host ids sampleRate }

/-- What is kept of a file goes with the project that came with it. -/
def call (p : OpenProject) (c : ProjectCall) : OpenProject where
  session := (p.session.call c.call).2
  residue :=
    match c.call with
    | .projectNew _ _ => {}
    | .projectOpen (some _) _ => c.residue
    | _ => p.residue

def system : TransitionSystem OpenProject ProjectCall where
  step p c := some (p.call c)

/-- The project can be written. -/
def Writable (p : OpenProject) : Prop := writeProjectJson p.session.project p.residue ≠ []

/-- A setter is not handed a number that it would store without its being finite. -/
def StoresFiniteEdit (s : Session) : Edit → Prop
  | .instrumentSetGain id gain => s.project.instruments.contains id = true → gain ≠ .nan
  | .instrumentSetPan id pan => s.project.instruments.contains id = true → pan ≠ .nan
  | .instrumentSetSettings id settings =>
    s.project.instruments.contains id = true → settings.velocityTracking ≠ .nan
  | .rackSetSwing swing => s.currentPatternOf.isSome = true → swing ≠ .nan
  | .audioClipSetSourceBpm id bpm =>
    (s.audioSourceOf id).isSome = true → bpm ≠ .nan ∧ bpm ≠ .infinite false
  | .audioClipSetGain id gain =>
    (s.audioSourceOf id).isSome = true → gain.lt 0 = true ∨ gain.fitsFloat = true
  | .mixerTrackSetGain id gain =>
    s.project.mixerTracks.contains id = true → gain.lt 0 = true ∨ gain.fitsFloat = true
  | .mixerTrackSetPan id pan => s.project.mixerTracks.contains id = true → pan.fitsFloat = true
  | .mixerEffectSetParam track effect _ value =>
    (s.resolveEffect track effect).isSome = true → value.fitsFloat = true
  | _ => True

/-- A setter stores what is finite, and a file that is opened can be written back. -/
def StoresFinite (p : OpenProject) (c : ProjectCall) : Prop :=
  match c.call with
  | .edit edit _ => StoresFiniteEdit p.session edit
  | .projectOpen (some project) _ =>
    c.residue.isFinite = true ∧ writeProjectJson project c.residue ≠ []
  | _ => True

instance (s : Session) (edit : Edit) : Decidable (StoresFiniteEdit s edit) := by
  unfold StoresFiniteEdit
  split <;> infer_instance

instance (p : OpenProject) (c : ProjectCall) : Decidable (p.StoresFinite c) := by
  unfold StoresFinite
  split <;> infer_instance

/-! ### Runs -/

/-- Such a setter meets what is asked of reals. -/
theorem meetsEdit {s : Session} {edit : Edit} (h : StoresFiniteEdit s edit) :
    Session.MeetsEdit finiteReals s edit := by
  cases edit with
  | instrumentAddEmpty => trivial
  | instrumentSetGain | instrumentSetPan | instrumentSetSettings =>
    exact fun hthere => isFinite_clampDouble (h hthere) _ _
  | rackSetSwing swing =>
    intro hrange hthere
    have hne := h hthere
    cases swing with
    | finite q => rfl
    | nan => exact absurd rfl hne
    | infinite negative => cases negative <;> cases hrange
  | audioClipSetSourceBpm id bpm =>
    intro hrange hthere
    have hne := h hthere
    cases bpm with
    | finite q => rfl
    | nan => exact absurd rfl hne.1
    | infinite negative =>
      cases negative with
      | false => exact absurd rfl hne.2
      | true => cases hrange
  | audioClipSetGain id gain | mixerTrackSetGain id gain =>
    intro hrange hthere
    exact Double.isFinite_toFloat ((h hthere).resolve_left (by simp [hrange]))
  | mixerTrackSetPan | mixerEffectSetParam =>
    exact fun hthere => Double.isFinite_toFloat (h hthere)
  | _ => trivial

/-- Everything the session remembers and everything that is kept of the file is finite. -/
structure Sound (p : OpenProject) : Prop where
  upholds : p.session.bus.Upholds finiteReals.standard
  residue : p.residue.isFinite = true

theorem Sound.writable {p : OpenProject} (h : p.Sound) : p.Writable :=
  (Residue.writeProjectJson_ne_nil_iff h.residue "" .empty).2 h.upholds.project

theorem sound_create (host : InstrumentId → HostAnswer) (ids : FreshIds) (sampleRate : Double) :
    (create host ids sampleRate).Sound :=
  ⟨(Session.upholds_create finiteReals host ids sampleRate).1, rfl⟩

theorem Sound.call {p : OpenProject} (h : p.Sound) {c : ProjectCall} (hstores : p.StoresFinite c) :
    (p.call c).Sound := by
  obtain ⟨call, residue⟩ := c
  refine ⟨Session.bus_upholds_call h.upholds call ?_, ?_⟩
  · cases call with
    | edit edit host => exact meetsEdit hstores
    | projectOpen loaded host =>
      cases loaded with
      | none => trivial
      | some project =>
        exact (Residue.writeProjectJson_ne_nil_iff hstores.1 "" .empty).1 hstores.2
    | _ => first | trivial | exact fun _ => trivial | exact fun _ _ => trivial
  · cases call with
    | projectNew ids host => rfl
    | projectOpen loaded host =>
      cases loaded with
      | none => exact h.residue
      | some project => exact hstores.1
    | _ => exact h.residue

/-- **After every run whose setters store what is finite the project can be written.** -/
theorem writable_of_run {host : InstrumentId → HostAnswer} {ids : FreshIds} {sampleRate : Double}
    {calls : List ProjectCall}
    (hstores : ∀ before c p, before ++ [c] <+: calls →
      system.run (create host ids sampleRate) before = some p → p.StoresFinite c) :
    ∀ before p, before <+: calls → system.run (create host ids sampleRate) before = some p →
      p.Writable := by
  intro before p hpre hbefore
  refine Sound.writable ?_
  refine TransitionSystem.invariant (I := fun done p => done <+: calls → p.Sound)
    (fun _ => sound_create host ids sampleRate) ?_ hbefore hpre
  intro done p c p' hdone hp hstep hpre'
  obtain rfl := Option.some_inj.1 hstep
  exact (hp ((List.prefix_append _ _).trans hpre')).call (hstores done c p hpre' hdone)

/-- The master track at its loudest, and a pan. -/
def mixMaster : List ProjectCall :=
  [⟨.edit (.mixerTrackSetGain ⟨1⟩ (.finite (2 ^ 127))) Session.noPlugins, {}⟩,
    ⟨.edit (.mixerTrackSetPan ⟨1⟩ (.finite (1 / 2))) Session.noPlugins, {}⟩]

theorem writable_mixMaster : ∃ p,
    system.run (create Session.noPlugins Session.smallIds (.finite 48000)) mixMaster = some p ∧
      p.Writable := by
  obtain ⟨p, hrun⟩ := Option.isSome_iff_exists.1 (show
    (system.run (create Session.noPlugins Session.smallIds (.finite 48000)) mixMaster).isSome = true
      by decide +kernel)
  exact ⟨p, hrun, writable_of_run
    (TransitionSystem.forall_steps_of_stepsMeet (by decide +kernel)) mixMaster p List.prefix_rfl
      hrun⟩

/-- A NaN is neither below the range of a swing nor above it. -/
theorem not_writable_swingNaN :
    (create Session.noPlugins Session.smallIds (.finite 48000)).Writable ∧ ∃ p,
      system.run (create Session.noPlugins Session.smallIds (.finite 48000))
        [⟨.edit (.rackSetSwing .nan) Session.noPlugins, {}⟩] = some p ∧ ¬ p.Writable := by
  refine ⟨(sound_create _ _ _).writable, ?_⟩
  obtain ⟨p, hrun⟩ := Option.isSome_iff_exists.1 (show
    (system.run (create Session.noPlugins Session.smallIds (.finite 48000))
      [⟨.edit (.rackSetSwing .nan) Session.noPlugins, {}⟩]).isSome = true by decide +kernel)
  have hfacts : (system.run (create Session.noPlugins Session.smallIds (.finite 48000))
      [⟨.edit (.rackSetSwing .nan) Session.noPlugins, {}⟩]).map (fun p =>
        (p.residue.isFinite, (p.session.project.patterns.get? ⟨2⟩).map Pattern.swing)) =
      some (true, some .nan) := by
    decide +kernel
  rw [hrun, Option.map_some, Option.some_inj, Prod.mk.injEq] at hfacts
  obtain ⟨pattern, hget, hswing⟩ := Option.map_eq_some_iff.1 hfacts.2
  refine ⟨p, hrun, fun hwritable => ?_⟩
  have hfinite := ((Residue.writeProjectJson_ne_nil_iff hfacts.1 "" .empty).1 hwritable).pattern
    ⟨2⟩ pattern hget
  have hswing' : pattern.swing.isFinite = true := hfinite.1
  rw [hswing] at hswing'
  cases hswing'

end OpenProject

end OneBeat
