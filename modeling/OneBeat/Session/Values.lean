import OneBeat.Commands.Standards
import OneBeat.Session.QuietEdits

/-!
# What edits write

Two things may be asked of the values of a project (`Values`): of the plug-in each instrument has,
and of the reals.  A command that is built on a project of which this holds writes nothing else, as
long as the arguments it is built from meet what is asked (`Session.MeetsEdit`): most take what is
there and touch neither a plug-in nor a real (`Session.brings_reply`).
-/

namespace OneBeat

/-- What is asked of the plug-ins and of the reals of a project; nothing is asked of a real that is
finite. -/
structure Values where
  plugin : InstrumentId → String → Prop
  real : Double → Prop
  finite : ∀ q, real (.finite q)

namespace Values

variable (W : Values)

def instrument (id : InstrumentId) (value : Instrument) : Prop :=
  W.plugin id value.plugin.id ∧ W.real value.noteDefaults.pan ∧
    W.real value.channelSettings.velocityTracking ∧ W.real value.gain ∧ W.real value.pan

def points (source : AutomationSource) : Prop := ∀ point ∈ source.points, W.real point.value

def source : ClipSource → Prop
  | .pattern _ => True
  | .audio source => W.real source.gain ∧ W.real source.sourceBpm
  | .automation source => W.points source

def transforms (value : ClipTransforms) : Prop :=
  W.real value.velocityScale ∧ W.real value.probability

def clip (value : Clip) : Prop := W.source value.source ∧ W.transforms value.transforms

def pattern (value : Pattern) : Prop :=
  W.real value.swing ∧ ∀ source ∈ value.automation, W.points source

def slot (value : EffectSlot) : Prop :=
  ∀ param number, value.params.get? param = some number → W.real number

def chain (effects : List EffectSlot) : Prop := ∀ slot ∈ effects, W.slot slot

def track (value : MixerTrack) : Prop :=
  W.real value.gain ∧ W.real value.pan ∧ W.chain value.effects

variable {W}

theorem slot_writeParam {value : EffectSlot} (h : W.slot value) (param : ParamId)
    {written : Option Double} (hwritten : ∀ number, written = some number → W.real number) :
    W.slot (value.writeParam param written) := by
  unfold EffectSlot.writeParam
  cases written with
  | none => exact OrderedMap.forall_erase h param
  | some after => exact OrderedMap.forall_assign h (hwritten after rfl)

/-- Writing over one slot of a chain. -/
theorem chain_modify {effects : List EffectSlot} (h : W.chain effects) (i : ℕ)
    {f : EffectSlot → EffectSlot} (hf : ∀ value, W.slot value → W.slot (f value)) :
    W.chain (effects.modify i f) := by
  intro slot hslot
  obtain ⟨j, hj⟩ := List.mem_iff_getElem?.1 hslot
  rw [List.getElem?_modify] at hj
  obtain ⟨before, hbefore, hchosen⟩ := Option.map_eq_some_iff.1 hj
  have hold := h before (List.mem_of_getElem? hbefore)
  split_ifs at hchosen
  · exact hchosen ▸ hf before hold
  · exact hchosen ▸ hold

theorem track_writeParam {value : MixerTrack} (effect : EffectId) (param : ParamId)
    {written : Option Double} (h : W.track value)
    (hwritten : ∀ number, written = some number → W.real number) :
    W.track (value.writeParam effect param written) := by
  unfold MixerTrack.writeParam
  split
  · exact ⟨h.1, h.2.1, chain_modify h.2.2 _ fun _ hslot => slot_writeParam hslot param hwritten⟩
  · exact h

/-- The standard that asks for this. -/
def standard (W : Values) : Standard where
  instrument := W.instrument
  pattern := W.pattern
  patternMeta value := W.real value.swing
  clip := W.clip
  track := W.track
  parameter := W.real
  transport value := W.real value.tempo
  routeTo _ h := h
  withSequences _ h := h
  withMeta h hwritten := ⟨hwritten, h.2⟩
  withLength _ h := h
  withDestination {value source} destination h hsource := by
    obtain ⟨hvalue, htransforms⟩ := h
    rw [hsource] at hvalue
    exact ⟨hvalue, htransforms⟩
  outputTo _ h := h
  writeParam effect param _ h hwritten := track_writeParam effect param h hwritten

end Values

namespace Session

variable {W : Values}

/-! ### Commands -/

/-- The command, if there is one, only writes what meets the standard. -/
def Brings (W : Values) (command : Option Command) : Prop :=
  ∀ c, command = some c → c.Brings W.standard

/-- Commands on notes write no value. -/
theorem brings_notes (command : Option NoteCommand) : Brings W (command.map .note) := by
  intro c hc
  obtain ⟨note, -, rfl⟩ := Option.map_eq_some_iff.1 hc
  rw [Command.Brings]
  trivial

variable {project : Tables}

theorem brings_editInstrument (h : project.Upholds W.standard) (id : InstrumentId)
    (field : ChangeField) {mutator : Instrument → Instrument}
    (hmutator : ∀ value, project.instruments.get? id = some value → W.instrument id value →
      W.instrument id (mutator value)) :
    Brings W (editInstrument project id field mutator) := by
  intro c hc
  obtain ⟨instrument, hget, rfl⟩ := Option.map_eq_some_iff.1 hc
  have hinstrument := h.instrument id instrument hget
  rw [Command.Brings]
  exact ⟨hinstrument, hmutator instrument hget hinstrument⟩

theorem brings_editPatternMeta (h : project.Upholds W.standard) (id : PatternId)
    (field : ChangeField) {mutator : PatternMeta → PatternMeta}
    (hmutator : ∀ value, W.real value.swing → W.real (mutator value).swing) :
    Brings W (editPatternMeta project id field mutator) := by
  intro c hc
  obtain ⟨pattern, hget, rfl⟩ := Option.map_eq_some_iff.1 hc
  have hpattern := (h.pattern id pattern hget).1
  rw [Command.Brings]
  exact ⟨hpattern, hmutator _ hpattern⟩

theorem brings_editLane (id : ArrangementLaneId) (field : ChangeField)
    (mutator : ArrangementLane → ArrangementLane) :
    Brings W (editLane project id field mutator) := by
  intro c hc
  obtain ⟨lane, -, rfl⟩ := Option.map_eq_some_iff.1 hc
  rw [Command.Brings]
  exact ⟨trivial, trivial⟩

theorem brings_editClip (h : project.Upholds W.standard) (id : ClipId) (field : ChangeField)
    {mutator : Clip → Clip} (hmutator : ∀ value, W.clip value → W.clip (mutator value)) :
    Brings W (editClip project id field mutator) := by
  intro c hc
  obtain ⟨clip, hget, rfl⟩ := Option.map_eq_some_iff.1 hc
  have hclip := h.clip id clip hget
  rw [Command.Brings]
  exact ⟨hclip, hmutator clip hclip⟩

theorem brings_editMixerTrack (h : project.Upholds W.standard) (id : MixerTrackId)
    (field : ChangeField) {mutator : MixerTrack → MixerTrack}
    (hmutator : ∀ value, project.mixerTracks.get? id = some value → W.track value →
      W.track (mutator value)) :
    Brings W (editMixerTrack project id field mutator) := by
  intro c hc
  obtain ⟨track, hget, rfl⟩ := Option.map_eq_some_iff.1 hc
  have htrack := h.track id track hget
  rw [Command.Brings]
  exact ⟨htrack, hmutator track hget htrack⟩

/-- Another source of the same kind. -/
theorem brings_editSource (h : project.Upholds W.standard) (id : ClipId)
    {mutator : AudioSource → AudioSource}
    (hmutator : ∀ source, W.source (.audio source) → W.source (.audio (mutator source))) :
    Brings W (editAudio project id mutator) := by
  unfold editAudio
  split
  · exact builds_none
  · refine builds_ite builds_none (brings_editClip h _ _ fun value hvalue => ?_)
    split
    next source hsource =>
      obtain ⟨hsource', htransforms⟩ := hvalue
      rw [hsource] at hsource'
      exact ⟨hmutator source hsource', htransforms⟩
    next => exact hvalue

theorem instrument_default {id : InstrumentId} {plugin : PluginRef}
    (hplugin : W.plugin id plugin.id) (name : String) (color : ColorHex) (order : ℤ)
    (routing : List OutputRoute) : W.instrument id { name, color, order, plugin, routing } :=
  ⟨hplugin, W.finite 0, W.finite 1, W.finite 1, W.finite 0⟩

theorem track_default (name : String) (output : Option MixerTrackId) :
    W.track { name, output } :=
  ⟨W.finite 1, W.finite 0, nofun⟩

theorem brings_addInstrument (project : Tables) {id : InstrumentId} {plugin : PluginRef}
    (hplugin : W.plugin id plugin.id) (track : MixerTrackId) (name : String) :
    (addInstrument project true id track name plugin).Brings W.standard := by
  rw [addInstrument, if_pos rfl, Command.Brings, Command.BringsAll, Command.BringsAll,
    Command.BringsAll, Command.Brings, Command.Brings]
  exact ⟨track_default _ _, instrument_default hplugin _ _ _ _, trivial⟩

theorem brings_duplicateInstrument (h : project.Upholds W.standard) (track : MixerTrackId)
    {copy id : InstrumentId} (hcopy : ∀ source, project.instruments.get? id = some source →
      W.plugin copy source.plugin.id) :
    Brings W (duplicateInstrument project track copy id) := by
  intro c hc
  obtain ⟨source, hget, rfl⟩ := Option.map_eq_some_iff.1 hc
  rw [Command.Brings, Command.BringsAll, Command.BringsAll, Command.BringsAll, Command.Brings,
    Command.Brings]
  exact ⟨track_default _ _, ⟨hcopy source hget, (h.instrument id source hget).2⟩, trivial⟩

theorem brings_reorderInstrument (h : project.Upholds W.standard) (id : InstrumentId) (order : ℤ) :
    Brings W (reorderInstrument project id order) := by
  unfold reorderInstrument
  split
  · exact builds_none
  · refine builds_ite builds_none (builds_some ?_)
    rw [Command.Brings]
    refine Command.bringsAll_iff.2 fun command hcommand => ?_
    obtain ⟨entry, -, hentry⟩ := List.mem_filterMap.1 hcommand
    dsimp only at hentry
    split_ifs at hentry
    refine brings_editInstrument h _ _ ?_ command hentry
    exact fun _ _ hvalue => hvalue

theorem brings_addPattern (id : PatternId) (name : String) (length : ℤ) :
    (addPattern project id name length).Brings W.standard := by
  rw [addPattern, Command.Brings]
  exact ⟨W.finite 0, fun _ h => absurd h List.not_mem_nil⟩

theorem brings_addClip (id : ClipId) (lane : ArrangementLaneId) {source : ClipSource}
    (hsource : W.source source) (start length : ℤ) :
    (addClip id lane source start length).Brings W.standard := by
  rw [addClip, Command.Brings]
  exact ⟨hsource, W.finite 1, W.finite 1⟩

theorem source_splitSource {clip : Clip} (h : W.source clip.source) (leftLength : ℤ) :
    W.source (splitSource clip leftLength) := by
  unfold splitSource
  split
  next source hsource =>
    rw [hsource] at h
    exact h
  next source hsource =>
    rw [hsource] at h
    intro point hpoint
    obtain ⟨before, hbefore, rfl⟩ := List.mem_map.1 hpoint
    exact h before (List.mem_filter.1 hbefore).1
  next => trivial

/-- Another length, and another window of the same audio. -/
theorem clip_shortenTo (leftLength : ℤ) {value : Clip} (h : W.clip value) :
    W.clip (shortenTo leftLength value) := by
  obtain ⟨hsource, htransforms⟩ := h
  unfold shortenTo
  split
  next source heq =>
    rw [heq] at hsource
    exact ⟨hsource, htransforms⟩
  next => exact ⟨hsource, htransforms⟩

theorem brings_splitClip (h : project.Upholds W.standard) (right id : ClipId) (cut : ℤ) :
    Brings W (splitClip project right id cut) := by
  unfold splitClip
  split
  · exact builds_none
  next clip hget =>
    refine builds_ite builds_none fun c hc => ?_
    obtain ⟨shorten, hshorten, rfl⟩ := Option.map_eq_some_iff.1 hc
    have hclip := h.clip id clip hget
    rw [Command.Brings, Command.BringsAll, Command.BringsAll, Command.BringsAll, Command.Brings]
    exact ⟨brings_editClip h _ _ (fun _ hvalue => clip_shortenTo _ hvalue) shorten hshorten,
      ⟨source_splitSource hclip.1 _, hclip.2⟩, trivial⟩

theorem brings_resizeAudioClip (h : project.Upholds W.standard) (id : ClipId) (length : ℤ) :
    Brings W (resizeAudioClip project id length) := by
  unfold resizeAudioClip
  refine builds_ite builds_none ?_
  split
  · exact builds_none
  split
  · exact brings_editClip h _ _ fun _ hvalue => hvalue
  · refine brings_editClip h _ _ fun value hvalue => ?_
    split_ifs
    · exact hvalue
    split
    next source hsource =>
      obtain ⟨hsource', htransforms⟩ := hvalue
      rw [hsource] at hsource'
      exact ⟨hsource', htransforms⟩
    next => exact hvalue

theorem brings_fitAudioClipToTempo (h : project.Upholds W.standard) (id : ClipId) (bpm : Double)
    (duration : ℤ) : Brings W (fitAudioClipToTempo project id bpm duration) := by
  unfold fitAudioClipToTempo
  split
  · exact builds_none
  split
  · exact builds_none
  · refine builds_ite builds_none (brings_editClip h _ _ fun value hvalue => ?_)
    split
    next source hsource =>
      obtain ⟨hsource', htransforms⟩ := hvalue
      rw [hsource] at hsource'
      exact ⟨hsource', htransforms⟩
    next => exact hvalue

/-- The chain of a track is edited. -/
theorem brings_editChain (h : project.Upholds W.standard) (track : MixerTrackId)
    {mutator : List EffectSlot → List EffectSlot}
    (hmutator : ∀ effects, W.chain effects → W.chain (mutator effects)) :
    Brings W (editChain project track mutator) :=
  brings_editMixerTrack h _ _ fun _ _ hvalue => ⟨hvalue.1, hvalue.2.1, hmutator _ hvalue.2.2⟩

theorem chain_insertIdx {effects : List EffectSlot} (h : W.chain effects) (i : ℕ)
    {slot : EffectSlot} (hslot : W.slot slot) : W.chain (effects.insertIdx i slot) := by
  intro other hother
  by_cases hi : i ≤ effects.length
  · obtain rfl | hold := (List.mem_insertIdx hi).1 hother
    · exact hslot
    · exact h other hold
  · rw [List.insertIdx_of_length_lt (by omega)] at hother
    exact h other hother

theorem chain_eraseIdx {effects : List EffectSlot} (h : W.chain effects) (i : ℕ) :
    W.chain (effects.eraseIdx i) := fun slot hslot => h slot (List.mem_of_mem_eraseIdx hslot)

theorem chain_moveSlot (effect : EffectId) (index : ℕ) {effects : List EffectSlot}
    (h : W.chain effects) : W.chain (moveSlot effect index effects) := by
  unfold moveSlot
  split
  · exact h
  dsimp only
  split
  · exact h
  next moved hmoved =>
    split_ifs
    · exact h
    · exact chain_insertIdx (chain_eraseIdx h _) _ (h moved (List.mem_of_getElem? hmoved))

theorem brings_addEffect (h : project.Upholds W.standard) (id : EffectId) (track : MixerTrackId)
    (plugin : PluginRef) (index : ℕ) : Brings W (addEffect project id track plugin index) :=
  brings_editChain h _ fun _ heffects => chain_insertIdx heffects _ nofun

theorem brings_removeEffect (h : project.Upholds W.standard) (track : MixerTrackId)
    (effect : EffectId) : Brings W (removeEffect project track effect) := by
  unfold removeEffect
  split
  · exact builds_none
  · intro c hc
    obtain ⟨drop, hdrop, rfl⟩ := Option.map_eq_some_iff.1 hc
    rw [Command.Brings]
    refine Command.bringsAll_iff.2 fun command hcommand => ?_
    rcases List.mem_append.1 hcommand with hremove | hlast
    · obtain ⟨clip, -, rfl⟩ := List.mem_map.1 hremove
      rw [removeClip, Command.Brings]
      trivial
    · obtain rfl := List.mem_singleton.1 hlast
      refine brings_editChain h _ (fun effects heffects => ?_) command hdrop
      split
      · exact chain_eraseIdx heffects _
      · exact heffects

theorem brings_moveEffect (h : project.Upholds W.standard) (track : MixerTrackId)
    (effect : EffectId) (index : ℕ) : Brings W (moveEffect project track effect index) := by
  unfold moveEffect
  split
  · exact builds_none
  split
  · exact builds_none
  · exact builds_ite builds_none (brings_editChain h _ fun _ heffects =>
      chain_moveSlot effect index heffects)

theorem brings_setEffectBypassed (h : project.Upholds W.standard) (track : MixerTrackId)
    (effect : EffectId) (bypassed : Bool) :
    Brings W (setEffectBypassed project track effect bypassed) := by
  unfold setEffectBypassed
  split
  · exact builds_none
  · refine brings_editChain h _ fun effects heffects => ?_
    split
    · exact Values.chain_modify heffects _ fun _ hslot => hslot
    · exact heffects

theorem brings_setEffectParam (h : project.Upholds W.standard) (track : MixerTrackId)
    (effect : EffectId) (parameter : ParamId) {value : Double}
    (hvalue : (project.mixerTracks.get? track).bind (fun live => live.findEffect effect) ≠ none →
      W.real value) : Brings W (setEffectParam project track effect parameter value) := by
  intro c hc
  obtain ⟨slot, hslot, rfl⟩ := Option.map_eq_some_iff.1 hc
  rw [Command.Brings]
  obtain ⟨live, hlive, hfound⟩ := Option.bind_eq_some_iff.1 hslot
  refine ⟨fun number hnumber => ?_, hvalue (by rw [hslot]; nofun)⟩
  exact (h.track track live hlive).2.2 slot (List.mem_of_find?_eq_some hfound) parameter number
    hnumber

theorem brings_setTransport (h : project.Upholds W.standard) {transport : TransportState}
    (htransport : W.real transport.tempo) :
    Brings W (some (setTransport project transport)) := by
  refine builds_some ?_
  rw [setTransport, Command.Brings]
  exact ⟨h.transport, htransport⟩

end Session

/-! ### Edits -/

/-- What an entry point does with its arguments only writes what meets the standard. -/
def Reply.Brings (W : Values) : Reply → Prop
  | .model command => Session.Brings W command
  | _ => True

theorem Reply.brings_ite {W : Values} {c : Prop} [Decidable c] {first second : Reply}
    (h : first.Brings W) (h' : second.Brings W) :
    Reply.Brings W (if c then first else second) := by
  split_ifs
  · exact h
  · exact h'

namespace Session

variable {W : Values}

/-- The arguments of an edit meet what is asked, where the edit writes them at all. -/
def MeetsEdit (W : Values) (s : Session) : Edit → Prop
  | .instrumentAddEmpty id _ _ => W.plugin id ""
  | .instrumentSetGain id gain =>
    s.project.instruments.contains id = true → W.real (clampDouble gain 0 (.finite 2))
  | .instrumentSetPan id pan =>
    s.project.instruments.contains id = true → W.real (clampDouble pan (.finite (-1)) 1)
  | .instrumentSetSettings id settings =>
    s.project.instruments.contains id = true →
      W.real (clampDouble settings.velocityTracking 0 (.finite 2))
  | .rackSetSwing swing =>
    (swing.lt 0 || Double.lt 1 swing) = false → s.currentPatternOf.isSome = true → W.real swing
  | .audioClipSetSourceBpm id bpm =>
    bpm.lt 0 = false → (s.audioSourceOf id).isSome = true → W.real bpm
  | .audioClipSetGain id gain =>
    gain.lt 0 = false → (s.audioSourceOf id).isSome = true → W.real gain.toFloat
  | .mixerTrackSetGain id gain =>
    gain.lt 0 = false → s.project.mixerTracks.contains id = true → W.real gain.toFloat
  | .mixerTrackSetPan id pan =>
    s.project.mixerTracks.contains id = true → W.real pan.toFloat
  | .mixerEffectSetParam track effect _ value =>
    (s.resolveEffect track effect).isSome = true → W.real value.toFloat
  | _ => True

variable {s : Session}

theorem brings_editNotes (id : InstrumentId) (notes : List RawNote)
    (build : PatternId → List Note → Option NoteCommand) :
    (s.editNotes id notes build).Brings W := by
  unfold editNotes
  split
  · trivial
  · exact Reply.brings_ite trivial (brings_notes _)

theorem brings_note (command : NoteCommand) : Brings W (some (.note command)) :=
  brings_notes (some command)

theorem brings_noteAdd (id : InstrumentId) (start length key velocity : ℤ) :
    (s.noteAdd id start length key velocity).Brings W := by
  unfold noteAdd
  split
  · trivial
  · exact Reply.brings_ite trivial (Reply.brings_ite (brings_notes _) (brings_note _))

theorem brings_rackSetStepVelocity (id : InstrumentId) (step : ℤ) (velocity : ℕ) :
    (s.rackSetStepVelocity id step velocity).Brings W := by
  unfold rackSetStepVelocity
  split
  · trivial
  · exact Reply.brings_ite trivial (Reply.brings_ite (brings_note _) (brings_notes _))

theorem brings_clipAdd (id : ClipId) (lane : ArrangementLaneId) (pattern : Option PatternId)
    (start length : ℤ) : (s.clipAdd id lane pattern start length).Brings W := by
  unfold clipAdd
  refine Reply.brings_ite trivial ?_
  split
  · trivial
  · refine Reply.brings_ite trivial (builds_some (brings_addClip _ _ ?_ _ _))
    trivial

theorem brings_audioClipSetStretchMode (h : s.project.Upholds W.standard) (id : ClipId)
    (mode : StretchMode) (duration : ℤ) : (s.audioClipSetStretchMode id mode duration).Brings W := by
  unfold audioClipSetStretchMode
  split
  · trivial
  split
  · trivial
  · refine Reply.brings_ite (brings_editSource h _ fun _ hsource => hsource) ?_
    refine brings_editClip h _ _ fun value hvalue => ?_
    split
    next source hsource =>
      obtain ⟨hsource', htransforms⟩ := hvalue
      rw [hsource] at hsource'
      exact ⟨hsource', htransforms⟩
    next => exact hvalue

theorem brings_editTransport (h : s.project.Upholds W.standard) (changed : Bool)
    {transport : TransportState} (htransport : W.real transport.tempo) :
    (s.editTransport changed transport).Brings W := by
  unfold editTransport
  exact Reply.brings_ite (brings_setTransport h htransport) trivial

/-- **An edit whose arguments meet what is asked writes nothing else.** -/
theorem brings_reply (h : s.project.Upholds W.standard) (edit : Edit) (hmeets : MeetsEdit W s edit) :
    (s.reply edit).Brings W := by
  cases edit with
  | instrumentRename | instrumentRecolor | instrumentSetRoute =>
    exact Reply.brings_ite trivial (brings_editInstrument h _ _ fun _ _ hvalue => hvalue)
  | instrumentSetMuted | instrumentSetSoloed =>
    exact brings_editInstrument h _ _ fun _ _ hvalue => hvalue
  | instrumentSetGain id gain =>
    exact brings_editInstrument h _ _ fun value hget hvalue => ⟨hvalue.1, hvalue.2.1, hvalue.2.2.1,
      hmeets (OrderedMap.contains_eq_true_iff.2 ⟨value, hget⟩), hvalue.2.2.2.2⟩
  | instrumentSetPan id pan =>
    exact brings_editInstrument h _ _ fun value hget hvalue => ⟨hvalue.1, hvalue.2.1, hvalue.2.2.1,
      hvalue.2.2.2.1, hmeets (OrderedMap.contains_eq_true_iff.2 ⟨value, hget⟩)⟩
  | instrumentSetSettings id settings =>
    exact brings_editInstrument h _ _ fun value hget hvalue => ⟨hvalue.1, hvalue.2.1,
      hmeets (OrderedMap.contains_eq_true_iff.2 ⟨value, hget⟩), hvalue.2.2.2⟩
  | instrumentReorder =>
    rw [reply]
    split
    · trivial
    · exact Reply.brings_ite trivial (brings_reorderInstrument h _ _)
  | instrumentAddEmpty id track name => exact builds_some (brings_addInstrument _ hmeets _ _)
  | rackSetSwing swing =>
    rw [reply]
    split_ifs with hrange
    · trivial
    split
    · trivial
    next id pattern hcurrent =>
      refine brings_editPatternMeta h _ _ fun _ _ => ?_
      exact hmeets (Bool.eq_false_of_not_eq_true hrange) (by rw [hcurrent]; rfl)
  | rackToggleStep =>
    rw [reply, rackToggleStep]
    split
    · trivial
    · exact Reply.brings_ite trivial (brings_notes _)
  | rackSetStepVelocity => exact brings_rackSetStepVelocity _ _ _
  | rackRemoveSequence =>
    rw [reply, rackRemoveSequence]
    split
    · trivial
    split
    · trivial
    · exact brings_note _
  | noteAdd => exact brings_noteAdd _ _ _ _ _
  | notesRemove | notesMove | notesResize | notesDuplicate =>
    rw [reply]
    exact brings_editNotes _ _ _
  | notesSetVelocity | notesQuantise =>
    exact Reply.brings_ite trivial (brings_editNotes _ _ _)
  | patternRename | patternSetTimeSignature =>
    exact Reply.brings_ite trivial (brings_editPatternMeta h _ _ fun _ hvalue => hvalue)
  | patternRecolor | patternSetGroup => exact brings_editPatternMeta h _ _ fun _ hvalue => hvalue
  | laneCreate =>
    refine builds_some ?_
    rw [addLane, Command.Brings]
    trivial
  | laneRename | laneSetHeight => exact Reply.brings_ite trivial (brings_editLane _ _ _)
  | laneRecolor | laneReorder | laneSetMuted | laneSetSoloed | laneSetCollapsed =>
    exact brings_editLane _ _ _
  | laneRemove | clipRemove =>
    refine Reply.brings_ite trivial (builds_some ?_)
    first | rw [OneBeat.removeLane, Command.Brings] | rw [OneBeat.removeClip, Command.Brings]
    trivial
  | clipAdd => exact brings_clipAdd _ _ _ _ _
  | audioClipAdd =>
    refine Reply.brings_ite trivial (builds_some (brings_addClip _ _ ?_ _ _))
    exact ⟨W.finite 1, W.finite 0⟩
  | clipMove | clipResize | clipSetWindowStart | clipSetTranspose =>
    exact Reply.brings_ite trivial (brings_editClip h _ _ fun _ hvalue => hvalue)
  | clipSetMuted | clipSetLoop => exact brings_editClip h _ _ fun _ hvalue => hvalue
  | audioClipSetWindow =>
    exact Reply.brings_ite trivial
      (builds_ite builds_none (brings_editSource h _ fun _ hsource => hsource))
  | audioClipSetReversed =>
    exact Reply.brings_ite trivial (brings_editSource h _ fun _ hsource => hsource)
  | audioClipSetSourceBpm id bpm =>
    rw [reply]
    split_ifs with hrefused
    · trivial
    rw [not_or, Bool.not_eq_true, Option.isNone_iff_eq_none, ← ne_eq,
      ← Option.isSome_iff_ne_none] at hrefused
    exact builds_ite builds_none (brings_editSource h _ fun _ hsource =>
      ⟨hsource.1, hmeets hrefused.1 hrefused.2⟩)
  | audioClipSetGain id gain =>
    rw [reply]
    split_ifs with hrefused
    · trivial
    rw [not_or, Bool.not_eq_true, Option.isNone_iff_eq_none, ← ne_eq,
      ← Option.isSome_iff_ne_none] at hrefused
    exact builds_ite builds_none (brings_editSource h _ fun _ hsource =>
      ⟨hmeets hrefused.1 hrefused.2, hsource.2⟩)
  | audioClipSetStretchMode => exact brings_audioClipSetStretchMode h _ _ _
  | audioClipResize => exact Reply.brings_ite trivial (brings_resizeAudioClip h _ _)
  | clipSplit => exact brings_splitClip h _ _ _
  | audioClipFitToTempo => exact brings_fitAudioClipToTempo h _ _ _
  | mixerTrackSetGain id gain =>
    rw [reply]
    split_ifs with hrefused
    · trivial
    exact brings_editMixerTrack h _ _ fun value hget hvalue =>
      ⟨hmeets (Bool.eq_false_of_not_eq_true hrefused)
        (OrderedMap.contains_eq_true_iff.2 ⟨value, hget⟩), hvalue.2⟩
  | mixerTrackSetPan id pan =>
    exact brings_editMixerTrack h _ _ fun value hget hvalue =>
      ⟨hvalue.1, hmeets (OrderedMap.contains_eq_true_iff.2 ⟨value, hget⟩), hvalue.2.2⟩
  | mixerTrackSetMuted | mixerTrackSetSoloed =>
    exact brings_editMixerTrack h _ _ fun _ _ hvalue => hvalue
  | mixerEffectAdd =>
    intro c hc
    obtain ⟨live, -, hadd⟩ := Option.bind_eq_some_iff.1 hc
    exact brings_addEffect h _ _ _ _ c hadd
  | mixerEffectRemove => exact brings_removeEffect h _ _
  | mixerEffectMove => exact Reply.brings_ite trivial (brings_moveEffect h _ _ _)
  | mixerEffectSetBypassed => exact brings_setEffectBypassed h _ _ _
  | mixerEffectSetParam track effect parameter value =>
    refine brings_setEffectParam h _ _ _ fun hthere => ?_
    exact hmeets (Option.isSome_iff_ne_none.2 hthere)
  | setTempo tempo =>
    rw [reply]
    split_ifs with hrange
    · trivial
    refine brings_editTransport h _ ?_
    cases tempo with
    | finite q => exact W.finite q
    | nan => exact absurd rfl hrange
    | infinite negative => cases negative <;> exact absurd rfl hrange
  | setMetronome | setLoop => exact brings_editTransport h _ h.transport

end Session

end OneBeat
