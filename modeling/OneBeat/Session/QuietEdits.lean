import OneBeat.Session.Edits

/-!
# Edits that move no instrument

What `Session.reply` builds for an edit that neither adds an instrument nor moves one.  `QuietEdits`
collects what a property of commands needs so that all of these commands have it
(`QuietEdits.reply`).
-/

namespace OneBeat

/-- The edit adds an instrument, or moves some. -/
def Edit.restacks : Edit → Bool
  | .instrumentAddEmpty .. | .instrumentReorder .. => true
  | _ => false

/-- Commands that neither add or remove an instrument, a track or a pattern nor move an instrument
have the property. -/
structure QuietEdits (Q : Command → Prop) (project : Tables) : Prop where
  instrument : ∀ {id field before after}, project.instruments.get? id = some before →
    after.order = before.order → Q (.edit { target := .instrument id, field, before, after })
  edit : ∀ {command : EditCommand}, (∀ id, command.target ≠ .instrument id) → Q (.edit command)
  effectParam : ∀ command, Q (.effectParam command)
  note : ∀ command, Q (.note command)
  transport : ∀ command, Q (.transport command)
  addLane : ∀ id lane, Q (.add (.lane id lane))
  addClip : ∀ id clip, Q (.add (.clip id clip))
  removeLane : ∀ command, Q (.removeLane command)
  removeClip : ∀ command, Q (.removeClip command)
  composite : ∀ {commands}, (∀ command ∈ commands, Q command) → Q (.composite commands)

/-- What a factory builds, if anything, has the property. -/
def Builds (Q : Command → Prop) (command : Option Command) : Prop := ∀ c, command = some c → Q c

/-- An entry point that executes something executes what has it. -/
def Reply.Builds (Q : Command → Prop) : Reply → Prop
  | .model command => OneBeat.Builds Q command
  | _ => True

variable {Q : Command → Prop}

theorem builds_none : Builds Q none := nofun

theorem builds_some {command : Command} (h : Q command) : Builds Q (some command) := by
  rintro c ⟨⟩
  exact h

theorem builds_map {α : Type} {f : α → Command} (hf : ∀ a, Q (f a)) (o : Option α) :
    Builds Q (o.map f) := by
  intro c hc
  obtain ⟨a, -, rfl⟩ := Option.map_eq_some_iff.1 hc
  exact hf a

theorem builds_ite {p : Prop} [Decidable p] {command command' : Option Command}
    (h : Builds Q command) (h' : Builds Q command') :
    Builds Q (if p then command else command') := by
  split_ifs
  · exact h
  · exact h'

theorem Reply.builds_ite {p : Prop} [Decidable p] {reply reply' : Reply} (h : reply.Builds Q)
    (h' : reply'.Builds Q) : (if p then reply else reply').Builds Q := by
  split_ifs
  · exact h
  · exact h'

namespace QuietEdits

variable {s : Session} (hQ : QuietEdits Q s.project)

include hQ

theorem editInstrument (id : InstrumentId) (field : ChangeField) {mutator : Instrument → Instrument}
    (hmutator : ∀ instrument, (mutator instrument).order = instrument.order) :
    Builds Q (editInstrument s.project id field mutator) := by
  intro c hc
  obtain ⟨instrument, hget, rfl⟩ := Option.map_eq_some_iff.1 hc
  exact hQ.instrument hget (hmutator instrument)

theorem editPatternMeta (target : Tables) (id : PatternId) (field : ChangeField)
    (mutator : PatternMeta → PatternMeta) : Builds Q (editPatternMeta target id field mutator) :=
  builds_map (fun _ => hQ.edit fun _ h => by cases h) _

theorem editLane (target : Tables) (id : ArrangementLaneId) (field : ChangeField)
    (mutator : ArrangementLane → ArrangementLane) : Builds Q (editLane target id field mutator) :=
  builds_map (fun _ => hQ.edit fun _ h => by cases h) _

theorem editClip (target : Tables) (id : ClipId) (field : ChangeField) (mutator : Clip → Clip) :
    Builds Q (editClip target id field mutator) :=
  builds_map (fun _ => hQ.edit fun _ h => by cases h) _

theorem editMixerTrack (target : Tables) (id : MixerTrackId) (field : ChangeField)
    (mutator : MixerTrack → MixerTrack) : Builds Q (editMixerTrack target id field mutator) :=
  builds_map (fun _ => hQ.edit fun _ h => by cases h) _

theorem editAudio (target : Tables) (id : ClipId) (mutator : AudioSource → AudioSource) :
    Builds Q (editAudio target id mutator) := by
  unfold OneBeat.editAudio
  split
  · exact builds_none
  · exact builds_ite builds_none (hQ.editClip _ _ _ _)

theorem resizeAudioClip (target : Tables) (id : ClipId) (length : ℤ) :
    Builds Q (resizeAudioClip target id length) := by
  unfold OneBeat.resizeAudioClip
  refine builds_ite builds_none ?_
  split
  · exact builds_none
  · split
    · exact hQ.editClip _ _ _ _
    · exact hQ.editClip _ _ _ _

theorem splitClip (target : Tables) (right id : ClipId) (cut : ℤ) :
    Builds Q (splitClip target right id cut) := by
  unfold OneBeat.splitClip
  split
  · exact builds_none
  refine builds_ite builds_none ?_
  intro c hc
  obtain ⟨shorten, hshorten, rfl⟩ := Option.map_eq_some_iff.1 hc
  refine hQ.composite fun command hcommand => ?_
  rcases List.mem_pair.1 hcommand with rfl | rfl
  · exact hQ.editClip _ _ _ _ _ hshorten
  · exact hQ.addClip _ _

theorem fitAudioClipToTempo (target : Tables) (id : ClipId) (bpm : Double) (duration : ℤ) :
    Builds Q (fitAudioClipToTempo target id bpm duration) := by
  unfold OneBeat.fitAudioClipToTempo
  split
  · exact builds_none
  split
  · exact builds_none
  · exact builds_ite builds_none (hQ.editClip _ _ _ _)

theorem removeEffect (target : Tables) (track : MixerTrackId) (effect : EffectId) :
    Builds Q (removeEffect target track effect) := by
  unfold OneBeat.removeEffect
  split
  · exact builds_none
  intro c hc
  obtain ⟨drop, hdrop, rfl⟩ := Option.map_eq_some_iff.1 hc
  refine hQ.composite fun command hcommand => ?_
  rcases List.mem_append.1 hcommand with hclip | hdropped
  · obtain ⟨clip, -, rfl⟩ := List.mem_map.1 hclip
    exact hQ.removeClip _
  · obtain rfl := List.mem_singleton.1 hdropped
    exact hQ.editMixerTrack _ _ _ _ _ hdrop

theorem moveEffect (target : Tables) (track : MixerTrackId) (effect : EffectId) (index : ℕ) :
    Builds Q (moveEffect target track effect index) := by
  unfold OneBeat.moveEffect
  split
  · exact builds_none
  split
  · exact builds_none
  · exact builds_ite builds_none (hQ.editMixerTrack _ _ _ _)

theorem setEffectBypassed (target : Tables) (track : MixerTrackId) (effect : EffectId)
    (bypassed : Bool) : Builds Q (setEffectBypassed target track effect bypassed) := by
  unfold OneBeat.setEffectBypassed
  split
  · exact builds_none
  · exact hQ.editMixerTrack _ _ _ _

/-! ### Replies -/

theorem editNotes (id : InstrumentId) (notes : List RawNote)
    (build : PatternId → List Note → Option NoteCommand) :
    (s.editNotes id notes build).Builds Q := by
  unfold Session.editNotes
  split
  · trivial
  · exact Reply.builds_ite trivial (builds_map hQ.note _)

theorem editTransport (changed : Bool) (transport : TransportState) :
    (s.editTransport changed transport).Builds Q :=
  Reply.builds_ite (builds_some (hQ.transport _)) trivial

theorem rackSetStepVelocity (id : InstrumentId) (step : ℤ) (velocity : ℕ) :
    (s.rackSetStepVelocity id step velocity).Builds Q := by
  unfold Session.rackSetStepVelocity
  split
  · trivial
  · exact Reply.builds_ite trivial (Reply.builds_ite (builds_some (hQ.note _))
      (builds_map hQ.note _))

theorem noteAdd (id : InstrumentId) (start length key velocity : ℤ) :
    (s.noteAdd id start length key velocity).Builds Q := by
  unfold Session.noteAdd
  split
  · trivial
  · exact Reply.builds_ite trivial (Reply.builds_ite (builds_map hQ.note _)
      (builds_some (hQ.note _)))

theorem clipAdd (id : ClipId) (lane : ArrangementLaneId) (pattern : Option PatternId)
    (start length : ℤ) : (s.clipAdd id lane pattern start length).Builds Q := by
  unfold Session.clipAdd
  refine Reply.builds_ite trivial ?_
  split
  · trivial
  · exact Reply.builds_ite trivial (builds_some (hQ.addClip _ _))

theorem audioClipSetStretchMode (id : ClipId) (mode : StretchMode) (duration : ℤ) :
    (s.audioClipSetStretchMode id mode duration).Builds Q := by
  unfold Session.audioClipSetStretchMode
  split
  · trivial
  split
  · trivial
  · exact Reply.builds_ite (hQ.editAudio _ _ _) (hQ.editClip _ _ _ _)

/-- **All edits that move no instrument have the property.** -/
theorem reply (edit : Edit) (hedit : edit.restacks = false) : (s.reply edit).Builds Q := by
  cases edit with
  | instrumentAddEmpty | instrumentReorder => cases hedit
  | instrumentRename | instrumentRecolor | instrumentSetRoute =>
    exact Reply.builds_ite trivial (hQ.editInstrument _ _ fun _ => rfl)
  | instrumentSetMuted | instrumentSetSoloed | instrumentSetGain | instrumentSetPan
  | instrumentSetSettings => exact hQ.editInstrument _ _ fun _ => rfl
  | rackSetSwing =>
    rw [Session.reply]
    refine Reply.builds_ite trivial ?_
    split
    · trivial
    · exact hQ.editPatternMeta _ _ _ _
  | rackToggleStep =>
    rw [Session.reply, Session.rackToggleStep]
    split
    · trivial
    · exact Reply.builds_ite trivial (builds_map hQ.note _)
  | rackSetStepVelocity => exact hQ.rackSetStepVelocity _ _ _
  | rackRemoveSequence =>
    rw [Session.reply, Session.rackRemoveSequence]
    split
    · trivial
    split
    · trivial
    · exact builds_some (hQ.note _)
  | noteAdd => exact hQ.noteAdd _ _ _ _ _
  | notesRemove | notesMove | notesResize | notesDuplicate =>
    rw [Session.reply]
    exact hQ.editNotes _ _ _
  | notesSetVelocity | notesQuantise => exact Reply.builds_ite trivial (hQ.editNotes _ _ _)
  | patternRename | patternSetTimeSignature =>
    exact Reply.builds_ite trivial (hQ.editPatternMeta _ _ _ _)
  | patternRecolor | patternSetGroup => exact hQ.editPatternMeta _ _ _ _
  | laneCreate => exact builds_some (hQ.addLane _ _)
  | laneRename | laneSetHeight => exact Reply.builds_ite trivial (hQ.editLane _ _ _ _)
  | laneRecolor | laneReorder | laneSetMuted | laneSetSoloed | laneSetCollapsed =>
    exact hQ.editLane _ _ _ _
  | laneRemove => exact Reply.builds_ite trivial (builds_some (hQ.removeLane _))
  | clipRemove => exact Reply.builds_ite trivial (builds_some (hQ.removeClip _))
  | clipAdd => exact hQ.clipAdd _ _ _ _ _
  | audioClipAdd => exact Reply.builds_ite trivial (builds_some (hQ.addClip _ _))
  | clipMove | clipResize | clipSetWindowStart | clipSetTranspose =>
    exact Reply.builds_ite trivial (hQ.editClip _ _ _ _)
  | clipSetMuted | clipSetLoop => exact hQ.editClip _ _ _ _
  | audioClipSetWindow | audioClipSetSourceBpm | audioClipSetGain =>
    exact Reply.builds_ite trivial (builds_ite builds_none (hQ.editAudio _ _ _))
  | audioClipSetReversed => exact Reply.builds_ite trivial (hQ.editAudio _ _ _)
  | audioClipSetStretchMode => exact hQ.audioClipSetStretchMode _ _ _
  | audioClipResize => exact Reply.builds_ite trivial (hQ.resizeAudioClip _ _ _)
  | clipSplit => exact hQ.splitClip _ _ _ _
  | audioClipFitToTempo => exact hQ.fitAudioClipToTempo _ _ _ _
  | mixerTrackSetGain => exact Reply.builds_ite trivial (hQ.editMixerTrack _ _ _ _)
  | mixerTrackSetPan | mixerTrackSetMuted | mixerTrackSetSoloed =>
    exact hQ.editMixerTrack _ _ _ _
  | mixerEffectAdd =>
    intro c hc
    obtain ⟨live, -, hadd⟩ := Option.bind_eq_some_iff.1 hc
    exact hQ.editMixerTrack _ _ _ _ c hadd
  | mixerEffectRemove => exact hQ.removeEffect _ _ _
  | mixerEffectMove => exact Reply.builds_ite trivial (hQ.moveEffect _ _ _ _)
  | mixerEffectSetBypassed => exact hQ.setEffectBypassed _ _ _ _
  | mixerEffectSetParam => exact builds_map (fun _ => hQ.effectParam _) _
  | setTempo => exact Reply.builds_ite trivial (hQ.editTransport _ _)
  | setMetronome | setLoop => exact hQ.editTransport _ _

end QuietEdits

end OneBeat
