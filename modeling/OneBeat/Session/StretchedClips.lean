import OneBeat.Commands.SourceWindow
import OneBeat.Session.Published
import OneBeat.Session.QuietEdits
import OneBeat.Session.WrittenValues

/-!
# The windows of stretched clips

A clip that is stretched plays its window in the time it has on the timeline, so the window has to
have a length.  The standard `pinned` asks for that, and `AudioClipCall.Pins` says which calls meet
it: the history then never brings a clip back whose window has none.

**Main theorem** (`covered_of_run`): when all calls since the project was new do, a stretched clip
has a pinned window, and `resolveClipPlayback` plays exactly that window over the clip.
-/

namespace OneBeat

/-- A stretched clip has a window of some length. -/
def Clip.Pinned (clip : Clip) : Prop :=
  ∀ audio, clip.source = .audio audio → audio.stretchMode ≠ .off → 0 < audio.sourceLength

namespace StretchedClips

def pinned : Standard where
  instrument _ _ := True
  pattern _ := True
  patternMeta _ := True
  clip := Clip.Pinned
  track _ := True
  parameter _ := True
  transport _ := True
  routeTo _ _ := trivial
  withSequences _ _ := trivial
  withMeta _ _ := trivial
  withLength _ h := h
  withDestination {_ source} _ h hsource := by
    rintro _ ⟨⟩ hmode
    exact h source hsource hmode
  outputTo _ _ := trivial
  writeParam _ _ _ _ _ := trivial

/-- The calls on audio clips, the tempo and the history. -/
inductive AudioClipCall
  | add (id : ClipId) (lane : ArrangementLaneId) (path : String) (start length : ℤ)
  | setWindow (id : ClipId) (sourceOffset sourceLength : ℤ)
  | setStretchMode (id : ClipId) (mode : StretchMode) (duration : ℤ)
  | setSourceBpm (id : ClipId) (bpm : Double)
  | resize (id : ClipId) (length : ℤ)
  | fitToTempo (id : ClipId) (duration : ℤ)
  | split (right id : ClipId) (position : ℤ)
  | duplicate (copy id : ClipId) (lane : Option ArrangementLaneId) (start : ℤ)
  | setTempo (tempo : Double)
  | undo
  | redo

/-- The same call, as a session has it. -/
def AudioClipCall.toCall (host : InstrumentId → HostAnswer) : AudioClipCall → Call
  | add id lane path start length => .edit (.audioClipAdd id lane path start length) host
  | setWindow id offset length => .edit (.audioClipSetWindow id offset length) host
  | setStretchMode id mode duration => .edit (.audioClipSetStretchMode id mode duration) host
  | setSourceBpm id bpm => .edit (.audioClipSetSourceBpm id bpm) host
  | resize id length => .edit (.audioClipResize id length) host
  | fitToTempo id duration => .edit (.audioClipFitToTempo id duration) host
  | split right id position => .edit (.clipSplit right id position) host
  | duplicate copy id lane start => .clipDuplicate copy id lane start host
  | setTempo tempo => .edit (.setTempo tempo) host
  | undo => .projectUndo host
  | redo => .projectRedo host

/-- The calls, each with the answers that hosting gets. -/
def system : TransitionSystem Session ((InstrumentId → HostAnswer) × AudioClipCall) where
  step s label := some (s.call (label.2.toCall label.1)).2

/-- An audio clip of the project, with what it plays. -/
def audioClipOf (s : Session) (id : ClipId) : Option (Clip × AudioSource) :=
  (s.project.clips.get? id).bind fun clip => clip.audio.map (clip, ·)

/-- The call leaves the clip it is about a window, if it is then stretched: no window is set to
the end of the file, none that is read to the end is pinned to nothing, and no cut is past the end
of the window. -/
def AudioClipCall.Pins (s : Session) : AudioClipCall → Prop
  | setWindow id _ sourceLength =>
    ∀ entry ∈ audioClipOf s id, entry.2.stretchMode ≠ .off → 0 < sourceLength
  | setStretchMode id mode duration => ∀ entry ∈ audioClipOf s id, mode ≠ .off →
      0 < audioSourceSpan entry.2 entry.1.length duration
  | split _ id position => ∀ entry ∈ audioClipOf s id, entry.2.stretchMode ≠ .off →
      ((Double.ofInt (position - entry.1.start)).mul
        (audioStretchRatio entry.2 entry.1.length)).truncate < entry.2.sourceLength
  | _ => True

/-- A stretched clip has a window, and plays it in the time that it has. -/
def Covered (s : Session) : Prop :=
  ∀ id clip audio, s.project.clips.get? id = some clip → clip.source = .audio audio →
    audio.stretchMode ≠ .off → 0 < audio.sourceLength ∧
      ∀ sampleRate tempo, 0 < clip.length →
        (SourceWindow.resolveClipPlayback sampleRate tempo clip audio).rate * clip.length =
          audio.sourceLength

/-! ### Commands -/

variable {project : Tables} {s : Session}

def Brings (command : Option Command) : Prop := ∀ c, command = some c → c.Brings pinned

theorem brings_editClip (h : project.Upholds pinned) (id : ClipId) (field : ChangeField)
    {mutator : Clip → Clip} (hmutator : ∀ clip, project.clips.get? id = some clip →
      clip.Pinned → (mutator clip).Pinned) : Brings (editClip project id field mutator) := by
  intro c hc
  obtain ⟨clip, hget, rfl⟩ := Option.map_eq_some_iff.1 hc
  rw [Command.Brings]
  exact ⟨h.clip id clip hget, hmutator clip hget (h.clip id clip hget)⟩

/-- An edit of what an audio clip plays. -/
theorem brings_editAudio (h : project.Upholds pinned) (id : ClipId)
    {mutator : AudioSource → AudioSource}
    (hmutator : ∀ clip audio, project.clips.get? id = some clip → clip.source = .audio audio →
      (audio.stretchMode ≠ .off → 0 < audio.sourceLength) →
        (mutator audio).stretchMode ≠ .off → 0 < (mutator audio).sourceLength) :
    Brings (editAudio project id mutator) := by
  unfold editAudio
  split
  · exact nofun
  split_ifs
  · exact nofun
  · refine brings_editClip h _ _ fun clip hget hpinned => ?_
    split
    next audio hsource =>
      rintro _ ⟨⟩ hmode
      exact hmutator clip audio hget hsource (hpinned audio hsource) hmode
    next => exact hpinned

theorem brings_resizeAudioClip (h : project.Upholds pinned) (id : ClipId) (length : ℤ) :
    Brings (resizeAudioClip project id length) := by
  unfold resizeAudioClip
  split_ifs with hlength
  · exact nofun
  split
  · exact nofun
  split
  · exact brings_editClip h _ _ fun _ _ hpinned => hpinned
  · refine brings_editClip h _ _ fun clip _ hpinned => ?_
    split_ifs
    · exact hpinned
    split
    next audio hsource =>
      rintro _ ⟨⟩ -
      exact not_le.1 hlength
    next => exact hpinned

/-- A length at a tempo takes a window. -/
theorem span_pos_of_length {audio : AudioSource} {length duration : ℤ} {bpm : Double}
    (h : ¬ audioLengthAtTempo audio length bpm duration ≤ 0) :
    0 < audioSourceSpan audio length duration := by
  by_contra hspan
  refine h ?_
  unfold audioLengthAtTempo
  split_ifs
  · exact le_rfl
  · exact (if_pos (not_lt.1 hspan)).le

theorem brings_fitAudioClipToTempo (h : project.Upholds pinned) (id : ClipId) (bpm : Double)
    (duration : ℤ) : Brings (fitAudioClipToTempo project id bpm duration) := by
  unfold fitAudioClipToTempo
  split
  · exact nofun
  next clip hget =>
    split
    · exact nofun
    next audio haudio =>
      dsimp only
      split_ifs with hlength
      · exact nofun
      refine brings_editClip h _ _ fun live hlive hpinned => ?_
      obtain rfl := Option.some.inj (hget.symm.trans hlive)
      split
      next source hsource =>
        rintro _ ⟨⟩ -
        have hsame : audio = source := by
          rw [Clip.audio, hsource] at haudio
          exact (Option.some.inj haudio).symm
        subst hsame
        dsimp only
        split_ifs with hpos
        · exact span_pos_of_length hlength
        · exact not_le.1 hpos
      next => exact hpinned

theorem pinned_shortenTo {clip : Clip} (h : clip.Pinned) (leftLength : ℤ) :
    (shortenTo leftLength clip).Pinned := by
  unfold shortenTo
  split
  next audio hsource =>
    rintro _ ⟨⟩ hmode
    dsimp only
    split_ifs with hconsumed
    · exact hconsumed
    · exact h audio hsource hmode
  next => exact h

theorem mem_audioClipOf {id : ClipId} {clip : Clip} {audio : AudioSource}
    (hget : s.project.clips.get? id = some clip) (hsource : clip.source = .audio audio) :
    (clip, audio) ∈ audioClipOf s id := by
  simp [audioClipOf, hget, Clip.audio, hsource]

theorem brings_splitClip (h : s.project.Upholds pinned) {right id : ClipId} {position : ℤ}
    (hpins : (AudioClipCall.split right id position).Pins s) :
    Brings (splitClip s.project right id position) := by
  unfold splitClip
  split
  · exact nofun
  next clip hget =>
    split_ifs
    · exact nofun
    intro c hc
    obtain ⟨shorten, hshorten, rfl⟩ := Option.map_eq_some_iff.1 hc
    rw [Command.Brings, Command.BringsAll, Command.BringsAll, Command.BringsAll, Command.Brings]
    refine ⟨brings_editClip h _ _ (fun _ _ hvalue => pinned_shortenTo hvalue _) shorten hshorten,
      ?_, trivial⟩
    intro audio haudio hmode
    unfold splitSource at haudio
    split at haudio
    next source hsource =>
      cases haudio
      have hwindow := h.clip id clip hget source hsource hmode
      have hcut := hpins _ (mem_audioClipOf hget hsource) hmode
      dsimp only at hcut ⊢
      rw [if_pos hwindow, if_pos hcut]
      omega
    next => cases haudio
    next => cases haudio

theorem brings_setStretchMode (h : s.project.Upholds pinned) {id : ClipId} {mode : StretchMode}
    {duration : ℤ} (hpins : (AudioClipCall.setStretchMode id mode duration).Pins s) :
    ∀ command, s.audioClipSetStretchMode id mode duration = .model command → Brings command := by
  unfold Session.audioClipSetStretchMode
  split
  · exact nofun
  next clip hget =>
    split
    · exact nofun
    next audio haudio =>
      split_ifs with hmode
      all_goals rintro _ ⟨⟩
      · refine brings_editAudio h _ fun live source hlive hsource _ hstretched => ?_
        obtain rfl := Option.some.inj (hget.symm.trans hlive)
        rw [Clip.audio, hsource] at haudio
        obtain rfl := Option.some.inj haudio
        exact hmode.resolve_left hstretched
      · refine brings_editClip h _ _ fun live hlive hpinned => ?_
        obtain rfl := Option.some.inj (hget.symm.trans hlive)
        split
        next source hsource =>
          rintro _ ⟨⟩ hstretched
          rw [Clip.audio, hsource] at haudio
          obtain rfl := Option.some.inj haudio
          exact hpins _ (mem_audioClipOf hget hsource) hstretched
        next => exact hpinned

/-! ### Calls -/

variable {host : InstrumentId → HostAnswer}

/-- A publish resizes clips and names instruments. -/
theorem upholds_publishModel (h : s.bus.Upholds pinned) (replaced : Bool) :
    (s.publishModel host replaced).bus.Upholds pinned := by
  have hfits : s.fitClipsToPatterns.bus.Upholds pinned :=
    h.withProject (h.project.setLengths _)
  have hflush : s.fitClipsToPatterns.flush.bus.Upholds pinned := by
    obtain ⟨_, _, _, _, _, hflush⟩ := s.fitClipsToPatterns.flush_eq
    rw [hflush]
    exact hfits
  exact hflush.withProject (hflush.project.foldl fun entry _ _ _ hproject hupdate =>
    hproject.updateInstrument (f := Instrument.named entry.2) (fun _ hvalue => hvalue) hupdate)

theorem arrangingRule_upholds : Session.ArrangingRule (fun s => s.bus.Upholds pinned)
    (fun project command => project.Upholds pinned → Brings command) (fun _ => True)
    (fun played => ∀ audio, played = .audio audio → audio.stretchMode ≠ .off →
      0 < audio.sourceLength) fun _ => True where
  alike h hbus _ _ _ := hbus ▸ h
  publishModel _ h := upholds_publishModel h false
  execute h hcommand := h.execute (hcommand h.project)
  selectPattern _ h := h
  beginTransaction h := h.beginTransaction
  commitTransaction h := h.commitTransaction
  abortTransaction h := h.abortTransaction
  sealHistory h := h.sealHistory
  swingOf _ _ := trivial
  clipOf h hget := ⟨h.project.clip _ _ hget, trivial⟩
  plays _ := nofun
  addPattern _ _ _ _ _ := builds_some trivial
  removePattern _ _ _ := builds_some trivial
  editPatternMeta _ _ _ _ _ _ := builds_map (fun _ => ⟨trivial, trivial⟩) _
  note _ _ _ := builds_some trivial
  addLane _ _ _ _ := builds_some trivial
  editLane _ _ _ _ _ := builds_map (fun _ => ⟨trivial, trivial⟩) _
  addClip _ _ _ _ _ _ hplays _ := builds_some hplays
  editClip _ _ _ _ hmutator hproject := brings_editClip hproject _ _ fun clip _ hpinned =>
    (hmutator clip hpinned trivial).1
  removeClip _ _ _ := builds_some trivial
  setProjectMeta _ _ _ := builds_some trivial

theorem upholds_edit (h : s.bus.Upholds pinned) {edit : Edit}
    (hedit : ∀ command, s.reply edit = .model command → Brings command) :
    (s.edit host edit).2.bus.Upholds pinned := by
  unfold Session.edit
  split
  · exact h
  · exact h
  next command hcommand => exact arrangingRule_upholds.executeModel h host fun _ => hedit command hcommand

/-- What a reply is built from, if it is not refused. -/
theorem brings_of_ite {c : Prop} [Decidable c] {command : Option Command} (h : Brings command) :
    ∀ built, (if c then Reply.refused else .model command) = .model built → Brings built := by
  intro built hbuilt
  split_ifs at hbuilt
  cases hbuilt
  exact h

theorem upholds_call (h : s.bus.Upholds pinned) {call : AudioClipCall} (hpins : call.Pins s) :
    (s.call (call.toCall host)).2.bus.Upholds pinned := by
  cases call with
  | add id lane path start length =>
    refine upholds_edit h (brings_of_ite ?_)
    rintro c ⟨⟩
    rw [addClip, Command.Brings]
    rintro _ ⟨⟩ hmode
    exact absurd rfl hmode
  | setWindow id offset length =>
    refine upholds_edit h (brings_of_ite ?_)
    unfold setAudioClipWindow
    split_ifs
    · exact fun _ hnone => by cases hnone
    · exact brings_editAudio h.project _ fun clip audio hget hsource _ hmode =>
        hpins _ (mem_audioClipOf hget hsource) hmode
  | setStretchMode id mode duration => exact upholds_edit h (brings_setStretchMode h.project hpins)
  | setSourceBpm id bpm =>
    refine upholds_edit h (brings_of_ite ?_)
    unfold setAudioClipSourceBpm
    split_ifs
    · exact fun _ hnone => by cases hnone
    · exact brings_editAudio h.project _ fun _ _ _ _ hpinned => hpinned
  | resize id length =>
    exact upholds_edit h (brings_of_ite (brings_resizeAudioClip h.project id length))
  | fitToTempo id duration =>
    refine upholds_edit h ?_
    rintro _ ⟨⟩
    exact brings_fitAudioClipToTempo h.project _ _ _
  | split right id position =>
    refine upholds_edit h ?_
    rintro _ ⟨⟩
    exact brings_splitClip h.project hpins
  | duplicate copy id lane start => exact arrangingRule_upholds.clipDuplicate h copy id lane start
  | setTempo tempo =>
    refine upholds_edit h fun command hcommand => ?_
    rw [Session.reply] at hcommand
    split_ifs at hcommand
    unfold Session.editTransport at hcommand
    split_ifs at hcommand
    cases hcommand
    rintro c ⟨⟩
    rw [setTransport, Command.Brings]
    exact ⟨trivial, trivial⟩
  | undo =>
    exact Session.of_ite (P := fun s => s.bus.Upholds pinned) h.undo
      (upholds_publishModel (arrangingRule_upholds.repairSelection (s := s.undo.2) h.undo) false)
  | redo =>
    exact Session.of_ite (P := fun s => s.bus.Upholds pinned) h.redo
      (upholds_publishModel (arrangingRule_upholds.repairSelection (s := s.redo.2) h.redo) false)

theorem upholds_projectNew (s : Session) (host : InstrumentId → HostAnswer) (ids : FreshIds) :
    (s.projectNew host ids).2.bus.Upholds pinned := by
  refine upholds_publishModel (CommandBus.upholds_start ⟨fun _ _ _ => trivial,
    fun _ _ _ => trivial, OrderedMap.forall_assign (fun _ _ hget => ?_) nofun, fun _ _ _ => trivial,
    trivial⟩) true
  cases hget

theorem covered_of_upholds (h : s.bus.Upholds pinned) : Covered s := by
  intro id clip audio hget hsource hmode
  have hwindow := h.project.clip id clip hget audio hsource hmode
  refine ⟨hwindow, fun sampleRate tempo hlength => ?_⟩
  have hspan : audioSourceSpan audio clip.length = audio.sourceLength := if_pos hwindow
  simp only [SourceWindow.resolveClipPlayback, SourceWindow.audioStretchRatio, if_neg hmode, hspan]
  rw [if_neg (by omega)]
  exact div_mul_cancel₀ _ (Int.cast_ne_zero.2 hlength.ne')

/-- **A stretched clip always has a pinned window, and plays it over its length**, as long as no
call since the project was new takes its window away. -/
theorem covered_of_run {s₀ : Session} {host : InstrumentId → HostAnswer} {ids : FreshIds}
    {calls : List ((InstrumentId → HostAnswer) × AudioClipCall)}
    (hpins : ∀ before call s, before ++ [call] <+: calls →
      system.run (s₀.projectNew host ids).2 before = some s → call.2.Pins s) :
    ∀ before s, before <+: calls → system.run (s₀.projectNew host ids).2 before = some s →
      Covered s := by
  intro before s hpre hrun
  have hupholds : before <+: calls → s.bus.Upholds pinned := by
    refine TransitionSystem.invariant (I := fun done s => done <+: calls → s.bus.Upholds pinned)
      (fun _ => upholds_projectNew s₀ host ids) ?_ hrun
    intro done s call s' hdone hs hstep hpre'
    obtain rfl := Option.some_inj.1 hstep
    exact upholds_call (hs ((List.prefix_append _ _).trans hpre')) (hpins done call s hpre' hdone)
  exact covered_of_upholds (hupholds hpre)

instance (s : Session) : (call : AudioClipCall) → Decidable (call.Pins s)
  | .setWindow id _ sourceLength => inferInstanceAs (Decidable
      (∀ entry ∈ audioClipOf s id, entry.2.stretchMode ≠ .off → 0 < sourceLength))
  | .setStretchMode id mode duration => inferInstanceAs (Decidable (∀ entry ∈ audioClipOf s id,
      mode ≠ .off → 0 < audioSourceSpan entry.2 entry.1.length duration))
  | .split _ id position => inferInstanceAs (Decidable (∀ entry ∈ audioClipOf s id,
      entry.2.stretchMode ≠ .off → ((Double.ofInt (position - entry.1.start)).mul
        (audioStretchRatio entry.2 entry.1.length)).truncate < entry.2.sourceLength))
  | .add _ _ _ _ _ | .setSourceBpm _ _ | .resize _ _ | .fitToTempo _ _ | .duplicate _ _ _ _
  | .setTempo _ | .undo | .redo => .isTrue trivial

/-- A new project in a new engine. -/
def openedSession : Session :=
  ((Session.create Session.noPlugins Session.smallIds (.finite 48000)).projectNew Session.noPlugins
    Session.smallIds).2

/-- A clip that is stretched. -/
def stretchedClip : List ((InstrumentId → HostAnswer) × AudioClipCall) :=
  [(Session.noPlugins, .add ⟨4⟩ ⟨100⟩ "kick.wav" 0 960),
    (Session.noPlugins, .setStretchMode ⟨4⟩ .stretch 0)]

theorem covered_stretchedClip :
    ∃ s, system.run openedSession stretchedClip = some s ∧ Covered s := by
  obtain ⟨s, hrun⟩ := Option.isSome_iff_exists.1
    (show (system.run openedSession stretchedClip).isSome = true by decide +kernel)
  exact ⟨s, hrun, covered_of_run (TransitionSystem.forall_steps_of_stepsMeet (by decide +kernel))
    stretchedClip s List.prefix_rfl hrun⟩

/-- Its window is then set to the end of the file. -/
theorem not_covered_window : ∃ s, system.run openedSession
    (stretchedClip ++ [(Session.noPlugins, .setWindow ⟨4⟩ 0 0)]) = some s ∧ ¬ Covered s := by
  obtain ⟨s, hrun⟩ := Option.isSome_iff_exists.1 (show (system.run openedSession
    (stretchedClip ++ [(Session.noPlugins, .setWindow ⟨4⟩ 0 0)])).isSome = true by decide +kernel)
  have hwindow : ((system.run openedSession
      (stretchedClip ++ [(Session.noPlugins, .setWindow ⟨4⟩ 0 0)])).bind fun s =>
        audioClipOf s ⟨4⟩).map (fun entry => (entry.2.stretchMode, entry.2.sourceLength)) =
      some (.stretch, 0) := by
    decide +kernel
  rw [hrun, Option.bind_some] at hwindow
  obtain ⟨⟨clip, audio⟩, hentry, hvalues⟩ := Option.map_eq_some_iff.1 hwindow
  obtain ⟨_, hget, haudio⟩ := Option.bind_eq_some_iff.1 hentry
  obtain ⟨_, hsource, ⟨⟩⟩ := Option.map_eq_some_iff.1 haudio
  obtain ⟨hmode, hlength⟩ : audio.stretchMode = .stretch ∧ audio.sourceLength = 0 :=
    Prod.mk.inj hvalues
  have hplays : clip.source = .audio audio := by
    unfold Clip.audio at hsource
    split at hsource
    · cases hsource
      assumption
    · cases hsource
  refine ⟨s, hrun, fun h => ?_⟩
  have hpos := (h _ clip audio hget hplays (by rw [hmode]; decide)).1
  omega

end StretchedClips

end OneBeat
