import OneBeat.Model.RecordedStates
import OneBeat.Session.SavableProjects

/-!
# Saved bundles

A session that saves: what is on the disk, which bundle the session is at, and which states that
bundle has.  Beside the calls there is the save itself, at which a plug-in may answer or not.

A save writes the references of the states into the model, and not into the history: an entry that
remembers a whole instrument from before puts the old reference back.

* `SavedSession.saves_keep_iff` : every save of a run that succeeds writes the states of its bundle
  again, exactly when at each the plug-ins answer that have one, or their instruments still refer to
  it.
* `SavedSession.not_kept_undone` : an undo takes the reference away, and a plug-in that is silent at
  the next save loses its state.
-/

namespace OneBeat

open Json LexicalPath

open Bundle (Chunk Disk File)

namespace Bundle

/-- The bytes of a text. -/
def encode (text : List Char) : Chunk := text.flatMap String.utf8EncodeChar

/-- What is left when a folder is removed. -/
def remove (folder : Location) (disk : Disk) : Disk := fun location =>
  if folder <+: location then none else disk location

/-- The folder in the place of a bundle, and nothing in its own. -/
def swap (folder bundle : Location) (disk : Disk) : Disk := fun location =>
  if bundle <+: location then disk (folder ++ location.drop bundle.length)
  else remove folder disk location

/-- What is in the bundle was in the folder. -/
theorem swap_inside (folder bundle path : Location) (disk : Disk) :
    swap folder bundle disk (bundle ++ path) = disk (folder ++ path) := by
  rw [swap, if_pos (List.prefix_append _ _), List.drop_left]

end Bundle

/-- A project that is open, and the bundle it is at. -/
structure SavedSession where
  opened : OpenProject
  disk : Disk
  /-- `project_path`. -/
  projectPath : Option Location := none
  /-- The instruments as the `project.json` of the bundle has them; for the statements only. -/
  recorded : Rack := .empty

/-- A save, with what it is answered. -/
structure SaveArguments where
  parent : Location
  bundle : Component
  processId : ℕ
  createdWith : String
  /-- What `Engine::saveHostedState` returns for each channel. -/
  saveHostedState : ℕ → Option Chunk
  /-- The folder could be renamed in the end. -/
  renamed : Bool := true

namespace SaveArguments

def location (a : SaveArguments) : Location := a.parent ++ [a.bundle]

def folder (a : SaveArguments) : Location :=
  a.parent ++ [Bundle.stagingName a.bundle a.processId]

end SaveArguments

/-- A call, with the path of the file that is opened, or a save. -/
inductive SavedStep
  | call (call : ProjectCall) (path : Location)
  | save (arguments : SaveArguments)

namespace SavedSession

variable (sha256Hex : Chunk → String)

def project (p : SavedSession) : Tables := p.opened.session.project

/-- Nothing where there is no channel or no answer. -/
def options (p : SavedSession) (a : SaveArguments) : Bundle.SaveOptions where
  stateProvider id := ((channelIndexOf p.project.instruments id).bind a.saveHostedState).getD []
  copyStateFrom := p.projectPath

/-- `saveProject`, up to the swap. -/
def staged (p : SavedSession) (a : SaveArguments) : Bundle.Staging :=
  Bundle.saveProject sha256Hex (p.options a) a.folder
    (fun state => Bundle.encode (writeProjectJson p.project p.opened.residue a.createdWith state))
    p.disk p.project

/-- The document of a save. -/
def document (p : SavedSession) (a : SaveArguments) : Value :=
  projectDocument p.project p.opened.residue a.createdWith (p.staged sha256Hex a).stateWritten

/-- The save succeeds. -/
def Saves (p : SavedSession) (a : SaveArguments) : Prop :=
  (p.staged sha256Hex a).failed = false ∧ a.renamed = true

instance (p : SavedSession) (a : SaveArguments) : Decidable (p.Saves sha256Hex a) := by
  unfold Saves
  infer_instance

/-- The session after the references have been folded in. -/
def recordedSession (p : SavedSession) (a : SaveArguments) : Session :=
  (p.opened.session.projectSave ((p.staged sha256Hex a).stateWritten.entries.map fun entry =>
    (entry.1, entry.2.stateRef, entry.2.sha256))).2

/-- A save that is abandoned leaves no folder. -/
def save (p : SavedSession) (a : SaveArguments) : SavedSession :=
  if p.Saves sha256Hex a then
    { opened := { p.opened with session := p.recordedSession sha256Hex a }
      disk := Bundle.swap a.folder a.location (p.staged sha256Hex a).disk
      projectPath := some a.location
      recorded := (p.recordedSession sha256Hex a).project.instruments }
  else { p with disk := Bundle.remove a.folder (p.staged sha256Hex a).disk }

/-- A project that is created is nowhere, and one that is opened is where it was opened. -/
def afterCall (p : SavedSession) (c : ProjectCall) (path : Location) : Option SavedSession :=
  match c.call with
  | .projectSave _ => none
  | .projectNew _ _ => some { opened := p.opened.call c, disk := p.disk }
  | .projectOpen (some project) _ =>
    some { opened := p.opened.call c, disk := p.disk, projectPath := some path
           recorded := project.instruments }
  | _ => some { p with opened := p.opened.call c }

def system : TransitionSystem SavedSession SavedStep where
  step p step :=
    match step with
    | .call c path => p.afterCall c path
    | .save a => some (p.save sha256Hex a)

def create (host : InstrumentId → HostAnswer) (ids : FreshIds) (sampleRate : Double)
    (disk : Disk) : SavedSession where
  opened := OpenProject.create host ids sampleRate
  disk

/-! ### What a bundle has -/

/-- A state file of the bundle. -/
def isState (p : SavedSession) (bundle : Location) (old : Instrument) : Bool :=
  match p.disk (join bundle old.plugin.stateRef.toList) with
  | some (.regular _) => true
  | _ => false

/-- The bundle has a state file for the plug-in of an instrument, which it still has. -/
def Held (p : SavedSession) (bundle : Location) (old instrument : Instrument) : Prop :=
  old.plugin.stateRef ≠ "" ∧ p.isState bundle old = true ∧ instrument.plugin.id = old.plugin.id

instance (p : SavedSession) (bundle : Location) (old instrument : Instrument) :
    Decidable (p.Held bundle old instrument) := by
  unfold Held
  infer_instance

/-- The save writes every state that the bundle has for an instrument. -/
def Keeps (p : SavedSession) (a : SaveArguments) : Prop :=
  ∀ bundle ∈ p.projectPath, ∀ entry ∈ p.recorded.entries,
    ∀ instrument ∈ p.project.instruments.get? entry.1, p.Held bundle entry.2 instrument →
      Bundle.Rewrites (p.options a) a.folder bundle p.disk (p.document sha256Hex a) entry.1
        entry.2.plugin.stateRef (p.staged sha256Hex a)

/-- Every plug-in answers for which the bundle has a state, or its instrument refers to it. -/
def Refers (p : SavedSession) (a : SaveArguments) : Prop :=
  ∀ bundle ∈ p.projectPath, ∀ entry ∈ p.recorded.entries,
    ∀ instrument ∈ p.project.instruments.get? entry.1, p.Held bundle entry.2 instrument →
      Bundle.Refers (p.options a) a.folder bundle p.disk entry.1 instrument
        entry.2.plugin.stateRef

instance (p : SavedSession) (a : SaveArguments) : Decidable (p.Refers a) := by
  unfold Refers
  infer_instance

variable {sha256Hex} {p : SavedSession} {a : SaveArguments}

theorem keeps_iff (h : p.Saves sha256Hex a) : p.Keeps sha256Hex a ↔ p.Refers a := by
  have hiff : ∀ bundle ∈ p.projectPath, ∀ entry : InstrumentId × Instrument,
      ∀ instrument ∈ p.project.instruments.get? entry.1, p.Held bundle entry.2 instrument →
        (Bundle.Rewrites (p.options a) a.folder bundle p.disk (p.document sha256Hex a) entry.1
          entry.2.plugin.stateRef (p.staged sha256Hex a) ↔
            Bundle.Refers (p.options a) a.folder bundle p.disk entry.1 instrument
              entry.2.plugin.stateRef) := by
    rintro bundle hbundle entry instrument hget ⟨hold, hstate, -⟩
    rw [isState] at hstate
    split at hstate
    next content hfile => exact Bundle.rewrites_iff h.1 hget hbundle hold hfile
    next => cases hstate
  constructor
  · intro hkeeps bundle hbundle entry hentry instrument hget hheld
    exact (hiff bundle hbundle entry instrument hget hheld).1
      (hkeeps bundle hbundle entry hentry instrument hget hheld)
  · intro hrefers bundle hbundle entry hentry instrument hget hheld
    exact (hiff bundle hbundle entry instrument hget hheld).2
      (hrefers bundle hbundle entry hentry instrument hget hheld)

/-- **No save of a run drops a state** exactly when at each of them the plug-ins answer that have
one, or their instruments still refer to it. -/
theorem saves_keep_iff (sha256Hex : Chunk → String) (host : InstrumentId → HostAnswer)
    (ids : FreshIds) (sampleRate : Double) (disk : Disk) (steps : List SavedStep) :
    (∀ before a p, before ++ [.save a] <+: steps →
      (system sha256Hex).run (create host ids sampleRate disk) before = some p →
        p.Saves sha256Hex a → p.Keeps sha256Hex a) ↔
      ∀ before a p, before ++ [.save a] <+: steps →
        (system sha256Hex).run (create host ids sampleRate disk) before = some p →
          p.Saves sha256Hex a → p.Refers a := by
  constructor
  · intro hkeeps before a p hpre hrun hsaves
    exact (keeps_iff hsaves).1 (hkeeps before a p hpre hrun hsaves)
  · intro hrefers before a p hpre hrun hsaves
    exact (keeps_iff hsaves).2 (hrefers before a p hpre hrun hsaves)

/-! ### When a save succeeds -/

/-- The save before the document. -/
def stagedInstruments (sha256Hex : Chunk → String) (p : SavedSession) (a : SaveArguments) :
    Bundle.Staging :=
  Bundle.stageInstruments sha256Hex (p.options a) a.folder (Bundle.begin p.disk a.folder)
    p.project.instruments.entries

theorem encode_ne_nil {text : List Char} (h : text ≠ []) : Bundle.encode text ≠ [] := by
  cases text with
  | nil => exact absurd rfl h
  | cons c text =>
    rw [Bundle.encode, List.flatMap_cons]
    exact fun hnil => String.utf8EncodeChar_ne_nil (List.append_eq_nil_iff.1 hnil).1

/-- Every number is finite, the states could be written, and so can the document. -/
theorem saves_of (hsound : p.opened.Sound) (hrenamed : a.renamed = true)
    (hstaged : (p.stagedInstruments sha256Hex a).failed = false)
    (hfolder : (p.stagedInstruments sha256Hex a).disk a.folder = some .directory)
    (hdocument : (p.stagedInstruments sha256Hex a).disk (a.folder ++ ["project.json".toList]) ≠
      some .directory) : p.Saves sha256Hex a := by
  refine ⟨?_, hrenamed⟩
  have htext : Bundle.encode (writeProjectJson p.project p.opened.residue a.createdWith
      (p.stagedInstruments sha256Hex a).stateWritten) ≠ [] := encode_ne_nil ((Residue.writeProjectJson_ne_nil_iff hsound.residue a.createdWith
    (p.stagedInstruments sha256Hex a).stateWritten).2 hsound.upholds.project)
  have hparent : (a.folder ++ ["project.json".toList]).dropLast = a.folder :=
    List.dropLast_concat
  have hwrites : (Bundle.stageDocument a.folder (fun state => Bundle.encode (writeProjectJson
      p.project p.opened.residue a.createdWith state)) (p.stagedInstruments sha256Hex a)).failed =
        false := by
    rw [Bundle.stageDocument, if_neg (by rw [hstaged]; decide)]
    dsimp only
    rw [if_neg htext, Bundle.Staging.writeFile, hparent, if_pos ⟨hfolder, hdocument⟩]
    exact hstaged
  exact hwrites

theorem stateWritten_staged (h : p.Saves sha256Hex a) :
    (p.staged sha256Hex a).stateWritten = (p.stagedInstruments sha256Hex a).stateWritten :=
  (Bundle.stageDocument_placed h.1).2.stateWritten

/-- A save that succeeds leaves its bundle where it was asked to. -/
theorem save_of_saves (h : p.Saves sha256Hex a) : p.save sha256Hex a =
    { opened := p.opened.call ⟨.projectSave ((p.stagedInstruments sha256Hex a).stateWritten.entries.map
        fun entry => (entry.1, entry.2.stateRef, entry.2.sha256)), {}⟩
      disk := Bundle.swap a.folder a.location (p.staged sha256Hex a).disk
      projectPath := some a.location
      recorded := (p.recordedSession sha256Hex a).project.instruments } := by
  rw [save, if_pos h]
  simp only [recordedSession, stateWritten_staged h]
  rfl

/-- A state that was answered is in the bundle. -/
theorem swap_staged (h : p.Saves sha256Hex a) {id : InstrumentId} {instrument : Instrument}
    (hget : p.project.instruments.get? id = some instrument)
    (hchunk : (p.options a).stateProvider id ≠ []) :
    ∃ content, Bundle.swap a.folder a.location (p.staged sha256Hex a).disk
      (join a.location (Bundle.stateRefOf id).toList) = some (.regular content) := by
  obtain ⟨hkept, -⟩ := Bundle.kept_saveProject h.1 hget hchunk
  obtain ⟨content, hthere⟩ := hkept.there
  rw [Bundle.sidecarOf, Bundle.join_stateRefOf] at hthere
  rw [Bundle.join_stateRefOf, Bundle.swap_inside]
  exact ⟨content, hthere⟩

/-! ### A state that is lost -/

/-- A disk with a folder on it. -/
def homeDisk (location : Location) : Option File :=
  if location = [] ∨ location = ["home".toList] then some .directory else none

/-- A synth that is muted. -/
def mutedSynth : List SavedStep :=
  [.call ⟨.instanceAdd ⟨5⟩ ⟨6⟩ { id := "synth", name := "Synth", pathHint := "synth.clap" }
      Session.loadsAll Session.loadsAll, {}⟩ [],
    .call ⟨.edit (.instrumentSetMuted ⟨5⟩ true) Session.loadsAll, {}⟩ []]

/-- A save at which the synth answers, or is silent. -/
def saveSong (answer : Option Chunk) : SaveArguments where
  parent := ["home".toList]
  bundle := "song".toList
  processId := 7
  createdWith := "OneBeat"
  saveHostedState channel := if channel = 0 then answer else none

/-- The session with the synth muted, and nothing saved. -/
def muted : OpenProject :=
  ((OpenProject.create Session.noPlugins Session.smallIds (.finite 48000)).call
    ⟨.instanceAdd ⟨5⟩ ⟨6⟩ { id := "synth", name := "Synth", pathHint := "synth.clap" }
      Session.loadsAll Session.loadsAll, {}⟩).call
    ⟨.edit (.instrumentSetMuted ⟨5⟩ true) Session.loadsAll, {}⟩

theorem sound_muted : muted.Sound := by
  refine OpenProject.Sound.call (OpenProject.Sound.call (OpenProject.sound_create _ _ _) ?_) ?_
  · trivial
  · trivial

theorem saves_muted :
    Saves (fun _ => "") ⟨muted, homeDisk, none, .empty⟩ (saveSong (some [7])) :=
  saves_of sound_muted rfl (by decide +kernel) (by decide +kernel) (by decide +kernel)

/-- The synth answered at a save, and the mute was taken back. -/
def unmuted : OpenProject :=
  (muted.call ⟨.projectSave [(⟨5⟩, Bundle.stateRefOf ⟨5⟩, "")], {}⟩).call
    ⟨.projectUndo Session.loadsAll, {}⟩

theorem sound_unmuted : unmuted.Sound := by
  refine OpenProject.Sound.call (OpenProject.Sound.call sound_muted ?_) ?_
  · trivial
  · trivial

/-- The bundle after that. -/
def savedSong : SavedSession :=
  save (fun _ => "") ⟨muted, homeDisk, none, .empty⟩ (saveSong (some [7]))

theorem savedSong_eq : ∃ disk recorded,
    savedSong = ⟨muted.call ⟨.projectSave [(⟨5⟩, Bundle.stateRefOf ⟨5⟩, "")], {}⟩, disk,
      some (saveSong none).location, recorded⟩ ∧
      (recorded.get? ⟨5⟩).map (fun old => (old.plugin.stateRef, old.plugin.id)) =
        some (Bundle.stateRefOf ⟨5⟩, "synth") ∧
      ∃ content, disk (join (saveSong none).location (Bundle.stateRefOf ⟨5⟩).toList) =
        some (.regular content) := by
  have hwritten : ((stagedInstruments (fun _ => "") ⟨muted, homeDisk, none, .empty⟩
      (saveSong (some [7]))).stateWritten.entries.map fun entry =>
        (entry.1, entry.2.stateRef, entry.2.sha256)) = [(⟨5⟩, Bundle.stateRefOf ⟨5⟩, "")] := by
    decide +kernel
  have hrecorded : recordedSession (fun _ => "") ⟨muted, homeDisk, none, .empty⟩
      (saveSong (some [7])) =
        (muted.call ⟨.projectSave [(⟨5⟩, Bundle.stateRefOf ⟨5⟩, "")], {}⟩).session := by
    rw [recordedSession, stateWritten_staged saves_muted, hwritten]
    rfl
  refine ⟨_, _, (save_of_saves saves_muted).trans (by rw [hwritten, hrecorded]; rfl), ?_, ?_⟩
  · decide +kernel
  · obtain ⟨instrument, hget⟩ := Option.isSome_iff_exists.1 (show
      (muted.session.project.instruments.get? ⟨5⟩).isSome = true by decide +kernel)
    exact swap_staged saves_muted hget (by decide +kernel)

/-- The synth answers at the first save; the mute is taken back, and the synth is silent. -/
theorem not_kept_undone : ∃ p,
    (system fun _ => "").run
        (create Session.noPlugins Session.smallIds (.finite 48000) homeDisk)
        (mutedSynth ++ [.save (saveSong (some [7])),
          .call ⟨.projectUndo Session.loadsAll, {}⟩ []]) = some p ∧
      p.Saves (fun _ => "") (saveSong none) ∧ ¬ p.Keeps (fun _ => "") (saveSong none) := by
  obtain ⟨disk, recorded, hsaved, hold, content, hfile⟩ := savedSong_eq
  obtain ⟨old, hget, hplugin⟩ := Option.map_eq_some_iff.1 hold
  rw [Prod.mk.injEq] at hplugin
  have hsilent : ∀ entry ∈ unmuted.session.project.instruments.entries,
      ((channelIndexOf unmuted.session.project.instruments entry.1).bind
        (saveSong none).saveHostedState).getD [] = [] ∧ entry.2.plugin.stateRef = "" := by
    decide +kernel
  have hstaged : stagedInstruments (fun _ => "")
      ⟨unmuted, disk, some (saveSong none).location, recorded⟩ (saveSong none) =
        Bundle.begin disk (saveSong none).folder := Bundle.stageInstruments_of_silent hsilent
  have hsaves : Saves (fun _ => "") ⟨unmuted, disk, some (saveSong none).location, recorded⟩
      (saveSong none) := by
    refine saves_of sound_unmuted rfl (by rw [hstaged]; rfl) ?_ ?_
    · rw [hstaged, Bundle.begin_folder]
    · rw [hstaged, Bundle.begin_inside]
      exact nofun
  refine ⟨⟨unmuted, disk, some (saveSong none).location, recorded⟩, ?_, hsaves, ?_⟩
  · have hrun : (system fun _ => "").run
        (create Session.noPlugins Session.smallIds (.finite 48000) homeDisk)
        (mutedSynth ++ [.save (saveSong (some [7])),
          .call ⟨.projectUndo Session.loadsAll, {}⟩ []]) =
        some { savedSong with
          opened := savedSong.opened.call ⟨.projectUndo Session.loadsAll, {}⟩ } := rfl
    rw [hrun, hsaved]
    rfl
  · rw [keeps_iff hsaves]
    intro hrefers
    have hnow : (unmuted.session.project.instruments.get? ⟨5⟩).map (fun instrument =>
        (instrument.plugin.stateRef, instrument.plugin.id)) = some ("", "synth") := by
      decide +kernel
    obtain ⟨instrument, hinstrument, hfacts⟩ := Option.map_eq_some_iff.1 hnow
    rw [Prod.mk.injEq] at hfacts
    have hheld : Held ⟨unmuted, disk, some (saveSong none).location, recorded⟩
        (saveSong none).location old instrument := by
      refine ⟨?_, ?_, hfacts.2.trans hplugin.2.symm⟩
      · rw [hplugin.1]
        exact Bundle.stateRefOf_ne_empty ⟨5⟩
      · rw [isState, hplugin.1]
        simp only [hfile]
    rcases hrefers _ rfl (⟨5⟩, old) (OrderedMap.get?_eq_some_iff.1 hget) instrument hinstrument
      hheld with hanswers | ⟨href, -⟩
    · have hmem : (⟨5⟩, instrument) ∈ unmuted.session.project.instruments.entries :=
        OrderedMap.get?_eq_some_iff.1 hinstrument
      exact hanswers (hsilent _ hmem).1
    · rw [hfacts.1, hplugin.1] at href
      exact Bundle.stateRefOf_ne_empty ⟨5⟩ href.symm

end SavedSession

end OneBeat
