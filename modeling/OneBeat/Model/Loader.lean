import OneBeat.Model.Project

/-!
# Loading a project

The loader of `model/project_io.cpp`, as far as it repairs the mixer and takes integers from a file.
What an object keeps of its members when some have been taken is not modelled.

The loader reads every entity first and resolves references in one pass at the end, because a file
is a map and a track may be written before its output.
-/

namespace OneBeat

inductive LoadIssue.Severity
  | info | warning | error
  deriving DecidableEq

structure LoadIssue where
  severity : LoadIssue.Severity
  message : String
  deriving DecidableEq

/-- What has been read, and what was said about it. -/
structure Loader where
  mixerTracks : OrderedMap MixerTrackId MixerTrack := .empty
  master : MixerTrackId := .none
  /-- Outputs as the file spells them. -/
  pendingTrackOutput : OrderedMap MixerTrackId String := .empty
  report : List LoadIssue := []

/-- A mixer track of a file: its fields, and the text of its `output_id`, empty when there is none. -/
structure TrackRecord where
  id : MixerTrackId
  track : MixerTrack
  outputId : String

namespace Loader

variable (loader : Loader)

def error (message : String) : Loader :=
  { loader with report := loader.report ++ [⟨.error, message⟩] }

def warn (message : String) : Loader :=
  { loader with report := loader.report ++ [⟨.warning, message⟩] }

/-! ### Mixer tracks -/

/-- A track has no output while the file is read. -/
def readMixerTrack (record : TrackRecord) : Loader :=
  { loader with
    pendingTrackOutput :=
      if record.outputId = "" then loader.pendingTrackOutput
      else loader.pendingTrackOutput.emplace record.id record.outputId
    mixerTracks := loader.mixerTracks.emplace record.id { record.track with output := none } }

def readMixerTracks (records : List TrackRecord) : Loader :=
  records.foldl readMixerTrack loader

def trackName (id : MixerTrackId) : String :=
  ((loader.mixerTracks.get? id).map MixerTrack.name).getD ""

/-- `track.output = output`. -/
def setOutput (id output : MixerTrackId) : Loader :=
  { loader with mixerTracks := loader.mixerTracks.modify id (MixerTrack.outputTo output) }

/-- Exactly one track has no output: the first that the file gives none, or a new one. -/
def chooseMaster (minted : MixerTrackId) : Loader :=
  match loader.mixerTracks.keys.filter fun id => !loader.pendingTrackOutput.contains id with
  | [] =>
    { loader with
      master := minted
      mixerTracks := loader.mixerTracks.emplace minted { name := "Master" } }.warn
        "Project had no master track; one was created."
  | master :: roots =>
    roots.foldl (fun loader id =>
      (loader.setOutput id master).warn
        ("Mixer track '" ++ loader.trackName id ++ "' had no output; routed to the master."))
      { loader with master }

/-- A named reference: a text that names nothing is reported. -/
def reference (K : EntityKind) (text owner field : String) : Loader × Option (TypedId K) :=
  if text = "" then (loader, none)
  else
    match TypedId.parse K text with
    | none =>
      (loader.error (owner ++ " has an unusable " ++ field ++ " ('" ++ text ++ "') — dropped."), none)
    | some id => (loader, some id)

/-- The output of one track, if it is written and there. -/
def resolveOutput (id : MixerTrackId) : Loader :=
  match loader.pendingTrackOutput.get? id with
  | none => loader
  | some text =>
    let found := loader.reference .mixerTrack text
      ("Mixer track '" ++ loader.trackName id ++ "'") "output"
    match found.2.filter fun output => found.1.mixerTracks.contains output && output ≠ id with
    | some output => found.1.setOutput id output
    | none =>
      let warned := found.1.warn ("Mixer track '" ++ loader.trackName id ++
        "' routed to a track that is not there; routed to the master.")
      if id ≠ warned.master then warned.setOutput id warned.master else warned

def resolveOutputs : Loader := loader.mixerTracks.keys.foldl resolveOutput loader

/-- The output of a track that is there. -/
def outputOf (id : MixerTrackId) : Option MixerTrackId :=
  (loader.mixerTracks.get? id).bind MixerTrack.output

/-- Follow the outputs from `walker` on; whether they come back to `id`, or go on for longer than
there are tracks.  `none` when `fuel` runs out first. -/
def feedsBack (id : MixerTrackId) : ℕ → ℕ → MixerTrackId → Option Bool
  | 0, _, _ => none
  | fuel + 1, steps, walker =>
    match loader.outputOf walker with
    | none => some false
    | some output =>
      if output = id ∨ loader.mixerTracks.size < steps + 1 then some true
      else feedsBack id fuel (steps + 1) output

/-- One track; `none` when its walk does not end. -/
def breakMixerCycle (id : MixerTrackId) : Option Loader :=
  (loader.feedsBack id (loader.mixerTracks.size + 1) 0 id).map fun back =>
    if back then
      (loader.warn ("Mixer track '" ++ loader.trackName id ++
        "' fed back into itself; routed to the master.")).setOutput id loader.master
    else loader

def breakMixerCycles : Option Loader :=
  loader.mixerTracks.keys.foldlM breakMixerCycle loader

end Loader

end OneBeat
