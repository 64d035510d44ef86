import Mathlib.Data.Multiset.MapFold
import Mathlib.Algebra.Order.Group.Multiset
import OneBeat.Core.RenderOrder
import OneBeat.Lib.TransitionSystem

/-!
# The mixer of a chunk

`processChunk` and `renderMixer` of `core/engine.cpp`, one access at a time, against the stores of
the other threads: the graph is acquired before the buses are cleared and again before they are
summed, a channel's bus and a track's level are read when they are needed, and `applyMixerSync`
stores the levels before it publishes the graph.

A signal is kept as what went into it (`Part`): which channel in which chunk, and the tracks it came
through with their inserts and levels.  The stores that give the channels their buses may come at
any time.  A chunk before there is a mixer goes straight to the device, and is left out.

* `Chunk.OneMixer` : everything a chunk used is of one description, and what the device got is each
  channel once, carried along the routes of that description;
* `Undisturbed` : a chunk starts at rest, and no store changes the words under a chunk;
* `graphOf_spec`, `order_spec` : what a graph is built from, and the order of a tree.
-/

namespace OneBeat.ChunkMixer

open SignalFlow

/-! ### Descriptions -/

structure TrackLevel where
  gain : Double
  pan : Double
  muted : Bool
  deriving DecidableEq

/-- `std::clamp` -/
def clampLevel (low high value : Double) : Double :=
  if value.lt low then low else if high.lt value then high else value

namespace TrackLevel

/-- The level as it is stored. -/
def stored (level : TrackLevel) : TrackLevel :=
  { level with
    gain := clampLevel 0 (.finite 2) level.gain
    pan := clampLevel (.finite (-1)) 1 level.pan }

/-- Nothing is summed at this level. -/
def silent (level : TrackLevel) : Bool := level.muted || level.gain.beq 0

end TrackLevel

/-- A track of `MixerTrackDesc`, with its level. -/
structure Track where
  desc : MixerTrackDesc
  level : TrackLevel

/-- What one publish says: the tracks, and the number of the track that each channel feeds. -/
structure Description where
  tracks : List Track
  routes : ℕ → Option ℤ

def descs (tracks : List Track) : List MixerTrackDesc := tracks.map Track.desc

/-! ### The graph -/

structure Graph where
  nodes : List GraphNode
  order : List ℕ
  master : ℕ

namespace Graph

def next (graph : Graph) (a : ℕ) : Option ℕ := (graph.nodes.map GraphNode.output).getD a none

/-- The bus of a channel; a number that is no track goes to the master. -/
def resolve (graph : Graph) (track : ℤ) : ℕ :=
  if 0 ≤ track ∧ track < graph.nodes.length then track.toNat else graph.master

end Graph

/-- The last node that feeds none. -/
def lastMaster (nodes : List GraphNode) : Option ℕ :=
  (List.range nodes.length).reverse.find? fun index =>
    ((nodes.map GraphNode.output).getD index none).isNone

/-- `MixerGraph::finalise`: without an order or a master there is no graph. -/
def graphOf (starts : EffectId → Bool) (tracks : List MixerTrackDesc) : Option Graph :=
  let nodes := buildNodes starts (tracks.take maxMixerTracks)
  (renderOrder (nodes.map GraphNode.output)).bind fun order =>
    (lastMaster nodes).map fun master => ⟨nodes, order, master⟩

/-! ### What is shared -/

def maxRack : ℕ := 64

/-- The words that the audio thread reads. -/
structure Words where
  graph : Option Graph := none
  levels : ℕ → TrackLevel := fun _ => ⟨1, 0, false⟩
  active : ℕ → Bool := fun _ => false
  mixerTrack : ℕ → ℤ := fun _ => -1

/-- Where a channel is heard, if it is. -/
def Words.channel (words : Words) (channel : ℕ) : Option ℤ :=
  if words.active channel then some (words.mixerTrack channel) else none

inductive LevelStore
  | gain (index : ℕ) (value : Double)
  | pan (index : ℕ) (value : Double)
  | muted (index : ℕ) (value : Bool)

def Words.store (words : Words) : LevelStore → Words
  | .gain index gain =>
    { words with levels := Function.update words.levels index { words.levels index with gain } }
  | .pan index pan =>
    { words with levels := Function.update words.levels index { words.levels index with pan } }
  | .muted index muted =>
    { words with levels := Function.update words.levels index { words.levels index with muted } }

/-- The stores of a pass, track by track. -/
def levelStores (tracks : List Track) : List LevelStore :=
  ((tracks.take maxMixerTracks).zipIdx.map fun entry =>
    let level := entry.1.level.stored
    [.gain entry.2 level.gain, .pan entry.2 level.pan, .muted entry.2 level.muted]).flatten

/-! ### Signals -/

/-- A track on the way of a signal. -/
structure Stop where
  track : MixerTrackId
  effects : List EffectId
  level : TrackLevel
  deriving DecidableEq

/-- What one channel gave in one chunk, and the tracks it came through. -/
structure Part where
  chunk : ℕ
  channel : ℕ
  through : List Stop
  deriving DecidableEq

abbrev Signal := Multiset Part

def Part.pass (stop : Stop) (part : Part) : Part := { part with through := part.through ++ [stop] }

/-- What a channel renders. -/
def rendered (chunk channel : ℕ) : Signal := {⟨chunk, channel, []⟩}

def GraphNode.stop (node : GraphNode) (level : TrackLevel) : Stop :=
  ⟨node.trackId, node.effects.map GraphEffect.effectId, level⟩

/-- One turn of the loop of `renderMixer`. -/
def sumBus (graph : Graph) (level : TrackLevel) (mix : Mix ℕ Signal) (index : ℕ) : Mix ℕ Signal :=
  match graph.nodes[index]? with
  | none => mix
  | some node =>
    if level.silent then mix
    else
      let signal := (mix.buses index).map (Part.pass (GraphNode.stop node level))
      match node.output with
      | none => { mix with device := mix.device + signal }
      | some output =>
        { mix with buses := Function.update mix.buses output (mix.buses output + signal) }

/-! ### The threads -/

/-- Where the audio thread is, with what its loops have yet to visit. -/
inductive AudioPc
  | idle
  | clearing (graph : Graph) (rest : List ℕ)
  | rendering (graph : Graph) (rest : List ℕ)
  | reacquiring
  | summing (graph : Graph) (rest : List ℕ)

/-- Something a chunk has read. -/
inductive Use
  | graph (graph : Graph)
  | route (channel : ℕ) (track : Option ℤ)
  | level (index : ℕ) (level : TrackLevel)

/-- A chunk that is done: what it used, and what the device got. -/
structure Chunk where
  number : ℕ
  used : List Use
  device : Signal

structure State where
  words : Words := {}
  pending : Option (List Track) := none
  live : List MixerTrackDesc := []
  /-- What the housekeeping thread works on, and the stores it has yet to make. -/
  worker : Option (List Track × List LevelStore) := none
  audioPc : AudioPc := .idle
  chunk : ℕ := 0
  mix : Mix ℕ Signal := ⟨fun _ => 0, 0⟩
  /-- On record only. -/
  used : List Use := []
  finished : List Chunk := []
  handed : List Description := []

inductive Label
  /-- The user's thread hands over a mixer, and stores in a channel. -/
  | handOver (description : Description)
  | setActive (channel : ℕ) (value : Bool)
  | setMixerTrack (channel : ℕ) (value : ℤ)
  /-- The housekeeping thread. -/
  | take
  | storeLevel
  | finish (starts : EffectId → Bool)
  /-- The audio thread. -/
  | acquire
  | clear
  | cleared
  | render
  | allRendered
  | reacquire
  | sum
  | summed

/-- The graph that a pass ends with: a new one when the shape changed, unless it is refused. -/
def graphAfter (s : State) (starts : EffectId → Bool) (tracks : List Track) : Option Graph :=
  if shapes (descs tracks) = shapes s.live then s.words.graph
  else (graphOf starts (descs tracks)).or s.words.graph

/-- The words after a step. -/
def wordsAfter (s : State) : Label → Words
  | .setActive channel value =>
    { s.words with active := Function.update s.words.active channel value }
  | .setMixerTrack channel value =>
    { s.words with mixerTrack := Function.update s.words.mixerTrack channel value }
  | .storeLevel =>
    match s.worker with
    | some (_, store :: _) => s.words.store store
    | _ => s.words
  | .finish starts =>
    match s.worker with
    | some (tracks, []) => { s.words with graph := graphAfter s starts tracks }
    | _ => s.words
  | _ => s.words

def stepOthers (s : State) (l : Label) : Option State :=
  let words := wordsAfter s l
  match l with
  | .handOver description =>
    some { s with pending := some description.tracks, handed := s.handed ++ [description] }
  | .setActive _ _ | .setMixerTrack _ _ => some { s with words }
  | .take =>
    match s.worker, s.pending with
    | none, some tracks =>
      some { s with pending := none, worker := some (tracks, levelStores tracks) }
    | _, _ => none
  | .storeLevel =>
    match s.worker with
    | some (tracks, _ :: stores) => some { s with words, worker := some (tracks, stores) }
    | _ => none
  | .finish starts =>
    match s.worker with
    | some (tracks, []) =>
      let refused :=
        shapes (descs tracks) ≠ shapes s.live ∧ (graphOf starts (descs tracks)).isNone
      let live := if refused then s.live else descs tracks
      some { s with words, live, worker := none }
    | _ => none
  | _ => none

def stepAudio (s : State) : Label → Option State
  | .acquire =>
    match s.audioPc, s.words.graph with
    | .idle, some graph =>
      some { s with
        audioPc := .clearing graph (List.range graph.nodes.length)
        chunk := s.chunk + 1
        mix := { s.mix with device := 0 }
        used := [.graph graph] }
    | _, _ => none
  | .clear =>
    match s.audioPc with
    | .clearing graph (index :: rest) =>
      some { s with
        audioPc := .clearing graph rest
        mix := { s.mix with buses := Function.update s.mix.buses index 0 } }
    | _ => none
  | .cleared =>
    match s.audioPc with
    | .clearing graph [] => some { s with audioPc := .rendering graph (List.range maxRack) }
    | _ => none
  | .render =>
    match s.audioPc with
    | .rendering graph (channel :: rest) =>
      let track := s.words.channel channel
      some { s with
        audioPc := .rendering graph rest
        mix := match track with
          | none => s.mix
          | some track =>
            let bus := graph.resolve track
            let signal := s.mix.buses bus + rendered s.chunk channel
            { s.mix with buses := Function.update s.mix.buses bus signal }
        used := s.used ++ [.route channel track] }
    | _ => none
  | .allRendered =>
    match s.audioPc with
    | .rendering _ [] => some { s with audioPc := .reacquiring }
    | _ => none
  | .reacquire =>
    match s.audioPc, s.words.graph with
    | .reacquiring, some graph =>
      some { s with audioPc := .summing graph graph.order, used := s.used ++ [.graph graph] }
    | _, _ => none
  | .sum =>
    match s.audioPc with
    | .summing graph (index :: rest) =>
      let level := s.words.levels index
      some { s with
        audioPc := .summing graph rest
        mix := sumBus graph level s.mix index
        used := s.used ++ [.level index level] }
    | _ => none
  | .summed =>
    match s.audioPc with
    | .summing _ [] =>
      some { s with
        audioPc := .idle
        finished := s.finished ++ [⟨s.chunk, s.used, s.mix.device⟩] }
    | _ => none
  | _ => none

def system : TransitionSystem State Label where
  step s l := (stepOthers s l).or (stepAudio s l)

/-! ### One mixer -/

def Description.level (description : Description) (index : ℕ) : TrackLevel :=
  (description.tracks[index]?.map fun track => track.level.stored).getD ⟨0, 0, true⟩

/-- What the tracks of a graph do to a signal at some levels. -/
def stages (graph : Graph) (levels : ℕ → TrackLevel) : Stages ℕ Signal where
  inserts _ := AddMonoidHom.id _
  level index :=
    if (levels index).silent then 0
    else graph.nodes[index]?.elim 0 fun node =>
      Multiset.mapAddMonoidHom (Part.pass (GraphNode.stop node (levels index)))

/-- What was read is what the description says. -/
def Use.Belongs (description : Description) (graph : Graph) : Use → Prop
  | .graph used => used = graph
  | .route channel track => track = description.routes channel
  | .level index value => index < graph.nodes.length ∧ value = description.level index

/-- **The chunk has one mixer.**  What it read is of one description that was handed over, and what
the device got is every channel of the rack once, carried along its route in that description. -/
def Chunk.OneMixer (handed : List Description) (chunk : Chunk) : Prop :=
  ∃ description ∈ handed, ∃ starts graph, graphOf starts (descs description.tracks) = some graph ∧
    (∀ use ∈ chunk.used, use.Belongs description graph) ∧
    ∃ paths : ℕ → List ℕ, (∀ a < graph.nodes.length, Route graph.next a (paths a)) ∧
      chunk.device = ((List.range maxRack).map fun channel =>
        ((description.routes channel).map graph.resolve).elim 0 fun bus =>
          (stages graph description.level).along (paths bus) (rendered chunk.number channel)).sum

/-- The node that each node feeds. -/
def outputs (tracks : List MixerTrackDesc) : List (Option ℕ) :=
  let tracks := tracks.take maxMixerTracks
  tracks.map fun desc => desc.outputId.bind fun output =>
    tracks.findIdx? fun other => decide (other.trackId = output)

/-- Some node feeds none, and every way ends. -/
structure IsTree (tracks : List MixerTrackDesc) : Prop where
  master : none ∈ outputs tracks
  ends : ∀ a, Ends (fun a => (outputs tracks).getD a none) a

/-- Nothing is on its way to the words, and the channels have the buses of the last description. -/
structure AtRest (s : State) (description : Description) : Prop where
  last : s.handed.getLast? = some description
  pending : s.pending = none
  worker : s.worker = none
  channels : ∀ channel < maxRack, s.words.channel channel = description.routes channel
  tree : IsTree (descs description.tracks)

/-- A chunk starts at rest, and no step changes the words while a chunk is under way. -/
def Undisturbed (s : State) (l : Label) : Prop :=
  (l = .acquire → ∃ description, AtRest s description) ∧
    match s.audioPc with
    | .idle => True
    | _ => wordsAfter s l = s.words

/-! ### The steps of the mixer -/

/-- A turn of the loop is a step of a signal along the forest. -/
theorem sumBus_eq {graph : Graph} {levels : ℕ → TrackLevel} {index : ℕ}
    (hindex : index < graph.nodes.length) (mix : Mix ℕ Signal) :
    sumBus graph (levels index) mix index = process graph.next (stages graph levels) mix index := by
  have hget : graph.nodes[index]? = some graph.nodes[index] := List.getElem?_eq_getElem hindex
  have hnext : graph.next index = graph.nodes[index].output := by
    rw [Graph.next, List.getD_eq_getElem?_getD, List.getElem?_map, hget]
    rfl
  simp only [sumBus, process, stages, hget, hnext, AddMonoidHom.id_apply, Function.update_eq_self,
    Option.elim_some]
  split_ifs with hsilent
  · -- a silent track adds nothing to what it feeds
    cases graph.nodes[index].output with
    | none => simp
    | some output => simp
  · cases graph.nodes[index].output <;> rfl

theorem lastMaster_lt {nodes : List GraphNode} {master : ℕ} (h : lastMaster nodes = some master) :
    master < nodes.length := by
  have hmem := List.mem_of_find?_eq_some h
  rwa [List.mem_reverse, List.mem_range] at hmem

theorem buildNodes_outputs (starts : EffectId → Bool) (tracks : List MixerTrackDesc) :
    (buildNodes starts (tracks.take maxMixerTracks)).map GraphNode.output = outputs tracks := by
  rw [buildNodes, List.map_map]
  rfl

/-- An output is a node. -/
theorem output_lt (tracks : List MixerTrackDesc) (a b : ℕ)
    (hb : (outputs tracks).getD a none = some b) : b < (outputs tracks).length := by
  rw [List.getD_eq_getElem?_getD] at hb
  cases hget : (outputs tracks)[a]? with
  | none =>
    rw [hget] at hb
    cases hb
  | some output =>
    rw [hget] at hb
    obtain rfl : output = some b := hb
    obtain ⟨desc, -, hdesc⟩ := List.mem_map.1 (List.mem_of_getElem? hget)
    obtain ⟨out, -, hfind⟩ := Option.bind_eq_some_iff.1 hdesc
    rw [outputs, List.length_map]
    exact (List.findIdx?_eq_some_iff_findIdx_eq.1 hfind).1

theorem lastMaster_isSome {nodes : List GraphNode} (h : none ∈ nodes.map GraphNode.output) :
    (lastMaster nodes).isSome := by
  obtain ⟨index, hindex, hget⟩ := List.mem_iff_getElem.1 h
  rw [List.length_map] at hindex
  refine List.find?_isSome.2 ⟨index, List.mem_reverse.2 (List.mem_range.2 hindex), ?_⟩
  rw [List.getD_eq_getElem?_getD, List.getElem?_eq_getElem (by simpa using hindex), hget]
  rfl

section Built

variable {starts : EffectId → Bool} {tracks : List MixerTrackDesc} {graph : Graph}

theorem graphOf_spec (h : graphOf starts tracks = some graph) :
    graph.nodes = buildNodes starts (tracks.take maxMixerTracks) ∧
      renderOrder (outputs tracks) = some graph.order ∧
      lastMaster graph.nodes = some graph.master := by
  obtain ⟨order, horder, hmaster⟩ := Option.bind_eq_some_iff.1 h
  obtain ⟨master, hlast, rfl⟩ := Option.map_eq_some_iff.1 hmaster
  exact ⟨rfl, buildNodes_outputs starts tracks ▸ horder, hlast⟩

theorem graphOf_next (h : graphOf starts tracks = some graph) :
    graph.next = fun a => (outputs tracks).getD a none := by
  funext a
  rw [Graph.next, (graphOf_spec h).1, buildNodes_outputs]

theorem graphOf_length (h : graphOf starts tracks = some graph) :
    graph.nodes.length = (tracks.take maxMixerTracks).length := by
  rw [(graphOf_spec h).1, buildNodes, List.length_map]

theorem resolve_lt (h : graphOf starts tracks = some graph) (track : ℤ) :
    graph.resolve track < graph.nodes.length := by
  have hmaster := lastMaster_lt (graphOf_spec h).2.2
  rw [Graph.resolve]
  split_ifs with hin
  · omega
  · exact hmaster

/-- A tree is not refused. -/
theorem IsTree.graphOf (h : IsTree tracks) (starts : EffectId → Bool) :
    ∃ graph, graphOf starts tracks = some graph := by
  obtain ⟨order, horder, -⟩ := renderOrder_spec (output_lt tracks) h.ends
  rw [← buildNodes_outputs starts] at horder
  obtain ⟨master, hmaster⟩ := Option.isSome_iff_exists.1
    (lastMaster_isSome ((buildNodes_outputs starts tracks).symm ▸ h.master))
  refine ⟨⟨buildNodes starts (tracks.take maxMixerTracks), order, master⟩, ?_⟩
  simp only [ChunkMixer.graphOf, horder, hmaster, Option.bind_some, Option.map_some]

/-- The order of a tree is one in which the buses can be summed. -/
theorem order_spec (h : ChunkMixer.graphOf starts tracks = some graph) (htree : IsTree tracks) :
    InOrder graph.next graph.order ∧ ∀ a, a ∈ graph.order ↔ a < graph.nodes.length := by
  obtain ⟨order, horder, hinorder, hmem⟩ := renderOrder_spec (output_lt tracks) htree.ends
  obtain rfl := Option.some.inj (horder.symm.trans (graphOf_spec h).2.1)
  rw [graphOf_next h]
  refine ⟨hinorder, fun a => (hmem a).trans ?_⟩
  rw [graphOf_length h, outputs, List.length_map]

end Built

end OneBeat.ChunkMixer
