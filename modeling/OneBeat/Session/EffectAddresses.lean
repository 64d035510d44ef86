import OneBeat.Session.LiveEffects

/-!
# How parameter values find their inserts

An insert is addressed by a number: its place among all inserts, in track order and chain order.
The numbers are given anew by every edit, and what they are read with is replaced at three moments:
the user's thread renumbers and turns knobs, hands over the mixer and publishes the schedule; the
housekeeping thread builds the graph; the audio thread takes the schedule at the start of a block,
and the graph and the knob moves chunk by chunk.

Each value is on record with the insert it is for and the project whose numbers it uses, each graph
with the project it was described from; nothing in the engine reads these.

* `sound_of_run` : numbers mean, in the project they come from, what they were made for;
* `hitsOwn_iff` : **a value reaches its own insert exactly when its number means the same insert in
  both projects.**
-/

namespace OneBeat.EffectAddresses

/-! ### Numbers -/

/-- The inserts in the order of their numbers. -/
def effectSlots (project : Tables) : List (MixerTrackId × EffectId) :=
  project.mixerTracks.entries.flatMap fun entry =>
    entry.2.effects.map fun slot => (entry.1, slot.id)

/-- The insert that has a number. -/
def numbered (project : Tables) (index : ℕ) : Option EffectId :=
  (effectSlots project)[index]?.map Prod.snd

theorem numbered_of_get? {project : Tables} {target : MixerTrackId × EffectId} {index : ℕ}
    (h : Entries.get? (effectIndex project) target = some index) :
    numbered project index = some target.2 := by
  have hmem : (target, index) ∈ (effectSlots project).zipIdx := Entries.mem_of_get? h
  rw [numbered, List.mem_zipIdx_iff_getElem?.1 hmem]
  rfl

/-- The mixer of a project, with the numbers of a table. -/
def mixerOf (project : Tables) (indices : List ((MixerTrackId × EffectId) × ℕ)) :
    List MixerTrackDesc :=
  project.mixerTracks.entries.map fun entry =>
    { trackId := entry.1
      outputId := entry.2.output
      effects := entry.2.effects.map fun slot =>
        { effectId := slot.id
          pluginId := slot.plugin.id
          automationIndex := Entries.get? indices (entry.1, slot.id)
          bypassed := slot.bypassed
          params := slot.params } }

/-! ### What travels -/

/-- A parameter value on its way; `target` and `project` are on record only. -/
structure Addressed where
  change : EffectParamChange
  target : MixerTrackId × EffectId
  project : Tables

/-- A point of a curve on an insert, at its frame. -/
structure CurvePoint where
  frame : ℤ
  target : MixerTrackId × EffectId
  param : ParamId
  value : Double

/-- The events of a schedule; a curve on an insert that is not there gives none. -/
def resolve (project : Tables) (points : List CurvePoint) : List (ℤ × Addressed) :=
  points.filterMap fun point =>
    (Entries.get? (effectIndex project) point.target).map fun index =>
      (point.frame, ⟨⟨index, point.param, point.value⟩, point.target, project⟩)

/-- The mixer as it is handed over. -/
structure Handover where
  tracks : List MixerTrackDesc
  project : Tables

structure Graph where
  nodes : List GraphNode
  project : Tables

/-- Where the user's thread is in `publishModel`. -/
inductive UiPc
  | idle | handOver | publish
  deriving DecidableEq

/-- Where the audio thread is in `renderMixer`. -/
inductive AudioPc
  | idle
  /-- Taking knob moves. -/
  | popping (graph : Graph)
  | rendering (graph : Graph)

structure State where
  blockFrames : ℕ
  /-- The user's thread. -/
  project : Tables
  effectIndices : List ((MixerTrackId × EffectId) × ℕ)
  uiPc : UiPc := .idle
  flattened : List (ℤ × Addressed) := []
  /-- What waits for the housekeeping thread, and what it holds. -/
  pending : Option Handover := none
  held : Option Handover := none
  live : List MixerTrackDesc := []
  /-- What is published. -/
  graph : Option Graph := none
  schedule : List (ℤ × Addressed) := []
  queue : List Addressed := []
  /-- The audio thread. -/
  audioPc : AudioPc := .idle
  playing : List (ℤ × Addressed) := []
  popped : List Addressed := []

inductive Label
  /-- The model is edited, and flattened. -/
  | edit (project : Tables) (points : List CurvePoint)
  | handOver
  | publish
  | knob (target : MixerTrackId × EffectId) (param : ParamId) (value : Double)
  | take
  | apply (starts : EffectId → Bool)
  | beginBlock (plays : Bool)
  | acquire
  | pop
  | drained
  /-- The frames of the chunk. -/
  | render (low high : ℤ)

/-! ### The threads -/

/-- `setEffectParam`: an insert without a number is not reached, and a full ring takes nothing. -/
def turn (s : State) (target : MixerTrackId × EffectId) (param : ParamId) (value : Double) :
    List Addressed :=
  match Entries.get? s.effectIndices target with
  | none => s.queue
  | some effect =>
    if s.queue.length < effectParamCapacity then
      s.queue ++ [⟨⟨effect, param, value.toFloat⟩, target, s.project⟩]
    else s.queue

def stepUi (s : State) : Label → Option State
  | .edit project points =>
    if s.uiPc = .idle then
      some { s with
        project
        effectIndices := effectIndex project
        flattened := resolve project points
        uiPc := .handOver }
    else none
  | .handOver =>
    if s.uiPc = .handOver then
      some { s with pending := some ⟨mixerOf s.project s.effectIndices, s.project⟩, uiPc := .publish }
    else none
  | .publish =>
    if s.uiPc = .publish then some { s with schedule := s.flattened, uiPc := .idle } else none
  | .knob target param value =>
    if s.uiPc = .idle then some { s with queue := turn s target param value } else none
  | _ => none

/-- `applyMixerSync`: the graph is rebuilt when the shape changed, and a routing that is no tree is
refused. -/
def applyMixerSync (s : State) (starts : EffectId → Bool) (handed : Handover) : State :=
  if shapes handed.tracks = shapes s.live then { s with live := handed.tracks }
  else
    let nodes := buildNodes starts (handed.tracks.take maxMixerTracks)
    if finalise nodes then
      { s with graph := some ⟨nodes, handed.project⟩, live := handed.tracks }
    else s

def stepWorker (s : State) : Label → Option State
  | .take =>
    match s.held, s.pending with
    | none, some handed => some { s with held := some handed, pending := none }
    | _, _ => none
  | .apply starts => s.held.map fun handed => { applyMixerSync s starts handed with held := none }
  | _ => none

def stepAudio (s : State) : Label → Option State
  | .beginBlock plays =>
    match s.audioPc with
    | .idle => some { s with playing := if plays then s.schedule else [] }
    | _ => none
  | .acquire =>
    match s.audioPc, s.graph with
    | .idle, some graph => some { s with audioPc := .popping graph }
    | _, _ => none
  | .pop =>
    match s.audioPc, s.queue with
    | .popping _, change :: queue =>
      if s.popped.length < pendingEffectParams then
        some { s with queue, popped := s.popped ++ [change] }
      else none
    | _, _ => none
  | .drained =>
    match s.audioPc with
    | .popping graph =>
      if s.popped.length < pendingEffectParams ∧ s.queue ≠ [] then none
      else some { s with audioPc := .rendering graph }
    | _ => none
  | .render _ _ =>
    match s.audioPc with
    | .rendering _ => some { s with audioPc := .idle, popped := [] }
    | _ => none
  | _ => none

def system : TransitionSystem State Label where
  step s l := (stepUi s l).or ((stepWorker s l).or (stepAudio s l))

/-- Nothing has been published yet. -/
def start (blockFrames : ℕ) (project : Tables) : State :=
  { blockFrames, project, effectIndices := effectIndex project }

/-! ### What a chunk applies -/

/-- What an insert is given in a chunk: the events of the schedule, then the knob moves, as far as
the list has room. -/
def applied (s : State) (low high : ℤ) (effect : GraphEffect) : List Addressed :=
  ((((s.playing.filter fun event => low ≤ event.1 ∧ event.1 < high).map Prod.snd).filter
      fun event => effect.index = some event.change.effect) ++
    s.popped.filter fun event => effect.index = some event.change.effect).take (s.blockFrames + 64)

/-- An insert is given a value in a chunk. -/
def Gives (s : State) (low high : ℤ) (graph : Graph) (effect : GraphEffect) (value : Addressed) :
    Prop :=
  s.audioPc = .rendering graph ∧ (∃ node ∈ graph.nodes, effect ∈ node.effects) ∧
    effect.plugin.isSome ∧ value ∈ applied s low high effect

/-- What the chunk gives an insert is for that insert. -/
def HitsOwn (s : State) (low high : ℤ) : Prop :=
  ∀ graph effect value, Gives s low high graph effect value → effect.effectId = value.target.2

/-- What the chunk gives an insert has a number that means the same insert in the project the value
was made under and in the project the graph was described from. -/
def SameNumbers (s : State) (low high : ℤ) : Prop :=
  ∀ graph effect value, Gives s low high graph effect value →
    numbered value.project value.change.effect = numbered graph.project value.change.effect

/-! ### What numbers mean -/

/-- The number is the one of the target. -/
def Addressed.Sound (value : Addressed) : Prop :=
  numbered value.project value.change.effect = some value.target.2

/-- The numbers are those of the project. -/
def Handover.Sound (handed : Handover) : Prop :=
  handed.tracks = mixerOf handed.project (effectIndex handed.project)

def Graph.Sound (graph : Graph) : Prop :=
  ∀ node ∈ graph.nodes, ∀ effect ∈ node.effects, ∀ index, effect.index = some index →
    numbered graph.project index = some effect.effectId

/-- Everything that travels means what it was made for. -/
structure Sound (s : State) : Prop where
  indices : s.effectIndices = effectIndex s.project
  flattened : ∀ event ∈ s.flattened, event.2.Sound
  schedule : ∀ event ∈ s.schedule, event.2.Sound
  playing : ∀ event ∈ s.playing, event.2.Sound
  queue : ∀ value ∈ s.queue, value.Sound
  popped : ∀ value ∈ s.popped, value.Sound
  pending : ∀ handed, s.pending = some handed → handed.Sound
  held : ∀ handed, s.held = some handed → handed.Sound
  graph : ∀ graph, s.graph = some graph → graph.Sound
  acquired : ∀ graph, s.audioPc = .popping graph ∨ s.audioPc = .rendering graph → graph.Sound

theorem resolve_sound (project : Tables) (points : List CurvePoint) :
    ∀ event ∈ resolve project points, event.2.Sound := by
  intro event hevent
  obtain ⟨point, -, hpoint⟩ := List.mem_filterMap.1 hevent
  obtain ⟨index, hindex, rfl⟩ := Option.map_eq_some_iff.1 hpoint
  exact numbered_of_get? hindex

/-- The graph that is built from a handover has its numbers. -/
theorem buildNodes_sound (starts : EffectId → Bool) {handed : Handover} (h : handed.Sound) :
    (Graph.mk (buildNodes starts (handed.tracks.take maxMixerTracks)) handed.project).Sound := by
  intro node hnode effect heffect index hindex
  obtain ⟨track, htrack, rfl⟩ := List.mem_map.1 hnode
  obtain ⟨desc, hdesc, rfl⟩ := List.mem_map.1 heffect
  have htrack := List.mem_of_mem_take htrack
  rw [h] at htrack
  obtain ⟨entry, -, rfl⟩ := List.mem_map.1 htrack
  obtain ⟨slot, -, rfl⟩ := List.mem_map.1 hdesc
  exact numbered_of_get? hindex

theorem none_sound (handed : Handover) (h : none = some handed) : handed.Sound := by
  cases h

variable {s s' : State} {l : Label}

theorem Sound.ui (h : Sound s) (hstep : stepUi s l = some s') : Sound s' := by
  cases l with
  | edit project points =>
    obtain ⟨-, heq⟩ := Option.ite_none_right_eq_some.1 hstep
    obtain rfl := Option.some.inj heq
    exact { h with indices := rfl, flattened := resolve_sound project points }
  | handOver =>
    obtain ⟨-, heq⟩ := Option.ite_none_right_eq_some.1 hstep
    obtain rfl := Option.some.inj heq
    refine { h with pending := ?_ }
    rintro handed heq
    obtain rfl := Option.some.inj heq
    exact congrArg (mixerOf s.project) h.indices
  | publish =>
    obtain ⟨-, heq⟩ := Option.ite_none_right_eq_some.1 hstep
    obtain rfl := Option.some.inj heq
    exact { h with schedule := h.flattened }
  | knob target param value =>
    obtain ⟨-, heq⟩ := Option.ite_none_right_eq_some.1 hstep
    obtain rfl := Option.some.inj heq
    refine { h with queue := ?_ }
    rw [turn]
    split
    · exact h.queue
    next effect heffect =>
      split
      · intro change hchange
        rcases List.mem_append.1 hchange with hchange | hchange
        · exact h.queue change hchange
        · obtain rfl := List.mem_singleton.1 hchange
          exact numbered_of_get? (h.indices ▸ heffect)
      · exact h.queue
  | _ => cases hstep

theorem Sound.worker (h : Sound s) (hstep : stepWorker s l = some s') : Sound s' := by
  cases l with
  | take =>
    rw [stepWorker] at hstep
    split at hstep
    next handed _ hpending =>
      obtain rfl := Option.some.inj hstep
      refine { h with pending := none_sound, held := ?_ }
      rintro other heq
      obtain rfl := Option.some.inj heq
      exact h.pending _ hpending
    · cases hstep
  | apply starts =>
    obtain ⟨handed, hheld, rfl⟩ := Option.map_eq_some_iff.1 hstep
    rw [applyMixerSync]
    split
    · exact { h with held := none_sound }
    · dsimp only
      split
      · refine { h with held := none_sound, graph := ?_ }
        rintro graph heq
        obtain rfl := Option.some.inj heq
        exact buildNodes_sound starts (h.held handed hheld)
      · exact { h with held := none_sound }
  | _ => cases hstep

theorem Sound.audio (h : Sound s) (hstep : stepAudio s l = some s') : Sound s' := by
  cases l with
  | beginBlock plays =>
    rw [stepAudio] at hstep
    split at hstep
    · obtain rfl := Option.some.inj hstep
      refine { h with playing := ?_ }
      cases plays
      · exact List.forall_mem_nil _
      · exact h.schedule
    · cases hstep
  | acquire =>
    rw [stepAudio] at hstep
    split at hstep
    next graph _ hgraph =>
      obtain rfl := Option.some.inj hstep
      refine { h with acquired := ?_ }
      rintro other (heq | heq) <;> cases heq
      exact h.graph _ hgraph
    · cases hstep
  | pop =>
    rw [stepAudio] at hstep
    split at hstep
    next change queue _ hqueue =>
      obtain ⟨-, heq⟩ := Option.ite_none_right_eq_some.1 hstep
      obtain rfl := Option.some.inj heq
      have hall := h.queue
      rw [hqueue, List.forall_mem_cons] at hall
      refine { h with queue := hall.2, popped := ?_ }
      exact List.forall_mem_append.2 ⟨h.popped, List.forall_mem_singleton.2 hall.1⟩
    · cases hstep
  | drained =>
    rw [stepAudio] at hstep
    split at hstep
    next graph hpc =>
      obtain ⟨-, heq⟩ := Option.ite_none_left_eq_some.1 hstep
      obtain rfl := Option.some.inj heq
      refine { h with acquired := ?_ }
      rintro other (heq | heq) <;> cases heq
      exact h.acquired graph (.inl hpc)
    · cases hstep
  | render low high =>
    rw [stepAudio] at hstep
    split at hstep
    · obtain rfl := Option.some.inj hstep
      refine { h with popped := List.forall_mem_nil _, acquired := ?_ }
      rintro other (heq | heq) <;> cases heq
    · cases hstep
  | _ => cases hstep

theorem Sound.step (h : Sound s) (hstep : system.step s l = some s') : Sound s' := by
  rcases Option.or_eq_some_iff.1 hstep with hui | ⟨-, hothers⟩
  · exact h.ui hui
  rcases Option.or_eq_some_iff.1 hothers with hworker | ⟨-, haudio⟩
  · exact h.worker hworker
  · exact h.audio haudio

theorem sound_start (blockFrames : ℕ) (project : Tables) : Sound (start blockFrames project) :=
  { indices := rfl
    flattened := List.forall_mem_nil _
    schedule := List.forall_mem_nil _
    playing := List.forall_mem_nil _
    queue := List.forall_mem_nil _
    popped := List.forall_mem_nil _
    pending := none_sound
    held := none_sound
    graph := fun _ h => by cases h
    acquired := by rintro graph (h | h) <;> cases h }

/-- **Everything that travels means what it was made for**, in every state a run comes to. -/
theorem sound_of_run {blockFrames : ℕ} {project : Tables} {ls : List Label}
    (hrun : system.run (start blockFrames project) ls = some s) : Sound s :=
  TransitionSystem.invariant (I := fun _ s => Sound s) (sound_start blockFrames project)
    (fun _ _ _ _ _ h hstep => h.step hstep) hrun

/-! ### Own inserts -/

theorem mem_applied {low high : ℤ} {effect : GraphEffect} {value : Addressed}
    (h : value ∈ applied s low high effect) :
    effect.index = some value.change.effect ∧
      ((∃ event ∈ s.playing, event.2 = value) ∨ value ∈ s.popped) := by
  rcases List.mem_append.1 (List.mem_of_mem_take h) with h | h
  · obtain ⟨hmem, hindex⟩ := List.mem_filter.1 h
    obtain ⟨event, hevent, heq⟩ := List.mem_map.1 hmem
    exact ⟨of_decide_eq_true hindex, .inl ⟨event, (List.mem_filter.1 hevent).1, heq⟩⟩
  · obtain ⟨hmem, hindex⟩ := List.mem_filter.1 h
    exact ⟨of_decide_eq_true hindex, .inr hmem⟩

theorem Sound.hitsOwn_range_iff (h : Sound s) (low high : ℤ) :
    HitsOwn s low high ↔ SameNumbers s low high := by
  refine forall_congr' fun graph => forall₂_congr fun effect value => imp_congr_right fun hgives => ?_
  obtain ⟨hpc, ⟨node, hnode, heffect⟩, -, hvalue⟩ := hgives
  obtain ⟨hindex, hfrom⟩ := mem_applied hvalue
  have hgraph := h.acquired graph (.inr hpc) node hnode effect heffect _ hindex
  have hsound : value.Sound := by
    rcases hfrom with ⟨event, hevent, rfl⟩ | hpopped
    · exact h.playing event hevent
    · exact h.popped value hpopped
  rw [hgraph, hsound, Option.some_inj]
  exact eq_comm

/-- **An effect parameter change reaches only its own insert.**  In every run, every chunk gives
every insert only what is for it exactly when, in every chunk, the number of what an insert is given
means the same insert where the value comes from and where the graph comes from. -/
theorem hitsOwn_iff (blockFrames : ℕ) (project : Tables) (ls : List Label) :
    (∀ before low high t, before ++ [.render low high] <+: ls →
      system.run (start blockFrames project) before = some t → HitsOwn t low high) ↔
    (∀ before low high t, before ++ [.render low high] <+: ls →
      system.run (start blockFrames project) before = some t → SameNumbers t low high) := by
  refine forall₂_congr fun before low => forall₂_congr fun high t => ?_
  refine imp_congr_right fun _ => forall_congr' fun hrun => ?_
  exact (sound_of_run hrun).hitsOwn_range_iff low high

/-! ### A chain that shifts -/

/-- An insert is given a value that is for another one. -/
theorem not_hitsOwn_of_any {low high : ℤ} {graph : Graph} (hpc : s.audioPc = .rendering graph)
    (h : (graph.nodes.any fun node => node.effects.any fun effect => effect.plugin.isSome &&
      (applied s low high effect).any fun value => effect.effectId ≠ value.target.2) = true) :
    ¬HitsOwn s low high := by
  intro hown
  obtain ⟨node, hnode, hhere⟩ := List.any_eq_true.1 h
  obtain ⟨effect, heffect, hinsert⟩ := List.any_eq_true.1 hhere
  rw [Bool.and_eq_true] at hinsert
  obtain ⟨value, hvalue, hne⟩ := List.any_eq_true.1 hinsert.2
  refine of_decide_eq_true hne ?_
  exact hown graph effect value ⟨hpc, ⟨node, hnode, heffect⟩, hinsert.1, hvalue⟩

/-- Reverbs in a chain on one track. -/
def chain (effects : List EffectId) : Tables :=
  { mixerTracks := OrderedMap.empty.assign ⟨1⟩
      { effects := effects.map fun id => { id, plugin := { id := "dev.onebeat.fx.reverb" } } } }

/-- The first of two inserts is removed, a knob of the other one is turned, and a chunk is rendered
before the graph has been rebuilt. -/
def removedFirst : List Label :=
  [.edit (chain [⟨5⟩, ⟨6⟩]) [], .handOver, .publish, .take, .apply LiveMixer.startAll,
    .edit (chain [⟨6⟩]) [], .handOver, .publish, .knob (⟨1⟩, ⟨6⟩) 2 (.finite (1 / 2)),
    .acquire, .pop, .drained]

/-- The insert that was removed takes the value. -/
theorem not_hitsOwn_removedFirst :
    ¬∀ (blockFrames : ℕ) (project : Tables) (ls before : List Label) (low high : ℤ) (t : State),
      before ++ [.render low high] <+: ls →
      system.run (start blockFrames project) before = some t → HitsOwn t low high := by
  intro h
  have hown := h 512 (chain []) _ removedFirst 0 512 _ (List.prefix_refl _) rfl
  exact not_hitsOwn_of_any rfl (by decide +kernel) hown

end OneBeat.EffectAddresses
