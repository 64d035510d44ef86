import OneBeat.Model.Entities
import OneBeat.Plugin.SamplerPlugin

/-!
# The mixer of the engine

How `core/engine.cpp` keeps its inserts: the graph is rebuilt when the shape of the mixer changes
(`applyMixerSync`), and knob moves go through a ring to the inserts of the graph that plays
(`renderMixer`).  The inserts are the built-in effects of `plugin/builtin/effects/`.

Levels, mutes and what is heard are left out.
-/

namespace OneBeat

/-! ### Effects -/

def effectParamBypass : ParamId := 1

def bypassParam : ParamInfo := ⟨effectParamBypass, 0, 1, 0⟩

/-- A built-in effect, as far as its parameters go. -/
structure EffectPlugin where
  params : List ParamInfo
  /-- The parameters are told apart. -/
  nodup : (params.map ParamInfo.id).Nodup
  /-- The base value of each. -/
  values : ParamId → Double

namespace EffectPlugin

/-- An effect that was just made; every one has a bypass. -/
def declare (declared : List ParamInfo)
    (nodup : ((bypassParam :: declared).map ParamInfo.id).Nodup) : EffectPlugin where
  params := bypassParam :: declared
  nodup := nodup
  values id :=
    (((bypassParam :: declared).find? fun info => info.id = id).map ParamInfo.defaultValue).getD 0

def bypassed (plugin : EffectPlugin) : Bool :=
  Double.le (.finite (1 / 2)) (bypassParam.clamp (plugin.values effectParamBypass))

/-- The mixer sends values only, and no modulation. -/
def applyEvent (plugin : EffectPlugin) (event : PluginEvent) : EffectPlugin :=
  match plugin.params.find? fun info => info.id = event.id with
  | none => plugin
  | some info =>
    { plugin with
      values := fun id => if id = event.id then info.clamp event.value else plugin.values id }

end EffectPlugin

/-- A literal of the source. -/
def literal (value : ℚ) : Double := BinaryFormat.double.ofRat value

/-- A parameter between zero and one. -/
def unitParam (id : ParamId) (defaultValue : Double) : ParamInfo := ⟨id, 0, 1, defaultValue⟩

def reverbPlugin : EffectPlugin :=
  .declare [unitParam 2 (literal (1 / 2)), unitParam 3 (literal (1 / 2)), unitParam 4 1,
    unitParam 5 (literal (3 / 10)), unitParam 6 0] (by decide)

def delayPlugin : EffectPlugin :=
  .declare [⟨2, literal (1 / 1000), literal 4, literal (375 / 1000)⟩,
    ⟨3, 0, literal (98 / 100), literal (4 / 10)⟩, unitParam 4 (literal (3 / 10)),
    unitParam 5 (literal (3 / 10)), unitParam 6 0] (by decide)

def halftimePlugin : EffectPlugin :=
  .declare [⟨2, literal (125 / 1000), literal 2, literal (1 / 2)⟩,
    ⟨3, literal (1 / 4), literal 8, literal 2⟩, unitParam 4 0, unitParam 5 1] (by decide)

def reversePlugin : EffectPlugin :=
  .declare [⟨2, literal (5 / 100), literal 4, literal (1 / 2)⟩,
    unitParam 3 (literal (15 / 100)), unitParam 4 1] (by decide)

def createBuiltinEffect (id : String) : Option EffectPlugin :=
  if id = "dev.onebeat.fx.reverb" then some reverbPlugin
  else if id = "dev.onebeat.fx.delay" then some delayPlugin
  else if id = "dev.onebeat.fx.halftime" then some halftimePlugin
  else if id = "dev.onebeat.fx.reverse" then some reversePlugin
  else none

/-! ### What the engine is handed -/

structure MixerEffectDesc where
  effectId : EffectId
  pluginId : String
  /-- The index the schedule addresses. -/
  automationIndex : Option ℕ
  bypassed : Bool
  params : OrderedMap ParamId Double

structure MixerTrackDesc where
  trackId : MixerTrackId
  /-- The track this one feeds; the master feeds none. -/
  outputId : Option MixerTrackId
  effects : List MixerEffectDesc

def maxMixerTracks : ℕ := 64

/-- A knob that was turned. -/
structure EffectParamChange where
  effect : ℕ
  param : ParamId
  value : Double

/-- The size of the ring of knob moves. -/
def effectParamCapacity : ℕ := 512

/-- How many of them one block takes. -/
def pendingEffectParams : ℕ := 64

/-! ### The graph -/

structure GraphEffect where
  effectId : EffectId
  index : Option ℕ
  /-- An effect that is missing or did not start is a hole. -/
  plugin : Option EffectPlugin

structure GraphNode where
  trackId : MixerTrackId
  output : Option ℕ
  effects : List GraphEffect

/-- One depth-first walk: `0` is not visited, `1` on the stack, `2` done.  A walk visits every node
twice at most. -/
def finaliseFrom (outputs : List (Option ℕ)) : ℕ → List ℕ → List ℕ → Option (List ℕ)
  | 0, _, marks => some marks
  | _ + 1, [], marks => some marks
  | fuel + 1, current :: stack, marks =>
    match marks.getD current 2 with
    | 0 =>
      let marked := marks.set current 1
      match outputs.getD current none with
      | none => finaliseFrom outputs fuel (current :: stack) marked
      | some output =>
        match marked.getD output 2 with
        -- the routing feeds itself
        | 1 => none
        | 0 => finaliseFrom outputs fuel (output :: current :: stack) marked
        | _ => finaliseFrom outputs fuel (current :: stack) marked
    | 1 => finaliseFrom outputs fuel stack (marks.set current 2)
    | _ => finaliseFrom outputs fuel stack marks

/-- The routing is a tree with a master. -/
def finalise (nodes : List GraphNode) : Bool :=
  let outputs := nodes.map GraphNode.output
  let marks := (List.range outputs.length).foldl (fun marks start =>
      marks.bind fun marks =>
        if marks.getD start 2 = 0 then finaliseFrom outputs (2 * outputs.length + 1) [start] marks
        else some marks)
    (some (List.replicate outputs.length 0))
  marks.isSome && outputs.any Option.isNone

/-- The mixer as the engine has it. -/
structure EngineMixer where
  blockFrames : ℕ
  pending : Option (List MixerTrackDesc) := none
  /-- What the graph was built from, or what was found to have its shape. -/
  live : List MixerTrackDesc := []
  graph : Option (List GraphNode) := none
  queue : List EffectParamChange := []

/-- What `sameShape` compares of an insert. -/
structure EffectShape where
  effectId : EffectId
  pluginId : String
  automationIndex : Option ℕ
  deriving DecidableEq

structure TrackShape where
  trackId : MixerTrackId
  outputId : Option MixerTrackId
  effects : List EffectShape
  deriving DecidableEq

def MixerEffectDesc.shape (desc : MixerEffectDesc) : EffectShape :=
  ⟨desc.effectId, desc.pluginId, desc.automationIndex⟩

def MixerTrackDesc.shape (desc : MixerTrackDesc) : TrackShape :=
  ⟨desc.trackId, desc.outputId, desc.effects.map MixerEffectDesc.shape⟩

/-- What `sameShape` compares: a reorder is another shape. -/
def shapes (tracks : List MixerTrackDesc) : ℕ × List TrackShape :=
  (tracks.length, (tracks.take maxMixerTracks).map MixerTrackDesc.shape)

/-- A new insert, with its plug-in's defaults; `starts` says whether the plug-in starts. -/
def buildEffect (starts : EffectId → Bool) (desc : MixerEffectDesc) : GraphEffect where
  effectId := desc.effectId
  index := desc.automationIndex
  plugin := if starts desc.effectId then createBuiltinEffect desc.pluginId else none

/-- New nodes; an output that is not in the mixer is none. -/
def buildNodes (starts : EffectId → Bool) (tracks : List MixerTrackDesc) : List GraphNode :=
  tracks.map fun desc =>
    { trackId := desc.trackId
      output := desc.outputId.bind fun output =>
        tracks.findIdx? fun other => decide (other.trackId = output)
      effects := desc.effects.map (buildEffect starts) }

/-- The events of one insert in one block: those of the schedule, then the knob moves. -/
def effectEvents (capacity : ℕ) (scheduled : List (ℕ × EffectParamChange))
    (moves : List EffectParamChange) (index : Option ℕ) : EventList :=
  ((((scheduled.filter fun event => index = some event.2.effect).map fun event =>
      PluginEvent.paramValue event.1 event.2.param event.2.value) ++
    ((moves.filter fun change => index = some change.effect).map fun change =>
      PluginEvent.paramValue 0 change.param change.value)).foldl EventList.push
        { capacity }).sortByTime

/-- An insert after its events. -/
def GraphEffect.render (capacity : ℕ) (scheduled : List (ℕ × EffectParamChange))
    (moves : List EffectParamChange) (effect : GraphEffect) : GraphEffect :=
  { effect with
    plugin := effect.plugin.map fun plugin =>
      (effectEvents capacity scheduled moves effect.index).events.foldl EffectPlugin.applyEvent
        plugin }

namespace EngineMixer

variable (m : EngineMixer)

def setMixerTracks (tracks : List MixerTrackDesc) : EngineMixer := { m with pending := some tracks }

/-- An insert without an index is not reached, and a full ring takes nothing. -/
def setEffectParam (index : Option ℕ) (param : ParamId) (value : Double) : EngineMixer :=
  match index with
  | none => m
  | some effect =>
    if m.queue.length < effectParamCapacity then
      { m with queue := m.queue ++ [⟨effect, param, value.toFloat⟩] }
    else m

/-- Rebuild the graph when the shape changed; a routing that is no tree is refused. -/
def applyMixerSync (starts : EffectId → Bool) (tracks : List MixerTrackDesc) : EngineMixer :=
  if shapes tracks = shapes m.live then { m with live := tracks }
  else
    let nodes := buildNodes starts (tracks.take maxMixerTracks)
    if finalise nodes then { m with graph := some nodes, live := tracks } else m

/-- The housekeeping thread takes what waits. -/
def work (starts : EffectId → Bool) : EngineMixer :=
  match m.pending with
  | none => m
  | some tracks => { m with pending := none }.applyMixerSync starts tracks

/-- A block; `scheduled` are the insert events of the schedule, each at its frame of the block. -/
def renderMixer (scheduled : List (ℕ × EffectParamChange)) : EngineMixer :=
  match m.graph with
  | none => m
  | some nodes =>
    let moves := m.queue.take pendingEffectParams
    { m with
      queue := m.queue.drop pendingEffectParams
      graph := some (nodes.map fun node =>
        { node with
          effects := node.effects.map (.render (m.blockFrames + 64) scheduled moves) }) }

end EngineMixer

end OneBeat
