import OneBeat.Core.Mixer
import OneBeat.Lib.Pointwise
import OneBeat.Session.Clones

/-!
# Live effects

What the inserts that play hold, and what the model says they hold.  The chains travel as a snapshot
(`syncMixer`), values as knob moves; an insert that is rebuilt starts with its defaults, and an undo
moves no knob.

* `LiveMixer.faithful_run` : **in a run whose steps lose no value, every live insert has the values
  of its slot** once nothing waits any more.
-/

namespace OneBeat

/-! ### Knob moves -/

/-- What a parameter of the insert at an index becomes when a knob is turned. -/
def ParamInfo.turned (info : ParamInfo) (index : Option ℕ) (value : Double)
    (change : EffectParamChange) : Double :=
  if index = some change.effect ∧ change.param = info.id then info.clamp change.value else value

/-- What it becomes after some knob moves. -/
def ParamInfo.after (info : ParamInfo) (index : Option ℕ) (changes : List EffectParamChange)
    (value : Double) : Double :=
  changes.foldl (info.turned index) value

theorem ParamInfo.after_append (info : ParamInfo) (index : Option ℕ)
    (changes later : List EffectParamChange) (value : Double) :
    info.after index (changes ++ later) value =
      info.after index later (info.after index changes value) :=
  List.foldl_append

/-- Knobs of other inserts. -/
theorem ParamInfo.after_of_others {info : ParamInfo} {index : Option ℕ}
    {changes : List EffectParamChange} (h : ∀ change ∈ changes, index ≠ some change.effect)
    (value : Double) : info.after index changes value = value := by
  induction changes generalizing value with
  | nil => rfl
  | cons change changes ih =>
    have hturned : info.turned index value change = value :=
      if_neg fun hhere => h change List.mem_cons_self hhere.1
    unfold ParamInfo.after at ih ⊢
    rw [List.foldl_cons, hturned]
    exact ih (fun c hc => h c (List.mem_cons_of_mem _ hc)) value

/-! ### An insert and its events -/

namespace EffectPlugin

variable {plugin : EffectPlugin}

/-- The parameters are told apart by their ids. -/
theorem find?_param {info : ParamInfo} (h : info ∈ plugin.params) :
    plugin.params.find? (fun other => other.id = info.id) = some info := by
  have hnodup := plugin.nodup
  generalize plugin.params = params at h hnodup
  induction params with
  | nil => cases h
  | cons first params ih =>
    rw [List.map_cons, List.nodup_cons] at hnodup
    rcases List.mem_cons.1 h with rfl | hmem
    · exact List.find?_cons_of_pos (by simp)
    · have hne : first.id ≠ info.id := fun heq => hnodup.1 (heq ▸ List.mem_map_of_mem hmem)
      rw [List.find?_cons_of_neg (by simpa using hne)]
      exact ih hmem hnodup.2

theorem params_applyEvent (event : PluginEvent) :
    (plugin.applyEvent event).params = plugin.params := by
  unfold applyEvent
  split <;> rfl

theorem values_applyEvent {info : ParamInfo} (h : info ∈ plugin.params) (event : PluginEvent) :
    (plugin.applyEvent event).values info.id =
      if event.id = info.id then info.clamp event.value else plugin.values info.id := by
  unfold applyEvent
  by_cases hid : event.id = info.id
  · rw [if_pos hid, hid, find?_param h]
    exact if_pos rfl
  · rw [if_neg hid]
    split
    · rfl
    · exact if_neg (Ne.symm hid)

theorem params_foldl_applyEvent (events : List PluginEvent) :
    (events.foldl applyEvent plugin).params = plugin.params := by
  induction events generalizing plugin with
  | nil => rfl
  | cons event events ih => exact ih.trans (params_applyEvent event)

/-- The knob moves that reach an insert, one after the other. -/
theorem values_foldl_applyEvent (index : Option ℕ) (changes : List EffectParamChange)
    {info : ParamInfo} (h : info ∈ plugin.params) :
    (((changes.filter fun change => index = some change.effect).map fun change =>
      PluginEvent.paramValue 0 change.param change.value).foldl applyEvent plugin).values info.id =
        info.after index changes (plugin.values info.id) := by
  induction changes generalizing plugin with
  | nil => rfl
  | cons change changes ih =>
    unfold ParamInfo.after at ih ⊢
    rw [List.foldl_cons]
    by_cases hindex : index = some change.effect
    · rw [List.filter_cons_of_pos (by simpa using hindex), List.map_cons, List.foldl_cons,
        ih (by rwa [params_applyEvent]), values_applyEvent h]
      unfold ParamInfo.turned
      simp only [hindex, true_and]
      rfl
    · rw [List.filter_cons_of_neg (by simpa using hindex), ih h]
      unfold ParamInfo.turned
      rw [if_neg fun hhere => hindex hhere.1]

theorem values_declare {declared : List ParamInfo}
    {nodup : ((bypassParam :: declared).map ParamInfo.id).Nodup} {info : ParamInfo}
    (h : info ∈ (declare declared nodup).params) :
    (declare declared nodup).values info.id = info.defaultValue := by
  have hfind := find?_param h
  unfold declare at hfind ⊢
  dsimp only at hfind ⊢
  rw [hfind]
  rfl

end EffectPlugin

/-- A built-in effect starts with its defaults, and has a bypass. -/
theorem createBuiltinEffect_spec {id : String} {plugin : EffectPlugin}
    (h : createBuiltinEffect id = some plugin) :
    bypassParam ∈ plugin.params ∧
      ∀ info ∈ plugin.params, plugin.values info.id = info.defaultValue := by
  unfold createBuiltinEffect at h
  split_ifs at h <;> obtain rfl := Option.some_inj.1 h
  all_goals exact ⟨List.mem_cons_self, fun _ => EffectPlugin.values_declare⟩

namespace EventList

theorem foldl_push_of_le {list : EventList} {events : List PluginEvent}
    (h : list.events.length + events.length ≤ list.capacity) :
    (events.foldl push list).events = list.events ++ events := by
  induction events generalizing list with
  | nil => simp
  | cons event events ih =>
    rw [List.length_cons] at h
    have hpush : list.push event = { list with events := list.events ++ [event] } :=
      if_neg (by omega)
    rw [List.foldl_cons, hpush, ih (by simp only [List.length_append, List.length_singleton]; omega),
      List.append_assoc]
    rfl

/-- An event goes behind the sorted ones when none of them is later. -/
theorem insertByTime_of_zero {sorted : List PluginEvent} (h : ∀ event ∈ sorted, event.time = 0)
    (key : PluginEvent) : insertByTime sorted key = sorted ++ [key] := by
  rcases List.eq_nil_or_concat sorted with rfl | ⟨sorted, last, rfl⟩
  · rfl
  · rw [List.concat_eq_append, insertByTime_concat, if_neg (by simp [h last (by simp)]),
      List.append_assoc]
    rfl

/-- Events at the start of the block stay in their order. -/
theorem foldl_insertByTime_zero {events : List PluginEvent} (h : ∀ event ∈ events, event.time = 0)
    {sorted : List PluginEvent} (hsorted : ∀ event ∈ sorted, event.time = 0) :
    events.foldl insertByTime sorted = sorted ++ events := by
  induction events generalizing sorted with
  | nil => simp
  | cons event events ih =>
    rw [List.foldl_cons, insertByTime_of_zero hsorted,
      ih (fun e he => h e (List.mem_cons_of_mem _ he)) (fun e he => ?_), List.append_assoc]
    · rfl
    · rcases List.mem_append.1 he with he | he
      · exact hsorted e he
      · rw [List.mem_singleton.1 he]
        exact h event List.mem_cons_self

end EventList

/-- Without events of the schedule, an insert gets the knob moves. -/
theorem events_effectEvents {capacity : ℕ} {scheduled : List (ℕ × EffectParamChange)}
    {moves : List EffectParamChange} {index : Option ℕ}
    (hscheduled : ∀ event ∈ scheduled, index ≠ some event.2.effect)
    (hmoves : moves.length ≤ capacity) :
    (effectEvents capacity scheduled moves index).events =
      (moves.filter fun change => index = some change.effect).map fun change =>
        PluginEvent.paramValue 0 change.param change.value := by
  have hnone : (scheduled.filter fun event => index = some event.2.effect) = [] :=
    List.filter_eq_nil_iff.2 fun event hevent => by simpa using hscheduled event hevent
  have hlength : ((moves.filter fun change => index = some change.effect).map fun change =>
      PluginEvent.paramValue 0 change.param change.value).length ≤ capacity := by
    rw [List.length_map]
    exact (List.length_filter_le _ _).trans hmoves
  unfold effectEvents EventList.sortByTime
  rw [hnone, List.map_nil, List.nil_append]
  dsimp only
  rw [EventList.foldl_push_of_le (by simpa using hlength), List.nil_append,
    EventList.foldl_insertByTime_zero (fun event hevent => ?_) (by simp), List.nil_append]
  obtain ⟨change, -, rfl⟩ := List.mem_map.1 hevent
  rfl

/-! ### What an insert should hold -/

/-- The value the model says a parameter has. -/
def MixerEffectDesc.valueOf (desc : MixerEffectDesc) (info : ParamInfo) : Double :=
  if info.id = effectParamBypass then (if desc.bypassed then 1 else 0)
  else (desc.params.get? info.id).getD info.defaultValue

/-- A new insert holds what the model says once the changes have reached it. -/
def MixerEffectDesc.Fresh (changes : List EffectParamChange) (desc : MixerEffectDesc) : Prop :=
  ∀ plugin, createBuiltinEffect desc.pluginId = some plugin → ∀ info ∈ plugin.params,
    info.after desc.automationIndex changes info.defaultValue = desc.valueOf info

/-- A live insert holds what the model says once the changes have reached it. -/
structure GraphEffect.Holds (changes : List EffectParamChange) (effect : GraphEffect)
    (desc : MixerEffectDesc) : Prop where
  effectId : effect.effectId = desc.effectId
  index : effect.index = desc.automationIndex
  known : ∀ plugin, effect.plugin = some plugin →
    ∃ fresh, createBuiltinEffect desc.pluginId = some fresh ∧ plugin.params = fresh.params
  values : ∀ plugin, effect.plugin = some plugin → ∀ info ∈ plugin.params,
    info.after desc.automationIndex changes (plugin.values info.id) = desc.valueOf info

structure GraphNode.Holds (changes : List EffectParamChange) (node : GraphNode)
    (track : MixerTrackDesc) : Prop where
  trackId : node.trackId = track.trackId
  effects : List.Forall₂ (GraphEffect.Holds changes) node.effects track.effects

/-- A new insert is what it is built from. -/
theorem buildEffect_holds (starts : EffectId → Bool) {changes : List EffectParamChange}
    {built desc : MixerEffectDesc} (hshape : built.shape = desc.shape) (h : desc.Fresh changes) :
    (buildEffect starts built).Holds changes desc := by
  have hid := congrArg EffectShape.effectId hshape
  have hplugin := congrArg EffectShape.pluginId hshape
  have hindex := congrArg EffectShape.automationIndex hshape
  have hcreated : ∀ plugin, (buildEffect starts built).plugin = some plugin →
      createBuiltinEffect desc.pluginId = some plugin := by
    intro plugin hbuilt
    unfold buildEffect at hbuilt
    dsimp only at hbuilt
    split_ifs at hbuilt
    rw [← hbuilt]
    exact congrArg createBuiltinEffect hplugin.symm
  refine ⟨hid, hindex, fun plugin hbuilt => ⟨plugin, hcreated plugin hbuilt, rfl⟩,
    fun plugin hbuilt info hinfo => ?_⟩
  have hspec := (createBuiltinEffect_spec (hcreated plugin hbuilt)).2 info hinfo
  rw [hspec]
  exact h plugin (hcreated plugin hbuilt) info hinfo

/-- A block brings the changes it takes. -/
theorem GraphEffect.Holds.render {moves later : List EffectParamChange} {effect : GraphEffect}
    {desc : MixerEffectDesc} (h : effect.Holds (moves ++ later) desc) {capacity : ℕ}
    {scheduled : List (ℕ × EffectParamChange)}
    (hscheduled : ∀ event ∈ scheduled, desc.automationIndex ≠ some event.2.effect)
    (hmoves : moves.length ≤ capacity) :
    (effect.render capacity scheduled moves).Holds later desc := by
  have hevents := events_effectEvents hscheduled hmoves
  have hrendered : ∀ plugin, (effect.render capacity scheduled moves).plugin = some plugin →
      ∃ before, effect.plugin = some before ∧ plugin.params = before.params ∧
        ∀ info ∈ before.params, plugin.values info.id =
          info.after desc.automationIndex moves (before.values info.id) := by
    intro plugin hplugin
    obtain ⟨before, hbefore, rfl⟩ := Option.map_eq_some_iff.1 hplugin
    rw [h.index, hevents]
    exact ⟨before, hbefore, EffectPlugin.params_foldl_applyEvent _,
      fun info hinfo => EffectPlugin.values_foldl_applyEvent _ _ hinfo⟩
  refine ⟨h.effectId, h.index, fun plugin hplugin => ?_, fun plugin hplugin info hinfo => ?_⟩
  · obtain ⟨before, hbefore, hparams, -⟩ := hrendered plugin hplugin
    rw [hparams]
    exact h.known before hbefore
  · obtain ⟨before, hbefore, hparams, hvalues⟩ := hrendered plugin hplugin
    rw [hparams] at hinfo
    rw [hvalues info hinfo, ← ParamInfo.after_append]
    exact h.values before hbefore info hinfo

/-- A slot in which everything is at its default. -/
def MixerEffectDesc.Plain (desc : MixerEffectDesc) : Prop :=
  ∀ plugin, createBuiltinEffect desc.pluginId = some plugin → ∀ info ∈ plugin.params,
    desc.valueOf info = info.defaultValue

instance (desc : MixerEffectDesc) : Decidable desc.Plain :=
  decidable_of_iff ((createBuiltinEffect desc.pluginId).all (fun plugin =>
      plugin.params.all fun info => desc.valueOf info = info.defaultValue) = true) (by
    unfold MixerEffectDesc.Plain
    cases createBuiltinEffect desc.pluginId <;> simp)

/-- The slot stays where it is, and its values become what the changes say. -/
structure MixerEffectDesc.Told (changes : List EffectParamChange) (desc desc' : MixerEffectDesc) :
    Prop where
  shape : desc.shape = desc'.shape
  values : ∀ plugin, createBuiltinEffect desc.pluginId = some plugin → ∀ info ∈ plugin.params,
    desc'.valueOf info = info.after desc.automationIndex changes (desc.valueOf info)

structure MixerTrackDesc.Told (changes : List EffectParamChange) (track track' : MixerTrackDesc) :
    Prop where
  trackId : track.trackId = track'.trackId
  effects : List.Forall₂ (MixerEffectDesc.Told changes) track.effects track'.effects

/-- The tracks that the engine has room for. -/
def rendered (tracks : List MixerTrackDesc) : List MixerTrackDesc := tracks.take maxMixerTracks

theorem MixerEffectDesc.Plain.fresh {desc : MixerEffectDesc} (h : desc.Plain)
    {changes : List EffectParamChange}
    (hothers : ∀ change ∈ changes, desc.automationIndex ≠ some change.effect) :
    desc.Fresh changes := by
  intro plugin hplugin info hinfo
  rw [ParamInfo.after_of_others hothers, h plugin hplugin info hinfo]

theorem MixerEffectDesc.Told.fresh {changes posts : List EffectParamChange}
    {desc desc' : MixerEffectDesc} (h : desc.Told posts desc') (hfresh : desc.Fresh changes) :
    desc'.Fresh (changes ++ posts) := by
  have hplugin := congrArg EffectShape.pluginId h.shape
  have hindex := congrArg EffectShape.automationIndex h.shape
  intro plugin hcreated info hinfo
  have hcreated : createBuiltinEffect desc.pluginId = some plugin :=
    (congrArg createBuiltinEffect hplugin).trans hcreated
  rw [h.values plugin hcreated info hinfo, ← hfresh plugin hcreated info hinfo,
    ParamInfo.after_append]
  exact congrArg (fun index => info.after index posts (info.after index changes _)) hindex.symm

theorem GraphEffect.Holds.told {changes posts : List EffectParamChange} {effect : GraphEffect}
    {desc desc' : MixerEffectDesc} (h : effect.Holds changes desc) (htold : desc.Told posts desc') :
    effect.Holds (changes ++ posts) desc' := by
  have hid := congrArg EffectShape.effectId htold.shape
  have hplugin := congrArg EffectShape.pluginId htold.shape
  have hindex := congrArg EffectShape.automationIndex htold.shape
  refine ⟨h.effectId.trans hid, h.index.trans hindex, fun plugin hlive => ?_,
    fun plugin hlive info hinfo => ?_⟩
  · obtain ⟨fresh, hfresh, hparams⟩ := h.known plugin hlive
    exact ⟨fresh, (congrArg createBuiltinEffect hplugin.symm).trans hfresh, hparams⟩
  · obtain ⟨fresh, hfresh, hparams⟩ := h.known plugin hlive
    rw [htold.values fresh hfresh info (hparams ▸ hinfo), ← h.values plugin hlive info hinfo,
      ParamInfo.after_append]
    exact congrArg (fun index => info.after index posts (info.after index changes _)) hindex.symm

/-! ### The session and its mixer -/

/-- The mixer the model describes. -/
def syncMixer (s : Session) : List MixerTrackDesc :=
  s.project.mixerTracks.entries.map fun entry =>
    { trackId := entry.1
      outputId := entry.2.output
      effects := entry.2.effects.map fun slot =>
        { effectId := slot.id
          pluginId := slot.plugin.id
          automationIndex := Entries.get? s.effectIndices (entry.1, slot.id)
          bypassed := slot.bypassed
          params := slot.params } }

def postEffectParam (s : Session) (track : MixerTrackId) (effect : EffectId) (param : ParamId)
    (value : Double) (engine : EngineMixer) : EngineMixer :=
  engine.setEffectParam (Entries.get? s.effectIndices (track, effect)) param value

/-- The knob that an entry point turns when it has succeeded. -/
def post (s : Session) : Call → EngineMixer → EngineMixer
  | .edit (.mixerEffectSetParam track effect param value) _ =>
    postEffectParam s track effect param value
  | .edit (.mixerEffectSetBypassed track effect bypassed) _ =>
    postEffectParam s track effect effectParamBypass (if bypassed then 1 else 0)
  | _ => id

/-- A session, and the mixer of its engine. -/
structure LiveMixer where
  session : Session
  engine : EngineMixer

namespace LiveMixer

/-- An entry point is called, the housekeeping thread works, or a block is rendered. -/
inductive Label
  | call (call : Call)
  | work (starts : EffectId → Bool)
  | block (scheduled : List (ℕ × EffectParamChange))

/-- A call publishes the model. -/
def Publishes (st : LiveMixer) (call : Call) : Prop :=
  st.session.publishes.length < (st.session.call call).2.publishes.length

instance (st : LiveMixer) (call : Call) : Decidable (st.Publishes call) :=
  inferInstanceAs (Decidable (_ < _))

/-- The chains are handed over with each publish, the knob is turned after it. -/
def call (st : LiveMixer) (call : Call) : LiveMixer :=
  let done := st.session.call call
  let synced :=
    if st.Publishes call then st.engine.setMixerTracks (syncMixer done.2) else st.engine
  { session := done.2, engine := if done.1 then post done.2 call synced else synced }

def step (st : LiveMixer) : Label → LiveMixer
  | .call call => st.call call
  | .work starts => { st with engine := st.engine.work starts }
  | .block scheduled => { st with engine := st.engine.renderMixer scheduled }

def system : TransitionSystem LiveMixer Label where
  step st label := some (st.step label)

/-- An engine that was just created, and its first project. -/
def start (host : InstrumentId → HostAnswer) (ids : FreshIds) (sampleRate : Double)
    (blockFrames : ℕ) : LiveMixer :=
  let session := Session.create host ids sampleRate
  { session, engine := { blockFrames, pending := some (syncMixer session) } }

/-- The last sync has been applied and the ring is empty. -/
def Settled (st : LiveMixer) : Prop := st.engine.pending = none ∧ st.engine.queue = []

/-- **Every live insert has the values of its slot.** -/
def Faithful (st : LiveMixer) : Prop :=
  ∀ nodes, st.engine.graph = some nodes → ∀ node ∈ nodes, ∀ effect ∈ node.effects,
    ∀ plugin, effect.plugin = some plugin →
      ∃ track slot, st.session.project.mixerTracks.get? node.trackId = some track ∧
        slot ∈ track.effects ∧ slot.id = effect.effectId ∧
        (∀ info ∈ plugin.params, info.id ≠ effectParamBypass →
          plugin.values info.id = (slot.params.get? info.id).getD info.defaultValue) ∧
        plugin.bypassed = slot.bypassed

/-! ### Steps that lose no value -/

/-- What a call does to the chains. -/
def KeepsCall (st : LiveMixer) (call : Call) : Prop :=
  let st' := st.call call
  let before := syncMixer st.session
  let after := syncMixer st'.session
  (st.Publishes call ∨ after = before) ∧
    ∃ posts, st'.engine.queue = st.engine.queue ++ posts ∧
      if shapes after = shapes before then
        -- every value it changes is posted
        List.Forall₂ (MixerTrackDesc.Told posts) (rendered before) (rendered after)
      else if shapes after = shapes st.engine.live then
        -- the graph has not been rebuilt since it had this shape
        ∀ nodes, st.engine.graph = some nodes →
          List.Forall₂ (GraphNode.Holds st'.engine.queue) nodes (rendered after)
      else
        -- everything will be rebuilt
        ∀ track ∈ rendered after, ∀ desc ∈ track.effects,
          desc.Plain ∧ ∀ change ∈ st'.engine.queue, desc.automationIndex ≠ some change.effect

/-- The step loses no value. -/
def Keeps (st : LiveMixer) : Label → Prop
  | .call call => st.KeepsCall call
  | .work starts => ∀ tracks, st.engine.pending = some tracks →
    shapes tracks ≠ shapes st.engine.live →
      finalise (buildNodes starts (rendered tracks)) = true
  | .block scheduled => ∀ track ∈ rendered (syncMixer st.session), ∀ desc ∈ track.effects,
    if shapes (syncMixer st.session) = shapes st.engine.live then
      ∀ event ∈ scheduled, desc.automationIndex ≠ some event.2.effect
    else ∀ change ∈ st.engine.queue.take pendingEffectParams,
      desc.automationIndex ≠ some change.effect

/-- What the engine has, or will have, is what the model says, once the changes in the ring have
been brought. -/
structure InStep (st : LiveMixer) : Prop where
  shape : shapes (st.engine.pending.getD st.engine.live) = shapes (syncMixer st.session)
  live : shapes (syncMixer st.session) = shapes st.engine.live →
    ∀ nodes, st.engine.graph = some nodes →
      List.Forall₂ (GraphNode.Holds st.engine.queue) nodes (rendered (syncMixer st.session))
  fresh : shapes (syncMixer st.session) ≠ shapes st.engine.live →
    ∀ track ∈ rendered (syncMixer st.session), ∀ desc ∈ track.effects,
      desc.Fresh st.engine.queue

variable {st : LiveMixer}

/-- A track of the mixer is a track of the project. -/
theorem exists_slot {track : MixerTrackDesc} (htrack : track ∈ rendered (syncMixer st.session))
    {desc : MixerEffectDesc} (hdesc : desc ∈ track.effects) :
    ∃ entry slot, st.session.project.mixerTracks.get? track.trackId = some entry ∧
      slot ∈ entry.effects ∧ slot.id = desc.effectId ∧ desc.bypassed = slot.bypassed ∧
      desc.params = slot.params := by
  obtain ⟨⟨id, entry⟩, hentry, rfl⟩ := List.mem_map.1 (List.mem_of_mem_take htrack)
  obtain ⟨slot, hslot, rfl⟩ := List.mem_map.1 hdesc
  exact ⟨entry, slot, OrderedMap.get?_eq_some_iff.2 hentry, hslot, rfl, rfl, rfl⟩

/-- The value of the bypass is the flag. -/
theorem bypassed_of_valueOf {plugin : EffectPlugin} {desc : MixerEffectDesc}
    (h : plugin.values effectParamBypass = desc.valueOf bypassParam) :
    plugin.bypassed = desc.bypassed := by
  unfold EffectPlugin.bypassed
  rw [h]
  have hvalue : desc.valueOf bypassParam = if desc.bypassed then 1 else 0 := if_pos rfl
  rw [hvalue]
  cases desc.bypassed <;> decide +kernel

/-- **Once nothing waits, the live inserts have the values of their slots.** -/
theorem InStep.faithful (h : st.InStep) (hsettled : st.Settled) : st.Faithful := by
  obtain ⟨hpending, hqueue⟩ := hsettled
  have hshape := h.shape
  rw [hpending, Option.getD_none] at hshape
  intro nodes hnodes node hnode effect heffect plugin hplugin
  have hall := h.live hshape.symm nodes hnodes
  rw [hqueue] at hall
  obtain ⟨track, htrack, hholds⟩ := Pointwise.exists_right hall hnode
  obtain ⟨desc, hdesc, hinsert⟩ := Pointwise.exists_right hholds.effects heffect
  obtain ⟨entry, slot, hentry, hslot, hid, hbypassed, hparams⟩ := exists_slot htrack hdesc
  obtain ⟨fresh, hfresh, hknown⟩ := hinsert.known plugin hplugin
  refine ⟨entry, slot, hholds.trackId ▸ hentry, hslot, hid.trans hinsert.effectId.symm,
    fun info hinfo hne => ?_, ?_⟩
  · have hvalue : plugin.values info.id = desc.valueOf info := hinsert.values plugin hplugin info hinfo
    rw [hvalue, ← hparams]
    exact if_neg hne
  · have hbypass : bypassParam ∈ plugin.params := hknown ▸ (createBuiltinEffect_spec hfresh).1
    rw [← hbypassed]
    exact bypassed_of_valueOf (hinsert.values plugin hplugin bypassParam hbypass)

/-! ### Calls -/

theorem setEffectParam_eq (engine : EngineMixer) (index : Option ℕ) (param : ParamId)
    (value : Double) : ∃ queue, engine.setEffectParam index param value = { engine with queue } := by
  unfold EngineMixer.setEffectParam
  split
  · exact ⟨_, rfl⟩
  · split
    · exact ⟨_, rfl⟩
    · exact ⟨_, rfl⟩

/-- A call hands over the chains and turns a knob. -/
theorem engine_call (st : LiveMixer) (c : Call) : ∃ queue, (st.call c).engine =
    { st.engine with
      pending := if st.Publishes c then some (syncMixer (st.call c).session) else st.engine.pending
      queue } := by
  have hpost : ∀ engine, ∃ queue, post (st.session.call c).2 c engine = { engine with queue } := by
    intro engine
    unfold post postEffectParam
    split
    · exact setEffectParam_eq _ _ _ _
    · exact setEffectParam_eq _ _ _ _
    · exact ⟨_, rfl⟩
  unfold LiveMixer.call EngineMixer.setMixerTracks
  dsimp only
  split_ifs
  · obtain ⟨queue, hqueue⟩ := hpost { st.engine with pending := some (syncMixer (st.session.call c).2) }
    exact ⟨queue, hqueue⟩
  · obtain ⟨queue, hqueue⟩ := hpost st.engine
    exact ⟨queue, hqueue⟩
  · exact ⟨_, rfl⟩
  · exact ⟨_, rfl⟩

theorem told_live {changes posts : List EffectParamChange} {nodes : List GraphNode}
    {before after : List MixerTrackDesc}
    (h : List.Forall₂ (GraphNode.Holds changes) nodes before)
    (htold : List.Forall₂ (MixerTrackDesc.Told posts) before after) :
    List.Forall₂ (GraphNode.Holds (changes ++ posts)) nodes after :=
  Pointwise.comp (fun _ _ _ hholds htrack => ⟨hholds.trackId.trans htrack.trackId,
    Pointwise.comp (fun _ _ _ hinsert hslot => hinsert.told hslot) hholds.effects htrack.effects⟩)
    h htold

theorem InStep.call (h : st.InStep) {c : Call} (hkeeps : st.KeepsCall c) : (st.call c).InStep := by
  obtain ⟨hsync, posts, hqueue, hchains⟩ := hkeeps
  obtain ⟨queue, hengine⟩ := engine_call st c
  have hlive : (st.call c).engine.live = st.engine.live := by rw [hengine]
  have hgraph : (st.call c).engine.graph = st.engine.graph := by rw [hengine]
  have hshape : shapes ((st.call c).engine.pending.getD (st.call c).engine.live) =
      shapes (syncMixer (st.call c).session) := by
    rw [hengine]
    dsimp only
    split_ifs with hpublishes
    · rfl
    · rw [hsync.resolve_left hpublishes]
      exact h.shape
  refine ⟨hshape, fun hsame nodes hnodes => ?_, fun hother track htrack desc hdesc => ?_⟩
  · rw [hlive] at hsame
    rw [hgraph] at hnodes
    rw [if_pos hsame] at hchains
    split_ifs at hchains with hkept
    · rw [hqueue]
      exact told_live (h.live (hkept ▸ hsame) nodes hnodes) hchains
    · exact hchains nodes hnodes
  · rw [hlive] at hother
    rw [if_neg hother] at hchains
    split_ifs at hchains with hkept
    · rw [hqueue]
      obtain ⟨before, hbefore, htold⟩ := Pointwise.exists_left hchains htrack
      obtain ⟨slot, hslot, hslotTold⟩ := Pointwise.exists_left htold.effects hdesc
      exact hslotTold.fresh (h.fresh (hkept ▸ hother) before hbefore slot hslot)
    · obtain ⟨hplain, hothers⟩ := hchains track htrack desc hdesc
      exact hplain.fresh hothers

/-! ### The housekeeping thread -/

theorem buildNodes_holds (starts : EffectId → Bool) {changes : List EffectParamChange}
    {built tracks : List MixerTrackDesc}
    (hshape : built.map MixerTrackDesc.shape = tracks.map MixerTrackDesc.shape)
    (hfresh : ∀ track ∈ tracks, ∀ desc ∈ track.effects, desc.Fresh changes) :
    List.Forall₂ (GraphNode.Holds changes) (buildNodes starts built) tracks := by
  unfold buildNodes
  rw [List.forall₂_map_left_iff]
  refine Pointwise.of_map_eq hshape fun track _ other hother hsame => ?_
  refine ⟨congrArg TrackShape.trackId hsame, ?_⟩
  dsimp only
  rw [List.forall₂_map_left_iff]
  exact Pointwise.of_map_eq (congrArg TrackShape.effects hsame) fun built _ desc hdesc hslot =>
    buildEffect_holds starts hslot (hfresh other hother desc hdesc)

theorem InStep.work (h : st.InStep) {starts : EffectId → Bool}
    (hkeeps : st.Keeps (.work starts)) : (st.step (.work starts)).InStep := by
  cases hpending : st.engine.pending with
  | none =>
    have hsame : st.step (.work starts) = st := by
      unfold step EngineMixer.work
      rw [hpending]
    rw [hsame]
    exact h
  | some tracks =>
    have hshape := h.shape
    rw [hpending, Option.getD_some] at hshape
    unfold step EngineMixer.work
    rw [hpending]
    unfold EngineMixer.applyMixerSync
    dsimp only
    by_cases hsame : shapes tracks = shapes st.engine.live
    · rw [if_pos hsame]
      refine ⟨hshape, fun _ => h.live (hshape.symm.trans hsame), fun hother => ?_⟩
      exact absurd hshape.symm hother
    · -- everything is rebuilt
      have hfinal : finalise (buildNodes starts (tracks.take maxMixerTracks)) = true :=
        hkeeps tracks hpending hsame
      rw [if_neg hsame, if_pos hfinal]
      refine ⟨hshape, fun _ nodes hnodes => ?_, fun hother => absurd hshape.symm hother⟩
      obtain rfl := Option.some_inj.1 hnodes
      exact buildNodes_holds starts (congrArg Prod.snd hshape)
        (h.fresh fun heq => hsame (hshape.trans heq))

/-! ### Blocks -/

theorem InStep.block (h : st.InStep) {scheduled : List (ℕ × EffectParamChange)}
    (hkeeps : st.Keeps (.block scheduled)) : (st.step (.block scheduled)).InStep := by
  cases hgraph : st.engine.graph with
  | none =>
    have hsame : st.step (.block scheduled) = st := by
      unfold step EngineMixer.renderMixer
      rw [hgraph]
    rw [hsame]
    exact h
  | some nodes =>
    have hqueue := List.take_append_drop pendingEffectParams st.engine.queue
    unfold step EngineMixer.renderMixer
    rw [hgraph]
    refine ⟨h.shape, fun hsame rendered hrendered => ?_, fun hother track htrack desc hdesc => ?_⟩
    · obtain rfl := Option.some_inj.1 hrendered
      have hlive := h.live hsame nodes hgraph
      rw [← hqueue] at hlive
      rw [List.forall₂_map_left_iff]
      refine Pointwise.imp_of_mem hlive fun node track htrack hholds => ⟨hholds.trackId, ?_⟩
      dsimp only
      rw [List.forall₂_map_left_iff]
      refine Pointwise.imp_of_mem hholds.effects fun effect desc hdesc hinsert => ?_
      have hscheduled := hkeeps track htrack desc hdesc
      rw [if_pos hsame] at hscheduled
      exact hinsert.render hscheduled
        ((List.length_take_le _ _).trans (Nat.le_add_left _ _))
    · -- what the block takes was for inserts that are not there any more
      have hothers := hkeeps track htrack desc hdesc
      rw [if_neg hother] at hothers
      have hfresh := h.fresh hother track htrack desc hdesc
      intro plugin hplugin info hinfo
      rw [← hfresh plugin hplugin info hinfo, ← hqueue, ParamInfo.after_append,
        ParamInfo.after_of_others hothers, hqueue]

theorem InStep.step (h : st.InStep) {label : Label} (hkeeps : st.Keeps label) :
    (st.step label).InStep := by
  cases label with
  | call c => exact h.call hkeeps
  | work starts => exact h.work hkeeps
  | block scheduled => exact h.block hkeeps

/-! ### Runs -/

/-- The first project has no inserts. -/
theorem inStep_start (host : InstrumentId → HostAnswer) (ids : FreshIds) (sampleRate : Double)
    (blockFrames : ℕ) : (start host ids sampleRate blockFrames).InStep := by
  have htracks : (Session.create host ids sampleRate).project.mixerTracks =
      (freshProject ids).mixerTracks := by
    obtain ⟨names, hproject⟩ := Session.project_publishModel
      { bus := .start (freshProject ids), sampleRate, currentPattern := some ids.pattern } host false
    obtain ⟨instruments, hnamed⟩ := Session.nameLanes_eq names _
    unfold Session.create
    rw [hproject, hnamed, Tables.setLengths_eq]
    rfl
  refine ⟨rfl, fun _ nodes hnodes => ?_, fun _ track htrack desc hdesc => ?_⟩
  · cases hnodes
  · obtain ⟨entry, slot, hentry, hslot, -⟩ := exists_slot htrack hdesc
    have hentry : (freshProject ids).mixerTracks.get? track.trackId = some entry :=
      htracks ▸ hentry
    unfold freshProject newProject at hentry
    dsimp only at hentry
    rw [OrderedMap.get?_assign] at hentry
    split_ifs at hentry
    · obtain rfl := Option.some_inj.1 hentry
      cases hslot
    · cases hentry

/-- No step of a run loses a value. -/
def KeepsAll : LiveMixer → List Label → Prop
  | _, [] => True
  | st, label :: labels => st.Keeps label ∧ KeepsAll (st.step label) labels

theorem InStep.run {st' : LiveMixer} {labels : List Label} (h : st.InStep)
    (hkeeps : st.KeepsAll labels) (hrun : system.run st labels = some st') : st'.InStep := by
  induction labels generalizing st with
  | nil =>
    obtain rfl := Option.some_inj.1 hrun
    exact h
  | cons label labels ih => exact ih (h.step hkeeps.1) hkeeps.2 hrun

/-- **In a run whose steps lose no value, every live insert has the values of its slot** once the
last sync has been applied and the ring is empty. -/
theorem faithful_run {host : InstrumentId → HostAnswer} {ids : FreshIds} {sampleRate : Double}
    {blockFrames : ℕ} {labels : List Label}
    (hkeeps : (start host ids sampleRate blockFrames).KeepsAll labels)
    (hrun : system.run (start host ids sampleRate blockFrames) labels = some st)
    (hsettled : st.Settled) : st.Faithful :=
  ((inStep_start host ids sampleRate blockFrames).run hkeeps hrun).faithful hsettled

/-- An insert that plays with another value than its slot has. -/
theorem not_faithful_of_held (trackId : MixerTrackId) (effectId : EffectId) (param : ParamId)
    (held stored : Double)
    (hheld : (st.engine.graph.getD []).any (fun node => node.trackId = trackId &&
      node.effects.any fun effect => effect.effectId = effectId && effect.plugin.any fun plugin =>
        plugin.params.any (fun info => info.id = param) && plugin.values param = held) = true)
    (hstored : (st.session.project.mixerTracks.get? trackId).any (fun track =>
      track.effects.all fun slot => slot.id ≠ effectId || slot.params.get? param = some stored) =
        true)
    (hparam : param ≠ effectParamBypass) (hne : held ≠ stored) : ¬ st.Faithful := by
  intro h
  obtain ⟨node, hnode, hhere⟩ := List.any_eq_true.1 hheld
  rw [Bool.and_eq_true, decide_eq_true_eq] at hhere
  obtain ⟨effect, heffect, hinsert⟩ := List.any_eq_true.1 hhere.2
  rw [Bool.and_eq_true, decide_eq_true_eq] at hinsert
  obtain ⟨plugin, hplugin, hvalue⟩ := (Option.any_eq_true _ _).1 hinsert.2
  rw [Bool.and_eq_true, decide_eq_true_eq] at hvalue
  obtain ⟨info, hinfo, hid⟩ := List.any_eq_true.1 hvalue.1
  have hid := of_decide_eq_true hid
  cases hgraph : st.engine.graph with
  | none =>
    rw [hgraph] at hnode
    cases hnode
  | some nodes =>
    rw [hgraph] at hnode
    obtain ⟨track, slot, hget, hslot, hslotId, hvalues, -⟩ :=
      h nodes hgraph node hnode effect heffect plugin hplugin
    obtain ⟨track', hget', hall⟩ := (Option.any_eq_true _ _).1 hstored
    rw [hhere.1, hget'] at hget
    obtain rfl := Option.some_inj.1 hget
    have hslotValue := List.all_eq_true.1 hall slot hslot
    simp only [hslotId, hinsert.1, ne_eq, not_true_eq_false, decide_false, Bool.false_or,
      decide_eq_true_eq] at hslotValue
    have hsame := hvalues info hinfo (hid ▸ hparam)
    rw [hid, hslotValue, Option.getD_some, hvalue.2] at hsame
    exact hne hsame

/-! ### A reverb that is rebuilt -/

/-- Every effect starts. -/
def startAll : EffectId → Bool := fun _ => true

def reverbAdd : Call :=
  .edit (.mixerEffectAdd ⟨5⟩ ⟨1⟩ { format := .builtin, id := "dev.onebeat.fx.reverb" } (-1))
    Session.noPlugins

/-- Turn the mix of a reverb, and add a delay behind it. -/
def mixThenDelay : List Label :=
  [.call reverbAdd, .work startAll,
    .call (.edit (.mixerEffectSetParam ⟨1⟩ ⟨5⟩ 5 (.finite (1 / 2))) Session.noPlugins), .block [],
    .call (.edit (.mixerEffectAdd ⟨6⟩ ⟨1⟩ { format := .builtin, id := "dev.onebeat.fx.delay" } (-1))
      Session.noPlugins),
    .work startAll, .block []]

/-- The reverb was rebuilt, and its mix is the default again. -/
theorem not_faithful_mixThenDelay : ∃ st,
    system.run (start Session.noPlugins Session.smallIds (.finite 48000) 512) mixThenDelay =
      some st ∧ st.Settled ∧ ¬ st.Faithful := by
  refine ⟨_, rfl, ⟨Option.isNone_iff_eq_none.1 (by decide +kernel),
    List.isEmpty_iff.1 (by decide +kernel)⟩, ?_⟩
  exact not_faithful_of_held ⟨1⟩ ⟨5⟩ 5 (literal (3 / 10)) (.finite (1 / 2)) (by decide +kernel)
    (by decide +kernel) (by decide) (by decide +kernel)

/-- A reverb that is added, built and played. -/
theorem faithful_run_reverb : ∃ st,
    system.run (start Session.noPlugins Session.smallIds (.finite 48000) 512)
      [.work startAll, .call reverbAdd, .work startAll, .block []] = some st ∧ st.Faithful := by
  have hkeeps : (start Session.noPlugins Session.smallIds (.finite 48000) 512).KeepsAll
      [.work startAll, .call reverbAdd, .work startAll, .block []] := by
    refine ⟨?_, ?_, ?_, ?_, trivial⟩
    · intro tracks hpending _
      obtain rfl := Option.some_inj.1 hpending
      decide +kernel
    · refine ⟨.inl (by decide +kernel), [], rfl, ?_⟩
      rw [if_neg (by decide +kernel), if_neg (by decide +kernel)]
      decide +kernel
    · intro tracks hpending _
      obtain rfl := Option.some_inj.1 hpending
      decide +kernel
    · intro track _ desc _
      rw [if_pos (by decide +kernel)]
      intro event hevent
      cases hevent
  exact ⟨_, rfl, faithful_run hkeeps rfl ⟨Option.isNone_iff_eq_none.1 (by decide +kernel),
    List.isEmpty_iff.1 (by decide +kernel)⟩⟩

end LiveMixer

end OneBeat
