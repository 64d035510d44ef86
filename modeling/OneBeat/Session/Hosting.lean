import OneBeat.Core.Channels
import OneBeat.Lib.TransitionSystem
import OneBeat.Model.Entities

/-!
# Hosted plug-ins

What `publishModel` of `abi/onebeat_abi.cpp` does to the plug-ins that sound for instruments
(`syncHostedInstruments`), with the slots of `core/engine.cpp` they run in.  Three tables are
renumbered: the dense order of the instruments, the map of what is hosted, and the slots of the
engine.

What the machine answers when a plug-in is loaded is part of a publish.

* `Hosting.Follows` : a slot is occupied exactly when the instrument on its channel is hosted with
  success, and by that instrument's plug-in.
* `Hosting.follows_sync_iff` : a publish keeps this exactly under `Hosting.Hands`.
* `Hosting.follows_run_iff` : so does a run, exactly when each of its publishes does.
-/

namespace OneBeat

def kSamplePluginId : String := "onebeat.sample"

def isSampleInstrument (instrument : Instrument) : Bool := instrument.plugin.id = kSamplePluginId

/-- An instrument that sounds through a plug-in, and not through the sampler of its channel. -/
def isHostedInstrument (instrument : Instrument) : Bool :=
  instrument.plugin.id ≠ "" && !isSampleInstrument instrument

/-- The instruments of a project, in dense order. -/
abbrev Rack := OrderedMap InstrumentId Instrument

/-- The dense channel of an instrument. -/
def channelIndexOf (rack : Rack) (id : InstrumentId) : Option ℕ :=
  rack.entries.findIdx? fun entry => entry.1 = id

/-- What an instrument has hosted, and on which channel. -/
structure HostedSlot where
  channel : ℕ
  path : String
  pluginId : String
  name : String
  missing : Bool
  failed : Bool

/-- A plug-in that runs in a slot of the engine, and the instrument it was loaded for. -/
structure HostedPlugin where
  owner : InstrumentId
  pluginId : String
  path : String
  deriving DecidableEq

/-- What the machine answers when a plug-in is loaded. -/
structure HostAnswer where
  /-- The bundle is on disk. -/
  bundle : Bool
  /-- The plug-in was configured and activated. -/
  installed : Bool
  /-- The audio device that was stopped for the change runs again. -/
  started : Bool
  /-- What the plug-in calls itself. -/
  name : String

/-- The two tables of plug-ins, and the instruments as the last publish found them. -/
structure Hosting where
  rack : Rack := .empty
  hosted : OrderedMap InstrumentId HostedSlot := .empty
  slots : ℕ → Option HostedPlugin := fun _ => none

/-- A publish, as far as plug-ins see it. -/
structure Publish where
  /-- The project was replaced first, and what was hosted forgotten. -/
  replaced : Bool
  rack : Rack
  host : InstrumentId → HostAnswer

namespace Hosting

/-! ### What is kept -/

/-- The instrument still wants the plug-in that was loaded for it. -/
def keepsPlugin (rack : Rack) (id : InstrumentId) (slot : HostedSlot) : Bool :=
  match rack.get? id with
  | none => false
  | some instrument =>
    isHostedInstrument instrument && instrument.plugin.id = slot.pluginId &&
      instrument.plugin.pathHint = slot.path

/-- The channel a plug-in goes to; a plug-in without one is dropped. -/
def usableChannel (rack : Rack) (id : InstrumentId) (slot : HostedSlot) : Option ℕ :=
  if keepsPlugin rack id slot then (channelIndexOf rack id).filter (· < maxRackChannels) else none

/-- Where the plug-in on each channel goes; a channel nobody speaks of stays. -/
def destination (rack : Rack) (hosted : OrderedMap InstrumentId HostedSlot) : ℕ → Option ℕ :=
  hosted.entries.foldl
    (fun destination entry =>
      if entry.2.channel < maxRackChannels then
        Function.update destination entry.2.channel (usableChannel rack entry.1 entry.2)
      else destination)
    some

/-- What stays hosted, on its new channel. -/
def kept (rack : Rack) (hosted : OrderedMap InstrumentId HostedSlot) :
    OrderedMap InstrumentId HostedSlot :=
  (hosted.filter fun id slot => (usableChannel rack id slot).isSome).mapValues fun id slot =>
    { slot with channel := (usableChannel rack id slot).getD 0 }

/-- Put one plug-in where it goes. -/
def moveTo (slots : ℕ → Option HostedPlugin) (destination : ℕ → Option ℕ)
    (moved : ℕ → Option HostedPlugin) (channel : ℕ) : ℕ → Option HostedPlugin :=
  match slots channel, destination channel with
  | some plugin, some target =>
    if target < maxRackChannels then Function.update moved target (some plugin) else moved
  | _, _ => moved

/-- Some plug-in goes to another channel, or is dropped. -/
def movesAnything (slots : ℕ → Option HostedPlugin) (destination : ℕ → Option ℕ) : Bool :=
  (List.range maxRackChannels).any fun channel =>
    (slots channel).isSome && destination channel ≠ some channel

/-- `Engine::remapHostedInstruments`. -/
def remapHostedInstruments (slots : ℕ → Option HostedPlugin) (destination : ℕ → Option ℕ) :
    ℕ → Option HostedPlugin :=
  if movesAnything slots destination then
    (List.range maxRackChannels).foldl (moveTo slots destination) fun _ => none
  else slots

/-! ### What is loaded -/

/-- An instrument to load a plug-in for, and its channel. -/
structure ToHost where
  id : InstrumentId
  instrument : Instrument
  channel : ℕ

/-- The hosted instruments that have nothing hosted and a slot to host it in. -/
def toHost (rack : Rack) (hosted : OrderedMap InstrumentId HostedSlot) : List ToHost :=
  (rack.entries.zipIdx.filter fun entry =>
      isHostedInstrument entry.1.2 && !hosted.contains entry.1.1 && entry.2 < maxRackChannels).map
    fun entry => ⟨entry.1.1, entry.1.2, entry.2⟩

/-- The plug-in an instrument asks for. -/
def pluginFor (id : InstrumentId) (instrument : Instrument) : HostedPlugin :=
  ⟨id, instrument.plugin.id, instrument.plugin.pathHint⟩

/-- The record of a plug-in that was loaded, or was not. -/
def hostedSlot (host : InstrumentId → HostAnswer) (entry : ToHost) : HostedSlot :=
  let answer := host entry.id
  let failed := !(answer.installed && answer.started)
  { channel := entry.channel
    path := entry.instrument.plugin.pathHint
    pluginId := entry.instrument.plugin.id
    name := if failed then "" else answer.name
    missing := entry.instrument.plugin.pathHint = "" || !answer.bundle
    failed }

/-- Load a plug-in, or the stand-in for one that is missing. -/
def hostOne (host : InstrumentId → HostAnswer) (h : Hosting) (entry : ToHost) : Hosting :=
  { h with
    hosted := h.hosted.emplace entry.id (hostedSlot host entry)
    slots :=
      -- what was installed stays in its slot, also when the device does not start again
      if (host entry.id).installed then
        Function.update h.slots entry.channel (some (pluginFor entry.id entry.instrument))
      else h.slots }

/-- `syncHostedInstruments`. -/
def sync (rack : Rack) (host : InstrumentId → HostAnswer) (h : Hosting) : Hosting :=
  let kept := kept rack h.hosted
  (toHost rack kept).foldl (hostOne host)
    { rack, hosted := kept
      slots := remapHostedInstruments h.slots (destination rack h.hosted) }

/-- The names that freshly loaded plug-ins have for the lanes that only know an id. -/
def names (rack : Rack) (host : InstrumentId → HostAnswer) (h : Hosting) :
    List (InstrumentId × String) :=
  ((toHost rack (kept rack h.hosted)).filter fun entry =>
      (hostedSlot host entry).name ≠ "" &&
        entry.instrument.plugin.name = entry.instrument.plugin.id).map
    fun entry => (entry.id, (hostedSlot host entry).name)

/-- Forget what is hosted; the engine is not told. -/
def clear (h : Hosting) : Hosting := { h with hosted := .empty }

/-- What is hosted when a publish begins. -/
def found (h : Hosting) (publish : Publish) : Hosting := if publish.replaced then h.clear else h

/-- The publishes of a session. -/
def system : TransitionSystem Hosting Publish where
  step h publish := some ((h.found publish).sync publish.rack publish.host)

/-! ### What the slots should hold -/

/-- The plug-in that should run on a channel. -/
def expected (h : Hosting) (channel : ℕ) : Option HostedPlugin :=
  match h.rack.entries[channel]? with
  | none => none
  | some (id, instrument) =>
    match h.hosted.get? id with
    | none => none
    | some slot =>
      if isHostedInstrument instrument && !slot.failed then some (pluginFor id instrument) else none

/-- The slots hold the plug-ins of the instruments on their channels. -/
def Follows (h : Hosting) : Prop :=
  ∀ channel < maxRackChannels, h.slots channel = h.expected channel

/-! ### Dense channels -/

section

variable {rack : Rack} {id : InstrumentId} {instrument : Instrument} {slot : HostedSlot}
  {channel : ℕ}

theorem channel_unique {v w : Instrument} {c d : ℕ} (hc : rack.entries[c]? = some (id, v))
    (hd : rack.entries[d]? = some (id, w)) : c = d := by
  have hnodup : (rack.entries.map Prod.fst).Nodup := rack.sorted.imp ne_of_lt
  have hlt : c < (rack.entries.map Prod.fst).length := by
    simpa using (List.getElem?_eq_some_iff.1 hc).1
  refine (List.getElem?_inj hlt hnodup).1 ?_
  simp [hc, hd]

theorem get?_of_channel (h : rack.entries[channel]? = some (id, instrument)) :
    rack.get? id = some instrument :=
  OrderedMap.get?_eq_some_iff.2 (List.mem_of_getElem? h)

theorem channelIndexOf_eq_some_iff : channelIndexOf rack id = some channel ↔
    ∃ instrument, rack.entries[channel]? = some (id, instrument) := by
  unfold channelIndexOf
  rw [List.findIdx?_eq_some_iff_getElem]
  constructor
  · rintro ⟨hlt, hid, -⟩
    refine ⟨rack.entries[channel].2, List.getElem?_eq_some_iff.2 ⟨hlt, ?_⟩⟩
    rw [← of_decide_eq_true hid]
  · rintro ⟨instrument, h⟩
    obtain ⟨hlt, hget⟩ := List.getElem?_eq_some_iff.1 h
    refine ⟨hlt, by simp [hget], fun j hj => ?_⟩
    simp only [decide_eq_true_eq]
    intro hid
    have hget' : rack.entries[j]? = some (id, rack.entries[j].2) := by
      rw [← hid]
      exact List.getElem?_eq_getElem (hj.trans hlt)
    exact hj.ne (channel_unique hget' h)

theorem usableChannel_eq_some_iff : usableChannel rack id slot = some channel ↔
    ∃ instrument, rack.entries[channel]? = some (id, instrument) ∧ channel < maxRackChannels ∧
      isHostedInstrument instrument = true ∧ instrument.plugin.id = slot.pluginId ∧
      instrument.plugin.pathHint = slot.path := by
  unfold usableChannel
  constructor
  · intro h
    split_ifs at h with hkeeps
    obtain ⟨hindex, hlt⟩ := Option.filter_eq_some_iff.1 h
    obtain ⟨instrument, hget⟩ := channelIndexOf_eq_some_iff.1 hindex
    unfold keepsPlugin at hkeeps
    rw [get?_of_channel hget] at hkeeps
    simp only [Bool.and_eq_true, decide_eq_true_eq] at hkeeps
    exact ⟨instrument, hget, of_decide_eq_true hlt, hkeeps.1.1, hkeeps.1.2, hkeeps.2⟩
  · rintro ⟨instrument, hget, hlt, hhosted, hid, hpath⟩
    have hkeeps : keepsPlugin rack id slot = true := by
      unfold keepsPlugin
      rw [get?_of_channel hget]
      simp [hhosted, hid, hpath]
    rw [if_pos hkeeps]
    exact Option.filter_eq_some_iff.2 ⟨channelIndexOf_eq_some_iff.2 ⟨_, hget⟩, by simpa using hlt⟩

theorem get?_kept (rack : Rack) (hosted : OrderedMap InstrumentId HostedSlot) :
    (kept rack hosted).get? id = some slot ↔ ∃ old channel, hosted.get? id = some old ∧
      usableChannel rack id old = some channel ∧ slot = { old with channel } := by
  unfold kept
  rw [OrderedMap.get?_mapValues, OrderedMap.get?_filter]
  cases hold : hosted.get? id with
  | none => simp
  | some old =>
    cases hchannel : usableChannel rack id old with
    | none => simp [hchannel, Option.filter]
    | some channel => simp [hchannel, Option.filter, eq_comm]

end

/-! ### Moving what is hosted -/

/-- Writing at different places, one after the other. -/
theorem foldl_update_of_mem {ε : Type} {f : ε → Option ℕ} {place : ε → ℕ} {bound : ℕ}
    {es : List ε} (hes : (es.map place).Nodup) {e : ε} (he : e ∈ es) (hbound : place e < bound)
    (start : ℕ → Option ℕ) :
    es.foldl (fun destination e =>
      if place e < bound then Function.update destination (place e) (f e) else destination)
      start (place e) = f e := by
  induction es using List.reverseRecOn with
  | nil => cases he
  | append_singleton es last ih =>
    rw [List.foldl_append, List.foldl_cons, List.foldl_nil]
    rw [List.map_append, List.nodup_append'] at hes
    rcases List.mem_append.1 he with he | he
    · have hne : place e ≠ place last := fun h =>
        hes.2.2 (List.mem_map_of_mem he) (by simp [h])
      split_ifs
      · rw [Function.update_of_ne hne]
        exact ih hes.1 he
      · exact ih hes.1 he
    · obtain rfl := List.mem_singleton.1 he
      rw [if_pos hbound, Function.update_self]

theorem foldl_moveTo {slots : ℕ → Option HostedPlugin} {destination : ℕ → Option ℕ}
    (hinj : ∀ c < maxRackChannels, ∀ c' < maxRackChannels, ∀ target, (slots c).isSome →
      (slots c').isSome → destination c = some target → destination c' = some target → c = c')
    {target : ℕ} (htarget : target < maxRackChannels) {n : ℕ} (hn : n ≤ maxRackChannels)
    (plugin : HostedPlugin) :
    (List.range n).foldl (moveTo slots destination) (fun _ => none) target = some plugin ↔
      ∃ c < n, slots c = some plugin ∧ destination c = some target := by
  induction n with
  | zero => simp
  | succ n ih =>
    have ih := ih (Nat.le_of_succ_le hn)
    rw [List.range_succ, List.foldl_append, List.foldl_cons, List.foldl_nil]
    generalize (List.range n).foldl (moveTo slots destination) (fun _ => none) = moved at ih
    have hlater : (∃ c < n + 1, slots c = some plugin ∧ destination c = some target) ↔
        (∃ c < n, slots c = some plugin ∧ destination c = some target) ∨
          slots n = some plugin ∧ destination n = some target := by
      constructor
      · rintro ⟨c, hc, h⟩
        rcases Nat.lt_succ_iff_lt_or_eq.1 hc with hc | rfl
        · exact .inl ⟨c, hc, h⟩
        · exact .inr h
      · rintro (⟨c, hc, h⟩ | h)
        · exact ⟨c, hc.trans (Nat.lt_succ_self n), h⟩
        · exact ⟨n, Nat.lt_succ_self n, h⟩
    rw [hlater, ← ih]
    -- two slots with one destination would be one
    unfold moveTo
    cases hp : slots n with
    | none => simp
    | some p =>
      cases ht : destination n with
      | none => simp
      | some t =>
        dsimp only
        by_cases hsame : target = t
        · subst hsame
          have hfirst : moved target ≠ some plugin := by
            intro h
            obtain ⟨c, hc, hslot, hdest⟩ := ih.1 h
            exact hc.ne
              (hinj c (hc.trans hn) n hn target (by simp [hslot]) (by simp [hp]) hdest ht)
          rw [if_pos htarget, Function.update_self]
          simp [hfirst]
        · have hne : t ≠ target := Ne.symm hsame
          split_ifs
          · rw [Function.update_of_ne hsame]
            simp [hne]
          · simp [hne]

/-- Every plug-in is where its destination is, and nothing else is anywhere. -/
theorem remapHostedInstruments_eq_some_iff {slots : ℕ → Option HostedPlugin}
    {destination : ℕ → Option ℕ}
    (hinj : ∀ c < maxRackChannels, ∀ c' < maxRackChannels, ∀ target, (slots c).isSome →
      (slots c').isSome → destination c = some target → destination c' = some target → c = c')
    {target : ℕ} (htarget : target < maxRackChannels) (plugin : HostedPlugin) :
    remapHostedInstruments slots destination target = some plugin ↔
      ∃ c < maxRackChannels, slots c = some plugin ∧ destination c = some target := by
  unfold remapHostedInstruments
  split_ifs with hmoves
  · exact foldl_moveTo hinj htarget le_rfl plugin
  · have hstays : ∀ c < maxRackChannels, (slots c).isSome → destination c = some c := by
      intro c hc hsome
      by_contra hne
      exact hmoves (List.any_eq_true.2 ⟨c, List.mem_range.2 hc, by simp [hsome, hne]⟩)
    constructor
    · intro h
      exact ⟨target, htarget, h, hstays target htarget (by simp [h])⟩
    · rintro ⟨c, hc, hslot, hdest⟩
      rw [hstays c hc (by simp [hslot]), Option.some_inj] at hdest
      exact hdest ▸ hslot

/-! ### Loading -/

section

variable {host : InstrumentId → HostAnswer} {h : Hosting} {entries : List ToHost}

@[simp] theorem rack_foldl_hostOne : (entries.foldl (hostOne host) h).rack = h.rack := by
  induction entries generalizing h with
  | nil => rfl
  | cons entry entries ih => exact ih

theorem hosted_foldl_of_notMem {id : InstrumentId} (hid : id ∉ entries.map ToHost.id) :
    (entries.foldl (hostOne host) h).hosted.get? id = h.hosted.get? id := by
  induction entries generalizing h with
  | nil => rfl
  | cons entry entries ih =>
    simp only [List.map_cons, List.mem_cons, not_or] at hid
    rw [List.foldl_cons, ih hid.2, hostOne, OrderedMap.get?_emplace, if_neg hid.1]

theorem hosted_foldl_of_mem (hnodup : (entries.map ToHost.id).Nodup) {entry : ToHost}
    (hmem : entry ∈ entries) (hnew : h.hosted.get? entry.id = none) :
    (entries.foldl (hostOne host) h).hosted.get? entry.id = some (hostedSlot host entry) := by
  induction entries generalizing h with
  | nil => cases hmem
  | cons first entries ih =>
    rw [List.map_cons, List.nodup_cons] at hnodup
    rw [List.foldl_cons]
    rcases List.mem_cons.1 hmem with rfl | hmem
    · rw [hosted_foldl_of_notMem hnodup.1, hostOne, OrderedMap.get?_emplace, if_pos rfl, hnew]
      rfl
    · refine ih hnodup.2 hmem ?_
      have hne : entry.id ≠ first.id := fun heq =>
        hnodup.1 (heq ▸ List.mem_map_of_mem hmem)
      rw [hostOne, OrderedMap.get?_emplace, if_neg hne, hnew]

theorem slots_foldl_of_notMem {channel : ℕ} (hchannel : channel ∉ entries.map ToHost.channel) :
    (entries.foldl (hostOne host) h).slots channel = h.slots channel := by
  induction entries generalizing h with
  | nil => rfl
  | cons entry entries ih =>
    simp only [List.map_cons, List.mem_cons, not_or] at hchannel
    rw [List.foldl_cons, ih hchannel.2, hostOne]
    dsimp only
    split_ifs
    · exact Function.update_of_ne hchannel.1 _ _
    · rfl

theorem slots_foldl_of_mem (hnodup : (entries.map ToHost.channel).Nodup) {entry : ToHost}
    (hmem : entry ∈ entries) :
    (entries.foldl (hostOne host) h).slots entry.channel =
      if (host entry.id).installed then some (pluginFor entry.id entry.instrument)
      else h.slots entry.channel := by
  induction entries generalizing h with
  | nil => cases hmem
  | cons first entries ih =>
    rw [List.map_cons, List.nodup_cons] at hnodup
    rw [List.foldl_cons]
    rcases List.mem_cons.1 hmem with rfl | hmem
    · rw [slots_foldl_of_notMem hnodup.1, hostOne]
      dsimp only
      split_ifs
      · exact Function.update_self _ _ _
      · rfl
    · rw [ih hnodup.2 hmem]
      have hne : entry.channel ≠ first.channel := fun heq =>
        hnodup.1 (heq ▸ List.mem_map_of_mem hmem)
      refine if_congr Iff.rfl rfl ?_
      rw [hostOne]
      dsimp only
      split_ifs
      · exact Function.update_of_ne hne _ _
      · rfl

end

section

variable {rack : Rack} {hosted : OrderedMap InstrumentId HostedSlot} {entry : ToHost}

theorem mem_toHost : entry ∈ toHost rack hosted ↔
    rack.entries[entry.channel]? = some (entry.id, entry.instrument) ∧
      isHostedInstrument entry.instrument = true ∧ hosted.get? entry.id = none ∧
      entry.channel < maxRackChannels := by
  obtain ⟨id, instrument, channel⟩ := entry
  unfold toHost
  simp only [List.mem_map, List.mem_filter, Bool.and_eq_true, Bool.not_eq_true', decide_eq_true_eq,
    Prod.exists, ToHost.mk.injEq, List.mem_zipIdx_iff_getElem?, OrderedMap.contains_eq_false_iff]
  constructor
  · rintro ⟨i, v, c, ⟨hget, ⟨hhosted, hnew⟩, hlt⟩, rfl, rfl, rfl⟩
    exact ⟨hget, hhosted, hnew, hlt⟩
  · rintro ⟨hget, hhosted, hnew, hlt⟩
    exact ⟨id, instrument, channel, ⟨hget, ⟨hhosted, hnew⟩, hlt⟩, rfl, rfl, rfl⟩

theorem nodup_channels_toHost : ((toHost rack hosted).map ToHost.channel).Nodup := by
  have hzip : (rack.entries.zipIdx.map Prod.snd).Nodup := by
    rw [List.zipIdx_map_snd]
    exact List.nodup_range'
  unfold toHost
  rw [List.map_map]
  exact hzip.sublist (List.filter_sublist.map Prod.snd)

theorem nodup_ids_toHost : ((toHost rack hosted).map ToHost.id).Nodup := by
  have hzip : (rack.entries.zipIdx.map fun entry => entry.1.1).Nodup := by
    rw [show (rack.entries.zipIdx.map fun entry => entry.1.1) =
      (rack.entries.zipIdx.map Prod.fst).map Prod.fst by rw [List.map_map]; rfl,
      List.zipIdx_map_fst]
    exact rack.sorted.imp ne_of_lt
  unfold toHost
  rw [List.map_map]
  exact hzip.sublist
    (List.filter_sublist.map fun entry : (InstrumentId × Instrument) × ℕ => entry.1.1)

end

/-! ### The slots after a publish -/

variable {h : Hosting} {publish : Publish}

/-- What is hosted is recorded under the channel and the plug-in of its instrument. -/
structure Placed (h : Hosting) : Prop where
  slot : ∀ id slot, h.hosted.get? id = some slot → ∃ instrument,
    h.rack.entries[slot.channel]? = some (id, instrument) ∧ slot.channel < maxRackChannels ∧
      isHostedInstrument instrument = true ∧ instrument.plugin.id = slot.pluginId ∧
      instrument.plugin.pathHint = slot.path

/-- The channels of the rack that are not kept are loaded, all of them. -/
theorem get?_hosted_sync (rack : Rack) (host : InstrumentId → HostAnswer) (id : InstrumentId) :
    (∃ slot, (kept rack h.hosted).get? id = some slot ∧
        (h.sync rack host).hosted.get? id = some slot) ∨
      (∃ entry ∈ toHost rack (kept rack h.hosted), entry.id = id ∧
        (h.sync rack host).hosted.get? id = some (hostedSlot host entry)) ∨
      (kept rack h.hosted).get? id = none ∧
        id ∉ (toHost rack (kept rack h.hosted)).map ToHost.id ∧
        (h.sync rack host).hosted.get? id = none := by
  unfold sync
  dsimp only
  by_cases hmem : id ∈ (toHost rack (kept rack h.hosted)).map ToHost.id
  · obtain ⟨entry, hentry, rfl⟩ := List.mem_map.1 hmem
    exact .inr (.inl ⟨entry, hentry, rfl,
      hosted_foldl_of_mem nodup_ids_toHost hentry (mem_toHost.1 hentry).2.2.1⟩)
  · rw [hosted_foldl_of_notMem hmem]
    cases hkept : (kept rack h.hosted).get? id with
    | none => exact .inr (.inr ⟨rfl, hmem, rfl⟩)
    | some slot => exact .inl ⟨slot, rfl, rfl⟩

theorem placed_sync (rack : Rack) (host : InstrumentId → HostAnswer) : (h.sync rack host).Placed where
  slot id slot hslot := by
    have hrack : (h.sync rack host).rack = rack := rack_foldl_hostOne
    rw [hrack]
    rcases get?_hosted_sync (h := h) rack host id with
      ⟨kept', hkept, hget⟩ | ⟨entry, hentry, rfl, hget⟩ | ⟨-, -, hget⟩
    · rw [hget, Option.some_inj] at hslot
      subst hslot
      obtain ⟨old, channel, -, hchannel, rfl⟩ := (get?_kept rack h.hosted).1 hkept
      exact usableChannel_eq_some_iff.1 hchannel
    · rw [hget, Option.some_inj] at hslot
      subst hslot
      obtain ⟨hindex, hhosted, -, hlt⟩ := mem_toHost.1 hentry
      exact ⟨entry.instrument, hindex, hlt, hhosted, rfl, rfl⟩
    · rw [hget] at hslot
      cases hslot

/-- A channel that is loaded holds what was installed there, or else what was moved there. -/
theorem slots_sync_of_mem {rack : Rack} {host : InstrumentId → HostAnswer} {entry : ToHost}
    (hentry : entry ∈ toHost rack (kept rack h.hosted)) :
    (h.sync rack host).slots entry.channel =
      if (host entry.id).installed then some (pluginFor entry.id entry.instrument)
      else remapHostedInstruments h.slots (destination rack h.hosted) entry.channel :=
  slots_foldl_of_mem nodup_channels_toHost hentry

/-- Every other channel holds what was moved there. -/
theorem slots_sync_of_forall {rack : Rack} {host : InstrumentId → HostAnswer} {channel : ℕ}
    (hnone : ∀ entry ∈ toHost rack (kept rack h.hosted), entry.channel ≠ channel) :
    (h.sync rack host).slots channel =
      remapHostedInstruments h.slots (destination rack h.hosted) channel := by
  refine slots_foldl_of_notMem fun hmem => ?_
  obtain ⟨entry, hentry, hchannel⟩ := List.mem_map.1 hmem
  exact hnone entry hentry hchannel

/-- A plug-in that keeps running, on the channel it goes to. -/
def Keeps (rack : Rack) (hosted : OrderedMap InstrumentId HostedSlot) (channel : ℕ)
    (plugin : HostedPlugin) : Prop :=
  ∃ id slot, (kept rack hosted).get? id = some slot ∧ slot.channel = channel ∧
    slot.failed = false ∧ plugin = ⟨id, slot.pluginId, slot.path⟩

/-- The slots hold what is recorded as hosted, and nothing else. -/
theorem slots_eq_some_iff (hplaced : h.Placed) (hfollows : h.Follows) {channel : ℕ}
    (hlt : channel < maxRackChannels) {plugin : HostedPlugin} :
    h.slots channel = some plugin ↔ ∃ id slot, h.hosted.get? id = some slot ∧
      slot.channel = channel ∧ slot.failed = false ∧ plugin = ⟨id, slot.pluginId, slot.path⟩ ∧
      ∃ instrument, h.rack.entries[channel]? = some (id, instrument) ∧
        isHostedInstrument instrument = true := by
  rw [hfollows channel hlt]
  unfold expected
  constructor
  · intro hplugin
    split at hplugin
    · cases hplugin
    next id instrument hindex =>
    split at hplugin
    · cases hplugin
    next slot hslot =>
    split_ifs at hplugin with hok
    simp only [Bool.and_eq_true, Bool.not_eq_true'] at hok
    cases hplugin
    obtain ⟨instrument', hindex', -, -, hid, hpath⟩ := hplaced.slot id slot hslot
    obtain rfl := channel_unique hindex' hindex
    rw [hindex, Option.some_inj, Prod.mk.injEq] at hindex'
    obtain ⟨-, rfl⟩ := hindex'
    exact ⟨id, slot, hslot, rfl, hok.2, by rw [pluginFor, hid, hpath], instrument, hindex, hok.1⟩
  · rintro ⟨id, slot, hslot, rfl, hfailed, rfl, instrument, hindex, hhosted⟩
    obtain ⟨instrument', hindex', -, -, hid, hpath⟩ := hplaced.slot id slot hslot
    rw [hindex, Option.some_inj, Prod.mk.injEq] at hindex'
    obtain ⟨-, rfl⟩ := hindex'
    simp only [hindex, hslot]
    rw [if_pos (by simp [hhosted, hfailed]), pluginFor, hid, hpath]

/-- A plug-in that is hosted goes where its instrument went. -/
theorem destination_eq (hplaced : h.Placed) (rack : Rack) {id : InstrumentId} {slot : HostedSlot}
    (hslot : h.hosted.get? id = some slot) :
    destination rack h.hosted slot.channel = usableChannel rack id slot := by
  obtain ⟨-, -, hlt, -⟩ := hplaced.slot id slot hslot
  have hnodup : (h.hosted.entries.map fun entry => entry.2.channel).Nodup := by
    refine (OrderedMap.nodup_map_entries_iff h.hosted HostedSlot.channel).2 ?_
    intro k v hk k' v' hk' hchannel
    obtain ⟨instrument, hindex, -⟩ := hplaced.slot k v hk
    obtain ⟨instrument', hindex', -⟩ := hplaced.slot k' v' hk'
    rw [hchannel, hindex', Option.some_inj, Prod.mk.injEq] at hindex
    exact hindex.1.symm
  exact foldl_update_of_mem (f := fun entry => usableChannel rack entry.1 entry.2)
    (e := (id, slot)) hnodup (OrderedMap.get?_eq_some_iff.1 hslot) hlt some

/-- What runs in a slot is recorded, under the channel and the plug-in it has. -/
def Owned (h : Hosting) : Prop :=
  ∀ channel < maxRackChannels, ∀ plugin, h.slots channel = some plugin →
    ∃ slot, h.hosted.get? plugin.owner = some slot ∧ slot.channel = channel ∧
      slot.pluginId = plugin.pluginId ∧ slot.path = plugin.path

theorem owned_of_follows (hplaced : h.Placed) (hfollows : h.Follows) : h.Owned := by
  intro channel hlt plugin hplugin
  obtain ⟨id, slot, hslot, hchannel, -, rfl, -⟩ :=
    (slots_eq_some_iff hplaced hfollows hlt).1 hplugin
  exact ⟨slot, hslot, hchannel, rfl, rfl⟩

/-- No two plug-ins that run go to one channel. -/
theorem Owned.destination_inj (howned : h.Owned) (hplaced : h.Placed) (rack : Rack) :
    ∀ c < maxRackChannels, ∀ c' < maxRackChannels, ∀ target, (h.slots c).isSome →
      (h.slots c').isSome → destination rack h.hosted c = some target →
      destination rack h.hosted c' = some target → c = c' := by
  intro c hc c' hc' target hsome hsome' hdest hdest'
  obtain ⟨first, hfirst⟩ := Option.isSome_iff_exists.1 hsome
  obtain ⟨second, hsecond⟩ := Option.isSome_iff_exists.1 hsome'
  obtain ⟨slot, hslot, rfl, -⟩ := howned c hc first hfirst
  obtain ⟨slot', hslot', rfl, -⟩ := howned c' hc' second hsecond
  rw [destination_eq hplaced rack hslot] at hdest
  rw [destination_eq hplaced rack hslot'] at hdest'
  obtain ⟨instrument, hindex, -⟩ := usableChannel_eq_some_iff.1 hdest
  obtain ⟨instrument', hindex', -⟩ := usableChannel_eq_some_iff.1 hdest'
  rw [hindex, Option.some_inj, Prod.mk.injEq] at hindex'
  rw [hindex'.1, hslot', Option.some_inj] at hslot
  rw [hslot]

/-- What keeps running goes to the channel of its instrument, and nothing else keeps running. -/
theorem remap_eq_some_iff (hplaced : h.Placed) (hfollows : h.Follows) (rack : Rack) {channel : ℕ}
    (hlt : channel < maxRackChannels) {plugin : HostedPlugin} :
    remapHostedInstruments h.slots (destination rack h.hosted) channel = some plugin ↔
      Keeps rack h.hosted channel plugin := by
  have hinj := (owned_of_follows hplaced hfollows).destination_inj hplaced rack
  rw [remapHostedInstruments_eq_some_iff hinj hlt]
  constructor
  · rintro ⟨c, hc, hplugin, hdest⟩
    obtain ⟨id, slot, hslot, rfl, hfailed, rfl, -⟩ :=
      (slots_eq_some_iff hplaced hfollows hc).1 hplugin
    rw [destination_eq hplaced rack hslot] at hdest
    exact ⟨id, { slot with channel }, (get?_kept rack h.hosted).2 ⟨slot, channel, hslot, hdest, rfl⟩,
      rfl, hfailed, rfl⟩
  · rintro ⟨id, slot, hkept, rfl, hfailed, rfl⟩
    obtain ⟨old, channel, hold, hchannel, rfl⟩ := (get?_kept rack h.hosted).1 hkept
    obtain ⟨instrument, hindex, hbound, hhosted, -⟩ := hplaced.slot id old hold
    exact ⟨old.channel, hbound, (slots_eq_some_iff hplaced hfollows hbound).2
      ⟨id, old, hold, rfl, hfailed, rfl, instrument, hindex, hhosted⟩,
      (destination_eq hplaced rack hold).trans hchannel⟩

/-- What is kept stays off the channels that are loaded. -/
theorem channel_ne_of_mem_toHost {rack : Rack} {hosted : OrderedMap InstrumentId HostedSlot}
    {entry : ToHost} (hentry : entry ∈ toHost rack (kept rack hosted)) {id : InstrumentId}
    {slot : HostedSlot} (hkept : (kept rack hosted).get? id = some slot) :
    slot.channel ≠ entry.channel := by
  intro hchannel
  obtain ⟨hindex, -, hnew, -⟩ := mem_toHost.1 hentry
  obtain ⟨old, channel, -, husable, rfl⟩ := (get?_kept rack hosted).1 hkept
  obtain ⟨instrument, hindex', -⟩ := usableChannel_eq_some_iff.1 husable
  dsimp only at hchannel
  rw [hchannel, hindex, Option.some_inj, Prod.mk.injEq] at hindex'
  rw [hindex'.1, hkept] at hnew
  cases hnew

/-- What is loaded is recorded. -/
theorem get?_hosted_of_mem {rack : Rack} {host : InstrumentId → HostAnswer}
    {entry : ToHost}
    (hentry : entry ∈ toHost rack (kept rack h.hosted)) :
    (h.sync rack host).hosted.get? entry.id = some (hostedSlot host entry) :=
  hosted_foldl_of_mem nodup_ids_toHost hentry (mem_toHost.1 hentry).2.2.1

/-- What is kept stays recorded. -/
theorem get?_hosted_of_kept {rack : Rack} {host : InstrumentId → HostAnswer}
    {id : InstrumentId} {slot : HostedSlot}
    (hkept : (kept rack h.hosted).get? id = some slot) :
    (h.sync rack host).hosted.get? id = some slot := by
  rcases get?_hosted_sync (h := h) rack host id with
    ⟨slot', hkept', hget⟩ | ⟨entry, hentry, rfl, -⟩ | ⟨hkept', -, -⟩
  · rw [hget, ← hkept', hkept]
  · rw [(mem_toHost.1 hentry).2.2.1] at hkept
    cases hkept
  · rw [hkept'] at hkept
    cases hkept

/-- What should run on a channel that is loaded. -/
theorem expected_of_mem_toHost {rack : Rack} {host : InstrumentId → HostAnswer} {entry : ToHost}
    (hentry : entry ∈ toHost rack (kept rack h.hosted)) :
    (h.sync rack host).expected entry.channel =
      if (host entry.id).installed && (host entry.id).started then
        some (pluginFor entry.id entry.instrument)
      else none := by
  obtain ⟨hindex, hhosted, -⟩ := mem_toHost.1 hentry
  unfold expected
  rw [show (h.sync rack host).rack = rack from rack_foldl_hostOne, hindex]
  simp [get?_hosted_of_mem hentry, hhosted, hostedSlot]

/-- What should run on every other channel is what keeps running. -/
theorem expected_eq_some_iff {rack : Rack} {host : InstrumentId → HostAnswer} {channel : ℕ}
    (hlt : channel < maxRackChannels)
    (hnone : ∀ entry ∈ toHost rack (kept rack h.hosted), entry.channel ≠ channel)
    {plugin : HostedPlugin} :
    (h.sync rack host).expected channel = some plugin ↔ Keeps rack h.hosted channel plugin := by
  have hrack : (h.sync rack host).rack = rack := rack_foldl_hostOne
  constructor
  · intro hplugin
    unfold expected at hplugin
    rw [hrack] at hplugin
    split at hplugin
    · cases hplugin
    next id instrument hindex =>
    split at hplugin
    · cases hplugin
    next slot hslot =>
    split_ifs at hplugin with hok
    simp only [Bool.and_eq_true, Bool.not_eq_true'] at hok
    cases hplugin
    rcases get?_hosted_sync (h := h) rack host id with
      ⟨slot', hkept, hget⟩ | ⟨entry, hentry, rfl, hget⟩ | ⟨-, -, hget⟩
    · obtain rfl := Option.some_inj.1 (hslot.symm.trans hget)
      obtain ⟨old, target, -, husable, rfl⟩ := (get?_kept rack h.hosted).1 hkept
      obtain ⟨instrument', hindex', -, -, hid, hpath⟩ := usableChannel_eq_some_iff.1 husable
      obtain rfl := channel_unique hindex' hindex
      rw [hindex, Option.some_inj, Prod.mk.injEq] at hindex'
      obtain ⟨-, rfl⟩ := hindex'
      exact ⟨id, _, hkept, rfl, hok.2, by rw [pluginFor, hid, hpath]⟩
    · exact absurd (channel_unique (mem_toHost.1 hentry).1 hindex) (hnone entry hentry)
    · rw [hget] at hslot
      cases hslot
  · rintro ⟨id, slot, hkept, rfl, hfailed, rfl⟩
    obtain ⟨old, target, -, husable, rfl⟩ := (get?_kept rack h.hosted).1 hkept
    obtain ⟨instrument, hindex, -, hhosted, hid, hpath⟩ := usableChannel_eq_some_iff.1 husable
    unfold expected
    rw [hrack, hindex]
    simp only [get?_hosted_of_kept hkept]
    rw [if_pos (by simpa using ⟨hhosted, hfailed⟩), pluginFor, hid, hpath]

/-! ### What a publish must meet -/

/-- Where a plug-in was installed the device starts again; and when the project was replaced, every
channel that still has a plug-in gets one of the new project, which installs. -/
def Hands (h : Hosting) (publish : Publish) : Prop :=
  (∀ entry ∈ toHost publish.rack (kept publish.rack (h.found publish).hosted),
    (publish.host entry.id).installed = true → (publish.host entry.id).started = true) ∧
  (publish.replaced = true → ∀ channel < maxRackChannels, (h.slots channel).isSome →
    ∃ entry ∈ toHost publish.rack (kept publish.rack (h.found publish).hosted),
      entry.channel = channel ∧ (publish.host entry.id).installed = true)

/-- Nothing is kept when nothing is hosted. -/
theorem not_keeps_clear {rack : Rack} {channel : ℕ} {plugin : HostedPlugin} :
    ¬ Keeps rack h.clear.hosted channel plugin := by
  rintro ⟨id, slot, hkept, -⟩
  obtain ⟨old, -, hold, -⟩ := (get?_kept rack h.clear.hosted).1 hkept
  cases hold

/-- When nothing is hosted, every plug-in stays in its slot. -/
theorem remap_clear {rack : Rack} : remapHostedInstruments h.slots
    (destination rack (OrderedMap.empty : OrderedMap InstrumentId HostedSlot)) = h.slots := by
  unfold remapHostedInstruments
  refine if_neg fun hmoves => ?_
  obtain ⟨channel, -, hmoves⟩ := List.any_eq_true.1 hmoves
  simp [destination, OrderedMap.empty] at hmoves

/-- When the project was replaced, what runs stays where it is. -/
theorem remap_found_of_replaced (hreplaced : publish.replaced = true) :
    remapHostedInstruments (h.found publish).slots
      (destination publish.rack (h.found publish).hosted) = h.slots := by
  unfold found
  rw [if_pos hreplaced]
  exact remap_clear

theorem found_of_not_replaced (hreplaced : publish.replaced = false) : h.found publish = h := by
  rw [found, hreplaced]
  rfl

/-- When the project was replaced, nothing should run but what is loaded. -/
theorem not_keeps_of_replaced (hreplaced : publish.replaced = true) {channel : ℕ}
    {plugin : HostedPlugin} : ¬ Keeps publish.rack (h.found publish).hosted channel plugin := by
  unfold found
  rw [if_pos hreplaced]
  exact not_keeps_clear

theorem Follows.hands (hfollows : ((h.found publish).sync publish.rack publish.host).Follows) :
    h.Hands publish := by
  constructor
  · intro entry hentry hinstalled
    have hslot := hfollows entry.channel (mem_toHost.1 hentry).2.2.2
    rw [slots_sync_of_mem hentry, expected_of_mem_toHost hentry, hinstalled] at hslot
    by_contra hstarted
    simp [hstarted] at hslot
  · intro hreplaced channel hlt hsome
    obtain ⟨plugin, hplugin⟩ := Option.isSome_iff_exists.1 hsome
    have hbefore := congrFun (remap_found_of_replaced (h := h) hreplaced) channel
    rw [hplugin] at hbefore
    have hslot := hfollows channel hlt
    by_cases hentry : ∃ entry ∈ toHost publish.rack (kept publish.rack (h.found publish).hosted),
        entry.channel = channel
    · obtain ⟨entry, hentry, rfl⟩ := hentry
      refine ⟨entry, hentry, rfl, ?_⟩
      by_contra hinstalled
      rw [slots_sync_of_mem hentry, expected_of_mem_toHost hentry, hbefore] at hslot
      simp [hinstalled] at hslot
    · push Not at hentry
      rw [slots_sync_of_forall hentry, hbefore] at hslot
      exact absurd ((expected_eq_some_iff hlt hentry).1 hslot.symm)
        (not_keeps_of_replaced hreplaced)

theorem Hands.follows (hplaced : h.Placed) (hfollows : h.Follows) (hands : h.Hands publish) :
    ((h.found publish).sync publish.rack publish.host).Follows := by
  intro channel hlt
  obtain ⟨hstarts, hgiven⟩ := hands
  by_cases hentry : ∃ entry ∈ toHost publish.rack (kept publish.rack (h.found publish).hosted),
      entry.channel = channel
  · obtain ⟨entry, hentry, rfl⟩ := hentry
    rw [slots_sync_of_mem hentry, expected_of_mem_toHost hentry]
    cases hinstalled : (publish.host entry.id).installed with
    | true => simp [hstarts entry hentry hinstalled]
    | false =>
      -- a plug-in that does not start leaves the slot as the remapping left it
      simp only [Bool.false_eq_true, ↓reduceIte, Bool.false_and]
      refine Option.eq_none_iff_forall_ne_some.2 fun plugin hplugin => ?_
      cases hreplaced : publish.replaced with
      | true =>
        rw [remap_found_of_replaced hreplaced] at hplugin
        obtain ⟨other, hother, hchannel, hinstalled'⟩ :=
          hgiven hreplaced entry.channel hlt (by simp [hplugin])
        have hsame := (mem_toHost.1 hother).1
        rw [hchannel, (mem_toHost.1 hentry).1, Option.some_inj, Prod.mk.injEq] at hsame
        rw [← hsame.1, hinstalled] at hinstalled'
        cases hinstalled'
      | false =>
        rw [found_of_not_replaced hreplaced] at hplugin hentry
        obtain ⟨id, slot, hkept, hchannel, -⟩ :=
          (remap_eq_some_iff hplaced hfollows publish.rack hlt).1 hplugin
        exact absurd hchannel (channel_ne_of_mem_toHost hentry hkept)
  · push Not at hentry
    rw [slots_sync_of_forall hentry]
    refine Option.ext fun plugin => ?_
    rw [expected_eq_some_iff hlt hentry]
    cases hreplaced : publish.replaced with
    | true =>
      refine iff_of_false (fun hplugin => ?_) (not_keeps_of_replaced hreplaced)
      rw [remap_found_of_replaced hreplaced] at hplugin
      obtain ⟨entry, hmem, hchannel, -⟩ := hgiven hreplaced channel hlt (by simp [hplugin])
      exact hentry entry hmem hchannel
    | false =>
      rw [found_of_not_replaced hreplaced]
      exact remap_eq_some_iff hplaced hfollows publish.rack hlt

/-- **A publish keeps the slots in line exactly when it meets the condition.** -/
theorem follows_sync_iff (hplaced : h.Placed) (hfollows : h.Follows) :
    ((h.found publish).sync publish.rack publish.host).Follows ↔ h.Hands publish :=
  ⟨Follows.hands, Hands.follows hplaced hfollows⟩

theorem placed_empty : ({} : Hosting).Placed := ⟨fun id slot h => by cases h⟩

theorem follows_empty : ({} : Hosting).Follows := fun _ _ => rfl

/-- **The slots stay in line all along a run exactly when every publish of it meets the
condition.** -/
theorem follows_run_iff {publishes : List Publish} {h : Hosting}
    (hrun : system.run {} publishes = some h) :
    (∀ before h', before <+: publishes → system.run {} before = some h' → h'.Follows) ↔
      ∀ before publish h', before ++ [publish] <+: publishes →
        system.run {} before = some h' → h'.Hands publish := by
  refine TransitionSystem.always_iff Follows Hands follows_empty ?_ hrun
  intro before h publish h' hbefore hfollows hstep
  obtain rfl := Option.some_inj.1 hstep
  have hplaced : h.Placed := by
    refine TransitionSystem.Reachable.invariant placed_empty ?_ ⟨before, hbefore⟩
    intro h publish h' _ hstep
    obtain rfl := Option.some_inj.1 hstep
    exact placed_sync publish.rack publish.host
  exact follows_sync_iff hplaced hfollows

end Hosting

end OneBeat
