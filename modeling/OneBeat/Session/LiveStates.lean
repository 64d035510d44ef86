import OneBeat.Model.SavedState
import OneBeat.Session.PendingStates
import OneBeat.Session.SelectedInstance

/-!
# Live states

What the plug-ins in the slots of the engine would save.  A plug-in that keeps running takes its
state with it to the channel of its instrument; one that is loaded starts from its own beginnings,
or from the chunk that waits for it.  Loading and saving are exact here.

The history knows the model and not the states: an instrument that was away when its rack was
published comes back with a plug-in that has just been loaded.

* `LiveSession.brought_back_iff` : an instrument that is brought back by undo or redo has its state
  exactly when it was never away, or had the state of a plug-in that has just been loaded.
* `LiveSession.not_brought_back_touched` : an instrument that is removed and put back loses it.
-/

namespace OneBeat

open Bundle (Chunk)

/-! ### Slots and states -/

/-- The states of the plug-ins, by slot, and what waits for them. -/
structure Living where
  restoring : Restoring := {}
  /-- What the plug-in in each slot would save. -/
  states : ℕ → Option Chunk := fun _ => none

namespace Living

open Hosting

/-- A state goes where its plug-in goes. -/
def moveState (slots : ℕ → Option HostedPlugin) (destination : ℕ → Option ℕ)
    (states moved : ℕ → Option Chunk) (channel : ℕ) : ℕ → Option Chunk :=
  match slots channel, destination channel with
  | some _, some target =>
    if target < maxRackChannels then Function.update moved target (states channel) else moved
  | _, _ => moved

/-- `Engine::remapHostedInstruments`, for the states of the plug-ins it moves. -/
def remapStates (slots : ℕ → Option HostedPlugin) (destination : ℕ → Option ℕ)
    (states : ℕ → Option Chunk) : ℕ → Option Chunk :=
  if movesAnything slots destination then
    (List.range maxRackChannels).foldl (moveState slots destination states) fun _ => none
  else states

variable (factory : HostedPlugin → Chunk)

/-- What a plug-in that has just been loaded would save; a stand-in saves what it was made with. -/
def initialState (pending : OrderedMap InstrumentId Chunk) (host : InstrumentId → HostAnswer)
    (entry : ToHost) : Chunk :=
  if (hostedSlot host entry).missing then (pending.get? entry.id).getD []
  else factory (pluginFor entry.id entry.instrument)

def loadOne (pending : OrderedMap InstrumentId Chunk) (host : InstrumentId → HostAnswer)
    (states : ℕ → Option Chunk) (entry : ToHost) : ℕ → Option Chunk :=
  if (host entry.id).installed then
    Function.update states entry.channel (some (initialState factory pending host entry))
  else states

/-- The slot of an instrument. -/
def slotOf (rack : Rack) (id : InstrumentId) : Option ℕ :=
  (channelIndexOf rack id).filter (· < maxRackChannels)

/-- A chunk that loads is what the plug-in would save. -/
def restoreOne (hosting : Hosting) (states : ℕ → Option Chunk) (entry : InstrumentId × Chunk) :
    ℕ → Option Chunk :=
  match slotOf hosting.rack entry.1 with
  | none => states
  | some channel =>
    if (hosting.slots channel).isSome then Function.update states channel (some entry.2)
    else states

/-- What a publish does to the states. -/
def publish (l : Living) (publish : Publish) : Living :=
  let found := l.restoring.hosting.found publish
  let moved := remapStates found.slots (destination publish.rack found.hosted) l.states
  let loaded := (toHost publish.rack (kept publish.rack found.hosted)).foldl
    (loadOne factory l.restoring.pending publish.host) moved
  { restoring := l.restoring.publish (fun _ => true) publish
    states := l.restoring.pending.entries.foldl
      (restoreOne (found.sync publish.rack publish.host)) loaded }

def publishAll (l : Living) (publishes : List Publish) : Living :=
  publishes.foldl (publish factory) l

/-- The state of the plug-in that runs for an instrument. -/
def Runs (l : Living) (plugin : HostedPlugin) (state : Chunk) : Prop :=
  ∃ channel < maxRackChannels,
    (∃ instrument, l.restoring.hosting.rack.entries[channel]? = some (plugin.owner, instrument)) ∧
      l.restoring.hosting.slots channel = some plugin ∧ l.states channel = some state

/-- The instrument is in the rack with this plug-in, on a channel that has a slot. -/
def Wants (rack : Rack) (plugin : HostedPlugin) : Prop :=
  ∃ channel < maxRackChannels, ∃ instrument,
    rack.entries[channel]? = some (plugin.owner, instrument) ∧
      isHostedInstrument instrument = true ∧ pluginFor plugin.owner instrument = plugin

/-- What a plug-in would save that has just been loaded on a machine that has it; nobody knows where
one without a path is. -/
def fresh (plugin : HostedPlugin) : Chunk := if plugin.path = "" then [] else factory plugin

/-! ### Moving -/

/-- The only plug-in that goes to a channel takes its state there. -/
theorem foldl_moveState {slots : ℕ → Option HostedPlugin} {destination : ℕ → Option ℕ}
    {states : ℕ → Option Chunk} {channel target n : ℕ} (hchannel : channel < n)
    (hslot : (slots channel).isSome = true) (hdest : destination channel = some target)
    (htarget : target < maxRackChannels)
    (hunique : ∀ other < n, (slots other).isSome = true → destination other = some target →
      other = channel) :
    (List.range n).foldl (moveState slots destination states) (fun _ => none) target =
      states channel := by
  induction n with
  | zero => cases hchannel
  | succ n ih =>
    rw [List.range_succ, List.foldl_append, List.foldl_cons, List.foldl_nil]
    rcases Nat.lt_succ_iff_lt_or_eq.1 hchannel with hlt | rfl
    · have hbefore := ih hlt fun other hother => hunique other (hother.trans (Nat.lt_succ_self n))
      unfold moveState
      cases hplugin : slots n with
      | none => exact hbefore
      | some plugin =>
        cases hplace : destination n with
        | none => exact hbefore
        | some place =>
          -- the last one goes elsewhere
          have hne : target ≠ place := by
            rintro rfl
            exact hlt.ne' (hunique n (Nat.lt_succ_self n) (by rw [hplugin]; rfl) hplace)
          dsimp only
          split_ifs
          · rw [Function.update_of_ne hne]
            exact hbefore
          · exact hbefore
    · obtain ⟨plugin, hplugin⟩ := Option.isSome_iff_exists.1 hslot
      unfold moveState
      rw [hplugin, hdest]
      dsimp only
      rw [if_pos htarget, Function.update_self]

theorem remapStates_eq {slots : ℕ → Option HostedPlugin} {destination : ℕ → Option ℕ}
    {states : ℕ → Option Chunk} {channel target : ℕ} (hchannel : channel < maxRackChannels)
    (hslot : (slots channel).isSome = true) (hdest : destination channel = some target)
    (htarget : target < maxRackChannels)
    (hunique : ∀ other < maxRackChannels, (slots other).isSome = true →
      destination other = some target → other = channel) :
    remapStates slots destination states target = states channel := by
  unfold remapStates
  split_ifs with hmoves
  · exact foldl_moveState hchannel hslot hdest htarget hunique
  · -- nothing moves, so it is there already
    have hstays : destination channel = some channel := by
      by_contra hne
      exact hmoves (List.any_eq_true.2 ⟨channel, List.mem_range.2 hchannel, by simp [hslot, hne]⟩)
    rw [hdest, Option.some_inj] at hstays
    rw [hstays]

/-! ### Loading -/

theorem loadOne_of_notMem {pending : OrderedMap InstrumentId Chunk}
    {host : InstrumentId → HostAnswer} {entries : List ToHost} {states : ℕ → Option Chunk}
    {channel : ℕ} (h : channel ∉ entries.map ToHost.channel) :
    entries.foldl (loadOne factory pending host) states channel = states channel := by
  induction entries generalizing states with
  | nil => rfl
  | cons entry entries ih =>
    simp only [List.map_cons, List.mem_cons, not_or] at h
    rw [List.foldl_cons, ih h.2, loadOne]
    split_ifs
    · exact Function.update_of_ne h.1 _ _
    · rfl

theorem loadOne_of_mem {pending : OrderedMap InstrumentId Chunk}
    {host : InstrumentId → HostAnswer} {entries : List ToHost} {states : ℕ → Option Chunk}
    (hnodup : (entries.map ToHost.channel).Nodup) {entry : ToHost} (hmem : entry ∈ entries)
    (hinstalled : (host entry.id).installed = true) :
    entries.foldl (loadOne factory pending host) states entry.channel =
      some (initialState factory pending host entry) := by
  induction entries generalizing states with
  | nil => cases hmem
  | cons first entries ih =>
    rw [List.map_cons, List.nodup_cons] at hnodup
    rw [List.foldl_cons]
    rcases List.mem_cons.1 hmem with rfl | hmem
    · rw [loadOne_of_notMem factory hnodup.1, loadOne, if_pos hinstalled, Function.update_self]
    · exact ih hnodup.2 hmem

/-- Two instruments have two slots. -/
theorem slotOf_unique {rack : Rack} {id id' : InstrumentId} {channel : ℕ}
    (h : slotOf rack id = some channel) (h' : slotOf rack id' = some channel) : id = id' := by
  obtain ⟨hindex, -⟩ := Option.filter_eq_some_iff.1 h
  obtain ⟨hindex', -⟩ := Option.filter_eq_some_iff.1 h'
  obtain ⟨instrument, hget⟩ := channelIndexOf_eq_some_iff.1 hindex
  obtain ⟨instrument', hget'⟩ := channelIndexOf_eq_some_iff.1 hindex'
  rw [hget, Option.some_inj, Prod.mk.injEq] at hget'
  exact hget'.1

theorem slotOf_eq_some {rack : Rack} {id : InstrumentId} {instrument : Instrument} {channel : ℕ}
    (hindex : rack.entries[channel]? = some (id, instrument)) (hlt : channel < maxRackChannels) :
    slotOf rack id = some channel :=
  Option.filter_eq_some_iff.2
    ⟨channelIndexOf_eq_some_iff.2 ⟨instrument, hindex⟩, by simpa using hlt⟩

theorem index_sync (h : Hosting) (rack : Rack) (host : InstrumentId → HostAnswer) (channel : ℕ) :
    (h.sync rack host).rack.entries[channel]? = rack.entries[channel]? :=
  congrArg (fun rack : Rack => rack.entries[channel]?) rack_foldl_hostOne

/-- The chunks of other instruments go elsewhere. -/
theorem restoreOne_of_forall {hosting : Hosting} {entries : List (InstrumentId × Chunk)}
    {states : ℕ → Option Chunk} {channel : ℕ}
    (h : ∀ entry ∈ entries, slotOf hosting.rack entry.1 ≠ some channel) :
    entries.foldl (restoreOne hosting) states channel = states channel := by
  induction entries generalizing states with
  | nil => rfl
  | cons entry entries ih =>
    rw [List.forall_mem_cons] at h
    rw [List.foldl_cons, ih h.2, restoreOne]
    cases hother : slotOf hosting.rack entry.1 with
    | none => rfl
    | some other =>
      dsimp only
      split_ifs
      · rw [Function.update_of_ne]
        rintro rfl
        exact h.1 hother
      · rfl

/-! ### One plug-in -/

variable {l : Living} {plugin : HostedPlugin} {state : Chunk}

/-- What the next publish finds: the slots are recorded, no chunk waits for the instrument, and if
it had its plug-in at the last publish, that runs in this state. -/
structure Follows (l : Living) (plugin : HostedPlugin) (state : Chunk) : Prop where
  placed : l.restoring.hosting.Placed
  owned : l.restoring.hosting.Owned
  delivered : l.restoring.pending.contains plugin.owner = false
  runs : Wants l.restoring.hosting.rack plugin → l.Runs plugin state

theorem hosting_publish (l : Living) (publish : Publish) :
    (l.publish factory publish).restoring.hosting =
      (l.restoring.hosting.found publish).sync publish.rack publish.host :=
  Restoring.hosting_publish _ _ _

/-- No other chunk is loaded into the slot of an instrument for which none waits. -/
theorem restored_of_delivered {hosting : Hosting} {pending : OrderedMap InstrumentId Chunk}
    {id : InstrumentId} (hdelivered : pending.contains id = false) {channel : ℕ}
    (hslot : slotOf hosting.rack id = some channel) (states : ℕ → Option Chunk) :
    pending.entries.foldl (restoreOne hosting) states channel = states channel := by
  refine restoreOne_of_forall fun entry hentry hother => ?_
  obtain rfl := slotOf_unique hother hslot
  have hwaits := OrderedMap.contains_eq_true_iff.2 ⟨entry.2, OrderedMap.get?_eq_some_iff.2 hentry⟩
  rw [hdelivered] at hwaits
  cases hwaits

/-- A plug-in that keeps running keeps its state. -/
theorem Runs.publish (h : l.Runs plugin state) (hfollows : l.Follows plugin state)
    {publish : Publish} (hkeeps : publish.replaced = false) (hwants : Wants publish.rack plugin) :
    (l.publish factory publish).Runs plugin state := by
  obtain ⟨channel, hlt, -, hslot, hstate⟩ := h
  obtain ⟨target, htarget, instrument, hindex, hhosted, hplugin⟩ := hwants
  obtain ⟨slot, hrecord, rfl, hid, hpath⟩ := hfollows.owned channel hlt plugin hslot
  have husable : usableChannel publish.rack plugin.owner slot = some target :=
    usableChannel_eq_some_iff.2 ⟨instrument, hindex, htarget, hhosted,
      (congrArg HostedPlugin.pluginId hplugin).trans hid.symm,
      (congrArg HostedPlugin.path hplugin).trans hpath.symm⟩
  have hdest := destination_eq hfollows.placed publish.rack hrecord
  rw [husable] at hdest
  have hsome : (l.restoring.hosting.slots slot.channel).isSome = true := by
    rw [hslot]
    rfl
  have hinj := hfollows.owned.destination_inj hfollows.placed publish.rack
  have hkept : (kept publish.rack l.restoring.hosting.hosted).get? plugin.owner =
      some { slot with channel := target } :=
    (get?_kept _ _).2 ⟨slot, target, hrecord, husable, rfl⟩
  -- nothing is loaded where something is kept
  have hnone : ∀ entry ∈ toHost publish.rack (kept publish.rack l.restoring.hosting.hosted),
      entry.channel ≠ target := by
    rintro entry hentry rfl
    obtain ⟨hentry', -, hnew, -⟩ := mem_toHost.1 hentry
    rw [hindex, Option.some_inj, Prod.mk.injEq] at hentry'
    rw [← hentry'.1, hkept] at hnew
    cases hnew
  refine ⟨target, htarget, ⟨instrument, ?_⟩, ?_, ?_⟩
  · rw [hosting_publish, found_of_not_replaced hkeeps]
    exact (index_sync _ _ _ _).trans hindex
  · rw [hosting_publish, found_of_not_replaced hkeeps, slots_sync_of_forall hnone]
    exact (remapHostedInstruments_eq_some_iff hinj htarget plugin).2
      ⟨slot.channel, hlt, hslot, hdest⟩
  · unfold Living.publish
    dsimp only
    rw [found_of_not_replaced hkeeps, restored_of_delivered hfollows.delivered, loadOne_of_notMem,
      remapStates_eq hlt hsome hdest htarget, hstate]
    · intro other hother hsome' hdest'
      exact hinj other hother slot.channel hlt target hsome' hsome hdest' hdest
    · intro hmem
      obtain ⟨entry, hentry, hchannel⟩ := List.mem_map.1 hmem
      exact hnone entry hentry hchannel
    · exact slotOf_eq_some ((index_sync _ _ _ _).trans hindex) htarget

/-- The plug-in is there, and is hosted. -/
def Works (answer : HostAnswer) : Prop :=
  answer.bundle = true ∧ answer.installed = true ∧ answer.started = true

instance (answer : HostAnswer) : Decidable (Works answer) := by
  unfold Works
  infer_instance

/-- A plug-in that was away is loaded afresh. -/
theorem runs_publish_of_away (hfollows : l.Follows plugin state) {publish : Publish}
    (hkeeps : publish.replaced = false) (hworks : Works (publish.host plugin.owner))
    (haway : ¬ Wants l.restoring.hosting.rack plugin) (hwants : Wants publish.rack plugin) :
    (l.publish factory publish).Runs plugin (fresh factory plugin) := by
  obtain ⟨target, htarget, instrument, hindex, hhosted, hplugin⟩ := hwants
  have hkept : (kept publish.rack l.restoring.hosting.hosted).get? plugin.owner = none := by
    refine Option.eq_none_iff_forall_ne_some.2 fun slot hslot => haway ?_
    obtain ⟨old, channel, hold, husable, rfl⟩ := (get?_kept _ _).1 hslot
    obtain ⟨before, hbefore, hlt, hhosted', hid', hpath'⟩ := hfollows.placed.slot _ old hold
    obtain ⟨after, hafter, -, -, hid, hpath⟩ := usableChannel_eq_some_iff.1 husable
    obtain rfl := channel_unique hindex hafter
    rw [hindex, Option.some_inj, Prod.mk.injEq] at hafter
    obtain ⟨-, rfl⟩ := hafter
    refine ⟨old.channel, hlt, before, hbefore, hhosted', ?_⟩
    rw [← hplugin, pluginFor, pluginFor, hid', hpath', hid, hpath]
  have hentry : (⟨plugin.owner, instrument, target⟩ : ToHost) ∈
      toHost publish.rack (kept publish.rack l.restoring.hosting.hosted) :=
    mem_toHost.2 ⟨hindex, hhosted, hkept, htarget⟩
  obtain ⟨hbundle, hinstalled, -⟩ := hworks
  refine ⟨target, htarget, ⟨instrument, ?_⟩, ?_, ?_⟩
  · rw [hosting_publish, found_of_not_replaced hkeeps]
    exact (index_sync _ _ _ _).trans hindex
  · rw [hosting_publish, found_of_not_replaced hkeeps]
    rw [slots_sync_of_mem hentry, if_pos hinstalled, hplugin]
  · have hloaded : ∀ states : ℕ → Option Chunk,
        (toHost publish.rack (kept publish.rack l.restoring.hosting.hosted)).foldl
          (loadOne factory l.restoring.pending publish.host) states target =
            some (fresh factory plugin) := by
      intro states
      rw [loadOne_of_mem factory nodup_channels_toHost hentry hinstalled]
      have hwaits := OrderedMap.contains_eq_false_iff.1 hfollows.delivered
      have hpath : instrument.plugin.pathHint = plugin.path :=
        congrArg HostedPlugin.path hplugin
      rw [initialState, fresh, hostedSlot, hwaits, hbundle, hplugin, hpath]
      simp
    unfold Living.publish
    dsimp only
    rw [found_of_not_replaced hkeeps, restored_of_delivered hfollows.delivered]
    · exact hloaded _
    · exact slotOf_eq_some ((index_sync _ _ _ _).trans hindex) htarget

/-! ### Several publishes -/

theorem rack_publish (l : Living) (publish : Publish) :
    (l.publish factory publish).restoring.hosting.rack = publish.rack := by
  rw [hosting_publish]
  exact rack_foldl_hostOne

theorem Follows.publish (h : l.Follows plugin state) {publish : Publish}
    (hkeeps : publish.replaced = false) {state' : Chunk}
    (hruns : Wants publish.rack plugin → (l.publish factory publish).Runs plugin state') :
    (l.publish factory publish).Follows plugin state' where
  placed := by
    rw [hosting_publish]
    exact placed_sync publish.rack publish.host
  owned := by
    rw [hosting_publish, found_of_not_replaced hkeeps]
    exact h.owned.sync h.placed publish.rack publish.host
  delivered := Bool.eq_false_iff.2 fun hwaits =>
    Bool.eq_false_iff.1 h.delivered (Restoring.waits_publish hwaits).1
  runs hwants := hruns (by rwa [rack_publish] at hwants)

/-- What is known of the plug-in after some publishes: it was never away and has its state, or it
was, and if it is back it was loaded afresh. -/
def Tracks (plugin : HostedPlugin) (state : Chunk) (publishes : List Publish) (l : Living) : Prop :=
  (∀ publish ∈ publishes, Wants publish.rack plugin) ∧
      Wants l.restoring.hosting.rack plugin ∧ l.Follows plugin state ∨
    (∃ publish ∈ publishes, ¬ Wants publish.rack plugin) ∧ l.Follows plugin (fresh factory plugin)

variable {publishes : List Publish}

variable {factory} in
/-- **A publish keeps track of a plug-in.** -/
theorem Tracks.publish (h : Tracks factory plugin state publishes l) {publish : Publish}
    (hkeeps : publish.replaced = false) (hworks : Works (publish.host plugin.owner)) :
    Tracks factory plugin state (publishes ++ [publish]) (l.publish factory publish) := by
  rcases h with ⟨hstays, hwants, hfollows⟩ | ⟨haway, hfollows⟩
  · by_cases hwants' : Wants publish.rack plugin
    · refine .inl ⟨List.forall_mem_append.2 ⟨hstays, List.forall_mem_singleton.2 hwants'⟩, ?_,
        hfollows.publish factory hkeeps fun hwants' =>
          (hfollows.runs hwants).publish factory hfollows hkeeps hwants'⟩
      rw [rack_publish]
      exact hwants'
    · exact .inr ⟨⟨publish, List.mem_append_right _ (List.mem_singleton_self _), hwants'⟩,
        hfollows.publish factory hkeeps fun hwants => absurd hwants hwants'⟩
  · obtain ⟨away, hmem, haway⟩ := haway
    refine .inr ⟨⟨away, List.mem_append_left _ hmem, haway⟩,
      hfollows.publish factory hkeeps fun hwants => ?_⟩
    by_cases hbefore : Wants l.restoring.hosting.rack plugin
    · exact (hfollows.runs hbefore).publish factory hfollows hkeeps hwants
    · exact runs_publish_of_away factory hfollows hkeeps hworks hbefore hwants

variable {factory} in
theorem Tracks.publishAll (h : Tracks factory plugin state publishes l) {later : List Publish}
    (hlater : ∀ publish ∈ later, publish.replaced = false ∧ Works (publish.host plugin.owner)) :
    Tracks factory plugin state (publishes ++ later) (l.publishAll factory later) := by
  induction later generalizing l publishes with
  | nil => rwa [List.append_nil]
  | cons publish later ih =>
    rw [List.forall_mem_cons] at hlater
    rw [List.append_cons]
    exact ih (h.publish hlater.1.1 hlater.1.2) hlater.2

/-- Another plug-in may change its state, and chunks may be forgotten. -/
theorem Follows.congr (h : l.Follows plugin state) {l' : Living}
    (hhosting : l'.restoring.hosting = l.restoring.hosting)
    (hpending : ∀ id, l'.restoring.pending.contains id = true →
      l.restoring.pending.contains id = true)
    (hstates : ∀ channel, slotOf l.restoring.hosting.rack plugin.owner = some channel →
      l'.states channel = l.states channel) : l'.Follows plugin state where
  placed := hhosting ▸ h.placed
  owned := hhosting ▸ h.owned
  delivered := Bool.eq_false_iff.2 fun hwaits => Bool.eq_false_iff.1 h.delivered (hpending _ hwaits)
  runs hwants := by
    rw [hhosting] at hwants
    obtain ⟨channel, hlt, hthere, hslot, hstate⟩ := h.runs hwants
    obtain ⟨instrument, hindex⟩ := hthere
    refine ⟨channel, hlt, ?_, ?_, ?_⟩
    · rw [hhosting]
      exact ⟨instrument, hindex⟩
    · rw [hhosting]
      exact hslot
    · rw [hstates channel (slotOf_eq_some hindex hlt)]
      exact hstate

variable {factory} in
theorem Tracks.congr (h : Tracks factory plugin state publishes l) {l' : Living}
    (hhosting : l'.restoring.hosting = l.restoring.hosting)
    (hfollows : ∀ state, l.Follows plugin state → l'.Follows plugin state) :
    Tracks factory plugin state publishes l' := by
  rcases h with ⟨hstays, hwants, hbefore⟩ | ⟨haway, hbefore⟩
  · exact .inl ⟨hstays, by rwa [hhosting], hfollows _ hbefore⟩
  · exact .inr ⟨haway, hfollows _ hbefore⟩

/-- What runs is what the rack asks for. -/
theorem Runs.wants (h : l.Runs plugin state) (hplaced : l.restoring.hosting.Placed)
    (howned : l.restoring.hosting.Owned) : Wants l.restoring.hosting.rack plugin := by
  obtain ⟨channel, hlt, -, hslot, -⟩ := h
  obtain ⟨slot, hrecord, rfl, hid, hpath⟩ := howned channel hlt plugin hslot
  obtain ⟨instrument, hindex, -, hhosted, hid', hpath'⟩ := hplaced.slot _ slot hrecord
  refine ⟨slot.channel, hlt, instrument, hindex, hhosted, ?_⟩
  rw [pluginFor, hid', hid, hpath', hpath]

theorem restoring_publishAll (l : Living) (publishes : List Publish) :
    (l.publishAll factory publishes).restoring =
      Restoring.publishAll (fun _ _ => true) l.restoring publishes := by
  induction publishes generalizing l with
  | nil => rfl
  | cons publish publishes ih => exact ih _

end Living

/-! ### Sessions -/

/-- A session, and the states of its plug-ins. -/
structure LiveSession where
  opened : OpenStates
  /-- What the plug-in in each slot would save. -/
  memory : ℕ → Option Chunk := fun _ => none

/-- A call, with what it finds in files, or a change of a plug-in's state. -/
inductive LiveStep
  | call (call : Call) (files : InstrumentId → Option Chunk)
  | change (id : InstrumentId) (chunk : Chunk)

namespace LiveSession

variable (factory : HostedPlugin → Chunk)

def living (l : LiveSession) : Living := ⟨l.opened.states, l.memory⟩

/-- A call whose chunks load. -/
def afterCall (l : LiveSession) (call : Call) (files : InstrumentId → Option Chunk) :
    LiveSession :=
  let c : StateCall := ⟨call, files, fun _ _ => true⟩
  let opened := l.opened.call c
  { opened
    memory := (Living.publishAll factory ⟨l.opened.begun c, l.memory⟩
      (opened.session.publishes.drop l.opened.session.publishes.length)).states }

/-- A plug-in that runs changes its state: a parameter moved, or a preset was chosen. -/
def afterChange (l : LiveSession) (id : InstrumentId) (chunk : Chunk) : LiveSession :=
  match Living.slotOf l.opened.states.hosting.rack id with
  | none => l
  | some channel =>
    if (l.opened.states.hosting.slots channel).isSome then
      { l with memory := Function.update l.memory channel (some chunk) }
    else l

def after (l : LiveSession) : LiveStep → LiveSession
  | .call call files => l.afterCall factory call files
  | .change id chunk => l.afterChange id chunk

def system : TransitionSystem LiveSession LiveStep where
  step l step := some (l.after factory step)

def create (host : InstrumentId → HostAnswer) (ids : FreshIds) (sampleRate : Double) :
    LiveSession where
  opened := OpenStates.create host ids sampleRate
  memory := (Living.publishAll factory {} (Session.create host ids sampleRate).publishes).states

/-- `Engine::saveHostedState`, on the channel of an instrument. -/
def saveHostedState (l : LiveSession) (id : InstrumentId) : Option Chunk :=
  (Living.slotOf l.opened.session.project.instruments id).bind fun channel =>
    if (l.opened.states.hosting.slots channel).isSome then l.memory channel else none

/-- What a save asks for the state of an instrument. -/
def stateProvider (l : LiveSession) (id : InstrumentId) : Chunk := (l.saveHostedState id).getD []

/-- A save that succeeds stores this state for the instrument; an empty one is not stored. -/
def Stores (l : LiveSession) (id : InstrumentId) (state : Chunk) : Prop :=
  l.stateProvider id = state ∧ ∀ sha256Hex copyStateFrom folder writeProjectJson disk,
    (Bundle.saveProject sha256Hex ⟨l.stateProvider, copyStateFrom⟩ folder writeProjectJson disk
      l.opened.session.project).failed = false → state ≠ [] →
        Bundle.Kept sha256Hex ⟨l.stateProvider, copyStateFrom⟩ folder
          (Bundle.saveProject sha256Hex ⟨l.stateProvider, copyStateFrom⟩ folder writeProjectJson
            disk l.opened.session.project) id

/-! ### What holds of every session -/

end LiveSession

namespace Restoring

/-- Where a chunk waits there is no plug-in. -/
def Delivered (r : Restoring) : Prop := ∀ id, r.pending.contains id = true → r.pluginOf id = none

theorem delivered_publishAll {r : Restoring} {publishes : List Publish}
    (h : r.Delivered ∨ publishes ≠ []) :
    (publishAll (fun _ _ => true) r publishes).Delivered := by
  induction publishes generalizing r with
  | nil => exact h.resolve_right fun hne => hne rfl
  | cons publish publishes ih => exact ih (.inl fun id hwaits => (waits_publish hwaits).2 rfl)

theorem placed_publishAll {r : Restoring} (h : r.hosting.Placed) (takes : ℕ → InstrumentId → Bool)
    (publishes : List Publish) : (publishAll takes r publishes).hosting.Placed := by
  induction publishes generalizing r takes with
  | nil => exact h
  | cons publish publishes ih =>
    refine ih ?_ _
    rw [hosting_publish]
    exact Hosting.placed_sync publish.rack publish.host

end Restoring

namespace LiveSession

variable {factory : HostedPlugin → Chunk}

/-- Nobody waits, so nothing is asked of a call. -/
theorem meetsCall_nobody (s : Session) (call : Call) :
    Session.MeetsCall (OpenStates.ownPlugins {}) s call := by
  cases hkeeps : call.replaces with
  | false =>
    refine OpenStates.meetsCall (p := ⟨s, {}⟩) (c := ⟨call, fun _ => none, fun _ _ => true⟩) ?_
      hkeeps
    unfold OpenStates.KeepsOwn
    split
    · exact fun _ hwaits => by cases hwaits
    · rfl
    · rfl
    next hcall =>
      dsimp only at hcall
      rw [hcall] at hkeeps
      cases hkeeps
    · trivial
  | true =>
    cases call with
    | projectNew ids host => trivial
    | projectOpen loaded host =>
      cases loaded with
      | none => trivial
      | some project => exact OpenStates.upholds_of_awaits fun _ _ _ hwaits => by cases hwaits
    | _ => cases hkeeps

/-- What holds of a session after every call. -/
structure Settled (l : LiveSession) : Prop where
  placed : l.opened.states.hosting.Placed
  hosting : l.opened.states.hosting = l.opened.session.hosting
  bus : l.opened.session.bus.Upholds (OpenStates.ownPlugins {}).standard
  delivered : l.opened.states.Delivered

variable {l : LiveSession}

theorem hosting_begun (p : OpenStates) (c : StateCall) :
    (p.begun c).hosting = p.states.hosting := by
  unfold OpenStates.begun
  split <;> rfl

theorem Settled.afterCall (h : l.Settled) (call : Call) (files : InstrumentId → Option Chunk) :
    (l.afterCall factory call files).Settled where
  placed := by
    refine Restoring.placed_publishAll ?_ _ _
    rw [hosting_begun]
    exact h.placed
  hosting := OpenStates.hosting_call h.hosting _
  bus := Session.bus_upholds_call h.bus call (meetsCall_nobody _ call)
  delivered := by
    refine Restoring.delivered_publishAll ?_
    unfold OpenStates.begun
    split
    · exact .inl nofun
    · exact .inl nofun
    next project host hcall =>
      -- what comes with a project is handed out at once
      refine .inr ?_
      dsimp only at hcall
      rw [hcall]
      have hpublishes := OpenStates.drop_publishes (OpenStates.publishes_publishModel host
        { l.opened.session.replaceProject project project.patterns.keys.head? with
          dirty := true } true)
      exact ne_of_eq_of_ne hpublishes (List.cons_ne_nil _ _)
    · exact .inl h.delivered

theorem settled_create (factory : HostedPlugin → Chunk) (host : InstrumentId → HostAnswer) (ids : FreshIds) (sampleRate : Double) :
    (create factory host ids sampleRate).Settled where
  placed := Restoring.placed_publishAll Hosting.placed_empty _ _
  hosting := OpenStates.hosting_of_reachable ⟨[], rfl⟩
  bus := (Session.upholds_create (OpenStates.ownPlugins {}) host ids sampleRate).1
  delivered := Restoring.delivered_publishAll (.inl nofun)

theorem afterChange_eq (l : LiveSession) (id : InstrumentId) (chunk : Chunk) :
    ∃ memory, l.afterChange id chunk = { l with memory } ∧ ∀ channel,
      Living.slotOf l.opened.states.hosting.rack id ≠ some channel →
        memory channel = l.memory channel := by
  unfold LiveSession.afterChange
  split
  · exact ⟨l.memory, rfl, fun _ _ => rfl⟩
  next place hplace =>
    split_ifs
    · refine ⟨_, rfl, fun channel hne => Function.update_of_ne ?_ _ _⟩
      rintro rfl
      exact hne hplace
    · exact ⟨l.memory, rfl, fun _ _ => rfl⟩

theorem Settled.after (h : l.Settled) (step : LiveStep) : (l.after factory step).Settled := by
  cases step with
  | call call files => exact h.afterCall call files
  | change id chunk =>
    obtain ⟨memory, heq, -⟩ := l.afterChange_eq id chunk
    rw [LiveSession.after, heq]
    exact ⟨h.placed, h.hosting, h.bus, h.delivered⟩

/-! ### Keeping track -/

/-- The project stays open, and this plug-in is not played with. -/
def LeavesAlone (id : InstrumentId) : LiveStep → Prop
  | .call call _ => call.replaces = false
  | .change other _ => other ≠ id

variable {plugin : HostedPlugin} {state : Chunk}

theorem tracks_afterCall (h : l.Settled) {publishes : List Publish}
    (htracks : l.living.Tracks factory plugin state publishes) {call : Call}
    (hkeeps : call.replaces = false) (files : InstrumentId → Option Chunk) :
    ∃ later, (l.afterCall factory call files).opened.session.publishes =
        l.opened.session.publishes ++ later ∧
      ((∀ publish ∈ later, Living.Works (publish.host plugin.owner)) →
        (l.afterCall factory call files).living.Tracks factory plugin state
          (publishes ++ later)) := by
  obtain ⟨-, later, hlater, hall⟩ := Session.upholds_call
    (Session.upholds_of_bus h.bus false) call hkeeps (meetsCall_nobody _ call)
  refine ⟨later, hlater, fun hworks => ?_⟩
  have hbegun : (⟨l.opened.begun ⟨call, files, fun _ _ => true⟩, l.memory⟩ : Living).Tracks factory
      plugin state publishes := by
    have hhosting := hosting_begun l.opened ⟨call, files, fun _ _ => true⟩
    refine htracks.congr hhosting fun _ h => h.congr hhosting (fun id => ?_) fun _ _ => rfl
    unfold OpenStates.begun
    split
    · exact nofun
    · exact nofun
    next hcall =>
      dsimp only at hcall
      rw [hcall] at hkeeps
      cases hkeeps
    · exact fun hwaits => hwaits
  have hpublished := hbegun.publishAll fun publish hpublish =>
    ⟨Bool.eq_false_iff.2 fun hreplaced =>
      Bool.false_ne_true ((hall publish hpublish).1 hreplaced), hworks publish hpublish⟩
  have hdrop := OpenStates.drop_publishes hlater
  refine hpublished.congr ?_ fun _ h => h.congr ?_ ?_ ?_
  all_goals
    unfold living LiveSession.afterCall OpenStates.call
    dsimp only
    rw [hdrop, Living.restoring_publishAll]
  · exact fun _ hwaits => hwaits
  · exact fun _ _ => rfl

theorem tracks_afterChange {publishes : List Publish}
    (htracks : l.living.Tracks factory plugin state publishes) {id : InstrumentId}
    (hne : id ≠ plugin.owner) (chunk : Chunk) :
    (l.afterChange id chunk).living.Tracks factory plugin state publishes := by
  obtain ⟨memory, heq, hmemory⟩ := l.afterChange_eq id chunk
  rw [heq]
  refine htracks.congr rfl fun _ h => h.congr rfl (fun _ hwaits => hwaits) fun channel hchannel =>
    hmemory channel ?_
  exact fun hother => hne (Living.slotOf_unique hother hchannel)

theorem tracks_run {l l' : LiveSession} (h : l.Settled)
    (hruns : l.living.Runs plugin state) (howned : l.opened.states.hosting.Owned)
    {steps : List LiveStep} (halone : ∀ step ∈ steps, LeavesAlone plugin.owner step)
    (hrun : (system factory).run l steps = some l') :
    l'.Settled ∧ ∃ later, l'.opened.session.publishes = l.opened.session.publishes ++ later ∧
      ((∀ publish ∈ later, Living.Works (publish.host plugin.owner)) →
        l'.living.Tracks factory plugin state later) := by
  have hwaits : l.opened.states.pending.contains plugin.owner = false := by
    refine Bool.eq_false_iff.2 fun hwaits => ?_
    obtain ⟨channel, hlt, ⟨instrument, hindex⟩, hslot, -⟩ := hruns
    have hnone := h.delivered plugin.owner hwaits
    rw [Restoring.pluginOf, show (channelIndexOf l.opened.states.hosting.rack plugin.owner).filter
      (· < maxRackChannels) = some channel from Living.slotOf_eq_some hindex hlt] at hnone
    exact Option.some_ne_none _ (hslot.symm.trans hnone)
  refine TransitionSystem.invariant (I := fun done l' => (∀ step ∈ done,
    LeavesAlone plugin.owner step) → l'.Settled ∧ ∃ later,
      l'.opened.session.publishes = l.opened.session.publishes ++ later ∧
        ((∀ publish ∈ later, Living.Works (publish.host plugin.owner)) →
          l'.living.Tracks factory plugin state later)) ?_ ?_ hrun halone
  · refine fun _ => ⟨h, [], (List.append_nil _).symm, fun _ => .inl ⟨nofun, ?_, ?_⟩⟩
    · exact hruns.wants h.placed howned
    · exact ⟨h.placed, howned, hwaits, fun _ => hruns⟩
  · intro done between step after hdone hbetween hstep halone
    obtain rfl := Option.some_inj.1 hstep
    rw [List.forall_mem_append, List.forall_mem_singleton] at halone
    obtain ⟨hsettled, later, hlater, htracks⟩ := hbetween halone.1
    refine ⟨hsettled.after step, ?_⟩
    cases step with
    | call call files =>
      by_cases hworks : ∀ publish ∈ later, Living.Works (publish.host plugin.owner)
      · obtain ⟨more, hmore, htracks'⟩ :=
          tracks_afterCall hsettled (htracks hworks) halone.2 files
        refine ⟨later ++ more, ?_, fun hall => htracks' fun publish hpublish =>
          hall publish (List.mem_append_right _ hpublish)⟩
        rw [← List.append_assoc, ← hlater]
        exact hmore
      · obtain ⟨-, more, hmore, -⟩ := Session.upholds_call
          (Session.upholds_of_bus hsettled.bus false) call halone.2 (meetsCall_nobody _ call)
        refine ⟨later ++ more, ?_, fun hall => absurd (fun publish hpublish =>
          hall publish (List.mem_append_left _ hpublish)) hworks⟩
        rw [← List.append_assoc, ← hlater]
        exact hmore
    | change id chunk =>
      obtain ⟨memory, heq, -⟩ := between.afterChange_eq id chunk
      refine ⟨later, ?_, fun hworks => tracks_afterChange (htracks hworks) halone.2 chunk⟩
      rw [LiveSession.after, heq]
      exact hlater

/-! ### Brought back -/

theorem rack_publishModel (s : Session) (host : InstrumentId → HostAnswer) (replaced : Bool) :
    (s.publishModel host replaced).hosting.rack = s.project.instruments := by
  obtain ⟨_, _, _, _, _, hflush⟩ := s.fitClipsToPatterns.flush_eq
  unfold Session.publishModel
  rw [hflush, ← Tables.instruments_setLengths s.fittedClips]
  exact Hosting.rack_foldl_hostOne

/-- The rack of a publish has the instruments of the project in the same slots. -/
theorem slotOf_publishModel (s : Session) (host : InstrumentId → HostAnswer) (replaced : Bool)
    (id : InstrumentId) :
    Living.slotOf (s.publishModel host replaced).project.instruments id =
      Living.slotOf (s.publishModel host replaced).hosting.rack id := by
  rw [Living.slotOf, Living.slotOf, rack_publishModel,
    channelIndexOf_of_keys Session.keys_publishModel]

/-- An instrument of the project has its plug-in in the rack of the publish. -/
theorem get?_publishModel {s : Session} {host : InstrumentId → HostAnswer} {replaced : Bool}
    {id : InstrumentId} {instrument : Instrument}
    (h : (s.publishModel host replaced).project.instruments.get? id = some instrument) :
    ∃ before, (s.publishModel host replaced).hosting.rack.get? id = some before ∧
      Hosting.pluginFor id before = Hosting.pluginFor id instrument := by
  obtain ⟨names, hproject⟩ := s.project_publishModel host replaced
  obtain ⟨f, hf, hget⟩ := @Tables.get?_nameLanes (s.project.setLengths s.fittedClips) names id
  rw [hproject, hget, Tables.setLengths_eq, Tables.instruments_mapClips] at h
  obtain ⟨before, hbefore, rfl⟩ := Option.map_eq_some_iff.1 h
  rw [rack_publishModel]
  refine ⟨before, hbefore, ?_⟩
  rw [Hosting.pluginFor, Hosting.pluginFor, (hf before).2.1, (hf before).2.2]

/-- An undo or a redo that does something publishes last. -/
theorem publishes_last {s : Session} {again : InstrumentId → HostAnswer} {last : Call}
    (hlast : last = .projectUndo again ∨ last = .projectRedo again)
    (hok : (s.call last).1 = true) : ∃ s' : Session, (s.call last).2 = s'.publishModel again := by
  rcases hlast with rfl | rfl
  · unfold Session.call Session.projectUndo at hok ⊢
    dsimp only at hok ⊢
    split_ifs at hok ⊢ with hundone
    · rw [Bool.not_eq_true', hok] at hundone
      cases hundone
    · exact ⟨_, rfl⟩
  · unfold Session.call Session.projectRedo at hok ⊢
    dsimp only at hok ⊢
    split_ifs at hok ⊢ with hredone
    · rw [Bool.not_eq_true', hok] at hredone
      cases hredone
    · exact ⟨_, rfl⟩

/-- What a plug-in that runs would save is its state. -/
theorem saveHostedState_of_runs (h : l.living.Runs plugin state)
    (hslot : Living.slotOf l.opened.session.project.instruments plugin.owner =
      Living.slotOf l.opened.states.hosting.rack plugin.owner) :
    l.saveHostedState plugin.owner = some state := by
  obtain ⟨channel, hlt, ⟨instrument, hindex⟩, hplugin, hstate⟩ := h
  have hplugin : l.opened.states.hosting.slots channel = some plugin := hplugin
  have hindex : l.opened.states.hosting.rack.entries[channel]? = some (plugin.owner, instrument) :=
    hindex
  rw [saveHostedState, hslot, Living.slotOf_eq_some hindex hlt, Option.bind_some, hplugin]
  exact hstate

/-- What is handed to a save is stored. -/
theorem stores_of_saveHostedState {id : InstrumentId} (h : l.saveHostedState id = some state)
    {instrument : Instrument} (hget : l.opened.session.project.instruments.get? id = some instrument) :
    l.Stores id state := by
  have hprovided : l.stateProvider id = state := by
    rw [stateProvider, h]
    rfl
  refine ⟨hprovided, fun sha256Hex copyStateFrom folder writeProjectJson disk hsaved hne => ?_⟩
  refine (Bundle.kept_saveProject hsaved hget ?_).1
  dsimp only
  rwa [hprovided]

/-- Slots stay recorded as long as the project stays open. -/
theorem owned_of_run {host : InstrumentId → HostAnswer} {ids : FreshIds} {sampleRate : Double}
    {steps : List LiveStep} (hrun : (system factory).run (create factory host ids sampleRate) steps =
      some l)
    (hkeeps : ∀ call files, LiveStep.call call files ∈ steps → call.replaces = false) :
    l.opened.states.hosting.Owned := by
  have hall : ∀ {r : Restoring} {publishes : List Publish} {takes : ℕ → InstrumentId → Bool},
      r.hosting.Placed → r.hosting.Owned → (∀ publish ∈ publishes, publish.replaced = false) →
        (Restoring.publishAll takes r publishes).hosting.Owned := by
    intro r publishes takes hplaced howned hkeeps
    induction publishes generalizing r takes with
    | nil => exact howned
    | cons publish publishes ih =>
      rw [List.forall_mem_cons] at hkeeps
      have hhosting := Restoring.hosting_publish (takes 0) r publish
      rw [Hosting.found_of_not_replaced hkeeps.1] at hhosting
      refine ih ?_ ?_ hkeeps.2
      · rw [hhosting]
        exact Hosting.placed_sync publish.rack publish.host
      · rw [hhosting]
        exact howned.sync hplaced publish.rack publish.host
  refine (TransitionSystem.invariant (I := fun done l =>
    (∀ call files, LiveStep.call call files ∈ done → call.replaces = false) →
      l.Settled ∧ l.opened.states.hosting.Owned) ?_ ?_ hrun hkeeps).2
  · refine fun _ => ⟨settled_create factory host ids sampleRate,
      hall Hosting.placed_empty Hosting.owned_empty fun publish hpublish => ?_⟩
    obtain ⟨-, later, hlater, hreplaced⟩ :=
      Session.upholds_create (OpenStates.ownPlugins {}) host ids sampleRate
    dsimp only at hlater hreplaced
    rw [hlater] at hpublish
    exact Bool.eq_false_iff.2 fun h => Bool.false_ne_true ((hreplaced publish hpublish).1 h)
  · intro done between step after hdone hbetween hstep hkeeps
    obtain rfl := Option.some_inj.1 hstep
    obtain ⟨hsettled, howned⟩ := hbetween fun call files hcall =>
      hkeeps call files (List.mem_append_left _ hcall)
    refine ⟨hsettled.after step, ?_⟩
    cases step with
    | call call files =>
      obtain ⟨-, later, hlater, hreplaced⟩ := Session.upholds_call
        (Session.upholds_of_bus hsettled.bus false) call
        (hkeeps call files (List.mem_append_right _ (List.mem_singleton_self _)))
        (meetsCall_nobody _ call)
      refine hall ?_ ?_ fun publish hpublish => ?_
      · rw [hosting_begun]
        exact hsettled.placed
      · rw [hosting_begun]
        exact howned
      · have hpublish := hpublish
        rw [OpenStates.drop_publishes hlater] at hpublish
        exact Bool.eq_false_iff.2 fun h => Bool.false_ne_true ((hreplaced publish hpublish).1 h)
    | change id chunk =>
      obtain ⟨memory, heq, -⟩ := between.afterChange_eq id chunk
      rw [LiveSession.after, heq]
      exact howned

/-- **An instrument that is brought back has its state** exactly when it has a slot and was never
away, or had the state of a plug-in that has just been loaded. -/
theorem brought_back_iff (factory : HostedPlugin → Chunk) {host again : InstrumentId → HostAnswer}
    {ids : FreshIds} {sampleRate : Double} {l between l' : LiveSession} {steps : List LiveStep}
    {last : Call} {files : InstrumentId → Option Chunk} {plugin : HostedPlugin} {state : Chunk}
    {later : List Publish}
    (hreachable : (system factory).Reachable (create factory host ids sampleRate) l)
    (howned : l.opened.states.hosting.Owned) (hruns : l.living.Runs plugin state)
    (hrun : (system factory).run l steps = some between)
    (halone : ∀ step ∈ steps, LeavesAlone plugin.owner step)
    (hlast : last = .projectUndo again ∨ last = .projectRedo again)
    (hok : (between.opened.session.call last).1 = true)
    (hstep : (system factory).step between (.call last files) = some l')
    (hlater : l'.opened.session.publishes = l.opened.session.publishes ++ later)
    (hworks : ∀ publish ∈ later, Living.Works (publish.host plugin.owner))
    (hback : ∃ instrument,
      l'.opened.session.project.instruments.get? plugin.owner = some instrument ∧
        Hosting.pluginFor plugin.owner instrument = plugin) :
    (l'.saveHostedState plugin.owner = some state ∧ l'.Stores plugin.owner state) ↔
      (Living.slotOf l'.opened.session.project.instruments plugin.owner).isSome = true ∧
        (Living.fresh factory plugin = state ∨
          ∀ publish ∈ later, Living.Wants publish.rack plugin) := by
  have hsettled : l.Settled := by
    refine TransitionSystem.Reachable.invariant (I := Settled)
      (settled_create factory host ids sampleRate) ?_ hreachable
    intro l step l' hl hstep
    obtain rfl := Option.some_inj.1 hstep
    exact hl.after step
  have hlastAlone : LeavesAlone plugin.owner (.call last files) := by
    rcases hlast with rfl | rfl <;> rfl
  obtain ⟨hsettled', publishes, hpublishes, htracks⟩ := tracks_run hsettled hruns howned
    (List.forall_mem_append.2 ⟨halone, List.forall_mem_singleton.2 hlastAlone⟩)
    (TransitionSystem.run_concat_eq_some.2 ⟨between, hrun, hstep⟩)
  rw [hlater] at hpublishes
  obtain rfl := List.append_cancel_left hpublishes
  have htracks := htracks hworks
  -- the last publish found the instruments that are there now
  obtain ⟨s, hs⟩ := publishes_last hlast hok
  have hsession : l'.opened.session = s.publishModel again := by
    obtain rfl := Option.some_inj.1 hstep
    exact hs
  have hslot : Living.slotOf l'.opened.session.project.instruments plugin.owner =
      Living.slotOf l'.opened.states.hosting.rack plugin.owner := by
    rw [hsettled'.hosting, hsession]
    exact slotOf_publishModel s again false plugin.owner
  obtain ⟨instrument, hget, hplugin⟩ := hback
  have hsaves : ∀ {state}, l'.living.Runs plugin state →
      l'.saveHostedState plugin.owner = some state := fun h => saveHostedState_of_runs h hslot
  cases hchannel : Living.slotOf l'.opened.session.project.instruments plugin.owner with
  | none =>
    refine iff_of_false (fun h => ?_) (fun h => Bool.false_ne_true h.1)
    rw [saveHostedState, hchannel] at h
    cases h.1
  | some channel =>
    have hwants : Living.Wants l'.opened.states.hosting.rack plugin := by
      rw [hslot] at hchannel
      obtain ⟨hindexed, hlt⟩ := Option.filter_eq_some_iff.1 hchannel
      obtain ⟨found, hindex⟩ := Hosting.channelIndexOf_eq_some_iff.1 hindexed
      rw [hsession] at hget
      obtain ⟨before, hbefore, hsame⟩ := get?_publishModel hget
      rw [← hsession, ← hsettled'.hosting, Hosting.get?_of_channel hindex, Option.some_inj] at hbefore
      subst hbefore
      refine ⟨channel, of_decide_eq_true hlt, found, hindex, ?_, hsame.trans hplugin⟩
      obtain ⟨-, -, hosted, -, hhosted, hhas⟩ := hruns.wants hsettled.placed howned
      rw [isHostedInstrument_eq] at hhosted ⊢
      rwa [show found.plugin.id = hosted.plugin.id from congrArg HostedPlugin.pluginId
        ((hsame.trans hplugin).trans hhas.symm)]
    rcases htracks with ⟨hstays, -, hfollows⟩ | ⟨haway, hfollows⟩
    · have hsaved := hsaves (hfollows.runs hwants)
      exact iff_of_true ⟨hsaved, stores_of_saveHostedState hsaved hget⟩ ⟨rfl, .inr hstays⟩
    · have hsaved := hsaves (hfollows.runs hwants)
      constructor
      · rintro ⟨hstate, -⟩
        exact ⟨rfl, .inl (Option.some_inj.1 (hsaved.symm.trans hstate))⟩
      · rintro ⟨-, rfl | hstays⟩
        · exact ⟨hsaved, stores_of_saveHostedState hsaved hget⟩
        · obtain ⟨publish, hmem, hnot⟩ := haway
          exact absurd (hstays publish hmem) hnot

/-! ### A plug-in that was away -/

/-- Every plug-in starts from one byte. -/
def oneByte : HostedPlugin → Chunk := fun _ => [0]

/-- Host a synth. -/
def hostSynth : LiveStep :=
  .call (.instanceAdd ⟨5⟩ ⟨6⟩ { id := "synth", name := "Synth", pathHint := "synth.clap" }
    Session.loadsAll Session.loadsAll) fun _ => none

/-- Remove it. -/
def removeSynth : LiveStep := .call (.instrumentRemove ⟨5⟩ Session.loadsAll) fun _ => none

def synth : HostedPlugin := ⟨⟨5⟩, "synth", "synth.clap"⟩

/-- The session with the synth. -/
def withSynth : LiveSession :=
  (create oneByte Session.noPlugins Session.smallIds (.finite 48000)).after oneByte hostSynth

/-- The synth is removed, and the removal taken back. -/
def synthBack (l : LiveSession) : LiveSession :=
  (l.after oneByte removeSynth).after oneByte
    (.call (.projectUndo Session.loadsAll) fun _ => none)

/-- A synth that nobody has touched comes back as it was. -/
theorem brought_back_iff_untouched : ∃ later,
    (synthBack withSynth).opened.session.publishes = withSynth.opened.session.publishes ++ later ∧
      (((synthBack withSynth).saveHostedState ⟨5⟩ = some [0] ∧
          (synthBack withSynth).Stores ⟨5⟩ [0]) ↔
        (Living.slotOf (synthBack withSynth).opened.session.project.instruments ⟨5⟩).isSome =
            true ∧
          (Living.fresh oneByte synth = [0] ∨
            ∀ publish ∈ later, Living.Wants publish.rack synth)) := by
  have hl : (system oneByte).run (create oneByte Session.noPlugins Session.smallIds
      (.finite 48000)) [hostSynth] = some withSynth := rfl
  have hruns : withSynth.living.Runs synth [0] := by
    have hrack : (withSynth.living.restoring.hosting.rack.entries[0]?).map Prod.fst =
        some ⟨5⟩ := by decide +kernel
    obtain ⟨⟨id, instrument⟩, hindex, rfl⟩ := Option.map_eq_some_iff.1 hrack
    exact ⟨0, by decide, ⟨instrument, hindex⟩, by decide +kernel, by decide +kernel⟩
  obtain ⟨first, hfirst, -⟩ := Session.replays_call withSynth.opened.session
    (.instrumentRemove ⟨5⟩ Session.loadsAll)
  obtain ⟨second, hsecond, -⟩ := Session.replays_call
    (withSynth.after oneByte removeSynth).opened.session (.projectUndo Session.loadsAll)
  have hlater : (synthBack withSynth).opened.session.publishes =
      withSynth.opened.session.publishes ++ (first ++ second) := by
    rw [← List.append_assoc, ← hfirst]
    exact hsecond
  refine ⟨first ++ second, hlater, ?_⟩
  have hremoved : (system oneByte).run withSynth [removeSynth] =
      some (withSynth.after oneByte removeSynth) := rfl
  refine brought_back_iff oneByte ⟨[hostSynth], hl⟩ (owned_of_run hl ?_) hruns hremoved ?_
    (.inl rfl) ?_ rfl hlater ?_ ?_
  · intro call files hmem
    obtain ⟨rfl, -⟩ := List.mem_singleton.1 hmem
    rfl
  · exact List.forall_mem_singleton.2 rfl
  · decide +kernel
  · have hworks : ((synthBack withSynth).opened.session.publishes.drop
        withSynth.opened.session.publishes.length).all
          (fun publish => Living.Works (publish.host ⟨5⟩)) = true := by decide +kernel
    rw [OpenStates.drop_publishes hlater] at hworks
    exact fun publish hpublish => of_decide_eq_true (List.all_eq_true.1 hworks publish hpublish)
  · have hback : ((synthBack withSynth).opened.session.project.instruments.get? ⟨5⟩).map
        (Hosting.pluginFor ⟨5⟩) = some synth := by decide +kernel
    exact Option.map_eq_some_iff.1 hback

/-- **Removing a synth and taking that back loses its state**: what comes back was just loaded. -/
theorem not_brought_back_touched : ∃ l,
    (system oneByte).run (create oneByte Session.noPlugins Session.smallIds (.finite 48000))
        [hostSynth, .change ⟨5⟩ [7]] = some l ∧
      l.saveHostedState ⟨5⟩ = some [7] ∧
      ((synthBack l).opened.session.project.instruments.get? ⟨5⟩).map (Hosting.pluginFor ⟨5⟩) =
        (l.opened.session.project.instruments.get? ⟨5⟩).map (Hosting.pluginFor ⟨5⟩) ∧
      ¬ ((synthBack l).saveHostedState ⟨5⟩ = some [7] ∧ (synthBack l).Stores ⟨5⟩ [7]) := by
  refine ⟨withSynth.after oneByte (.change ⟨5⟩ [7]), rfl, by decide +kernel, by decide +kernel,
    fun h => ?_⟩
  have hlost : (synthBack (withSynth.after oneByte (.change ⟨5⟩ [7]))).saveHostedState ⟨5⟩ =
      some [0] := by decide +kernel
  rw [hlost] at h
  exact absurd h.1 (by decide)

end LiveSession

end OneBeat
