import OneBeat.Commands.RackOrder
import OneBeat.Lib.RankedRows
import OneBeat.Session.SelectedInstance

/-!
# Instruments that are added

Four entry points of `abi/onebeat_abi.cpp` add an instrument.  Two of them look for it afterwards:
it is the one whose order is the number of the others, which it has only where no order is missing
below it.

* `Session.oneMore_executeModel` : what adding an instrument and publishing it does.
* `Session.adds_iff` : an entry point adds what it goes on with, or is refused and changes nothing,
  exactly when it finds what it added (`Session.Finds`).
-/

namespace OneBeat

namespace Session

/-- The entry points that add an instrument. -/
inductive Adding
  | instanceAdd (plugin : PluginRef) (again : InstrumentId → HostAnswer)
  /-- Whether there is a file at the path is an argument. -/
  | instrumentAddSample (name path : String) (found : Bool)
  | instrumentAddEmpty (name : String)
  | instrumentDuplicate (source : InstrumentId)

variable (s : Session) (host : InstrumentId → HostAnswer) (id : InstrumentId)
  (track : MixerTrackId)

/-- Call one of them, with what it checks before anything is touched. -/
def add : Adding → Bool × Session
  | .instanceAdd plugin again =>
    if plugin.pathHint = "" ∨ plugin.id = "" then (false, s)
    else s.call (.instanceAdd id track plugin host again)
  | .instrumentAddSample name path found =>
    if name = "" ∨ path = "" ∨ !found then (false, s)
    else s.call (.instrumentAddSample id track name path host)
  | .instrumentAddEmpty name => s.call (.edit (.instrumentAddEmpty id track name) host)
  | .instrumentDuplicate source => s.call (.instrumentDuplicate track id source host)

/-- What is selected once an instrument was added; an empty one is no selection. -/
def selects (adding : Adding) : Option InstrumentId :=
  match adding with
  | .instrumentAddEmpty _ => s.selectedInstrument
  | _ => some id

/-- OK, one instrument more, and it is the one that is hosted and selected. -/
structure Added (adding : Adding) (done : Bool × Session) : Prop where
  ok : done.1 = true
  instruments : ∀ other, done.2.project.instruments.contains other =
    (decide (other = id) || s.project.instruments.contains other)
  hosted : ∀ plugin again, adding = .instanceAdd plugin again → done.2.hosts id = true
  selected : done.2.selectedInstrument = s.selects id adding

/-- An error, and the project, the history and the selection are as they were. -/
structure Refused (done : Bool × Session) : Prop where
  failed : done.1 = false
  project : done.2.project = s.project
  undoStack : done.2.bus.undoStack = s.bus.undoStack
  redoStack : done.2.bus.redoStack = s.bus.redoStack
  opened : done.2.bus.opened = s.bus.opened
  selected : done.2.selectedInstrument = s.selectedInstrument

/-- The ids are new: nothing in the session has them. -/
structure Minted : Prop where
  validId : id.valid = true
  validTrack : track.valid = true
  id_new : s.project.instruments.get? id = none
  track_new : s.project.mixerTracks.contains track = false
  unhosted : s.hosting.hosted.get? id = none
  redoStack : ∀ mixerTrack instrument, Command.composite
    [.add (.mixerTrack track mixerTrack), .add (.instrument id instrument)] ∉ s.bus.redoStack

/-- The plug-in gets a channel, and works. -/
structure CanHost (plugin : PluginRef) : Prop where
  plugin : isHostedInstrument { plugin } = true
  channel : ∃ channel < maxRackChannels,
    channelIndexOf (s.project.instruments.assign id {}) id = some channel
  installed : (host id).installed = true
  started : (host id).started = true

/-- What was added is found, and is not taken back. -/
def Finds : Adding → Prop
  | .instanceAdd plugin _ => plugin.pathHint = "" ∨ plugin.id = "" ∨
      nextInstrumentOrder s.project = s.project.instruments.size ∧ s.CanHost host id plugin
  | .instrumentAddSample name path found => name = "" ∨ path = "" ∨ found = false ∨
      nextInstrumentOrder s.project = s.project.instruments.size
  | .instrumentAddEmpty _ => True
  | .instrumentDuplicate _ => True

/-! ### Rows -/

variable {s host id track} {again : InstrumentId → HostAnswer} {replaced : Bool}

/-- A publish moves no instrument. -/
theorem orders_publishModel : (s.publishModel host replaced).project.orders = s.project.orders := by
  funext id
  obtain ⟨names, hproject⟩ := s.project_publishModel host replaced
  obtain ⟨f, hf, hget⟩ := @Tables.get?_nameLanes (s.project.setLengths s.fittedClips) names id
  have horder : Instrument.order ∘ f = Instrument.order := funext fun instrument =>
    (hf instrument).1
  rw [hproject, Tables.orders, Tables.orders, hget, Tables.setLengths_eq,
    Tables.instruments_mapClips, Option.map_map, horder]

theorem size_publishModel :
    (s.publishModel host replaced).project.instruments.size = s.project.instruments.size := by
  rw [← OrderedMap.length_keys, keys_publishModel, OrderedMap.length_keys]

/-- The rows of the rack are those of the instruments, ranked by their orders. -/
theorem orderedInstrument_eq_rowAt (s : Session) (index : ℕ) :
    s.orderedInstrument index = (RankedRows.rowAt s.project.instruments.entries
      (fun entry => entry.2.order) index).map Prod.fst := rfl

/-- The instrument behind all others is in the last row. -/
theorem orderedInstrument_last {order : ℤ} (hid : s.project.orders id = some order)
    (hlast : ∀ other order', other ≠ id → s.project.orders other = some order' → order' < order) :
    s.orderedInstrument (s.project.instruments.size - 1) = some id := by
  obtain ⟨instrument, hmem, rfl⟩ := Tables.orders_eq_some_iff.1 hid
  rw [orderedInstrument_eq_rowAt, OrderedMap.size, RankedRows.rowAt_eq_of_forall_lt hmem]
  · rfl
  · exact List.Nodup.of_map _ s.project.instruments.nodup_keys
  · rintro ⟨other, held⟩ hheld hne
    refine hlast other held.order ?_ (Tables.orders_eq_some_iff.2 ⟨held, hheld, rfl⟩)
    rintro rfl
    rw [OrderedMap.get?_eq_some_iff.symm] at hmem hheld
    rw [hmem, Option.some_inj] at hheld
    exact hne (by rw [hheld])

theorem lastInstrument_eq_some {last : InstrumentId} (h : s.lastInstrument = some last) :
    s.project.orders last = some ((s.project.instruments.size : ℤ) - 1) := by
  obtain ⟨entry, hfind, rfl⟩ := Option.map_eq_some_iff.1 h
  exact Tables.orders_eq_some_iff.2
    ⟨entry.2, List.mem_of_find?_eq_some hfind, by simpa using List.find?_some hfind⟩

theorem lastInstrument_eq_none (h : s.lastInstrument = none) (other : InstrumentId) :
    s.project.orders other ≠ some ((s.project.instruments.size : ℤ) - 1) := by
  intro horder
  obtain ⟨instrument, hmem, heq⟩ := Tables.orders_eq_some_iff.1 horder
  have hnone := List.find?_eq_none.1 (Option.map_eq_none_iff.1 h) _ hmem
  simp [heq] at hnone

end Session

/-! ### One instrument more -/

/-- What was not hosted before is hosted with success if there is a channel for it, and the machine
says so. -/
theorem Hosting.hosts_sync_iff {h : Hosting} {rack : Rack} {id : InstrumentId}
    {instrument : Instrument} (hnew : h.hosted.get? id = none)
    (hget : rack.get? id = some instrument) (host : InstrumentId → HostAnswer) :
    (∃ slot, (h.sync rack host).hosted.get? id = some slot ∧ slot.failed = false) ↔
      isHostedInstrument instrument = true ∧
        (∃ channel < maxRackChannels, channelIndexOf rack id = some channel) ∧
        (host id).installed = true ∧ (host id).started = true := by
  rcases get?_hosted_sync (h := h) rack host id with
    ⟨slot, hkept, -⟩ | ⟨entry, hentry, rfl, hslot⟩ | ⟨hkept, hnone, hslot⟩
  · -- nothing is kept that was not there
    obtain ⟨old, -, hold, -⟩ := (get?_kept rack h.hosted).1 hkept
    rw [hnew] at hold
    cases hold
  · obtain ⟨hindex, hhosted, -, hlt⟩ := mem_toHost.1 hentry
    rw [get?_of_channel hindex, Option.some_inj] at hget
    have hchannel : ∃ channel < maxRackChannels, channelIndexOf rack entry.id = some channel :=
      ⟨entry.channel, hlt, channelIndexOf_eq_some_iff.2 ⟨_, hindex⟩⟩
    simp [hslot, hostedSlot, ← hget, hhosted, hchannel]
  · refine iff_of_false (by simp [hslot]) ?_
    rintro ⟨hhosted, ⟨channel, hlt, hindex⟩, -⟩
    obtain ⟨instrument', hchannel⟩ := channelIndexOf_eq_some_iff.1 hindex
    rw [get?_of_channel hchannel, Option.some_inj] at hget
    subst hget
    exact hnone (List.mem_map.2
      ⟨⟨id, instrument', channel⟩, mem_toHost.2 ⟨hchannel, hhosted, hkept, hlt⟩, rfl⟩)

namespace Session

variable {s : Session} {host again : InstrumentId → HostAnswer} {id : InstrumentId}
  {track : MixerTrackId}

/-- The command that adds an instrument, with a track of its own. -/
def additionOf (track : MixerTrackId) (id : InstrumentId) (mixerTrack : MixerTrack)
    (instrument : Instrument) : Command :=
  .composite [.add (.mixerTrack track mixerTrack), .add (.instrument id instrument)]

/-- One instrument more, published, and recorded in the history. -/
structure OneMore (s : Session) (host : InstrumentId → HostAnswer) (id : InstrumentId)
    (track : MixerTrackId) (instrument : Instrument) (s' : Session) : Prop where
  orders : s'.project.orders = Function.update s.project.orders id (some instrument.order)
  size : s'.project.instruments.size = s.project.instruments.size + 1
  selected : s'.selectedInstrument = s.selectedInstrument
  hosts : s'.hosts id = true ↔ s.CanHost host id instrument.plugin
  history : s'.bus.opened ≠ s.bus.opened ∨ ∃ mixerTrack,
    s'.bus.undoStack = additionOf track id mixerTrack instrument :: s.bus.undoStack

variable {instrument : Instrument} {mixerTrack : MixerTrack}

/-- With ids that are new, the command applies. -/
theorem apply_additionOf (hminted : s.Minted id track) (mixerTrack : MixerTrack)
    (instrument : Instrument) :
    (additionOf track id mixerTrack instrument).apply s.project =
      ⟨true, additionOf track id mixerTrack instrument, { s.project with
        mixerTracks := s.project.mixerTracks.assign track mixerTrack
        instruments := s.project.instruments.assign id instrument }⟩ := by
  have hnew := OrderedMap.contains_eq_false_iff.2 hminted.id_new
  simp [additionOf, Command.apply, Command.applyAll, AddedEntity.apply, AddedEntity.restore,
    Tables.restoreMixerTrack, Tables.restoreInstrument, Outcome.ofOption, hminted.validId,
    hminted.validTrack, hminted.track_new, hnew]

/-- An addition is absorbed by nothing. -/
theorem record_additionOf (bus : CommandBus) :
    (bus.record (additionOf track id mixerTrack instrument)).opened ≠ bus.opened ∨
      (bus.record (additionOf track id mixerTrack instrument)).undoStack =
        additionOf track id mixerTrack instrument :: bus.undoStack := by
  unfold CommandBus.record
  cases hopened : bus.opened with
  | cons commands outer => exact .inl (by simp)
  | nil =>
    cases bus.undoStack with
    | nil => exact .inr rfl
    | cons entry entries =>
      have hseparate : (if bus.coalescable then
          entry.coalesceWith (additionOf track id mixerTrack instrument) else none) = none := by
        split_ifs
        · cases entry <;> rfl
        · rfl
      simp only [hseparate]
      exact .inr trivial

/-- **What adding an instrument and publishing it does.** -/
theorem oneMore_executeModel (hminted : s.Minted id track) (host : InstrumentId → HostAnswer)
    (mixerTrack : MixerTrack) (instrument : Instrument) :
    (s.executeModel host (some (additionOf track id mixerTrack instrument))).1 = true ∧
      s.OneMore host id track instrument
        (s.executeModel host (some (additionOf track id mixerTrack instrument))).2 := by
  obtain ⟨hok, hproject⟩ := execute_some s (additionOf track id mixerTrack instrument)
  have happly := apply_additionOf hminted mixerTrack instrument
  rw [happly] at hok hproject
  have hbus : (s.execute (some (additionOf track id mixerTrack instrument))).2.bus =
      { s.bus with project := { s.project with
          mixerTracks := s.project.mixerTracks.assign track mixerTrack
          instruments := s.project.instruments.assign id instrument } }.record
        (additionOf track id mixerTrack instrument) := by
    have happly' : (additionOf track id mixerTrack instrument).apply s.bus.project = _ := happly
    unfold execute CommandBus.execute
    simp only [happly', if_true]
  have hhosting : (s.execute (some (additionOf track id mixerTrack instrument))).2.hosting =
      s.hosting := rfl
  have hselected : (s.execute (some (additionOf track id mixerTrack
      instrument))).2.selectedInstrument = s.selectedInstrument := rfl
  unfold executeModel
  dsimp only
  rw [if_pos hok]
  generalize (s.execute (some (additionOf track id mixerTrack instrument))).2 = executed at *
  have hinstruments : executed.project.instruments = s.project.instruments.assign id instrument :=
    congrArg Tables.instruments hproject
  refine ⟨rfl, ⟨?_, ?_, selected_publishModel.trans hselected, ?_, ?_⟩⟩
  · rw [orders_publishModel]
    funext other
    rw [Tables.orders, hinstruments, OrderedMap.get?_assign, Function.update_apply]
    split_ifs
    · rfl
    · rfl
  · rw [size_publishModel, hinstruments, OrderedMap.size_assign hminted.id_new]
  · have hget : executed.project.instruments.get? id = some instrument := by
      rw [hinstruments, OrderedMap.get?_assign, if_pos rfl]
    have hunhosted : executed.hosting.hosted.get? id = none := by
      rw [hhosting]
      exact hminted.unhosted
    have hsync := Hosting.hosts_sync_iff hunhosted hget host
    have hchannel : channelIndexOf executed.project.instruments id =
        channelIndexOf (s.project.instruments.assign id {}) id := by
      rw [hinstruments]
      exact channelIndexOf_of_keys (OrderedMap.keys_assign_congr _ _ _) id
    rw [hchannel] at hsync
    have hhosts : (executed.publishModel host).hosts id = true ↔
        ∃ slot, (executed.hosting.sync executed.project.instruments host).hosted.get? id =
          some slot ∧ slot.failed = false := by
      unfold hosts
      rw [show (executed.publishModel host).hosting = executed.hosting.sync _ host from
        hosting_publishModel]
      cases (executed.hosting.sync executed.project.instruments host).hosted.get? id with
      | none => simp
      | some slot => simp
    rw [hhosts, hsync]
    exact ⟨fun h => ⟨h.1, h.2.1, h.2.2.1, h.2.2.2⟩,
      fun h => ⟨h.plugin, h.channel, h.installed, h.started⟩⟩
  · rw [bus_publishModel, hbus]
    rcases @record_additionOf id track instrument mixerTrack { s.bus with
        project := { s.project with
          mixerTracks := s.project.mixerTracks.assign track mixerTrack
          instruments := s.project.instruments.assign id instrument } } with
      hopened | hundo
    · exact .inl hopened
    · exact .inr ⟨mixerTrack, hundo⟩

namespace OneMore

variable {s' : Session}

theorem contains (h : s.OneMore host id track instrument s') (other : InstrumentId) :
    s'.project.instruments.contains other =
      (decide (other = id) || s.project.instruments.contains other) := by
  have hcontains : ∀ s : Session,
      s.project.instruments.contains other = (s.project.orders other).isSome := fun s => by
    rw [OrderedMap.contains, Tables.orders, Option.isSome_map]
  rw [hcontains, hcontains, h.orders, Function.update_apply]
  split_ifs with heq
  · simp [heq]
  · simp [heq]

/-- What was added is behind all others, so what has its order is the one that was added. -/
theorem lt_order (h : s.OneMore host id track instrument s')
    (horder : instrument.order = nextInstrumentOrder s.project) {other : InstrumentId} {order : ℤ}
    (hne : other ≠ id) (hother : s'.project.orders other = some order) :
    order < instrument.order := by
  rw [h.orders, Function.update_of_ne hne] at hother
  rw [horder]
  exact lt_nextInstrumentOrder hother

/-- **It is found by the number of the others** if this is its order. -/
theorem lastInstrument_eq_some_iff (h : s.OneMore host id track instrument s')
    (horder : instrument.order = nextInstrumentOrder s.project) :
    s'.lastInstrument = some id ↔
      nextInstrumentOrder s.project = s.project.instruments.size := by
  have hsize : (s'.project.instruments.size : ℤ) - 1 = s.project.instruments.size := by
    rw [h.size]
    omega
  have hid : s'.project.orders id = some instrument.order := by
    rw [h.orders, Function.update_self]
  constructor
  · intro hlast
    have hfound := lastInstrument_eq_some hlast
    rwa [hid, Option.some_inj, hsize, horder] at hfound
  · intro hgapless
    rw [hgapless, ← hsize] at horder
    cases hlast : s'.lastInstrument with
    | none => exact absurd (hid.trans (congrArg some horder)) (lastInstrument_eq_none hlast id)
    | some last =>
      by_contra hne
      have hlt := h.lt_order (by rw [horder, hsize, hgapless]) (fun heq => hne (by rw [heq]))
        (lastInstrument_eq_some hlast)
      rw [horder] at hlt
      exact absurd hlt (lt_irrefl _)

/-- An instrument more is a change. -/
theorem not_refused (h : s.OneMore host id track instrument s') : ¬s.Refused (false, s') :=
  fun hrefused => by
    have hsize := h.size
    rw [show s'.project = s.project from hrefused.project] at hsize
    omega

end OneMore

/-- Taking an addition back leaves the command as it is, also where it fails. -/
theorem command_revert_additionOf (project : Tables) :
    ((additionOf track id mixerTrack instrument).revert project).command =
      additionOf track id mixerTrack instrument := by
  have hadd : ∀ (entity : AddedEntity) (project : Tables),
      ((Command.add entity).revert project).command = .add entity := fun entity project => by
    unfold Command.revert AddedEntity.revert Outcome.ofOption
    cases entity.delete project with
    | none => rfl
    | some project' => rfl
  unfold additionOf Command.revert
  simp only [Command.revertAll, if_true]
  split_ifs
  · simp [Outcome.map, hadd]
  · simp [Outcome.map, hadd]

/-- An addition that is taken back is left in the history: it can be redone. -/
theorem not_refused_takeBack {s' : Session} (hminted : s.Minted id track)
    (h : s.OneMore host id track instrument s') (again : InstrumentId → HostAnswer) :
    ¬s.Refused (false, s'.takeBack again) := by
  intro hrefused
  have hbus : (s'.takeBack again).bus =
      { s'.bus.undo.2 with project := (s'.takeBack again).project } := bus_publishModel
  have hundoStack : s'.bus.undo.2.undoStack = s.bus.undoStack := by
    rw [← hrefused.undoStack, hbus]
  have hredoStack : s'.bus.undo.2.redoStack = s.bus.redoStack := by
    rw [← hrefused.redoStack, hbus]
  have hopened : s'.bus.undo.2.opened = s.bus.opened := by
    rw [← hrefused.opened, hbus]
  rcases h.history with hmore | ⟨mixerTrack, hstack⟩
  · -- an open gesture has taken the command in, and an undo does not look there
    refine hmore (hopened.symm.trans ?_).symm
    unfold CommandBus.undo
    split
    · rfl
    · dsimp only
      split_ifs
      · rfl
      · rfl
  · unfold CommandBus.undo at hundoStack hredoStack
    simp only [hstack] at hundoStack hredoStack
    split_ifs at hundoStack hredoStack with hreverted
    · dsimp only at hredoStack
      rw [command_revert_additionOf] at hredoStack
      exact hminted.redoStack mixerTrack instrument (hredoStack ▸ List.mem_cons_self)
    · exact absurd hundoStack (List.cons_ne_self _ _)

/-! ### The entry points -/

section

variable {adding : Adding}

/-- What an entry point is for. -/
def AddsOrRefuses (s : Session) (id : InstrumentId) (adding : Adding) (done : Bool × Session) :
    Prop := s.Added id adding done ∨ s.Refused done

/-- What is checked first touches nothing. -/
theorem refused_self (s : Session) : s.Refused (false, s) := ⟨rfl, rfl, rfl, rfl, rfl, rfl⟩

theorem adds_instrumentAddEmpty (hminted : s.Minted id track) (host : InstrumentId → HostAnswer)
    (name : String) : s.AddsOrRefuses id (.instrumentAddEmpty name)
      (s.add host id track (.instrumentAddEmpty name)) := by
  obtain ⟨hok, hmore⟩ := oneMore_executeModel hminted host
    { name := if name = "" then "Channel" else name, output := some s.project.master }
    { name := if name = "" then "Channel" else name, color := nextInstrumentColor s.project
      order := nextInstrumentOrder s.project, routing := [⟨0, track⟩] }
  exact .inl ⟨hok, hmore.contains, fun plugin again h => by (cases h), hmore.selected⟩

/-- A copy is looked for in the last row, and it is there. -/
theorem adds_instrumentDuplicate (hminted : s.Minted id track) (host : InstrumentId → HostAnswer)
    (source : InstrumentId) : s.AddsOrRefuses id (.instrumentDuplicate source)
      (s.add host id track (.instrumentDuplicate source)) := by
  unfold add call instrumentDuplicate
  dsimp only
  cases hsource : s.project.instruments.get? source with
  | none =>
    have hcommand : duplicateInstrument s.project track id source = none := by
      rw [duplicateInstrument, hsource, Option.map_none]
    rw [hcommand]
    exact .inr ⟨rfl, rfl, rfl, rfl, rfl, rfl⟩
  | some original =>
    let copy : Instrument := { original with
      name := uniqueInstrumentName s.project original.name
      order := nextInstrumentOrder s.project
      routing := [⟨0, track⟩] }
    have hcommand : duplicateInstrument s.project track id source = some (additionOf track id
        { name := copy.name, output := some s.project.master } copy) := by
      rw [duplicateInstrument, hsource]
      rfl
    obtain ⟨hok, hmore⟩ := oneMore_executeModel hminted host
      { name := copy.name, output := some s.project.master } copy
    have hid := (congrFun hmore.orders id).trans (Function.update_self ..)
    have hlast := orderedInstrument_last hid fun other order hne hother =>
      hmore.lt_order rfl hne hother
    rw [hcommand, hok, hlast]
    exact .inl ⟨rfl, hmore.contains, fun plugin again h => by (cases h), rfl⟩

theorem adds_instrumentAddSample_iff (hminted : s.Minted id track)
    (host : InstrumentId → HostAnswer) (name path : String) (found : Bool) :
    s.AddsOrRefuses id (.instrumentAddSample name path found)
        (s.add host id track (.instrumentAddSample name path found)) ↔
      s.Finds host id (.instrumentAddSample name path found) := by
  by_cases hchecked : name = "" ∨ path = "" ∨ found = false
  · have hrefused : s.add host id track (.instrumentAddSample name path found) = (false, s) :=
      if_pos (by simpa using hchecked)
    rw [hrefused]
    refine iff_of_true (.inr (refused_self s)) ?_
    unfold Finds
    tauto
  let sample : Instrument :=
    { name, color := nextInstrumentColor s.project, order := nextInstrumentOrder s.project
      plugin := samplePlugin name path, routing := [⟨0, track⟩] }
  obtain ⟨hok, hmore⟩ := oneMore_executeModel hminted host
    { name, output := some s.project.master } sample
  have hadd : s.add host id track (.instrumentAddSample name path found) =
      s.instrumentAddSample host id track name path := if_neg (by simpa using hchecked)
  have hcommand : addInstrument s.project true id track name (samplePlugin name path) =
      additionOf track id { name, output := some s.project.master } sample := rfl
  have hfinds : s.Finds host id (.instrumentAddSample name path found) ↔
      nextInstrumentOrder s.project = s.project.instruments.size := by
    unfold Finds
    tauto
  rw [hadd, hfinds, ← hmore.lastInstrument_eq_some_iff rfl]
  unfold instrumentAddSample
  rw [hcommand]
  generalize s.executeModel host _ = added at hok hmore ⊢
  dsimp only
  rw [hok]
  simp only [Bool.not_true, Bool.false_eq_true, if_false]
  cases hlast : added.2.lastInstrument with
  | none =>
    -- the instrument stays, and an error is returned
    refine iff_of_false ?_ (by simp)
    rintro (hadded | hrefused)
    · cases hadded.ok
    · exact hmore.not_refused hrefused
  | some last =>
    constructor
    · rintro (hadded | hrefused)
      · exact hadded.selected
      · cases hrefused.failed
    · intro hid
      exact .inl ⟨rfl, hmore.contains, fun plugin again h => by (cases h), hid⟩

theorem adds_instanceAdd_iff (hminted : s.Minted id track) (host : InstrumentId → HostAnswer)
    (plugin : PluginRef) (again : InstrumentId → HostAnswer) :
    s.AddsOrRefuses id (.instanceAdd plugin again)
        (s.add host id track (.instanceAdd plugin again)) ↔
      s.Finds host id (.instanceAdd plugin again) := by
  by_cases hchecked : plugin.pathHint = "" ∨ plugin.id = ""
  · have hrefused : s.add host id track (.instanceAdd plugin again) = (false, s) := if_pos hchecked
    rw [hrefused]
    refine iff_of_true (.inr (refused_self s)) ?_
    unfold Finds
    tauto
  let name := uniqueInstrumentName s.project plugin.name
  let hosted : Instrument :=
    { name, color := nextInstrumentColor s.project, order := nextInstrumentOrder s.project
      plugin, routing := [⟨0, track⟩] }
  obtain ⟨hok, hmore⟩ := oneMore_executeModel hminted host
    { name, output := some s.project.master } hosted
  have hadd : s.add host id track (.instanceAdd plugin again) =
      s.instanceAdd host again id track plugin := if_neg hchecked
  have hcommand : addInstrumentNamed s.project true id track plugin =
      additionOf track id { name, output := some s.project.master } hosted := rfl
  have hfinds : s.Finds host id (.instanceAdd plugin again) ↔
      nextInstrumentOrder s.project = s.project.instruments.size ∧ s.CanHost host id plugin := by
    unfold Finds
    tauto
  have hworks : s.CanHost host id plugin ↔ _ := hmore.hosts.symm
  rw [hadd, hfinds, ← hmore.lastInstrument_eq_some_iff rfl, hworks]
  unfold instanceAdd
  rw [hcommand]
  generalize s.executeModel host _ = added at hok hmore ⊢
  dsimp only
  rw [hok]
  simp only [Bool.not_true, Bool.false_eq_true, if_false]
  cases hlast : added.2.lastInstrument with
  | none =>
    refine iff_of_false ?_ (by simp)
    rintro (hadded | hrefused)
    · cases hadded.ok
    · exact hmore.not_refused hrefused
  | some last =>
    dsimp only
    rw [Option.some_inj]
    by_cases hlasts : added.2.hosts last = true
    · rw [if_pos hlasts]
      constructor
      · rintro (hadded | hrefused)
        · have hid : last = id := Option.some_inj.1 hadded.selected
          exact ⟨hid, hid ▸ hlasts⟩
        · cases hrefused.failed
      · rintro ⟨rfl, hid⟩
        exact .inl ⟨rfl, hmore.contains, fun plugin again h => hid, rfl⟩
    · rw [if_neg hlasts]
      refine iff_of_false ?_ ?_
      · rintro (hadded | hrefused)
        · cases hadded.ok
        · exact not_refused_takeBack hminted hmore again hrefused
      · rintro ⟨rfl, hid⟩
        exact hlasts hid

/-- **An entry point adds what it goes on with, or is refused and changes nothing**, exactly when it
finds what it added. -/
theorem adds_iff (s : Session) (host : InstrumentId → HostAnswer) (id : InstrumentId)
    (track : MixerTrackId) (adding : Adding) (hminted : s.Minted id track) :
    s.AddsOrRefuses id adding (s.add host id track adding) ↔ s.Finds host id adding := by
  cases adding with
  | instanceAdd plugin again => exact adds_instanceAdd_iff hminted host plugin again
  | instrumentAddSample name path found =>
    exact adds_instrumentAddSample_iff hminted host name path found
  | instrumentAddEmpty name => exact iff_of_true (adds_instrumentAddEmpty hminted host name) trivial
  | instrumentDuplicate source =>
    exact iff_of_true (adds_instrumentDuplicate hminted host source) trivial

end

/-- Where nothing can be redone, the tables say whether ids are new. -/
def looksMinted (s : Session) (id : InstrumentId) (track : MixerTrackId) : Bool :=
  id.valid && track.valid && !s.project.instruments.contains id &&
    !s.project.mixerTracks.contains track && !s.hosting.hosted.contains id &&
    s.bus.redoStack.isEmpty

theorem minted_of_looksMinted (h : s.looksMinted id track = true) : s.Minted id track := by
  simp only [looksMinted, Bool.and_eq_true, Bool.not_eq_true', List.isEmpty_iff] at h
  obtain ⟨⟨⟨⟨⟨hid, htrack⟩, hnew⟩, hnewTrack⟩, hunhosted⟩, hredo⟩ := h
  exact ⟨hid, htrack, OrderedMap.contains_eq_false_iff.1 hnew, hnewTrack,
    OrderedMap.contains_eq_false_iff.1 hunhosted, fun _ _ hmem => by
      rw [hredo] at hmem
      cases hmem⟩

/-- The first sample of a new session is found. -/
theorem adds_iff_first :
    (create noPlugins smallIds (.finite 48000)).AddsOrRefuses ⟨8⟩
        (.instrumentAddSample "Hat" "hat.wav" true)
        ((create noPlugins smallIds (.finite 48000)).add noPlugins ⟨8⟩ ⟨9⟩
          (.instrumentAddSample "Hat" "hat.wav" true)) ↔
      (create noPlugins smallIds (.finite 48000)).Finds noPlugins ⟨8⟩
        (.instrumentAddSample "Hat" "hat.wav" true) :=
  adds_iff _ _ _ _ _ (minted_of_looksMinted (by decide +kernel))

/-- Two empty channels, the first of them removed. -/
def gapBelow : List Call :=
  [.edit (.instrumentAddEmpty ⟨4⟩ ⟨5⟩ "Kick") noPlugins,
    .edit (.instrumentAddEmpty ⟨6⟩ ⟨7⟩ "Snare") noPlugins, .instrumentRemove ⟨4⟩ noPlugins]

/-- **The channel that was there is selected**, and the answer is OK. -/
theorem selects_another : ∃ s,
    system.run (create noPlugins smallIds (.finite 48000)) gapBelow = some s ∧
      s.Minted ⟨8⟩ ⟨9⟩ ∧
      (s.add noPlugins ⟨8⟩ ⟨9⟩ (.instrumentAddSample "Hat" "hat.wav" true)).1 = true ∧
      (s.add noPlugins ⟨8⟩ ⟨9⟩
        (.instrumentAddSample "Hat" "hat.wav" true)).2.selectedInstrument = some ⟨6⟩ ∧
      ¬s.AddsOrRefuses ⟨8⟩ (.instrumentAddSample "Hat" "hat.wav" true)
        (s.add noPlugins ⟨8⟩ ⟨9⟩ (.instrumentAddSample "Hat" "hat.wav" true)) := by
  have hadded : ((system.run (create noPlugins smallIds (.finite 48000)) gapBelow).map fun s =>
      (s.looksMinted ⟨8⟩ ⟨9⟩,
        (s.add noPlugins ⟨8⟩ ⟨9⟩ (.instrumentAddSample "Hat" "hat.wav" true)).1,
        (s.add noPlugins ⟨8⟩ ⟨9⟩
          (.instrumentAddSample "Hat" "hat.wav" true)).2.selectedInstrument)) =
      some (true, true, some ⟨6⟩) := by decide +kernel
  obtain ⟨s, hrun, hs⟩ := Option.map_eq_some_iff.1 hadded
  simp only [Prod.mk.injEq] at hs
  obtain ⟨hminted, hok, hselected⟩ := hs
  refine ⟨s, hrun, minted_of_looksMinted hminted, hok, hselected, ?_⟩
  rintro (hadded | hrefused)
  · have hid : some (⟨6⟩ : InstrumentId) = some ⟨8⟩ := hselected.symm.trans hadded.selected
    exact absurd hid (by decide)
  · have hfailed := hrefused.failed
    rw [hok] at hfailed
    cases hfailed

end Session

end OneBeat
