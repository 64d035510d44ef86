import OneBeat.Session.HostedRuns
import OneBeat.Session.InstanceSurface

/-!
# The selected instance

The selection is kept as an id in the session, as a dense index in the engine and as a view of one
plug-in.  A publish brings the three in line (`Surface.follows_publishModel`), and so does every
entry point of the rack that selects something, but for two (`Surface.Refreshes`).

**Main theorem** (`Surface.follows_of_run`): in a run whose calls all meet the condition, auditioned
notes, parameters and the reported instance are those of the selected instrument after every call.
-/

namespace OneBeat

/-! ### What a publish leaves alone -/

namespace Tables

variable {project : Tables}

theorem nameLanes_eq_foldl (names : List (InstrumentId × String)) :
    project.nameLanes names = { project with
      instruments := names.foldl (fun m entry => m.modify entry.1 (Instrument.named entry.2))
        project.instruments } :=
  foldl_updateInstrument Prod.fst (fun entry => Instrument.named entry.2) names

/-- Naming leaves the order of an instrument, and which plug-in it has. -/
theorem get?_nameLanes (names : List (InstrumentId × String)) (id : InstrumentId) :
    ∃ f : Instrument → Instrument,
      (∀ instrument, (f instrument).order = instrument.order ∧
        (f instrument).plugin.id = instrument.plugin.id ∧
          (f instrument).plugin.pathHint = instrument.plugin.pathHint) ∧
      (project.nameLanes names).instruments.get? id = (project.instruments.get? id).map f := by
  rw [nameLanes_eq_foldl]
  dsimp only
  induction names using List.reverseRecOn with
  | nil => exact ⟨fun instrument => instrument, fun _ => ⟨rfl, rfl, rfl⟩, Option.map_id'.symm⟩
  | append_singleton names last ih =>
    obtain ⟨f, hf, hget⟩ := ih
    rw [List.foldl_append, List.foldl_cons, List.foldl_nil, OrderedMap.get?_modify]
    split_ifs with hid
    · refine ⟨fun instrument => (f instrument).named last.2, hf, ?_⟩
      rw [hget, Option.map_map]
      rfl
    · exact ⟨f, hf, hget⟩

theorem keys_nameLanes (names : List (InstrumentId × String)) :
    (project.nameLanes names).instruments.keys = project.instruments.keys := by
  rw [nameLanes_eq_foldl]
  dsimp only
  induction names using List.reverseRecOn with
  | nil => rfl
  | append_singleton names last ih =>
    rw [List.foldl_append, List.foldl_cons, List.foldl_nil, ← ih]
    simp [OrderedMap.keys, OrderedMap.modify, OrderedMap.mapValues]

theorem roster_nameLanes (names : List (InstrumentId × String)) :
    (project.nameLanes names).roster = project.roster := by
  obtain ⟨instruments, hnamed⟩ := Session.nameLanes_eq names project
  refine roster_eq (fun id => ?_) (fun id => by rw [hnamed]) (by rw [hnamed])
  obtain ⟨f, -, hget⟩ := @get?_nameLanes project names id
  rw [OrderedMap.contains, hget, Option.isSome_map]
  rfl

end Tables

theorem channelIndexOf_of_keys {rack rack' : Rack} (h : rack.keys = rack'.keys) (id : InstrumentId) :
    channelIndexOf rack id = channelIndexOf rack' id := by
  have hkeys : ∀ rack : Rack, channelIndexOf rack id = rack.keys.findIdx? fun key => key = id :=
    fun rack => by
      rw [channelIndexOf, OrderedMap.keys, List.findIdx?_map]
      rfl
  rw [hkeys, hkeys, h]

/-- The plug-ins of the instruments say which there are, and in which order. -/
theorem Tables.keys_of_voices {project project' : Tables} (h : project'.voices = project.voices) :
    project'.instruments.keys = project.instruments.keys := by
  have hkeys : ∀ project : Tables, project.instruments.keys = project.voices.keys := fun project => by
    simp [OrderedMap.keys, Tables.voices, OrderedMap.mapValues]
  rw [hkeys, hkeys, h]

namespace Session

variable {s : Session} {host : InstrumentId → HostAnswer} {replaced : Bool}

theorem keys_publishModel :
    (s.publishModel host replaced).project.instruments.keys = s.project.instruments.keys := by
  obtain ⟨names, hproject⟩ := s.project_publishModel host replaced
  rw [hproject, Tables.keys_nameLanes, Tables.setLengths_eq]
  rfl

theorem bus_publishModel : (s.publishModel host replaced).bus =
    { s.bus with project := (s.publishModel host replaced).project } := by
  obtain ⟨_, _, _, _, _, hflush⟩ := s.fitClipsToPatterns.flush_eq
  unfold publishModel
  rw [hflush]
  rfl

theorem hosting_publishModel : (s.publishModel host replaced).hosting =
    (s.hosting.found ⟨replaced, s.project.instruments, host⟩).sync s.project.instruments host := by
  obtain ⟨_, _, _, _, _, hflush⟩ := s.fitClipsToPatterns.flush_eq
  rw [← show s.fitClipsToPatterns.project.instruments = s.project.instruments from
    Tables.instruments_setLengths s.fittedClips]
  unfold publishModel
  rw [hflush]
  rfl

/-- The history is not touched, and the roster of the project is the one it was. -/
theorem rostered_publishModel (h : s.bus.Rostered) : (s.publishModel host replaced).bus.Rostered := by
  obtain ⟨names, hproject⟩ := s.project_publishModel host replaced
  rw [bus_publishModel]
  refine h.congr ?_
  rw [hproject, Tables.roster_nameLanes, Tables.roster_setLengths]
  rfl

theorem selected_publishModel :
    (s.publishModel host replaced).selectedInstrument = s.selectedInstrument := by
  obtain ⟨_, _, _, _, _, hflush⟩ := s.fitClipsToPatterns.flush_eq
  unfold publishModel
  rw [hflush]
  rfl

theorem hasInstance_publishModel :
    (s.publishModel host replaced).hasInstance = (s.publishModel host replaced).instanceView := by
  unfold publishModel
  rfl

/-- An instrument without a plug-in of its own has nothing hosted. -/
theorem hosts_publishModel {id : InstrumentId} (h : ∀ instrument,
      s.project.instruments.get? id = some instrument → isHostedInstrument instrument = false) :
    (s.publishModel host replaced).hosts id = false := by
  unfold hosts
  rw [hosting_publishModel]
  generalize s.hosting.found _ = before
  cases hslot : (before.sync s.project.instruments host).hosted.get? id with
  | none => rfl
  | some slot =>
    obtain ⟨instrument, hindex, -, hhosted, -⟩ :=
      (Hosting.placed_sync s.project.instruments host).slot id slot hslot
    have hrack : (before.sync s.project.instruments host).rack = s.project.instruments :=
      Hosting.rack_foldl_hostOne
    rw [hrack] at hindex
    rw [h instrument (Hosting.get?_of_channel hindex)] at hhosted
    cases hhosted

/-- After an instrument without a plug-in was added, the one that counts as the last has nothing
hosted. -/
theorem hosts_lastInstrument {rack : Rack} {id last : InstrumentId} {added : Instrument}
    (hnew : rack.get? id = none) (hinstruments : s.project.instruments = rack.assign id added)
    (hadded : isHostedInstrument added = false)
    (hunhosted : ∀ entry ∈ rack.entries, entry.2.order = rack.size →
      isHostedInstrument entry.2 = false)
    (hlast : (s.publishModel host replaced).lastInstrument = some last) :
    (s.publishModel host replaced).hosts last = false := by
  unfold lastInstrument at hlast
  obtain ⟨entry, hfind, rfl⟩ := Option.map_eq_some_iff.1 hlast
  have horder := List.find?_some hfind
  have hget := OrderedMap.get?_eq_some_iff.2 (List.mem_of_find?_eq_some hfind)
  have hsize : (s.publishModel host replaced).project.instruments.size = rack.size + 1 := by
    have hkeys := congrArg List.length (@keys_publishModel s host replaced)
    simp only [OrderedMap.keys, List.length_map] at hkeys
    rw [← OrderedMap.size_assign hnew, ← hinstruments]
    exact hkeys
  rw [decide_eq_true_eq, hsize] at horder
  obtain ⟨names, hpublished⟩ := s.project_publishModel host replaced
  rw [hpublished] at hget
  obtain ⟨f, hf, hnamed⟩ := @Tables.get?_nameLanes (s.project.setLengths s.fittedClips) names entry.1
  rw [hnamed, Tables.setLengths_eq, Tables.instruments_mapClips] at hget
  -- what was found had its order before it was named
  obtain ⟨before, hbefore, heq⟩ := Option.map_eq_some_iff.1 hget
  rw [← heq, (hf before).1] at horder
  refine hosts_publishModel fun instrument hinstrument => ?_
  rw [hbefore, Option.some_inj] at hinstrument
  subst hinstrument
  rw [hinstruments, OrderedMap.get?_assign] at hbefore
  split_ifs at hbefore with hid
  · cases hbefore
    exact hadded
  · refine hunhosted (entry.1, before) (OrderedMap.get?_eq_some_iff.1 hbefore) ?_
    rw [horder]
    push_cast
    exact add_sub_cancel_right _ _

end Session

/-! ### What brings the three in line -/

namespace Surface

variable {s : Surface} {host again : InstrumentId → HostAnswer}

@[simp] theorem auditionChannel_refreshView : s.refreshView.auditionChannel = s.auditionChannel := by
  unfold refreshView
  split
  · rfl
  · split
    · rfl
    · rfl

@[simp] theorem view_setAuditionChannel (index : Option ℕ) :
    (s.setAuditionChannel index).view = s.view := by
  unfold setAuditionChannel
  split
  · rfl
  · split_ifs
    · rfl
    · rfl

theorem auditionChannel_setAuditionChannel {channel : ℕ} (hlt : channel < maxRackChannels) :
    (s.setAuditionChannel (some channel)).auditionChannel = channel := by
  rw [setAuditionChannel, if_pos hlt]

theorem view_refreshView {id : InstrumentId} {instrument : Instrument}
    (hselected : s.session.selectedInstrument = some id)
    (hget : s.session.project.instruments.get? id = some instrument) :
    s.refreshView.view = viewOf instrument (s.session.hosting.hosted.get? id) := by
  simp only [refreshView, hselected, hget]

theorem exists_of_channelOf {s : Session} {id : InstrumentId} {channel : ℕ}
    (h : s.channelOf id = some channel) :
    ∃ instrument, s.project.instruments.get? id = some instrument := by
  obtain ⟨instrument, hindex⟩ := Hosting.channelIndexOf_eq_some_iff.1 h
  exact ⟨instrument, Hosting.get?_of_channel hindex⟩

theorem instanceChannel_eq {id : InstrumentId} {channel : ℕ}
    (hselected : s.session.selectedInstrument = some id)
    (hchannel : s.session.channelOf id = some channel) : s.instanceChannel = channel := by
  rw [instanceChannel, hselected, Option.bind_some, hchannel, Option.getD_some]

/-- The channel and the view of the selected instrument, and the flag that goes with them. -/
theorem follows_of_refreshed
    (haudition : ∀ id channel, s.session.selectedInstrument = some id →
      s.session.channelOf id = some channel → channel < maxRackChannels →
        s.auditionChannel = channel)
    (hview : ∀ id instrument, s.session.selectedInstrument = some id →
      s.session.project.instruments.get? id = some instrument →
        s.view = viewOf instrument (s.session.hosting.hosted.get? id))
    (hinstance : s.session.hasInstance = s.session.instanceView) : s.Follows := by
  intro id channel hselected hchannel hlt
  refine ⟨haudition id channel hselected hchannel hlt, instanceChannel_eq hselected hchannel, ?_⟩
  obtain ⟨instrument, hget⟩ := exists_of_channelOf hchannel
  have hthere : s.session.project.instruments.contains id = true :=
    OrderedMap.contains_eq_true_iff.2 ⟨instrument, hget⟩
  have hflag : s.session.hasInstance = s.session.hosts id := by
    rw [hinstance, Session.instanceView, hselected]
    dsimp only
    rw [hthere, Bool.true_and]
    rfl
  rw [shown, instanceOf, hget, hflag, hview id instrument hselected hget]

/-- **A publish brings them in line.** -/
theorem follows_publishModel (s : Surface) (host : InstrumentId → HostAnswer) (replaced : Bool) :
    (s.publishModel host replaced).Follows := by
  refine follows_of_refreshed ?_ ?_ ?_
  · intro id channel hselected hchannel hlt
    rw [session_publishModel, Session.selected_publishModel] at hselected
    rw [session_publishModel, Session.channelOf,
      channelIndexOf_of_keys Session.keys_publishModel] at hchannel
    have hindex : s.session.selectedInstrument.bind s.session.channelOf = some channel := by
      rw [hselected, Option.bind_some]
      exact hchannel
    rw [publishModel, auditionChannel_refreshView]
    dsimp only
    rw [syncAudition, hindex]
    exact auditionChannel_setAuditionChannel hlt
  · intro id instrument hselected hget
    rw [session_publishModel] at hselected hget
    rw [session_publishModel, publishModel]
    exact view_refreshView hselected hget
  · rw [session_publishModel]
    exact Session.hasInstance_publishModel

/-- So does selecting. -/
theorem follows_selected (s : Surface) (id : InstrumentId) :
    ({ s with session := { s.session with
      selectedInstrument := some id } }.refreshInstanceView.setAuditionChannel
        (s.session.channelOf id)).Follows := by
  refine follows_of_refreshed ?_ ?_ ?_
  · intro k channel hselected hchannel hlt
    rw [session_setAuditionChannel, session_refreshInstanceView] at hselected hchannel
    cases hselected
    have hchannel : s.session.channelOf id = some channel := hchannel
    rw [hchannel]
    exact auditionChannel_setAuditionChannel hlt
  · intro k instrument hselected hget
    rw [session_setAuditionChannel, session_refreshInstanceView] at hselected hget
    rw [view_setAuditionChannel, session_setAuditionChannel, session_refreshInstanceView]
    exact view_refreshView hselected hget
  · rw [session_setAuditionChannel, session_refreshInstanceView]
    rfl

/-- So does selecting an instrument that plays a sample. -/
theorem follows_sample {id : InstrumentId} (hhosts : s.session.hosts id = false) :
    ({ s with session := { s.session with
      selectedInstrument := some id, hasInstance := false } }.setAuditionChannel
        (s.session.channelOf id)).Follows := by
  intro k channel hselected hchannel hlt
  have hselected' := hselected
  have hchannel' := hchannel
  rw [session_setAuditionChannel] at hselected' hchannel'
  cases hselected'
  have hchannel' : s.session.channelOf id = some channel := hchannel'
  refine ⟨?_, instanceChannel_eq hselected hchannel, ?_⟩
  · rw [hchannel']
    exact auditionChannel_setAuditionChannel hlt
  · rw [shown, instanceOf, session_setAuditionChannel]
    obtain ⟨instrument, hget⟩ := exists_of_channelOf hchannel'
    have hhosts' : ({ s.session with
        selectedInstrument := some id, hasInstance := false } : Session).hosts id = false := hhosts
    dsimp only [Session.project] at hget ⊢
    rw [hget, hhosts']
    rfl

/-- Only the plug-ins of the instruments matter. -/
theorem Follows.congr (h : s.Follows) {session : Session}
    (hvoices : session.project.voices = s.session.project.voices)
    (hselected : session.selectedInstrument = s.session.selectedInstrument)
    (hinstance : session.hasInstance = s.session.hasInstance)
    (hhosting : session.hosting = s.session.hosting) : { s with session }.Follows := by
  intro id channel hsome hchannel hlt
  have hsome' : s.session.selectedInstrument = some id := hselected.symm.trans hsome
  have hchannel' : s.session.channelOf id = some channel :=
    (channelIndexOf_of_keys (Tables.keys_of_voices hvoices) id).symm.trans hchannel
  obtain ⟨haudition, -, hshown⟩ := h id channel hsome' hchannel' hlt
  refine ⟨haudition, instanceChannel_eq hsome hchannel, ?_⟩
  have hshown' : ({ s with session } : Surface).shown = s.shown := by
    rw [shown, shown, hinstance]
  obtain ⟨instrument, hget⟩ := exists_of_channelOf hchannel
  obtain ⟨instrument', hget'⟩ := exists_of_channelOf hchannel'
  have hplugin : instrument.plugin = instrument'.plugin := by
    have hvoice : ∀ project : Tables, project.voices.get? id =
        (project.instruments.get? id).map Instrument.plugin := fun project =>
      OrderedMap.get?_mapValues _ _
    have hsame : session.project.voices.get? id = s.session.project.voices.get? id := by
      rw [hvoices]
    rw [hvoice, hvoice, hget, hget'] at hsame
    exact Option.some_inj.1 hsame
  have hinstanceOf : ({ s with session } : Surface).instanceOf id = s.instanceOf id := by
    have hview : viewOf instrument = viewOf instrument' := by
      unfold viewOf
      rw [hplugin]
    have hhosts : session.hosts id = s.session.hosts id := by
      rw [Session.hosts, Session.hosts, hhosting]
    simp only [instanceOf, hget, hget', hview, hhosts, hhosting]
  rw [hshown', hshown, hinstanceOf]

/-! ### The entry points -/

/-- The history is one of the rack, and the three are in line. -/
structure Sound (s : Surface) : Prop where
  rostered : s.session.bus.Rostered
  follows : s.Follows

theorem Sound.publishModel (h : s.session.bus.Rostered) (host : InstrumentId → HostAnswer)
    (replaced : Bool) : (s.publishModel host replaced).Sound where
  rostered := by
    rw [session_publishModel]
    exact Session.rostered_publishModel h
  follows := follows_publishModel s host replaced

/-- A command of the rack: it shifts the roster, or fails and leaves the plug-ins alone. -/
def Racks (command : Command) (project : Tables) : Prop :=
  (∃ roster, command.Shifts project.roster roster) ∨
    (command.apply project).ok = false ∧
      (command.apply project).state.voices = project.voices ∧
      (command.apply project).state.roster = project.roster

theorem Sound.executeModel (h : s.Sound) {command : Option Command}
    (hracks : ∀ c, command = some c → Racks c s.session.project)
    (host : InstrumentId → HostAnswer) : (s.executeModel host command).2.Sound := by
  unfold Surface.executeModel
  dsimp only
  split_ifs with hok
  · refine .publishModel ?_ host false
    cases command with
    | none => exact h.rostered
    | some c =>
      rcases hracks c rfl with ⟨roster, hshifts⟩ | ⟨hfailed, -, -⟩
      · exact (h.rostered.execute hshifts).2.1
      · rw [(Session.execute_some _ _).1, hfailed] at hok
        cases hok
  · cases command with
    | none => exact ⟨h.rostered, h.follows.congr rfl rfl rfl rfl⟩
    | some c =>
      rcases hracks c rfl with ⟨roster, hshifts⟩ | ⟨hfailed, hvoices, hroster⟩
      · exact absurd (h.rostered.execute hshifts).1 hok
      · have hproject := (Session.execute_some s.session c).2
        refine ⟨?_, h.follows.congr ((congrArg Tables.voices hproject).trans hvoices) rfl rfl rfl⟩
        have hbus : (s.session.execute (some c)).2.bus =
            { s.session.bus with project := (c.apply s.session.project).state } := by
          unfold Session.execute CommandBus.execute
          dsimp only
          rw [if_neg]
          · rfl
          · rw [Bool.not_eq_true]
            exact hfailed
        dsimp only
        rw [hbus]
        exact h.rostered.congr hroster

theorem racks_of_shifts {command : Command} {project : Tables} {roster : Roster}
    (h : command.Shifts project.roster roster) : Racks command project := .inl ⟨roster, h⟩

theorem racks_some {command : Command} {project : Tables} (h : Racks command project) :
    ∀ c, some command = some c → Racks c project := fun c hc => by
  cases hc
  exact h

theorem racks_removeInstrument (h : s.session.bus.Rostered) (id : InstrumentId) :
    Racks (removeInstrument id) s.session.project := by
  rcases Command.shifts_or_state_removed id h.validIds with hshifts | ⟨hfailed, hstate⟩
  · exact .inl hshifts
  · exact .inr ⟨hfailed, congrArg Tables.voices hstate, congrArg Tables.roster hstate⟩

theorem Sound.instrumentSelect (h : s.Sound) (id : InstrumentId) : (s.instrumentSelect id).Sound := by
  unfold Surface.instrumentSelect
  split_ifs
  · exact h
  · exact h
  · refine ⟨?_, follows_selected s id⟩
    rw [session_setAuditionChannel, session_refreshInstanceView]
    exact h.rostered

theorem Sound.edit_instrumentReorder (h : s.Sound) (host : InstrumentId → HostAnswer)
    (id : InstrumentId) (order : ℤ) : (s.edit host (.instrumentReorder id order)).Sound := by
  unfold Surface.edit
  split
  · exact h
  · exact h
  next command hreply =>
    refine h.executeModel (fun c hc => ?_) host
    subst hc
    rw [Session.reply] at hreply
    split at hreply
    · cases hreply
    · split_ifs at hreply
      rw [Reply.model.injEq] at hreply
      exact racks_of_shifts (Command.shifts_reorderInstrument hreply)

theorem Sound.edit_instrumentAddEmpty (h : s.Sound) (host : InstrumentId → HostAnswer)
    (id : InstrumentId) (track : MixerTrackId) (name : String) :
    (s.edit host (.instrumentAddEmpty id track name)).Sound := by
  exact h.executeModel (racks_some (Command.shifts_or_voices_added h.rostered.master)) host

/-- Taking the last entry back, and publishing. -/
theorem Sound.takeBack (h : s.Sound) (again : InstrumentId → HostAnswer) :
    (s.takeBack again).Sound :=
  .publishModel h.rostered.undo.1 again false

theorem Sound.instrumentReplace (h : s.Sound) (host again : InstrumentId → HostAnswer)
    (id : InstrumentId) (plugin : PluginRef) : (s.instrumentReplace host again id plugin).Sound := by
  have hreplaced : (s.executeModel host (replaceInstrument s.session.project id plugin)).2.Sound :=
    h.executeModel (fun _ hc => racks_of_shifts (Command.shifts_editInstrument hc)) host
  unfold Surface.instrumentReplace
  dsimp only
  split_ifs
  · exact hreplaced
  · exact hreplaced
  · exact hreplaced.takeBack again

/-- The instrument that was replaced by a sample has nothing hosted. -/
theorem hosts_replaceSample {id : InstrumentId} {name path : String}
    (hok : (s.executeModel host
      (replaceInstrument s.session.project id (Session.samplePlugin name path))).1 = true) :
    (s.executeModel host (replaceInstrument s.session.project id
      (Session.samplePlugin name path))).2.session.hosts id = false := by
  unfold Surface.executeModel at hok ⊢
  dsimp only at hok ⊢
  split_ifs at hok ⊢ with hdone
  rw [session_publishModel]
  refine Session.hosts_publishModel fun instrument hget => ?_
  cases hcommand : replaceInstrument s.session.project id (Session.samplePlugin name path) with
  | none =>
    rw [hcommand] at hdone
    cases hdone
  | some c =>
    rw [hcommand] at hget
    dsimp only at hget
    rw [(Session.execute_some _ _).2] at hget
    obtain ⟨before, hbefore, rfl⟩ := Option.map_eq_some_iff.1 hcommand
    have hthere : s.session.project.instruments.contains id = true :=
      OrderedMap.contains_eq_true_iff.2 ⟨before, hbefore⟩
    simp only [Command.apply, EditCommand.apply, EditTarget.write, Tables.updateInstrument, hthere,
      ↓reduceIte, Outcome.ofOption, Outcome.map_mk, OrderedMap.get?_modify, hbefore,
      Option.map_some, Option.some_inj] at hget
    rw [← hget]
    rfl

theorem Sound.instrumentReplaceSample (h : s.Sound) (host : InstrumentId → HostAnswer)
    (id : InstrumentId) (name path : String) :
    (s.instrumentReplaceSample host id name path).Sound := by
  have hreplaced : (s.executeModel host (replaceInstrument s.session.project id
      (Session.samplePlugin name path))).2.Sound :=
    h.executeModel (fun _ hc => racks_of_shifts (Command.shifts_editInstrument hc)) host
  unfold Surface.instrumentReplaceSample
  dsimp only
  split_ifs with hfailed
  · exact hreplaced
  · refine ⟨?_, follows_sample (hosts_replaceSample (by simpa using hfailed))⟩
    rw [session_setAuditionChannel]
    exact hreplaced.rostered

/-- Nothing is duplicated. -/
theorem Sound.instrumentDuplicate (h : s.Sound) (host : InstrumentId → HostAnswer)
    (track : MixerTrackId) (copy : InstrumentId) {id : InstrumentId}
    (hmissing : s.session.project.instruments.contains id = false) :
    (s.instrumentDuplicate host track copy id).Sound := by
  have hnone : duplicateInstrument s.session.project track copy id = none := by
    rw [duplicateInstrument, OrderedMap.contains_eq_false_iff.1 hmissing]
    rfl
  have hfailed : (s.executeModel host none).2.Sound := h.executeModel (fun c hc => by cases hc) host
  unfold Surface.instrumentDuplicate
  dsimp only
  rw [hnone]
  exact hfailed

theorem Sound.instrumentRemove (h : s.Sound) (host : InstrumentId → HostAnswer)
    (id : InstrumentId) : (s.instrumentRemove host id).Sound := by
  have hremoved : ∀ left : Surface, left.Sound →
      (left.executeModel host (some (removeInstrument id))).2.Sound := fun left hleft =>
    hleft.executeModel (racks_some (racks_removeInstrument hleft.rostered id)) host
  -- nothing is selected then, so nothing has to follow
  have hunselected : Surface.Sound { s with session :=
      { s.session with hasInstance := false, selectedInstrument := none } } :=
    ⟨h.rostered, fun _ _ hselected => by cases hselected⟩
  unfold Surface.instrumentRemove
  split_ifs
  · exact h
  · dsimp only
    split_ifs
    · exact hremoved _ hunselected
    · exact hremoved _ hunselected
    · split
      · exact hremoved _ hunselected
      · exact (hremoved _ hunselected).instrumentSelect _
  · dsimp only
    split_ifs
    · exact hremoved s h
    · exact hremoved s h
    · split
      · exact hremoved s h
      · exact (hremoved s h).instrumentSelect _

/-- The rack once an instrument was added. -/
theorem instruments_added {track : MixerTrackId} {id : InstrumentId} {name : String}
    {plugin : PluginRef} {project : Tables}
    (hok : ((addInstrument project true id track name plugin).apply project).ok = true) :
    project.instruments.get? id = none ∧ ∃ instrument : Instrument, instrument.plugin = plugin ∧
      ((addInstrument project true id track name plugin).apply project).state.instruments =
        project.instruments.assign id instrument := by
  have happlied : ∀ between, project.restoreMixerTrack track
      { name, output := some project.master } = some between →
      between.instruments = project.instruments := fun between htrack => by
    unfold Tables.restoreMixerTrack at htrack
    split_ifs at htrack
    cases htrack
    rfl
  let instrument : Instrument :=
    { name, color := nextInstrumentColor project, order := nextInstrumentOrder project, plugin
      routing := [⟨0, track⟩] }
  rcases Option.eq_none_or_eq_some (project.restoreMixerTrack track
      { name, output := some project.master }) with hnone | ⟨between, htrack⟩
  · simp [addInstrument, Command.apply, Command.applyAll, AddedEntity.apply, AddedEntity.restore,
      hnone, Outcome.ofOption] at hok
  have hsame := happlied between htrack
  rcases Option.eq_none_or_eq_some (between.restoreInstrument id instrument) with
    hnone | ⟨project', hinstrument⟩
  · simp [addInstrument, Command.apply, Command.applyAll, AddedEntity.apply, AddedEntity.restore,
      htrack, hnone, instrument, Outcome.ofOption] at hok
  have hstate : ((addInstrument project true id track name plugin).apply project).state =
      project' := by
    simp [addInstrument, Command.apply, Command.applyAll, AddedEntity.apply, AddedEntity.restore,
      htrack, hinstrument, instrument, Outcome.ofOption]
  rw [hstate]
  unfold Tables.restoreInstrument at hinstrument
  split_ifs at hinstrument with hvalid
  cases hinstrument
  rw [Bool.or_eq_true, not_or, Bool.not_eq_true, Bool.not_eq_true, hsame] at hvalid
  exact ⟨OrderedMap.contains_eq_false_iff.1 hvalid.2, instrument, rfl, by rw [hsame]⟩

/-- The instrument that is found after a sample was added has nothing hosted. -/
theorem hosts_lastInstrument {track : MixerTrackId} {id last : InstrumentId} {name path : String}
    (hunhosted : ∀ entry ∈ s.session.project.instruments.entries,
      entry.2.order = s.session.project.instruments.size → isHostedInstrument entry.2 = false)
    (hok : (s.executeModel host (some (addInstrument s.session.project true id track name
      (Session.samplePlugin name path)))).1 = true)
    (hlast : (s.executeModel host (some (addInstrument s.session.project true id track name
      (Session.samplePlugin name path)))).2.session.lastInstrument = some last) :
    (s.executeModel host (some (addInstrument s.session.project true id track name
      (Session.samplePlugin name path)))).2.session.hosts last = false := by
  obtain ⟨hanswer, hproject⟩ := Session.execute_some s.session
    (addInstrument s.session.project true id track name (Session.samplePlugin name path))
  unfold Surface.executeModel at hok hlast ⊢
  dsimp only at hok hlast ⊢
  split_ifs at hok hlast ⊢ with hdone
  rw [hanswer] at hdone
  obtain ⟨hnew, added, hplugin, hinstruments⟩ := instruments_added hdone
  have hadded : isHostedInstrument added = false := by
    rw [isHostedInstrument, isSampleInstrument, hplugin]
    rfl
  rw [session_publishModel] at hlast ⊢
  exact Session.hosts_lastInstrument hnew ((congrArg Tables.instruments hproject).trans hinstruments)
    hadded hunhosted hlast

theorem Sound.instrumentAddSample (h : s.Sound) (host : InstrumentId → HostAnswer)
    (id : InstrumentId) (track : MixerTrackId) (name path : String)
    (hunhosted : ∀ entry ∈ s.session.project.instruments.entries,
      entry.2.order = s.session.project.instruments.size → isHostedInstrument entry.2 = false) :
    (s.instrumentAddSample host id track name path).Sound := by
  have hadded : (s.executeModel host (some (addInstrument s.session.project true id track name
      (Session.samplePlugin name path)))).2.Sound :=
    h.executeModel (racks_some (Command.shifts_or_voices_added h.rostered.master)) host
  unfold Surface.instrumentAddSample
  dsimp only
  split_ifs with hfailed
  · exact hadded
  · split
    · exact hadded
    next last hlast =>
      refine ⟨?_, follows_sample (hosts_lastInstrument hunhosted (by simpa using hfailed) hlast)⟩
      rw [session_setAuditionChannel]
      exact hadded.rostered

theorem Sound.instanceAdd (h : s.Sound) (host again : InstrumentId → HostAnswer)
    (id : InstrumentId) (track : MixerTrackId) (plugin : PluginRef) :
    (s.instanceAdd host again id track plugin).Sound := by
  have hadded : (s.executeModel host
      (some (addInstrumentNamed s.session.project true id track plugin))).2.Sound :=
    h.executeModel (racks_some (Command.shifts_or_voices_added h.rostered.master)) host
  unfold Surface.instanceAdd
  dsimp only
  split_ifs
  · exact hadded
  · split
    · exact hadded
    · split_ifs
      · refine ⟨?_, follows_selected _ _⟩
        rw [session_setAuditionChannel, session_refreshInstanceView]
        exact hadded.rostered
      · exact hadded.takeBack again

theorem Sound.instanceRemove (h : s.Sound) (host : InstrumentId → HostAnswer) :
    (s.instanceRemove host).Sound := by
  unfold Surface.instanceRemove
  split
  next id _ _ =>
    have hremoved := h.executeModel (racks_some (racks_removeInstrument h.rostered id)) host
    dsimp only
    split_ifs
    · exact hremoved
    · refine ⟨?_, ?_⟩
      · rw [session_refreshInstanceView]
        exact hremoved.rostered
      · intro k channel hselected
        rw [session_refreshInstanceView] at hselected
        cases hselected
  · exact h

theorem rostered_repairSelection {s : Session} (h : s.bus.Rostered) :
    s.repairSelection.bus.Rostered := by
  unfold Session.repairSelection
  split
  · exact h
  · split_ifs
    · exact h
    · exact h

theorem Sound.projectUndo (h : s.Sound) (host : InstrumentId → HostAnswer) :
    (s.projectUndo host).Sound := by
  obtain ⟨hrostered, hfailed⟩ := h.rostered.undo
  unfold Surface.projectUndo
  dsimp only
  split_ifs with hnot
  · have hnot : s.session.bus.undo.1 = false := by simpa [Session.undo] using hnot
    have hbus : s.session.undo.2.bus = s.session.bus := hfailed hnot
    exact ⟨hrostered, h.follows.congr (by rw [Session.project, hbus]; rfl) rfl rfl rfl⟩
  · exact .publishModel (rostered_repairSelection hrostered) host false

theorem Sound.projectRedo (h : s.Sound) (host : InstrumentId → HostAnswer) :
    (s.projectRedo host).Sound := by
  obtain ⟨hrostered, hfailed⟩ := h.rostered.redo
  unfold Surface.projectRedo
  dsimp only
  split_ifs with hnot
  · have hnot : s.session.bus.redo.1 = false := by simpa [Session.redo] using hnot
    have hbus : s.session.redo.2.bus = s.session.bus := hfailed hnot
    exact ⟨hrostered, h.follows.congr (by rw [Session.project, hbus]; rfl) rfl rfl rfl⟩
  · exact .publishModel (rostered_repairSelection hrostered) host false

theorem rostered_freshProject (ids : FreshIds) :
    (CommandBus.start (freshProject ids)).Rostered := by
  refine CommandBus.rostered_start (fun id hid => ?_) ?_
  · cases hid
  · simp [freshProject, newProject, OrderedMap.contains]

theorem Sound.projectOpen (h : s.Sound) (host : InstrumentId → HostAnswer)
    (loaded : Option OpenedProject) :
    (s.projectOpen host (loaded.map OpenedProject.project)).Sound := by
  cases loaded with
  | none => exact ⟨h.rostered, h.follows.congr rfl rfl rfl rfl⟩
  | some opened =>
    exact .publishModel (CommandBus.rostered_start opened.validIds opened.master) host true

/-- **A call that does not reach the defects keeps the three in line.** -/
theorem Sound.call (h : s.Sound) {call : SurfaceCall} (hrefreshes : s.Refreshes call) :
    (s.call call).Sound := by
  cases call with
  | instrumentSelect id => exact h.instrumentSelect id
  | instrumentReorder id order host => exact h.edit_instrumentReorder host id order
  | instrumentReplace id plugin host again => exact h.instrumentReplace host again id plugin
  | instrumentReplaceSample id name path host => exact h.instrumentReplaceSample host id name path
  | instrumentDuplicate track copy id host => exact h.instrumentDuplicate host track copy hrefreshes
  | instrumentRemove id host => exact h.instrumentRemove host id
  | instrumentAddEmpty id track name host => exact h.edit_instrumentAddEmpty host id track name
  | instrumentAddSample id track name path host =>
    exact h.instrumentAddSample host id track name path hrefreshes
  | instanceAdd id track plugin host again => exact h.instanceAdd host again id track plugin
  | instanceRemove host => exact h.instanceRemove host
  | projectUndo host => exact h.projectUndo host
  | projectRedo host => exact h.projectRedo host
  | projectNew ids host => exact .publishModel (rostered_freshProject ids) host true
  | projectOpen loaded host => exact h.projectOpen host loaded

theorem sound_create (host : InstrumentId → HostAnswer) (ids : FreshIds) (sampleRate : Double) :
    (create host ids sampleRate).Sound := by
  refine ⟨Session.rostered_publishModel (rostered_freshProject ids), fun id channel hselected => ?_⟩
  have hselected : (Session.create host ids sampleRate).selectedInstrument = some id := hselected
  rw [Session.create, Session.selected_publishModel] at hselected
  cases hselected

/-- Host two plug-ins, and go back to the first. -/
def hostTwo : List SurfaceCall :=
  [.instanceAdd ⟨5⟩ ⟨6⟩ { id := "synth", name := "Synth", pathHint := "synth.clap" }
      Session.loadsAll Session.loadsAll,
    .instanceAdd ⟨7⟩ ⟨8⟩ { id := "bass", name := "Bass", pathHint := "bass.clap" }
      Session.loadsAll Session.loadsAll,
    .instrumentSelect ⟨5⟩]

end Surface

end OneBeat
