import OneBeat.Session.CallRules
import OneBeat.Session.Values

/-!
# What calls write

`Session.MeetsCall` says when the arguments of a call meet what is asked of plug-ins and reals, and
`Session.upholds_call` that the project and the history then go on meeting it.  Undo, redo and what
a publish does to the project need no condition: they write what was there before.  Nothing but a
publish moves a plug-in, and this goes along from call to call (`Session.onward_call`).
-/

namespace OneBeat

/-- Another project takes the place of the one that is open. -/
def Call.replaces : Call → Bool
  | .projectNew _ _ => true
  | .projectOpen (some _) _ => true
  | _ => false

namespace Session

variable {W : Values}

/-! ### Sessions -/

/-- Publishes in between, and what they made of the plug-ins. -/
def Replays (s s' : Session) : Prop :=
  ∃ publishes, s'.publishes = s.publishes ++ publishes ∧
    Hosting.system.run s.hosting publishes = some s'.hosting

variable {base s s' : Session} {host again : InstrumentId → HostAnswer}

theorem Replays.refl (s : Session) : s.Replays s := ⟨[], (List.append_nil _).symm, rfl⟩

theorem Replays.trans {s'' : Session} (h : s.Replays s') (h' : s'.Replays s'') :
    s.Replays s'' := by
  obtain ⟨first, hlog, hrun⟩ := h
  obtain ⟨second, hlog', hrun'⟩ := h'
  refine ⟨first ++ second, ?_, ?_⟩
  · rw [hlog', hlog, List.append_assoc]
  · rw [TransitionSystem.run_append, hrun]
    exact hrun'

/-- A publish is one step of the plug-ins. -/
theorem replays_publishModel (host : InstrumentId → HostAnswer) (s : Session)
    (replaced : Bool) : s.Replays (s.publishModel host replaced) := by
  obtain ⟨_, _, _, _, _, hflush⟩ := s.fitClipsToPatterns.flush_eq
  unfold publishModel
  rw [hflush]
  exact ⟨_, rfl, rfl⟩

/-- What was published before some calls, and whether one of these replaces the project. -/
structure PublishLog where
  base : List Publish
  replaced : Bool

/-- The racks that were published since meet the standard, and the project was replaced only where
that is allowed. -/
def PublishLog.Meets (W : Values) (log : PublishLog) (publishes : List Publish) : Prop :=
  ∃ later, publishes = log.base ++ later ∧ ∀ publish ∈ later,
    (publish.replaced = true → log.replaced = true) ∧
      ∀ id value, publish.rack.get? id = some value → W.instrument id value

/-- The project and the history meet the standard, and so does what was published. -/
def Upholds (W : Values) (log : PublishLog) (s : Session) : Prop :=
  s.bus.Upholds W.standard ∧ log.Meets W s.publishes

variable {log : PublishLog}

theorem Upholds.project (h : s.Upholds W log) : s.project.Upholds W.standard := h.1.project

/-- Nothing has been published yet. -/
theorem upholds_of_bus (h : s.bus.Upholds W.standard) (replaced : Bool) :
    s.Upholds W ⟨s.publishes, replaced⟩ := ⟨h, [], (List.append_nil _).symm, nofun⟩

/-- Another history, and nothing published. -/
theorem Upholds.withBus (h : s.Upholds W log) {s' : Session} (hbus : s'.bus.Upholds W.standard)
    (hpublishes : s'.publishes = s.publishes) : s'.Upholds W log := by
  refine ⟨hbus, ?_⟩
  rw [hpublishes]
  exact h.2

/-- A publish resizes clips and names plug-ins. -/
theorem Upholds.publishModel (h : s.Upholds W log) {replaced : Bool}
    (hreplaced : replaced = true → log.replaced = true) :
    (s.publishModel host replaced).Upholds W log := by
  have hfits : s.fitClipsToPatterns.Upholds W log :=
    h.withBus (h.1.withProject (h.project.setLengths _)) rfl
  have hflush : s.fitClipsToPatterns.flush.Upholds W log := by
    obtain ⟨_, _, _, _, _, hflush⟩ := s.fitClipsToPatterns.flush_eq
    rw [hflush]
    exact hfits
  obtain ⟨hbus, later, hlater, hall⟩ := hflush
  refine ⟨hbus.withProject (hbus.project.foldl fun entry _ _ _ hproject hupdate =>
    hproject.updateInstrument (f := Instrument.named entry.2) (fun _ hvalue => hvalue) hupdate),
    later ++ [⟨replaced, s.fitClipsToPatterns.flush.project.instruments, host⟩], ?_, ?_⟩
  · rw [← List.append_assoc, ← hlater]
    rfl
  · refine List.forall_mem_append.2 ⟨hall, List.forall_mem_singleton.2 ⟨hreplaced, ?_⟩⟩
    exact hbus.project.instrument

/-- The session has gone on from another: what both have to meet is met, and what was published in
between says what is hosted. -/
def Onward (W : Values) (log : PublishLog) (base s : Session) : Prop :=
  s.Upholds W log ∧ base.Replays s

theorem Onward.project (h : Onward W log base s) : s.project.Upholds W.standard := h.1.1.project

/-- Another history, and nothing published. -/
theorem Onward.withBus (h : Onward W log base s) (hbus : s'.bus.Upholds W.standard)
    (hpublishes : s'.publishes = s.publishes) (hhosting : s'.hosting = s.hosting) :
    Onward W log base s' := by
  refine ⟨h.1.withBus hbus hpublishes, ?_⟩
  unfold Replays
  rw [hpublishes, hhosting]
  exact h.2

theorem Onward.publishModel (h : Onward W log base s) :
    Onward W log base (s.publishModel host) :=
  ⟨h.1.publishModel nofun, h.2.trans (replays_publishModel host s false)⟩

theorem Onward.undo (h : Onward W log base s) : Onward W log base s.undo.2 :=
  h.withBus (CommandBus.Upholds.undo h.1.1) rfl rfl

theorem Onward.redo (h : Onward W log base s) : Onward W log base s.redo.2 :=
  h.withBus (CommandBus.Upholds.redo h.1.1) rfl rfl

theorem arrangingRule_onward : ArrangingRule (Onward W log base)
    (fun project command => project.Upholds W.standard → Brings W command) W.real W.source
    W.transforms where
  alike h hbus hpublishes hhosting _ := h.withBus (hbus ▸ h.1.1) hpublishes hhosting
  publishModel _ h := h.publishModel
  execute h hcommand := h.withBus (CommandBus.Upholds.execute h.1.1 (hcommand h.project)) rfl rfl
  selectPattern _ h := h
  beginTransaction h := h.withBus (CommandBus.Upholds.beginTransaction h.1.1) rfl rfl
  commitTransaction h := h.withBus (CommandBus.Upholds.commitTransaction h.1.1) rfl rfl
  abortTransaction h := h.withBus (CommandBus.Upholds.abortTransaction h.1.1) rfl rfl
  sealHistory h := h.withBus (CommandBus.Upholds.sealHistory h.1.1) rfl rfl
  swingOf h hget := (h.project.pattern _ _ hget).1
  clipOf h hget := h.project.clip _ _ hget
  plays _ := trivial
  addPattern _ _ _ _ _ := builds_some (brings_addPattern _ _ _)
  removePattern _ _ _ := builds_some (by
    rw [OneBeat.removePattern, Command.Brings]
    trivial)
  editPatternMeta _ _ _ _ hmutator hproject := brings_editPatternMeta hproject _ _ hmutator
  note _ command _ := brings_note command
  addLane _ _ _ _ := builds_some (by
    rw [OneBeat.addLane, Command.Brings]
    trivial)
  editLane _ _ _ _ _ := brings_editLane _ _ _
  addClip _ _ _ _ _ _ hplays _ := builds_some (brings_addClip _ _ hplays _ _)
  editClip _ _ _ _ hmutator hproject := brings_editClip hproject _ _ fun value hvalue =>
    hmutator value hvalue.1 hvalue.2
  removeClip _ _ _ := builds_some (by
    rw [OneBeat.removeClip, Command.Brings]
    trivial)
  setProjectMeta _ _ _ := builds_some (by
    rw [OneBeat.setProjectMeta, Command.Brings]
    trivial)

/-! ### Calls -/

/-- The arguments of a call meet what is asked, where the call writes them at all. -/
def MeetsCall (W : Values) (s : Session) : Call → Prop
  | .edit edit _ => MeetsEdit W s edit
  | .instrumentReplace id plugin _ _ =>
    s.project.instruments.contains id = true → W.plugin id plugin.id
  | .instrumentReplaceSample id _ _ _ =>
    s.project.instruments.contains id = true → W.plugin id kSamplePluginId
  | .instrumentDuplicate _ copy id _ =>
    ∀ source, s.project.instruments.get? id = some source → W.plugin copy source.plugin.id
  | .instrumentAddSample id _ _ _ _ => W.plugin id kSamplePluginId
  | .instanceAdd id _ plugin _ _ => W.plugin id plugin.id
  | .projectOpen (some project) _ => project.Upholds W.standard
  | _ => True

theorem brings_replaceInstrument (h : Onward W log base s) {id : InstrumentId} {plugin : PluginRef}
    (hplugin : s.project.instruments.contains id = true → W.plugin id plugin.id) :
    Brings W (replaceInstrument s.project id plugin) :=
  brings_editInstrument h.project _ _ fun value hget hvalue =>
    ⟨hplugin (OrderedMap.contains_eq_true_iff.2 ⟨value, hget⟩), hvalue.2⟩

theorem brings_removeInstrument (id : InstrumentId) :
    Brings W (some (OneBeat.removeInstrument id)) := by
  refine builds_some ?_
  rw [OneBeat.removeInstrument, Command.Brings]
  trivial

/-! ### Projects -/

theorem upholds_freshProject (W : Values) (ids : FreshIds) :
    (freshProject ids).Upholds W.standard := by
  have hnone : ∀ {α β : Type} [LinearOrder α] {p : α → β → Prop} (k : α) (v : β),
      (OrderedMap.empty : OrderedMap α β).get? k = some v → p k v := nofun
  exact ⟨hnone, OrderedMap.forall_assign hnone ⟨W.finite 0, nofun⟩,
    OrderedMap.forall_assign hnone ⟨trivial, W.finite 1, W.finite 1⟩,
    OrderedMap.forall_assign hnone (track_default _ _), W.finite 120⟩

theorem upholds_create (W : Values) (host : InstrumentId → HostAnswer) (ids : FreshIds)
    (sampleRate : Double) : (create host ids sampleRate).Upholds W ⟨[], false⟩ := by
  have hstart : Upholds W ⟨[], false⟩
      { bus := .start (freshProject ids), sampleRate, currentPattern := some ids.pattern } :=
    upholds_of_bus (CommandBus.upholds_start (upholds_freshProject W ids)) false
  exact hstart.publishModel nofun

/-- The project that takes the place of another meets the standard, whatever that one did. -/
theorem upholds_projectOpen (s : Session) (host : InstrumentId → HostAnswer) {project : Tables}
    (h : project.Upholds W.standard) :
    (s.projectOpen host (some project)).2.Upholds W ⟨s.publishes, true⟩ := by
  have hreplaced : Upholds W ⟨s.publishes, true⟩
      { s.replaceProject project project.patterns.keys.head? with dirty := true } :=
    ⟨CommandBus.upholds_start h, [], (List.append_nil _).symm, nofun⟩
  exact hreplaced.publishModel fun _ => rfl

theorem upholds_projectNew (s : Session) (host : InstrumentId → HostAnswer) (ids : FreshIds) :
    (s.projectNew host ids).2.Upholds W ⟨s.publishes, true⟩ := by
  have hreplaced : Upholds W ⟨s.publishes, true⟩
      (s.replaceProject (freshProject ids) (some ids.pattern)) :=
    ⟨CommandBus.upholds_start (upholds_freshProject W ids), [], (List.append_nil _).symm, nofun⟩
  exact hreplaced.publishModel fun _ => rfl

theorem onward_projectSave (h : Onward W log base s)
    (states : List (InstrumentId × String × String)) :
    Onward W log base (s.projectSave states).2 :=
  h.withBus (h.1.1.withProject (h.project.foldl fun entry _ _ _ hproject hupdate =>
    hproject.updateInstrument (f := stateSaved entry.2.1 entry.2.2) (fun _ hvalue => hvalue)
      hupdate)) rfl rfl

theorem onward_call (h : Onward W log base s) (call : Call) (hkeeps : call.replaces = false)
    (hmeets : MeetsCall W s call) : Onward W log base (s.call call).2 := by
  cases call with
  | edit edit host =>
    have hreply := brings_reply h.project edit hmeets
    rw [call, Session.edit]
    split
    · exact h
    · exact h
    next command hmodel =>
      rw [hmodel] at hreply
      exact arrangingRule_onward.executeModel h host fun _ => hreply
  | instrumentReplace id plugin host again =>
    have hreplaced := arrangingRule_onward.executeModel h host fun _ =>
      brings_replaceInstrument h hmeets
    exact of_ite (P := Onward W log base) hreplaced
      (of_ite (P := Onward W log base) hreplaced hreplaced.undo.publishModel)
  | instrumentReplaceSample id name path host =>
    have hcommand : Brings W (replaceInstrument s.project id (samplePlugin name path)) :=
      brings_replaceInstrument h hmeets
    exact arrangingRule_onward.instrumentReplaceSample
      (arrangingRule_onward.executeModel h host fun _ => hcommand)
  | instrumentDuplicate track copy id host =>
    exact arrangingRule_onward.instrumentDuplicate (arrangingRule_onward.executeModel h host
      fun _ => brings_duplicateInstrument h.project track hmeets)
  | instrumentRemove id host =>
    exact arrangingRule_onward.instrumentRemove h fun left hleft _ =>
      arrangingRule_onward.executeModel hleft host fun _ => brings_removeInstrument id
  | instrumentAddSample id track name path host =>
    exact arrangingRule_onward.instrumentAddSample (arrangingRule_onward.executeModel h host
      fun _ => builds_some
        (@brings_addInstrument W s.project id (samplePlugin name path) hmeets track name))
  | instanceAdd id track plugin host again =>
    have hadded := arrangingRule_onward.executeModel h host fun _ =>
      builds_some (brings_addInstrument s.project hmeets track
        (uniqueInstrumentName s.project plugin.name))
    exact arrangingRule_onward.instanceAdd hadded hadded.undo.publishModel
  | instanceRemove host =>
    exact arrangingRule_onward.instanceRemove h fun id =>
      arrangingRule_onward.executeModel h host fun _ => brings_removeInstrument id
  | projectUndo host =>
    exact of_ite (P := Onward W log base) h.undo
      (arrangingRule_onward.repairSelection h.undo).publishModel
  | projectRedo host =>
    exact of_ite (P := Onward W log base) h.redo
      (arrangingRule_onward.repairSelection h.redo).publishModel
  | projectNew ids host => cases hkeeps
  | projectOpen loaded host =>
    cases loaded with
    | none => exact h
    | some project => cases hkeeps
  | projectSave states => exact onward_projectSave h states
  | _ => exact arrangingRule_onward.call h _ rfl

/-- **A call whose arguments meet what is asked leaves a project and a history that do**, and
publishes no other rack. -/
theorem upholds_call (h : s.Upholds W log) (call : Call) (hkeeps : call.replaces = false)
    (hmeets : MeetsCall W s call) : (s.call call).2.Upholds W log :=
  (onward_call ⟨h, .refl s⟩ call hkeeps hmeets).1

/-- So does one that replaces the project. -/
theorem bus_upholds_call (h : s.bus.Upholds W.standard) (call : Call)
    (hmeets : MeetsCall W s call) : (s.call call).2.bus.Upholds W.standard := by
  cases call with
  | projectNew ids host => exact (upholds_projectNew s host ids).1
  | projectOpen loaded host =>
    cases loaded with
    | none => exact h
    | some project => exact (upholds_projectOpen s host hmeets).1
  | _ => exact (upholds_call (upholds_of_bus h false) _ rfl hmeets).1

end Session

end OneBeat
