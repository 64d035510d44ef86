import OneBeat.Commands.RackHistory
import OneBeat.Session.AddedInstruments
import OneBeat.Session.CallRules
import OneBeat.Session.QuietEdits

/-!
# The rows of the rack

`ob_engine_instrument_at` and `ob_engine_rack_row_at` read their rows through `orderedInstrument`,
which finds an instrument by its rank.

* `Session.rowsShown_iff` : every instrument has one row exactly when no two have one order.
* `Session.rowsShown_of_run` : and every run shows them that opens such files, takes nothing back
  under an open gesture that holds edits of instruments, and moves no instrument inside a gesture.
-/

namespace OneBeat

namespace Session

variable {s : Session} {host again : InstrumentId → HostAnswer} {replaced : Bool}

/-! ### Rows and orders -/

/-- The rows show every instrument once, and in order. -/
structure RowsShown (s : Session) : Prop where
  defined : ∀ i < s.project.instruments.size, ∃ id, s.orderedInstrument i = some id
  distinct : ∀ i j id, s.orderedInstrument i = some id → s.orderedInstrument j = some id → i = j
  ordered : ∀ i j a b x y, i ≤ j → s.orderedInstrument i = some a → s.orderedInstrument j = some b →
    s.project.orders a = some x → s.project.orders b = some y → x ≤ y
  complete : ∀ id, s.project.instruments.contains id = true →
    ∃ i < s.project.instruments.size, s.orderedInstrument i = some id

/-- **Every instrument has one row** exactly when no two have one order. -/
theorem rowsShown_iff (s : Session) : s.RowsShown ↔ DistinctOrders s.project := by
  set rows := s.project.instruments.entries with hrows
  have hkey : ∀ x ∈ rows, ∀ y ∈ rows, x.1 = y.1 → x = y := fun x hx y hy heq =>
    List.inj_on_of_nodup_map s.project.instruments.nodup_keys hx hy heq
  have horder : ∀ x ∈ rows, s.project.orders x.1 = some x.2.order := fun x hx =>
    Tables.orders_eq_some_iff.2 ⟨x.2, hx, rfl⟩
  have hrow : ∀ i id, s.orderedInstrument i = some id ↔
      ∃ x, RankedRows.rowAt rows (fun entry => entry.2.order) i = some x ∧ x.1 = id := fun i id => by
    rw [orderedInstrument_eq_rowAt, Option.map_eq_some_iff]
  rw [DistinctOrders, ← RankedRows.shown_iff_nodup]
  constructor
  · intro h
    refine ⟨fun i hi => ?_, fun i j x hi hj => ?_, fun i j x y hij hi hj => ?_⟩
    · obtain ⟨id, hid⟩ := h.defined i hi
      obtain ⟨x, hx, -⟩ := (hrow i id).1 hid
      exact ⟨x, hx⟩
    · exact h.distinct i j x.1 ((hrow i x.1).2 ⟨x, hi, rfl⟩) ((hrow j x.1).2 ⟨x, hj, rfl⟩)
    · exact h.ordered i j x.1 y.1 _ _ hij ((hrow i x.1).2 ⟨x, hi, rfl⟩)
        ((hrow j y.1).2 ⟨y, hj, rfl⟩) (horder x (RankedRows.rank_eq_of_rowAt hi).1)
        (horder y (RankedRows.rank_eq_of_rowAt hj).1)
  · intro h
    refine ⟨fun i hi => ?_, fun i j id hi hj => ?_, fun i j a b x y hij hi hj hx hy => ?_,
      fun id hid => ?_⟩
    · obtain ⟨x, hx⟩ := h.defined i hi
      exact ⟨x.1, (hrow i x.1).2 ⟨x, hx, rfl⟩⟩
    · obtain ⟨x, hx, rfl⟩ := (hrow i id).1 hi
      obtain ⟨y, hy, heq⟩ := (hrow j x.1).1 hj
      rw [hkey y (RankedRows.rank_eq_of_rowAt hy).1 x (RankedRows.rank_eq_of_rowAt hx).1 heq] at hy
      exact h.distinct i j x hx hy
    · obtain ⟨u, hu, rfl⟩ := (hrow i a).1 hi
      obtain ⟨v, hv, rfl⟩ := (hrow j b).1 hj
      rw [horder u (RankedRows.rank_eq_of_rowAt hu).1, Option.some_inj] at hx
      rw [horder v (RankedRows.rank_eq_of_rowAt hv).1, Option.some_inj] at hy
      rw [← hx, ← hy]
      exact h.ordered i j u v hij hu hv
    · obtain ⟨instrument, hget⟩ := OrderedMap.contains_eq_true_iff.1 hid
      have hmem : (id, instrument) ∈ rows := OrderedMap.get?_eq_some_iff.1 hget
      exact ⟨_, RankedRows.rank_lt_length hmem, (hrow _ id).2
        ⟨(id, instrument), RankedRows.rowAt_rank (RankedRows.shown_iff_nodup.1 h) hmem, rfl⟩⟩

/-! ### Publishes and the history -/

theorem ranking_publishModel :
    (s.publishModel host replaced).project.ranking = s.project.ranking := by
  obtain ⟨names, hproject⟩ := s.project_publishModel host replaced
  have hroster : (s.publishModel host replaced).project.roster = s.project.roster := by
    rw [hproject, Tables.roster_nameLanes, Tables.roster_setLengths]
  rw [Tables.ranking, Tables.ranking, orders_publishModel, hroster]

/-- The history of the session is one of distinct orders. -/
def Ranked (s : Session) : Prop := s.bus.Ranked

theorem Ranked.rowsShown (h : s.Ranked) : s.RowsShown :=
  (rowsShown_iff s).2 (distinctOrders_iff.2 h.proper.distinct)

theorem Ranked.publishModel (h : s.Ranked) : (s.publishModel host replaced).Ranked := by
  unfold Ranked
  rw [bus_publishModel]
  exact CommandBus.Ranked.congr h ranking_publishModel

/-- What a factory builds, if anything, moves nothing. -/
def KeepsRack (project : Tables) (command : Option Command) : Prop :=
  ∀ c, command = some c → c.KeepsRack project.orders

theorem Ranked.execute (h : s.Ranked) {command : Option Command}
    (hkeeps : KeepsRack s.project command) : (s.execute command).2.Ranked :=
  CommandBus.Ranked.execute h hkeeps

/-- A command of the rack, where no gesture is open. -/
theorem Ranked.executeRack (h : s.Ranked) (hopened : s.bus.opened = [])
    (host : InstrumentId → HostAnswer) {command : Option Command}
    (hrestacks : ∀ c, command = some c → c.Restacks s.project) :
    (s.executeModel host command).2.Ranked ∧ (s.executeModel host command).2.bus.opened = [] := by
  obtain ⟨hranked, hstill⟩ := CommandBus.Ranked.execute_rack h hopened hrestacks
  have hranked : (s.execute command).2.Ranked := hranked
  unfold Session.executeModel
  dsimp only
  split_ifs
  · refine ⟨hranked.publishModel, ?_⟩
    rw [bus_publishModel]
    exact hstill
  · exact ⟨hranked, hstill⟩

/-- Taking back the last entry, where no gesture is open. -/
theorem Ranked.takeBack (h : s.Ranked) (hopened : s.bus.opened = []) :
    (s.takeBack again).Ranked := by
  have hundone : s.undo.2.Ranked := CommandBus.Ranked.undo h (by
    rw [CommandBus.OpenedSpare, hopened]
    exact nofun)
  exact hundone.publishModel

/-! ### What the entry points build -/

section

variable {project : Tables}

/-- An edit of an instrument that leaves its order alone. -/
theorem keepsRack_editInstrument (id : InstrumentId) (field : ChangeField)
    {mutator : Instrument → Instrument}
    (hmutator : ∀ instrument, (mutator instrument).order = instrument.order) :
    KeepsRack project (editInstrument project id field mutator) := fun c hc => by
  obtain ⟨instrument, hget, rfl⟩ := Option.map_eq_some_iff.1 hc
  have horder : project.orders id = some instrument.order := by
    rw [Tables.orders, hget, Option.map_some]
  refine ⟨horder, ?_⟩
  exact horder.trans (congrArg some (hmutator instrument).symm)

theorem keepsRack_editPatternMeta (target : Tables) (id : PatternId) (field : ChangeField)
    (mutator : PatternMeta → PatternMeta) :
    KeepsRack project (editPatternMeta target id field mutator) := by
  unfold editPatternMeta
  refine builds_map (fun value => ?_) _
  exact ⟨trivial, trivial⟩

theorem keepsRack_editLane (target : Tables) (id : ArrangementLaneId) (field : ChangeField)
    (mutator : ArrangementLane → ArrangementLane) :
    KeepsRack project (editLane target id field mutator) := by
  unfold editLane
  refine builds_map (fun value => ?_) _
  exact ⟨trivial, trivial⟩

theorem keepsRack_editClip (target : Tables) (id : ClipId) (field : ChangeField)
    (mutator : Clip → Clip) : KeepsRack project (editClip target id field mutator) := by
  unfold editClip
  refine builds_map (fun value => ?_) _
  exact ⟨trivial, trivial⟩

end

/-- An entry point that executes something moves nothing. -/
def Reply.KeepsRack (project : Tables) : Reply → Prop
  | .model command => Session.KeepsRack project command
  | _ => True

end Session

namespace Session

variable {s : Session} {host again : InstrumentId → HostAnswer}

theorem quietEdits_keepsRack (project : Tables) :
    QuietEdits (fun command => command.KeepsRack project.orders) project where
  instrument {id _ before _} hget hafter := by
    have horder : project.orders id = some before.order := by
      rw [Tables.orders, hget, Option.map_some]
    exact ⟨horder, horder.trans (congrArg some hafter.symm)⟩
  edit {command} hother := by
    obtain ⟨target, field, before, after⟩ := command
    cases target with
    | instrument id => exact absurd rfl (hother id)
    | _ => exact ⟨trivial, trivial⟩
  effectParam _ := trivial
  note _ := trivial
  transport _ := trivial
  addLane _ _ := trivial
  addClip _ _ := trivial
  removeLane _ := trivial
  removeClip _ := trivial
  composite := Command.keepsRackAll_iff.2

/-- **No other edit moves an instrument.** -/
theorem keepsRack_reply (edit : Edit) (hedit : edit.restacks = false) :
    Reply.KeepsRack s.project (s.reply edit) := by
  have hkeeps := (quietEdits_keepsRack s.project).reply edit hedit
  cases hreply : s.reply edit with
  | model command => exact hreply ▸ hkeeps
  | _ => trivial

theorem arrangingRule_ranked : ArrangingRule Ranked KeepsRack (fun _ => True) (fun _ => True)
    fun _ => True where
  alike h hbus _ _ _ := by
    rw [Ranked, hbus]
    exact h
  publishModel _ h := h.publishModel
  execute h hkeeps := h.execute hkeeps
  selectPattern _ h := h
  beginTransaction h := CommandBus.Ranked.beginTransaction h
  commitTransaction h := CommandBus.Ranked.commitTransaction h
  abortTransaction h := CommandBus.Ranked.abortTransaction h
  sealHistory h := CommandBus.Ranked.sealHistory h
  swingOf _ _ := trivial
  clipOf _ _ := ⟨trivial, trivial⟩
  plays _ := trivial
  addPattern _ _ _ _ := builds_some trivial
  removePattern _ _ := builds_some trivial
  editPatternMeta _ _ _ _ _ := keepsRack_editPatternMeta _ _ _ _
  note _ _ := builds_some trivial
  addLane _ _ _ := builds_some trivial
  editLane _ _ _ _ := keepsRack_editLane _ _ _ _
  addClip _ _ _ _ _ _ _ := builds_some trivial
  editClip _ _ _ _ _ := keepsRack_editClip _ _ _ _
  removeClip _ _ := builds_some trivial
  setProjectMeta _ _ := builds_some trivial

/-! ### Calls that move instruments -/

/-- An entry is put on the stack, and no gesture is opened. -/
theorem opened_executeModel (hopened : s.bus.opened = []) (command : Option Command) :
    (s.executeModel host command).2.bus.opened = [] := by
  have hexecuted : (s.execute command).2.bus.opened = [] := by
    unfold execute CommandBus.execute
    cases command with
    | none => exact hopened
    | some command =>
      dsimp only
      split_ifs
      · unfold CommandBus.record
        simp only [hopened]
        split
        · rfl
        · split
          · rfl
          · rfl
      · exact hopened
  unfold executeModel
  dsimp only
  split_ifs
  · rw [bus_publishModel]
    exact hexecuted
  · exact hexecuted

theorem keepsRack_replaceInstrument (id : InstrumentId) (plugin : PluginRef) :
    KeepsRack s.project (replaceInstrument s.project id plugin) :=
  keepsRack_editInstrument _ _ fun _ => rfl

theorem ranked_removed (h : s.Ranked) (hopened : s.bus.opened = [])
    (host : InstrumentId → HostAnswer) (id : InstrumentId) :
    (s.executeModel host (some (OneBeat.removeInstrument id))).2.Ranked :=
  (h.executeRack hopened host fun c hc => by
    obtain rfl := Option.some_inj.1 hc
    exact Command.restacks_removeInstrument h.proper id).1

/-- An instrument is added behind the others. -/
theorem ranked_added (h : s.Ranked) (hopened : s.bus.opened = []) (host : InstrumentId → HostAnswer)
    (id : InstrumentId) (track : MixerTrackId) (name : String) (plugin : PluginRef) :
    (s.executeModel host (some (addInstrument s.project true id track name plugin))).2.Ranked :=
  (h.executeRack hopened host fun c hc => by
    obtain rfl := Option.some_inj.1 hc
    exact Command.restacks_added h.proper rfl).1

theorem ranked_projectSave (h : s.Ranked) (states : List (InstrumentId × String × String)) :
    (s.projectSave states).2.Ranked := by
  have hsaved : ∀ (states : List (InstrumentId × String × String)) (project : Tables),
      (states.foldl (fun project entry => (project.updateInstrument entry.1
        (stateSaved entry.2.1 entry.2.2)).getD project) project).ranking = project.ranking :=
    fun states => by
      induction states with
      | nil => exact fun _ => rfl
      | cons entry states ih =>
        intro project
        rw [List.foldl_cons, ih]
        cases hupdate : project.updateInstrument entry.1 (stateSaved entry.2.1 entry.2.2) with
        | none => rfl
        | some project' =>
          have horder : ∀ instrument, (stateSaved entry.2.1 entry.2.2 instrument).order =
              instrument.order := fun _ => rfl
          rw [Option.getD_some, Tables.ranking, Tables.ranking,
            Tables.orders_updateInstrument horder hupdate, Tables.roster_updateInstrument hupdate]
  exact CommandBus.Ranked.congr h (hsaved states s.project)

/-! ### Projects -/

theorem proper_freshProject (ids : FreshIds) : (freshProject ids).ranking.Proper where
  distinct a b order ha _ := by cases ha
  validIds := (Surface.rostered_freshProject ids).validIds
  master := (Surface.rostered_freshProject ids).master

theorem ranked_create (host : InstrumentId → HostAnswer) (ids : FreshIds) (sampleRate : Double) :
    (create host ids sampleRate).Ranked := by
  have hstart : Ranked
      { bus := .start (freshProject ids), sampleRate, currentPattern := some ids.pattern } :=
    CommandBus.ranked_start (proper_freshProject ids)
  exact hstart.publishModel

theorem ranked_projectNew (s : Session) (host : InstrumentId → HostAnswer) (ids : FreshIds) :
    (s.projectNew host ids).2.Ranked := by
  have hreplaced : (s.replaceProject (freshProject ids) (some ids.pattern)).Ranked :=
    CommandBus.ranked_start (proper_freshProject ids)
  exact hreplaced.publishModel

theorem ranked_projectOpen (s : Session) (host : InstrumentId → HostAnswer) (opened : OpenedProject)
    (hdistinct : DistinctOrders opened.project) :
    (s.projectOpen host (some opened.project)).2.Ranked := by
  have hreplaced : Ranked
      { s.replaceProject opened.project opened.project.patterns.keys.head? with dirty := true } :=
    CommandBus.ranked_start ⟨distinctOrders_iff.1 hdistinct, opened.validIds, opened.master⟩
  exact hreplaced.publishModel

end Session

/-- The call adds, moves, replaces or removes an instrument. -/
def Call.restacks : Call → Bool
  | .edit entry _ => entry.restacks
  | .instrumentReplace .. | .instrumentDuplicate .. | .instrumentRemove .. => true
  | .instrumentAddSample .. | .instanceAdd .. | .instanceRemove .. => true
  | _ => false

namespace Session

variable {s : Session} {host : InstrumentId → HostAnswer}

/-- A project is opened whose orders are distinct, undo and redo find no edit of an instrument in an
open gesture, and a call that moves instruments finds no open gesture. -/
def Orderly (s : Session) : Call → Prop
  | .projectOpen (some loaded) _ =>
    ∃ opened : OpenedProject, opened.project = loaded ∧ DistinctOrders loaded
  | .projectUndo _ | .projectRedo _ => s.bus.OpenedSpare
  | call => call.restacks = true → s.bus.opened = []

/-! ### Runs -/

theorem ranked_edit (h : s.Ranked) (edit : Edit)
    (hopened : edit.restacks = true → s.bus.opened = []) : (s.edit host edit).2.Ranked := by
  cases hedit : edit.restacks with
  | false =>
    have hkeeps := keepsRack_reply (s := s) edit hedit
    unfold Session.edit
    split
    · exact h
    · exact h
    next command hmodel =>
      rw [hmodel] at hkeeps
      exact arrangingRule_ranked.executeModel h host hkeeps
  | true =>
    replace hopened := hopened hedit
    cases edit with
    | instrumentAddEmpty id track name => exact ranked_added h hopened host id track _ _
    | instrumentReorder id order =>
      unfold Session.edit
      rw [reply]
      split
      · exact h
      · exact h
      next command hmodel =>
        refine (h.executeRack hopened host fun c hc => ?_).1
        split at hmodel
        · cases hmodel
        split_ifs at hmodel
        obtain rfl := Reply.model.inj hmodel
        exact Command.restacks_reorderInstrument h.proper hc
    | _ => cases hedit

/-- **An orderly call** leaves a history of distinct orders. -/
theorem ranked_call (h : s.Ranked) (call : Call) (horderly : s.Orderly call) :
    (s.call call).2.Ranked := by
  cases call with
  | edit edit host => exact ranked_edit h edit horderly
  | instrumentReplace id plugin host again =>
    have hreplaced := arrangingRule_ranked.executeModel h host
      (keepsRack_replaceInstrument id plugin)
    exact of_ite (P := Ranked) hreplaced (of_ite (P := Ranked) hreplaced
      (hreplaced.takeBack (opened_executeModel (horderly rfl) _)))
  | instrumentReplaceSample id name path host =>
    exact arrangingRule_ranked.instrumentReplaceSample
      (arrangingRule_ranked.executeModel h host (keepsRack_replaceInstrument id _))
  | instrumentDuplicate track copy id host =>
    refine arrangingRule_ranked.instrumentDuplicate
      (h.executeRack (horderly rfl) host fun c hc => ?_).1
    obtain ⟨source, -, rfl⟩ := Option.map_eq_some_iff.1 hc
    refine Command.restacks_added h.proper ?_
    rfl
  | instrumentRemove id host =>
    refine arrangingRule_ranked.instrumentRemove h fun left hleft hbus => ?_
    exact ranked_removed hleft ((congrArg CommandBus.opened hbus).trans (horderly rfl)) host id
  | instrumentAddSample id track name path host =>
    exact arrangingRule_ranked.instrumentAddSample
      (ranked_added h (horderly rfl) host id track name _)
  | instanceAdd id track plugin host again =>
    have hadded := ranked_added h (horderly rfl) host id track
      (uniqueInstrumentName s.project plugin.name) plugin
    exact arrangingRule_ranked.instanceAdd hadded
      (hadded.takeBack (opened_executeModel (horderly rfl) _))
  | instanceRemove host =>
    exact arrangingRule_ranked.instanceRemove h fun id => ranked_removed h (horderly rfl) host id
  | projectUndo host =>
    have hundone : s.undo.2.Ranked := CommandBus.Ranked.undo h horderly
    exact of_ite (P := Ranked) hundone (arrangingRule_ranked.repairSelection hundone).publishModel
  | projectRedo host =>
    have hredone : s.redo.2.Ranked := CommandBus.Ranked.redo h horderly
    exact of_ite (P := Ranked) hredone (arrangingRule_ranked.repairSelection hredone).publishModel
  | projectNew ids host => exact ranked_projectNew s host ids
  | projectOpen loaded host =>
    cases loaded with
    | none => exact h
    | some loaded =>
      obtain ⟨opened, rfl, hdistinct⟩ := horderly
      exact ranked_projectOpen s host opened hdistinct
  | projectSave states => exact ranked_projectSave h states
  | _ => exact arrangingRule_ranked.call h _ rfl

/-- Add an instrument, and take that back. -/
def addThenUndo : List Call :=
  [.edit (.instrumentAddEmpty ⟨5⟩ ⟨6⟩ "") noPlugins, .projectUndo noPlugins]

/-- A file whose two instruments both say `"order": 0`. -/
def twoFirst : Tables :=
  { freshProject smallIds with
    instruments := (OrderedMap.empty.assign ⟨4⟩ { name := "Kick", routing := [⟨0, ⟨1⟩⟩] }).assign ⟨5⟩
      { name := "Snare", routing := [⟨0, ⟨1⟩⟩] } }

/-- The loader takes the file. -/
def twoFirstOpened : OpenedProject where
  project := twoFirst
  validIds id hid := by
    by_contra hinvalid
    obtain ⟨raw⟩ := id
    obtain rfl : raw = 0 := by simpa [TypedId.valid] using hinvalid
    revert hid
    decide +kernel
  master := by decide +kernel

end Session

end OneBeat
