import OneBeat.Commands.Emission
import OneBeat.Commands.RackOrder
import OneBeat.Commands.RackRoster

/-!
# The ranks of a rack

The rack finds its rows by rank: by how many instruments have a smaller order.  So the orders must
be distinct, and they are written by edits of whole instruments, by additions, by removals and by
whatever the history takes back of these.

* `distinctOrders_iff` : what distinct orders are, said of the orders alone.
* `Command.KeepsRack orders` : the command moves no instrument, whether it is applied or reverted,
  and whether or not that succeeds (`Command.keepsRack_apply`, `Command.keepsRack_revert`).
-/

namespace OneBeat

/-- The orders of the instruments there are. -/
abbrev Orders := InstrumentId → Option ℤ

/-- No two instruments have one order. -/
def Orders.Distinct (orders : Orders) : Prop :=
  ∀ a b order, orders a = some order → orders b = some order → a = b

section

variable {orders : Orders} {id : InstrumentId} {order : ℤ}

theorem Orders.Distinct.update_none (h : orders.Distinct) (id : InstrumentId) :
    Orders.Distinct (Function.update orders id none) := fun a b order ha hb => by
  rw [Function.update_apply] at ha hb
  split_ifs at ha hb
  exact h a b order ha hb

/-- An order behind all others is another one. -/
theorem Orders.Distinct.update_some (h : orders.Distinct)
    (hlast : ∀ other order', orders other = some order' → order' < order) :
    Orders.Distinct (Function.update orders id (some order)) := fun a b order' ha hb => by
  rw [Function.update_apply] at ha hb
  split_ifs at ha hb with heqa heqb heqb
  · rw [heqa, heqb]
  · obtain rfl := Option.some_inj.1 ha
    exact absurd (hlast b _ hb) (lt_irrefl _)
  · obtain rfl := Option.some_inj.1 hb
    exact absurd (hlast a _ ha) (lt_irrefl _)
  · exact h a b order' ha hb

theorem distinctOrders_iff {project : Tables} :
    DistinctOrders project ↔ Orders.Distinct project.orders := by
  rw [DistinctOrders, OrderedMap.nodup_map_entries_iff]
  constructor
  · intro h a b order ha hb
    obtain ⟨i, hi, rfl⟩ := Option.map_eq_some_iff.1 ha
    obtain ⟨j, hj, heq⟩ := Option.map_eq_some_iff.1 hb
    exact h a i hi b j hj heq.symm
  · intro h a i hi b j hj heq
    exact h a b i.order (by rw [Tables.orders, hi, Option.map_some])
      (by rw [Tables.orders, hj, Option.map_some, heq])

end

namespace Tables

variable {project project' : Tables} {id : InstrumentId}

theorem orders_of_instruments (h : project'.instruments = project.instruments) :
    project'.orders = project.orders := by
  funext id
  rw [orders, orders, h]

/-- Writing an instrument writes its order. -/
theorem orders_writeInstrument {value : Instrument}
    (h : project.updateInstrument id (fun _ => value) = some project') :
    project'.orders = Function.update project.orders id (some value.order) := by
  unfold updateInstrument at h
  split_ifs at h with hthere
  cases h
  obtain ⟨instrument, hget⟩ := OrderedMap.contains_eq_true_iff.1 hthere
  funext other
  rw [orders, OrderedMap.get?_modify, Function.update_apply]
  split_ifs with heq
  · rw [heq, hget]
    rfl
  · rfl

theorem orders_updateInstrument {f : Instrument → Instrument}
    (hf : ∀ instrument, (f instrument).order = instrument.order)
    (h : project.updateInstrument id f = some project') : project'.orders = project.orders := by
  unfold updateInstrument at h
  split_ifs at h
  cases h
  funext other
  rw [orders, orders, OrderedMap.get?_modify]
  split_ifs
  · rw [Option.map_map]
    exact congrArg (Option.map · _) (funext hf)
  · rfl

theorem orders_deleteInstrument (h : project.deleteInstrument id = some project') :
    project'.orders = Function.update project.orders id none := by
  obtain ⟨-, rfl⟩ := deleteInstrument_eq_some_iff.1 h
  funext other
  rw [orders, OrderedMap.get?_erase, Function.update_apply]
  split_ifs
  · rfl
  · rfl

theorem orders_restoreInstrument {instrument : Instrument}
    (h : project.restoreInstrument id instrument = some project') :
    project'.orders = Function.update project.orders id (some instrument.order) := by
  unfold restoreInstrument at h
  split_ifs at h
  cases h
  funext other
  rw [orders, OrderedMap.get?_assign, Function.update_apply]
  split_ifs
  · rfl
  · rfl

theorem orders_restoreMixerTrack {track : MixerTrackId} {mixerTrack : MixerTrack}
    (h : project.restoreMixerTrack track mixerTrack = some project') :
    project'.orders = project.orders := by
  unfold restoreMixerTrack at h
  split_ifs at h
  cases h
  rfl

/-- Instruments that lose their track keep their order. -/
theorem orders_deleteMixerTrack {track : MixerTrackId}
    (h : project.deleteMixerTrack track = some project') : project'.orders = project.orders := by
  obtain ⟨-, -, rfl⟩ := deleteMixerTrack_eq_some_iff.1 h
  funext other
  rw [orders, orders]
  dsimp only
  induction (project.mixerTrackImpact track).instruments using List.reverseRecOn with
  | nil => rfl
  | append_singleton ids last ih =>
    rw [List.foldl_append, List.foldl_cons, List.foldl_nil, OrderedMap.get?_modify]
    split_ifs with heq
    · rw [Option.map_map, ← ih, heq]
      rfl
    · exact ih

theorem orders_restoreClips (clips : List (ClipId × Clip)) :
    (project.restoreClips clips).orders = project.orders := by
  rw [restoreClips_eq]
  rfl

theorem orders_restoreSequences (id : InstrumentId) (sequences : List (PatternId × NoteSequence)) :
    (sequences.foldl (fun project entry =>
      (project.restoreSequence entry.1 id entry.2).getD project) project).orders =
      project.orders := by
  induction sequences generalizing project with
  | nil => rfl
  | cons entry sequences ih =>
    rw [List.foldl_cons, ih]
    unfold restoreSequence
    split_ifs
    · rfl
    · rfl

end Tables

/-- The orders of the instruments, and which instruments and tracks there are. -/
structure Ranking where
  orders : Orders
  roster : Roster

def Tables.ranking (project : Tables) : Ranking := ⟨project.orders, project.roster⟩

theorem Tables.orders_of_ranking {project project' : Tables}
    (h : project'.ranking = project.ranking) : project'.orders = project.orders :=
  congrArg Ranking.orders h

/-! ### Commands that move nothing -/

/-- The value is no other order than an instrument has. -/
def EditTarget.Agrees (orders : Orders) : (target : EditTarget) → target.Value → Prop
  | .instrument id, value => orders id = some value.order
  | .lane _, _ | .clip _, _ | .mixerTrack _, _ | .patternMeta _, _ => True

namespace Command

mutual

/-- The command adds and removes no instrument and no track, and writes no other order. -/
def KeepsRack (orders : Orders) : Command → Prop
  | add (.instrument _ _) | add (.mixerTrack _ _) | removeInstrument _ | removeMixerTrack _ => False
  | edit command =>
    command.target.Agrees orders command.before ∧ command.target.Agrees orders command.after
  | composite commands => KeepsRackAll orders commands
  | _ => True

def KeepsRackAll (orders : Orders) : List Command → Prop
  | [] => True
  | command :: commands => KeepsRack orders command ∧ KeepsRackAll orders commands

end

/-- The command has nothing to do with the rack, whatever the orders are. -/
def SparesRack (command : Command) : Prop := ∀ orders, command.KeepsRack orders

theorem keepsRackAll_iff {orders : Orders} {commands : List Command} :
    KeepsRackAll orders commands ↔ ∀ command ∈ commands, command.KeepsRack orders := by
  induction commands with
  | nil => exact iff_of_true trivial (by simp)
  | cons command commands ih => rw [KeepsRackAll, ih, List.forall_mem_cons]

end Command

/-! ### What such a command leaves -/

namespace Tables

variable {project project' : Tables}

theorem ranking_eq (hinstruments : project'.instruments = project.instruments)
    (htracks : ∀ id, project'.mixerTracks.contains id = project.mixerTracks.contains id)
    (hmaster : project'.master = project.master) : project'.ranking = project.ranking := by
  rw [ranking, ranking, orders_of_instruments hinstruments,
    roster_eq (fun id => by rw [hinstruments]) htracks hmaster]

theorem ranking_updateMixerTrack {id : MixerTrackId} {f : MixerTrack → MixerTrack}
    (h : project.updateMixerTrack id f = some project') : project'.ranking = project.ranking := by
  unfold updateMixerTrack at h
  split_ifs at h
  cases h
  refine ranking_eq rfl (fun other => ?_) rfl
  simp only [OrderedMap.contains, OrderedMap.get?_modify]
  split_ifs with heq
  · rw [Option.isSome_map, heq]
  · rfl

theorem ranking_restoreClips (clips : List (ClipId × Clip)) :
    (project.restoreClips clips).ranking = project.ranking := by
  rw [ranking, ranking, orders_restoreClips, roster_restoreClips]

theorem ranking_editSequence {patternId : PatternId} {instrument : InstrumentId}
    {take give : List Note}
    (h : editSequence patternId instrument project take give = some project') :
    project'.ranking = project.ranking := by
  obtain ⟨pattern, hpattern⟩ : ∃ pattern, project.patterns.get? patternId = some pattern := by
    unfold editSequence at h
    split at h
    · cases h
    next pattern hpattern => exact ⟨pattern, hpattern⟩
  obtain ⟨-, rfl⟩ := (editSequence_eq_some_iff hpattern).1 h
  exact ranking_eq rfl (fun _ => rfl) rfl

end Tables

theorem EditTarget.ranking_write {project project' : Tables} {target : EditTarget}
    {value : target.Value} (hagrees : target.Agrees project.orders value)
    (h : target.write project value = some project') : project'.ranking = project.ranking := by
  cases target with
  | instrument id =>
    -- the order that is written is the one that is there
    have horders := Tables.orders_writeInstrument h
    rw [← show project.orders id = some value.order from hagrees,
      Function.update_eq_self] at horders
    rw [Tables.ranking, Tables.ranking, horders, Tables.roster_updateInstrument h]
  | mixerTrack id => exact Tables.ranking_updateMixerTrack h
  | lane id | clip id | patternMeta id =>
    simp only [write, Tables.updateLane, Tables.updateClip, Tables.updatePattern] at h
    split_ifs at h
    cases h
    exact Tables.ranking_eq rfl (fun _ => rfl) rfl

namespace Command

variable {command : Command} {project : Tables}

/-- A step left the ranking alone, and what it does to the orders. -/
structure StepKeepsRack (project : Tables) (step : Outcome Tables Command) : Prop where
  ranking : step.state.ranking = project.ranking
  keeps : step.command.KeepsRack project.orders

theorem StepKeepsRack.of_option {E : Type} {f : E → Command} {command : E} {o : Option Tables}
    (hkeeps : (f command).KeepsRack project.orders)
    (h : ∀ project', o = some project' → project'.ranking = project.ranking) :
    StepKeepsRack project ((Outcome.ofOption command project o).map f) := by
  cases o with
  | none => exact ⟨rfl, hkeeps⟩
  | some project' => exact ⟨h project' rfl, hkeeps⟩

theorem ranking_restore {entity : AddedEntity} {project' : Tables}
    (hkeeps : (add entity).KeepsRack project.orders) (h : entity.restore project = some project') :
    project'.ranking = project.ranking := by
  cases entity with
  | instrument | mixerTrack => cases hkeeps
  | pattern | lane | clip =>
    simp only [AddedEntity.restore, Tables.restorePattern, Tables.restoreLane,
      Tables.restoreClip] at h
    split_ifs at h
    cases h
    exact Tables.ranking_eq rfl (fun _ => rfl) rfl

theorem ranking_deletePattern {id : PatternId} {project' : Tables}
    (h : project.deletePattern id = some project') : project'.ranking = project.ranking := by
  obtain ⟨-, rfl⟩ := Tables.deletePattern_eq_some_iff.1 h
  exact Tables.ranking_eq rfl (fun _ => rfl) rfl

theorem ranking_deleteLane {id : ArrangementLaneId} {project' : Tables}
    (h : project.deleteLane id = some project') : project'.ranking = project.ranking := by
  obtain ⟨-, rfl⟩ := Tables.deleteLane_eq_some_iff.1 h
  exact Tables.ranking_eq rfl (fun _ => rfl) rfl

theorem ranking_deleteClip {id : ClipId} {project' : Tables}
    (h : project.deleteClip id = some project') : project'.ranking = project.ranking := by
  obtain ⟨-, rfl⟩ := Tables.deleteClip_eq_some_iff.1 h
  exact Tables.ranking_eq rfl (fun _ => rfl) rfl

theorem ranking_delete {entity : AddedEntity} {project' : Tables}
    (hkeeps : (add entity).KeepsRack project.orders) (h : entity.delete project = some project') :
    project'.ranking = project.ranking := by
  cases entity with
  | instrument | mixerTrack => cases hkeeps
  | pattern id => exact ranking_deletePattern h
  | lane id => exact ranking_deleteLane h
  | clip id => exact ranking_deleteClip h

theorem ranking_revert_note {command : NoteCommand} :
    (command.revert project).state.ranking = project.ranking := by
  unfold NoteCommand.revert
  split
  · rfl
  next project' h =>
    dsimp only
    rw [← Tables.ranking_editSequence h, Tables.setLengths_eq]
    exact Tables.ranking_eq rfl (fun _ => rfl) rfl

theorem ranking_apply_note {command : NoteCommand} :
    (command.apply project).state.ranking = project.ranking := by
  cases hok : (command.apply project).ok with
  | false =>
    have hnote : (apply (note command) project).ok = false := by rwa [apply]
    have hstate := state_apply_of_not_ok rfl hnote
    rw [apply] at hstate
    exact congrArg Tables.ranking hstate
  | true =>
    obtain ⟨pattern, hpattern, happlies⟩ := NoteCommand.apply_ok_iff.1 hok
    rw [NoteCommand.apply_eq hpattern happlies]
    exact Tables.ranking_eq rfl (fun _ => rfl) rfl

theorem ranking_restorePattern {id : PatternId} {pattern : Pattern} {project' : Tables}
    (h : project.restorePattern id pattern = some project') :
    project'.ranking = project.ranking :=
  @ranking_restore project (.pattern id pattern) project' trivial h

theorem ranking_restoreLane {id : ArrangementLaneId} {lane : ArrangementLane} {project' : Tables}
    (h : project.restoreLane id lane = some project') : project'.ranking = project.ranking :=
  @ranking_restore project (.lane id lane) project' trivial h

theorem ranking_revert_lane {command : RemoveLane} :
    (command.revert project).state.ranking = project.ranking := by
  unfold RemoveLane.revert
  split
  · rfl
  next project' h =>
    have hgrouped : ∀ (lanes : List ArrangementLaneId) (project : Tables),
        (lanes.foldl (fun project lane =>
          (project.updateLane lane (ArrangementLane.groupUnder command.id)).getD project)
          project).ranking = project.ranking := fun lanes => by
      induction lanes with
      | nil => exact fun _ => rfl
      | cons lane lanes ih =>
        intro project
        rw [List.foldl_cons, ih]
        unfold Tables.updateLane
        split_ifs
        · rfl
        · rfl
    dsimp only
    rw [Tables.ranking_restoreClips, hgrouped, ranking_restoreLane h]

theorem keepsRack_revert_of_single (hsingle : command.isComposite = false)
    (hkeeps : command.KeepsRack project.orders) :
    StepKeepsRack project (revert command project) := by
  cases command with
  | composite commands => cases hsingle
  | removeInstrument | removeMixerTrack => cases hkeeps
  | add entity =>
    rw [revert]
    exact .of_option hkeeps fun project' h => ranking_delete hkeeps h
  | removePattern command =>
    rw [revert, RemovePattern.revert]
    split
    · exact ⟨rfl, trivial⟩
    next project' h =>
      exact ⟨(Tables.ranking_restoreClips _).trans (ranking_restorePattern h), trivial⟩
  | removeLane command =>
    rw [revert]
    exact ⟨ranking_revert_lane, trivial⟩
  | removeClip command =>
    rw [revert]
    exact .of_option trivial fun project' h =>
      @ranking_restore project (.clip command.id command.clip) project' trivial h
  | edit command =>
    rw [revert]
    exact .of_option hkeeps fun project' h => EditTarget.ranking_write hkeeps.1 h
  | effectParam command =>
    rw [revert]
    exact .of_option trivial fun project' h => Tables.ranking_updateMixerTrack h
  | note command =>
    rw [revert]
    exact ⟨ranking_revert_note, trivial⟩
  | transport | metadata =>
    simp only [revert, TransportCommand.revert_eq]
    exact ⟨Tables.ranking_eq rfl (fun _ => rfl) rfl, trivial⟩

theorem keepsRack_apply_of_single (hsingle : command.isComposite = false)
    (hkeeps : command.KeepsRack project.orders) :
    StepKeepsRack project (apply command project) := by
  cases command with
  | composite commands => cases hsingle
  | removeInstrument | removeMixerTrack => cases hkeeps
  | add entity =>
    rw [apply]
    exact .of_option hkeeps fun project' h => ranking_restore hkeeps h
  | removePattern command =>
    rw [apply, RemovePattern.apply]
    split
    · exact ⟨rfl, trivial⟩
    · exact .of_option trivial fun project' h => ranking_deletePattern h
  | removeLane command =>
    rw [apply, RemoveLane.apply]
    split
    · exact ⟨rfl, trivial⟩
    · exact .of_option trivial fun project' h => ranking_deleteLane h
  | removeClip command =>
    rw [apply, RemoveClip.apply]
    split
    · exact ⟨rfl, trivial⟩
    · exact .of_option trivial fun project' h => ranking_deleteClip h
  | edit command =>
    rw [apply]
    exact .of_option hkeeps fun project' h => EditTarget.ranking_write hkeeps.2 h
  | effectParam command =>
    rw [apply]
    exact .of_option trivial fun project' h => Tables.ranking_updateMixerTrack h
  | note command =>
    rw [apply]
    exact ⟨ranking_apply_note, trivial⟩
  | transport | metadata =>
    simp only [apply, TransportCommand.apply_eq]
    exact ⟨Tables.ranking_eq rfl (fun _ => rfl) rfl, trivial⟩

/-- Steps of several commands, one after the other. -/
structure StepsKeepRack (project : Tables) (step : Outcome Tables (List Command)) : Prop where
  ranking : step.state.ranking = project.ranking
  keeps : KeepsRackAll project.orders step.command

mutual

/-- **A command that moves nothing moves nothing when it is taken back**, also where it fails. -/
theorem keepsRack_revert (command : Command) (project : Tables)
    (hkeeps : command.KeepsRack project.orders) :
    StepKeepsRack project (revert command project) := by
  cases command with
  | composite commands =>
    rw [revert]
    obtain ⟨hranking, hall⟩ := keepsRack_revertAll commands project hkeeps
    exact ⟨hranking, hall⟩
  | _ => exact keepsRack_revert_of_single rfl hkeeps

theorem keepsRack_revertAll : ∀ (commands : List Command) (project : Tables),
    KeepsRackAll project.orders commands → StepsKeepRack project (revertAll commands project)
  | [], project, _ => by
    rw [revertAll]
    exact ⟨rfl, trivial⟩
  | command :: commands, project, hkeeps => by
    obtain ⟨hlater, hlaterKeeps⟩ := keepsRack_revertAll commands project hkeeps.2
    simp only [revertAll]
    split_ifs
    · have horders := Tables.orders_of_ranking hlater
      obtain ⟨hthis, hthisKeeps⟩ := keepsRack_revert command (revertAll commands project).state
        (horders ▸ hkeeps.1)
      rw [horders] at hthisKeeps
      exact ⟨hthis.trans hlater, hthisKeeps, hlaterKeeps⟩
    · exact ⟨hlater, hkeeps.1, hlaterKeeps⟩

end

mutual

/-- **... and when it is applied.** -/
theorem keepsRack_apply (command : Command) (project : Tables)
    (hkeeps : command.KeepsRack project.orders) :
    StepKeepsRack project (apply command project) := by
  cases command with
  | composite commands =>
    rw [apply]
    obtain ⟨hranking, hall⟩ := keepsRack_applyAll commands project hkeeps
    exact ⟨hranking, hall⟩
  | _ => exact keepsRack_apply_of_single rfl hkeeps

theorem keepsRack_applyAll : ∀ (commands : List Command) (project : Tables),
    KeepsRackAll project.orders commands → StepsKeepRack project (applyAll commands project)
  | [], project, _ => by
    rw [applyAll]
    exact ⟨rfl, trivial⟩
  | command :: commands, project, hkeeps => by
    obtain ⟨hthis, hthisKeeps⟩ := keepsRack_apply command project hkeeps.1
    have horders := Tables.orders_of_ranking hthis
    simp only [applyAll]
    split_ifs
    · obtain ⟨hlater, hlaterKeeps⟩ := keepsRack_applyAll commands (apply command project).state
        (horders ▸ hkeeps.2)
      rw [horders] at hlaterKeeps
      exact ⟨hlater.trans hthis, hthisKeeps, hlaterKeeps⟩
    · obtain ⟨hlater, hlaterKeeps⟩ := keepsRack_applyAll commands (apply command project).state
        (horders ▸ hkeeps.2)
      rw [horders] at hlaterKeeps
      -- what did apply is rolled back in a project with the same orders
      have horders' := Tables.orders_of_ranking (hlater.trans hthis)
      obtain ⟨hback, hbackKeeps⟩ := keepsRack_revert (apply command project).command
        (applyAll commands (apply command project).state).state (horders' ▸ hthisKeeps)
      rw [horders'] at hbackKeeps
      exact ⟨(hback.trans hlater).trans hthis, hbackKeeps, hlaterKeeps⟩
    · exact ⟨hthis, hthisKeeps, hkeeps.2⟩

end

end Command

end OneBeat
