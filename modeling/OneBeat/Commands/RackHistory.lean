import OneBeat.Commands.RackRanks

/-!
# A history of ranks

Reorders, additions and removals write the orders of the rack, and the history takes them back one
by one.  Where all of them are made outside transactions, an undo finds the orders its entry left,
and gives the ones before it.

* `Command.Ranks` : what the commands of the rack do to the orders (`Ranks.apply`, `Ranks.revert`).
* `CommandBus.Ranked` : a history of such commands, and of others that move nothing, along which the
  orders are distinct.
* `CommandBus.Ranked.execute_rack`, `CommandBus.Ranked.undo`, `CommandBus.Ranked.redo` : what keeps
  it so.
-/

namespace OneBeat

/-! ### Commands of the rack -/

/-- Edits of instruments, each made where the one before it left the orders. -/
inductive OrderEdits : List EditCommand → Orders → Orders → Prop
  | nil (orders : Orders) : OrderEdits [] orders orders
  | cons {id : InstrumentId} {field : ChangeField} {before after : Instrument}
      {commands : List EditCommand} {orders orders' : Orders} :
      orders id = some before.order →
      OrderEdits commands (Function.update orders id (some after.order)) orders' →
      OrderEdits (⟨.instrument id, field, before, after⟩ :: commands) orders orders'

namespace Command

/-- What a command of the rack does to the orders. -/
inductive Ranks : Command → Orders → Orders → Prop
  | moved {commands : List EditCommand} {orders orders' : Orders} :
      OrderEdits commands orders orders' →
      Ranks (.composite (commands.map .edit)) orders orders'
  | added {track : MixerTrackId} {id : InstrumentId} {mixerTrack : MixerTrack}
      {instrument : Instrument} {orders : Orders} :
      orders id = none →
      Ranks (.composite [.add (.mixerTrack track mixerTrack), .add (.instrument id instrument)])
        orders (Function.update orders id (some instrument.order))
  | removed {command : RemoveInstrument} {orders : Orders} :
      orders command.id = some command.instrument.order →
      Ranks (.removeInstrument command) orders (Function.update orders command.id none)

variable {command command' : Command} {orders orders' : Orders} {project project' : Tables}

theorem applyAll_cons_eq_ok {commands commands' : List Command}
    (h : applyAll (command :: commands) project = ⟨true, commands', project'⟩) :
    ∃ command' between later, apply command project = ⟨true, command', between⟩ ∧
      applyAll commands between = ⟨true, later, project'⟩ ∧ commands' = command' :: later := by
  simp only [applyAll] at h
  rcases happly : apply command project with ⟨ok, command', between⟩
  rw [happly] at h
  dsimp only at h
  rcases hall : applyAll commands between with ⟨ok', later, project''⟩
  rw [hall] at h
  dsimp only at h
  split_ifs at h with hok hok'
  · cases h
    exact ⟨command', between, later, by rw [hok], by rw [hall, hok'], rfl⟩
  · cases h
  · cases h

theorem revertAll_cons_eq_ok {commands commands' : List Command}
    (h : revertAll (command :: commands) project = ⟨true, commands', project'⟩) :
    ∃ later between command', revertAll commands project = ⟨true, later, between⟩ ∧
      revert command between = ⟨true, command', project'⟩ ∧ commands' = command' :: later := by
  simp only [revertAll] at h
  rcases hall : revertAll commands project with ⟨ok, later, between⟩
  rw [hall] at h
  dsimp only at h
  split_ifs at h with hok
  · rcases hrevert : revert command between with ⟨ok', command', project''⟩
    rw [hrevert] at h
    cases h
    exact ⟨later, between, command', by rw [hok], hrevert, rfl⟩
  · cases h

/-- The edits leave the orders they say. -/
theorem orders_applyAll {edits : List EditCommand} {commands : List Command}
    (h : OrderEdits edits orders orders') (horders : project.orders = orders)
    (happly : applyAll (edits.map .edit) project = ⟨true, commands, project'⟩) :
    commands = edits.map .edit ∧ project'.orders = orders' := by
  induction h generalizing project commands with
  | nil orders =>
    rw [List.map_nil, applyAll] at happly
    cases happly
    exact ⟨rfl, horders⟩
  | @cons id field before after edits orders orders' hbefore hlater ih =>
    obtain ⟨command', between, later, hthis, hrest, rfl⟩ := applyAll_cons_eq_ok happly
    rw [apply] at hthis
    obtain ⟨edited, hedit, rfl⟩ := Outcome.map_eq_ok_iff.1 hthis
    obtain ⟨hwrite, rfl⟩ := Outcome.ofOption_eq_ok_iff.1 hedit
    have hbetween := Tables.orders_writeInstrument hwrite
    rw [horders] at hbetween
    obtain ⟨rfl, hproject'⟩ := ih hbetween hrest
    exact ⟨rfl, hproject'⟩

/-- ... and where they are taken back, those before them. -/
theorem orders_revertAll {edits : List EditCommand} {commands : List Command}
    (h : OrderEdits edits orders orders') (horders : project.orders = orders')
    (hrevert : revertAll (edits.map .edit) project = ⟨true, commands, project'⟩) :
    commands = edits.map .edit ∧ project'.orders = orders := by
  induction h generalizing project' commands with
  | nil orders =>
    rw [List.map_nil, revertAll] at hrevert
    cases hrevert
    exact ⟨rfl, horders⟩
  | @cons id field before after edits orders orders' hbefore hlater ih =>
    obtain ⟨later, between, command', hrest, hthis, rfl⟩ := revertAll_cons_eq_ok hrevert
    obtain ⟨rfl, hbetween⟩ := ih horders hrest
    rw [revert] at hthis
    obtain ⟨edited, hedit, rfl⟩ := Outcome.map_eq_ok_iff.1 hthis
    obtain ⟨hwrite, rfl⟩ := Outcome.ofOption_eq_ok_iff.1 hedit
    refine ⟨rfl, ?_⟩
    rw [Tables.orders_writeInstrument hwrite, hbetween, Function.update_idem, ← hbefore,
      Function.update_eq_self]

/-- An addition that applies restored the track first and then the instrument. -/
theorem apply_added_eq_ok {track : MixerTrackId} {id : InstrumentId} {mixerTrack : MixerTrack}
    {instrument : Instrument} (h : apply (composite [.add (.mixerTrack track mixerTrack),
      .add (.instrument id instrument)]) project = ⟨true, command', project'⟩) :
    ∃ between, project.restoreMixerTrack track mixerTrack = some between ∧
      between.restoreInstrument id instrument = some project' ∧
      command' = composite [.add (.mixerTrack track mixerTrack),
        .add (.instrument id instrument)] := by
  rw [apply] at h
  obtain ⟨commands, hall, rfl⟩ := Outcome.map_eq_ok_iff.1 h
  obtain ⟨first, between, later, hfirst, hrest, rfl⟩ := applyAll_cons_eq_ok hall
  obtain ⟨second, project'', none, hsecond, hnone, rfl⟩ := applyAll_cons_eq_ok hrest
  rw [applyAll] at hnone
  cases hnone
  rw [apply] at hfirst hsecond
  obtain ⟨_, htrack, rfl⟩ := Outcome.map_eq_ok_iff.1 hfirst
  obtain ⟨_, hinstrument, rfl⟩ := Outcome.map_eq_ok_iff.1 hsecond
  obtain ⟨hrestored, rfl⟩ := Outcome.ofOption_eq_ok_iff.1 htrack
  obtain ⟨hrestored', rfl⟩ := Outcome.ofOption_eq_ok_iff.1 hinstrument
  exact ⟨between, hrestored, hrestored', rfl⟩

/-- One that fails gives the track back, if it got that far. -/
theorem orders_added_of_not_ok {track : MixerTrackId} {id : InstrumentId} {mixerTrack : MixerTrack}
    {instrument : Instrument} (h : (apply (composite [.add (.mixerTrack track mixerTrack),
      .add (.instrument id instrument)]) project).ok = false) :
    (apply (composite [.add (.mixerTrack track mixerTrack),
      .add (.instrument id instrument)]) project).state.orders = project.orders := by
  simp only [apply, applyAll, AddedEntity.apply, AddedEntity.restore] at h ⊢
  cases htrack : project.restoreMixerTrack track mixerTrack with
  | none => simp [Outcome.ofOption]
  | some between =>
    have hbetween := Tables.orders_restoreMixerTrack htrack
    cases hinstrument : between.restoreInstrument id instrument with
    | some project' => simp [Outcome.ofOption, htrack, hinstrument] at h
    | none =>
      simp only [Outcome.ofOption, Outcome.map_mk, hinstrument, if_true, Bool.false_eq_true,
        if_false, revert, AddedEntity.revert, AddedEntity.delete]
      cases hdelete : between.deleteMixerTrack track with
      | none => exact hbetween
      | some project' => exact (Tables.orders_deleteMixerTrack hdelete).trans hbetween

/-- **A command of the rack that applies** does to the orders what it says. -/
theorem Ranks.apply (h : command.Ranks orders orders') (horders : project.orders = orders)
    (happly : apply command project = ⟨true, command', project'⟩) :
    command'.Ranks orders orders' ∧ project'.orders = orders' := by
  cases h with
  | @moved edits _ _ hedits =>
    rw [Command.apply] at happly
    obtain ⟨commands, hall, rfl⟩ := Outcome.map_eq_ok_iff.1 happly
    obtain ⟨rfl, hproject'⟩ := orders_applyAll hedits horders hall
    exact ⟨.moved hedits, hproject'⟩
  | @added track id mixerTrack instrument _ hnew =>
    obtain ⟨between, htrack, hinstrument, rfl⟩ := apply_added_eq_ok happly
    refine ⟨.added hnew, ?_⟩
    rw [Tables.orders_restoreInstrument hinstrument, Tables.orders_restoreMixerTrack htrack,
      horders]
  | @removed removal _ hthere =>
    rw [Command.apply] at happly
    obtain ⟨captured, hremoved, rfl⟩ := Outcome.map_eq_ok_iff.1 happly
    obtain ⟨instrument, hget, rfl, hdelete⟩ := RemoveInstrument.apply_eq_ok_iff.1 hremoved
    refine ⟨@Ranks.removed ⟨removal.id, instrument, _, _⟩ orders ?_, ?_⟩
    · rw [← horders, Tables.orders, hget, Option.map_some]
    · rw [Tables.orders_deleteInstrument hdelete, horders]

/-- **... and one that is taken back** undoes it. -/
theorem Ranks.revert (h : command.Ranks orders orders') (horders : project.orders = orders')
    (hrevert : revert command project = ⟨true, command', project'⟩) :
    command'.Ranks orders orders' ∧ project'.orders = orders := by
  cases h with
  | @moved edits _ _ hedits =>
    rw [Command.revert] at hrevert
    obtain ⟨commands, hall, rfl⟩ := Outcome.map_eq_ok_iff.1 hrevert
    obtain ⟨rfl, hproject'⟩ := orders_revertAll hedits horders hall
    exact ⟨.moved hedits, hproject'⟩
  | @added track id mixerTrack instrument _ hnew =>
    rw [Command.revert] at hrevert
    obtain ⟨commands, hall, rfl⟩ := Outcome.map_eq_ok_iff.1 hrevert
    obtain ⟨later, between, first, hrest, hfirst, rfl⟩ := revertAll_cons_eq_ok hall
    obtain ⟨none, project'', second, hnone, hsecond, rfl⟩ := revertAll_cons_eq_ok hrest
    rw [revertAll] at hnone
    cases hnone
    rw [Command.revert] at hfirst hsecond
    obtain ⟨_, htrack, rfl⟩ := Outcome.map_eq_ok_iff.1 hfirst
    obtain ⟨_, hinstrument, rfl⟩ := Outcome.map_eq_ok_iff.1 hsecond
    obtain ⟨hdeleted, rfl⟩ := Outcome.ofOption_eq_ok_iff.1 htrack
    obtain ⟨hdeleted', rfl⟩ := Outcome.ofOption_eq_ok_iff.1 hinstrument
    refine ⟨.added hnew, ?_⟩
    rw [Tables.orders_deleteMixerTrack hdeleted, Tables.orders_deleteInstrument hdeleted', horders,
      Function.update_idem, ← hnew, Function.update_eq_self]
  | @removed removal _ hthere =>
    rw [Command.revert] at hrevert
    obtain ⟨captured, hrestored, rfl⟩ := Outcome.map_eq_ok_iff.1 hrevert
    unfold RemoveInstrument.revert at hrestored
    split at hrestored
    · cases hrestored
    next between hbetween =>
      cases hrestored
      refine ⟨.removed hthere, ?_⟩
      rw [Tables.orders_restoreClips, Tables.orders_restoreSequences,
        Tables.orders_restoreInstrument hbetween, horders, Function.update_idem, ← hthere,
        Function.update_eq_self]

theorem Ranks.coalesceWith_eq_none (h : command.Ranks orders orders') (next : Command) :
    command.coalesceWith next = none := by
  cases h with
  | moved => rfl
  | added => rfl
  | removed => rfl

/-- A command of the rack is absorbed by nothing. -/
theorem Ranks.eq_none_of_coalesceWith (h : command.Ranks orders orders') (entry : Command) :
    entry.coalesceWith command = none := by
  cases h with
  | moved | added | removed => cases entry <;> rfl

/-- What moves nothing moves nothing together. -/
theorem KeepsRack.coalesceWith {next merged : Command} (h : command.KeepsRack orders)
    (hnext : next.KeepsRack orders) (hmerged : command.coalesceWith next = some merged) :
    merged.KeepsRack orders := by
  unfold Command.coalesceWith at hmerged
  split at hmerged
  next command next =>
    obtain ⟨absorbed, habsorbed, rfl⟩ := Option.map_eq_some_iff.1 hmerged
    unfold EditCommand.coalesceWith at habsorbed
    split_ifs at habsorbed with htarget
    cases habsorbed
    refine ⟨h.1, ?_⟩
    obtain ⟨target, field, before, after⟩ := next
    dsimp only at htarget
    subst htarget
    exact hnext.2
  next =>
    obtain ⟨absorbed, -, rfl⟩ := Option.map_eq_some_iff.1 hmerged
    trivial
  next =>
    obtain ⟨absorbed, -, rfl⟩ := Option.map_eq_some_iff.1 hmerged
    trivial
  next =>
    cases hmerged
    trivial
  next => cases hmerged

end Command

/-! ### Histories -/

/-- No two instruments have one order, every id is one, and the master track is there. -/
structure Ranking.Proper (ranking : Ranking) : Prop where
  distinct : ranking.orders.Distinct
  validIds : ∀ id, ranking.roster.instruments id = true → id.valid = true
  master : ranking.roster.tracks ranking.roster.master = true

/-- The command took one ranking into the other. -/
inductive Command.Arranges : Command → Ranking → Ranking → Prop
  | keeps {command : Command} {ranking : Ranking} :
      command.KeepsRack ranking.orders → Arranges command ranking ranking
  | ranks {command : Command} {ranking ranking' : Ranking} :
      command.Ranks ranking.orders ranking'.orders →
      command.Shifts ranking.roster ranking'.roster → Arranges command ranking ranking'

/-- A stack of commands that took effect, the last one on top, and the ranking after it. -/
inductive Behind : List Command → Ranking → Prop
  | nil (ranking : Ranking) : Behind [] ranking
  | cons {command : Command} {commands : List Command} {ranking ranking' : Ranking} :
      command.Arranges ranking ranking' → ranking.Proper → Behind commands ranking →
      Behind (command :: commands) ranking'

/-- A stack of commands that were taken back, the next one on top, and the ranking before it. -/
inductive Ahead : List Command → Ranking → Prop
  | nil (ranking : Ranking) : Ahead [] ranking
  | cons {command : Command} {commands : List Command} {ranking ranking' : Ranking} :
      command.Arranges ranking ranking' → ranking'.Proper → Ahead commands ranking' →
      Ahead (command :: commands) ranking

namespace CommandBus

/-- The history leads from one proper ranking to the next, and an open transaction moves nothing. -/
structure Ranked (bus : CommandBus) : Prop where
  behind : Behind bus.undoStack bus.project.ranking
  ahead : Ahead bus.redoStack bus.project.ranking
  opened : ∀ commands ∈ bus.opened, ∀ command ∈ commands, command.KeepsRack bus.project.orders
  proper : bus.project.ranking.Proper

/-- Nothing in the open transactions has to do with the rack. -/
def OpenedSpare (bus : CommandBus) : Prop :=
  ∀ commands ∈ bus.opened, ∀ command ∈ commands, command.SparesRack

variable {bus : CommandBus} {command : Command}

/-- Only the ranking of the project matters. -/
theorem Ranked.congr (h : bus.Ranked) {project : Tables}
    (hproject : project.ranking = bus.project.ranking) : { bus with project }.Ranked where
  behind := hproject ▸ h.behind
  ahead := hproject ▸ h.ahead
  opened := by
    dsimp only
    rw [Tables.orders_of_ranking hproject]
    exact h.opened
  proper := hproject ▸ h.proper

theorem ranked_start {project : Tables} (hproper : project.ranking.Proper) :
    (start project).Ranked where
  behind := .nil _
  ahead := .nil _
  opened := nofun
  proper := hproper

/-- A command that moves nothing goes into the transaction, into the last entry, or on top. -/
theorem Ranked.record (h : bus.Ranked) (hkeeps : command.KeepsRack bus.project.orders) :
    (bus.record command).Ranked := by
  obtain ⟨hbehind, hahead, hopened, hproper⟩ := h
  unfold CommandBus.record
  cases hstack : bus.opened with
  | cons commands outer =>
    rw [hstack] at hopened
    obtain ⟨hcommands, houter⟩ := List.forall_mem_cons.1 hopened
    exact ⟨hbehind, hahead, List.forall_mem_cons.2
      ⟨List.forall_mem_append.2 ⟨hcommands, List.forall_mem_singleton.2 hkeeps⟩, houter⟩, hproper⟩
  | nil =>
    rw [hstack] at hopened
    have hseparate : Behind (command :: bus.undoStack) bus.project.ranking :=
      .cons (.keeps hkeeps) hproper hbehind
    cases hundo : bus.undoStack with
    | nil =>
      rw [hundo] at hseparate
      exact ⟨hseparate, .nil _, hopened, hproper⟩
    | cons entry entries =>
      rw [hundo] at hbehind hseparate
      dsimp only
      split
      next merged hmerged =>
        split_ifs at hmerged
        cases hbehind with
        | cons hentry hproper' hrest =>
          cases hentry with
          | keeps hkeeps' =>
            exact ⟨.cons (.keeps (hkeeps'.coalesceWith hkeeps hmerged)) hproper' hrest, .nil _,
              hopened, hproper⟩
          | ranks hranks hshifts =>
            rw [hranks.coalesceWith_eq_none] at hmerged
            cases hmerged
      next => exact ⟨hseparate, .nil _, hopened, hproper⟩

/-- A command that moves nothing, whether it applies or not. -/
theorem Ranked.execute (h : bus.Ranked) {command : Option Command}
    (hkeeps : ∀ c, command = some c → c.KeepsRack bus.project.orders) :
    (bus.execute command).2.Ranked := by
  cases command with
  | none => exact h
  | some command =>
    obtain ⟨hranking, happlied⟩ := Command.keepsRack_apply command bus.project (hkeeps command rfl)
    have hproject := h.congr hranking
    unfold CommandBus.execute
    dsimp only
    split_ifs
    · refine Ranked.record hproject ?_
      dsimp only
      rw [Tables.orders_of_ranking hranking]
      exact happlied
    · exact hproject

/-- A command of the rack, where no transaction is open. -/
theorem Ranked.execute_ranks (h : bus.Ranked) (hopened : bus.opened = []) {ranking : Ranking}
    (hranks : command.Ranks bus.project.orders ranking.orders)
    (hshifts : command.Shifts bus.project.roster ranking.roster)
    (hdistinct : ranking.orders.Distinct) :
    (bus.execute (some command)).1 = true ∧ (bus.execute (some command)).2.Ranked ∧
      (bus.execute (some command)).2.opened = [] := by
  obtain ⟨command', project', happly, hshifts', hroster⟩ := hshifts.apply
  obtain ⟨hranks', horders⟩ := hranks.apply rfl happly
  obtain ⟨hvalid, hmaster⟩ := hshifts'.sound h.proper.validIds h.proper.master
  have hranking : project'.ranking = ranking := by
    rw [Tables.ranking, horders, hroster]
  have hbehind : Behind (command' :: bus.undoStack) project'.ranking := by
    rw [hranking]
    exact .cons (.ranks hranks' hshifts') h.proper h.behind
  have hproper : project'.ranking.Proper := by
    rw [hranking]
    exact ⟨hdistinct, hvalid, hmaster⟩
  unfold CommandBus.execute
  simp only [happly, if_true]
  unfold CommandBus.record
  simp only [hopened]
  cases hundo : bus.undoStack with
  | nil =>
    rw [hundo] at hbehind
    exact ⟨trivial, ⟨hbehind, .nil _, List.forall_mem_nil _, hproper⟩, rfl⟩
  | cons entry entries =>
    rw [hundo] at hbehind
    have hseparate : (if bus.coalescable then entry.coalesceWith command' else none) = none := by
      rw [hranks'.eq_none_of_coalesceWith, ite_self]
    simp only [hseparate]
    exact ⟨trivial, ⟨hbehind, .nil _, List.forall_mem_nil _, hproper⟩, trivial⟩

/-- **An undo leads to a ranking of before**, if what is open can stand it. -/
theorem Ranked.undo (h : bus.Ranked) (hspare : bus.OpenedSpare) : bus.undo.2.Ranked := by
  obtain ⟨hbehind, hahead, hopened, hproper⟩ := h
  unfold CommandBus.undo
  cases hstack : bus.undoStack with
  | nil => exact ⟨hbehind, hahead, hopened, hproper⟩
  | cons entry entries =>
    rw [hstack] at hbehind
    cases hbehind with
    | @cons _ _ before _ hentry hproper' hrest =>
      cases hentry with
      | keeps hkeeps =>
        obtain ⟨hranking, hreverted⟩ := Command.keepsRack_revert entry bus.project hkeeps
        have hopened' : ∀ commands ∈ bus.opened, ∀ command ∈ commands,
            command.KeepsRack (entry.revert bus.project).state.orders :=
          Tables.orders_of_ranking hranking ▸ hopened
        dsimp only
        split_ifs
        · refine ⟨?_, ?_, hopened', ?_⟩
          · exact hranking ▸ hrest
          · rw [hranking]
            exact .cons (.keeps hreverted) hproper hahead
          · exact hranking ▸ hproper
        · refine ⟨?_, ?_, hopened', ?_⟩
          · rw [hranking]
            exact .cons (.keeps hreverted) hproper' hrest
          · exact hranking ▸ hahead
          · exact hranking ▸ hproper
      | ranks hranks hshifts =>
        obtain ⟨command', project', hrevert, hshifts', hroster⟩ := hshifts.revert
        obtain ⟨hranks', horders⟩ := hranks.revert rfl hrevert
        have hranking : project'.ranking = before := by
          rw [Tables.ranking, horders, hroster]
        simp only [hrevert, if_true]
        refine ⟨?_, ?_, fun commands hcommands command hcommand =>
          hspare commands hcommands command hcommand _, ?_⟩
        · exact hranking ▸ hrest
        · rw [hranking]
          exact .cons (.ranks hranks' hshifts') hproper hahead
        · exact hranking ▸ hproper'

/-- **So does a redo.** -/
theorem Ranked.redo (h : bus.Ranked) (hspare : bus.OpenedSpare) : bus.redo.2.Ranked := by
  obtain ⟨hbehind, hahead, hopened, hproper⟩ := h
  unfold CommandBus.redo
  cases hstack : bus.redoStack with
  | nil => exact ⟨hbehind, hahead, hopened, hproper⟩
  | cons entry entries =>
    rw [hstack] at hahead
    cases hahead with
    | @cons _ _ _ after hentry hproper' hrest =>
      cases hentry with
      | keeps hkeeps =>
        obtain ⟨hranking, happlied⟩ := Command.keepsRack_apply entry bus.project hkeeps
        have hopened' : ∀ commands ∈ bus.opened, ∀ command ∈ commands,
            command.KeepsRack (entry.apply bus.project).state.orders :=
          Tables.orders_of_ranking hranking ▸ hopened
        dsimp only
        split_ifs
        · refine ⟨?_, ?_, hopened', ?_⟩
          · rw [hranking]
            exact .cons (.keeps happlied) hproper hbehind
          · exact hranking ▸ hrest
          · exact hranking ▸ hproper
        · refine ⟨?_, ?_, hopened', ?_⟩
          · exact hranking ▸ hbehind
          · rw [hranking]
            exact .cons (.keeps happlied) hproper' hrest
          · exact hranking ▸ hproper
      | ranks hranks hshifts =>
        obtain ⟨command', project', happly, hshifts', hroster⟩ := hshifts.apply
        obtain ⟨hranks', horders⟩ := hranks.apply rfl happly
        have hranking : project'.ranking = after := by
          rw [Tables.ranking, horders, hroster]
        simp only [happly, if_true]
        refine ⟨?_, ?_, fun commands hcommands command hcommand =>
          hspare commands hcommands command hcommand _, ?_⟩
        · rw [hranking]
          exact .cons (.ranks hranks' hshifts') hproper hbehind
        · exact hranking ▸ hrest
        · exact hranking ▸ hproper'

theorem Ranked.beginTransaction (h : bus.Ranked) : bus.beginTransaction.Ranked where
  behind := h.behind
  ahead := h.ahead
  opened := List.forall_mem_cons.2 ⟨nofun, h.opened⟩
  proper := h.proper

/-- A transaction that moves nothing becomes an entry that moves nothing. -/
theorem Ranked.commitTransaction (h : bus.Ranked) : bus.commitTransaction.Ranked := by
  obtain ⟨hbehind, hahead, hopened, hproper⟩ := h
  unfold CommandBus.commitTransaction
  split
  · exact ⟨hbehind, hahead, hopened, hproper⟩
  next outer hstack =>
    rw [hstack] at hopened
    exact ⟨hbehind, hahead, (List.forall_mem_cons.1 hopened).2, hproper⟩
  next command commands outer outermost hstack =>
    rw [hstack] at hopened
    obtain ⟨hinner, hopened⟩ := List.forall_mem_cons.1 hopened
    obtain ⟨houter, houtermost⟩ := List.forall_mem_cons.1 hopened
    have hcomposite : (Command.composite (command :: commands)).KeepsRack bus.project.orders :=
      Command.keepsRackAll_iff.2 hinner
    exact ⟨hbehind, hahead, List.forall_mem_cons.2
      ⟨List.forall_mem_append.2 ⟨houter, List.forall_mem_singleton.2 hcomposite⟩, houtermost⟩,
      hproper⟩
  next command commands hstack =>
    rw [hstack] at hopened
    have hcomposite : (Command.composite (command :: commands)).KeepsRack bus.project.orders :=
      Command.keepsRackAll_iff.2 (List.forall_mem_cons.1 hopened).1
    exact ⟨.cons (.keeps hcomposite) hproper hbehind, .nil _, nofun, hproper⟩

theorem Ranked.abortTransaction (h : bus.Ranked) : bus.abortTransaction.Ranked := by
  unfold CommandBus.abortTransaction
  split
  · exact h
  next commands outer hstack =>
    have hopened := h.opened
    rw [hstack] at hopened
    obtain ⟨hinner, houter⟩ := List.forall_mem_cons.1 hopened
    have hranking := (Command.keepsRack_revert (.composite commands) bus.project
      (Command.keepsRackAll_iff.2 hinner)).ranking
    have hproject := h.congr hranking
    refine ⟨hproject.behind, hproject.ahead, ?_, hproject.proper⟩
    dsimp only
    rw [Tables.orders_of_ranking hranking]
    exact houter

theorem Ranked.sealHistory (h : bus.Ranked) : bus.sealHistory.Ranked :=
  ⟨h.behind, h.ahead, h.opened, h.proper⟩

end CommandBus

/-! ### What the factories build -/

namespace Command

variable {command : Command} {project : Tables}

/-- Edits of instruments that are each made once start from the orders that are there. -/
theorem exists_orderEdits (next : InstrumentId × Instrument → ℤ)
    {entries : List (InstrumentId × Instrument)} {orders : Orders}
    (hnodup : (entries.map Prod.fst).Nodup)
    (hget : ∀ entry ∈ entries, project.instruments.get? entry.1 = some entry.2)
    (horders : ∀ entry ∈ entries, orders entry.1 = some entry.2.order) :
    ∃ edits orders', entries.filterMap (orderEdit project next) = edits.map .edit ∧
      OrderEdits edits orders orders' := by
  induction entries generalizing orders with
  | nil => exact ⟨[], orders, rfl, .nil orders⟩
  | cons entry entries ih =>
    rw [List.map_cons, List.nodup_cons] at hnodup
    obtain ⟨hentry, hentries⟩ := List.forall_mem_cons.1 hget
    obtain ⟨horder, hothers⟩ := List.forall_mem_cons.1 horders
    by_cases hsame : next entry = entry.2.order
    · have hedit : orderEdit project next entry = none := if_pos hsame
      rw [List.filterMap_cons_none hedit]
      exact ih hnodup.2 hentries hothers
    · have hedit : orderEdit project next entry =
          some (.edit ⟨.instrument entry.1, .order, entry.2, entry.2.withOrder (next entry)⟩) := by
        rw [orderEdit, if_neg hsame, editInstrument, hentry, Option.map_some]
      -- the edits that follow are of other instruments
      obtain ⟨edits, orders', hedits, hall⟩ := @ih (Function.update orders entry.1
        (some (next entry))) hnodup.2 hentries fun other hother => by
          rw [Function.update_of_ne]
          · exact hothers other hother
          · intro heq
            exact hnodup.1 (heq ▸ List.mem_map_of_mem hother)
      rw [List.filterMap_cons_some hedit, hedits]
      exact ⟨_ :: edits, orders', rfl, .cons horder hall⟩

/-- A reorder moves instruments, and the orders stay distinct. -/
theorem ranks_reorderInstrument {id : InstrumentId} {targetOrder : ℤ}
    (h : reorderInstrument project id targetOrder = some command)
    (hdistinct : Orders.Distinct project.orders) :
    ∃ orders : Orders, command.Ranks project.orders orders ∧ orders.Distinct := by
  rcases hmoving : project.instruments.get? id with _ | moving
  · rw [reorderInstrument, hmoving] at h
    cases h
  obtain ⟨edits, orders, hedits, hall⟩ := exists_orderEdits
    (fun entry : InstrumentId × Instrument =>
      reorderedTo id entry.1 moving.order (askedPlace project targetOrder) entry.2.order)
    project.instruments.nodup_keys
    (fun entry hentry => OrderedMap.get?_eq_some_iff.2 hentry) fun entry hentry =>
      Tables.orders_eq_some_iff.2 ⟨entry.2, hentry, rfl⟩
  have hcommand : command = .composite (edits.map .edit) := by
    rw [← hedits]
    rw [reorderInstrument, hmoving] at h
    dsimp only at h
    split_ifs at h
    cases h
    rfl
  have hranks : command.Ranks project.orders orders := by
    rw [hcommand]
    exact .moved hall
  refine ⟨orders, hranks, ?_⟩
  rcases apply_reorderInstrument hmoving targetOrder with ⟨hnone, -⟩ | ⟨other, hsome, hok, hstate⟩
  · rw [hnone] at h
    cases h
  · rw [hsome, Option.some_inj] at h
    subst h
    rcases happly : other.apply project with ⟨ok, applied, project'⟩
    rw [happly] at hok hstate
    dsimp only at hok hstate
    rw [hok] at happly
    rw [← (hranks.apply rfl happly).2, hstate, ← distinctOrders_iff]
    exact distinct_reordered hmoving (distinctOrders_iff.2 hdistinct) _

/-- The command rearranges the rack, or fails and leaves it; only what it does when it is applied
matters. -/
def Restacks (command : Command) (project : Tables) : Prop :=
  (∃ (same : Command) (ranking : Ranking), same.apply project = command.apply project ∧
    same.Ranks project.orders ranking.orders ∧ same.Shifts project.roster ranking.roster ∧
    ranking.orders.Distinct) ∨
  (command.apply project).ok = false ∧ (command.apply project).state.ranking = project.ranking

theorem restacks_reorderInstrument {id : InstrumentId} {targetOrder : ℤ}
    (hproper : project.ranking.Proper)
    (h : reorderInstrument project id targetOrder = some command) : command.Restacks project := by
  obtain ⟨orders, hranks, hdistinct⟩ := ranks_reorderInstrument h hproper.distinct
  exact .inl ⟨command, ⟨orders, project.roster⟩, rfl, hranks, shifts_reorderInstrument h, hdistinct⟩

/-- An instrument is added behind all others, with a track of its own, or nothing is. -/
theorem restacks_added {track : MixerTrackId} {id : InstrumentId} {mixerTrack : MixerTrack}
    {instrument : Instrument} (hproper : project.ranking.Proper)
    (horder : instrument.order = nextInstrumentOrder project) :
    (composite [.add (.mixerTrack track mixerTrack), .add (.instrument id instrument)]).Restacks
      project := by
  rcases @shifts_or_voices_added project track id mixerTrack instrument hproper.master with
    ⟨roster, hshifts⟩ | ⟨hfailed, -, hroster⟩
  · obtain ⟨command', project', happly, -, -⟩ := hshifts.apply
    obtain ⟨between, htrack, hinstrument, -⟩ := apply_added_eq_ok happly
    have hnone : project.orders id = none := by
      unfold Tables.restoreInstrument at hinstrument
      split_ifs at hinstrument with hthere
      rw [Bool.or_eq_true, not_or, Bool.not_eq_true, Bool.not_eq_true,
        OrderedMap.contains_eq_false_iff] at hthere
      rw [← Tables.orders_restoreMixerTrack htrack, Tables.orders, hthere.2, Option.map_none]
    refine .inl ⟨_, ⟨Function.update project.orders id (some instrument.order), roster⟩, rfl,
      .added hnone, hshifts, hproper.distinct.update_some fun other order' hother => ?_⟩
    rw [horder]
    exact lt_nextInstrumentOrder hother
  · refine .inr ⟨hfailed, ?_⟩
    rw [Tables.ranking, Tables.ranking, hroster, orders_added_of_not_ok hfailed]

/-- What a removal removes is captured when it is applied. -/
theorem restacks_removeInstrument (hproper : project.ranking.Proper) (id : InstrumentId) :
    (OneBeat.removeInstrument id).Restacks project := by
  rcases hget : project.instruments.get? id with _ | instrument
  · refine .inr ?_
    simp [OneBeat.removeInstrument, Command.apply, RemoveInstrument.apply, hget]
  have horder : project.orders id = some instrument.order := by
    rw [Tables.orders, hget, Option.map_some]
  have hthere : project.roster.instruments id = true :=
    OrderedMap.contains_eq_true_iff.2 ⟨instrument, hget⟩
  refine .inl ⟨.removeInstrument { id, instrument },
    ⟨Function.update project.orders id none, _⟩, ?_, @Ranks.removed { id, instrument } _ horder,
    @Shifts.removed { id, instrument } _ (hproper.validIds id hthere) hthere,
    hproper.distinct.update_none id⟩
  simp only [OneBeat.removeInstrument, Command.apply, RemoveInstrument.apply, hget]

end Command

/-- **A command of the rack**, where no transaction is open. -/
theorem CommandBus.Ranked.execute_rack {bus : CommandBus} (h : bus.Ranked)
    (hopened : bus.opened = []) {command : Option Command}
    (hrestacks : ∀ c, command = some c → c.Restacks bus.project) :
    (bus.execute command).2.Ranked ∧ (bus.execute command).2.opened = [] := by
  cases command with
  | none => exact ⟨h, hopened⟩
  | some command =>
    rcases hrestacks command rfl with
      ⟨same, ranking, hsame, hranks, hshifts, hdistinct⟩ | ⟨hfailed, hranking⟩
    · have hexecute : bus.execute (some command) = bus.execute (some same) := by
        simp only [CommandBus.execute, hsame]
      rw [hexecute]
      exact (h.execute_ranks hopened hranks hshifts hdistinct).2
    · have hexecute : (bus.execute (some command)).2 =
          { bus with project := (command.apply bus.project).state } := by
        simp [CommandBus.execute, hfailed]
      rw [hexecute]
      exact ⟨h.congr hranking, hopened⟩

end OneBeat
