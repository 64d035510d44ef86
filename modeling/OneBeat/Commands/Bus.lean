import OneBeat.Commands.UndoExact

/-!
# The command bus

`CommandBus` of `model/command.cpp`, the single mutation path: it applies commands, keeps them on
an undo and a redo stack, absorbs the commands of a gesture into one entry, and groups those of a
transaction.

**Main theorem** (`CommandBus.redoExact_run`): after every run whose calls can be taken back
exactly (`CommandBus.Permits`), an undo followed by a redo succeeds and gives the project back.
It follows from `CommandBus.Invariant`: the undo stack is a past of the project, the redo stack a
future of it, and the open transactions lead from there to where the project is
(`CommandBus.Invariant.call`).
-/

namespace OneBeat

/-- The history of a project, the project itself included. -/
structure CommandBus where
  project : Tables
  /-- The entry `undo` takes back comes first. -/
  undoStack : List Command := []
  /-- The entry `redo` makes again comes first. -/
  redoStack : List Command := []
  /-- The commands of the open transactions, the innermost transaction first. -/
  opened : List (List Command) := []
  /-- The next command may be absorbed. -/
  coalescable : Bool := false

namespace CommandBus

/-- A bus on a project that has no history yet. -/
def start (project : Tables) : CommandBus := { project }

/-- Take a command that was applied into the open transaction, or into the history. -/
def record (command : Command) (bus : CommandBus) : CommandBus :=
  match bus.opened with
  | commands :: outer => { bus with opened := (commands ++ [command]) :: outer }
  | [] =>
    match bus.undoStack with
    | [] => { bus with undoStack := [command], redoStack := [], coalescable := true }
    | entry :: entries =>
      match if bus.coalescable then entry.coalesceWith command else none with
      | some merged => { bus with undoStack := merged :: entries, redoStack := [] }
      | none =>
        { bus with undoStack := command :: entry :: entries, redoStack := [], coalescable := true }

/-- Apply a command and record it; a null command does nothing. -/
def execute (command : Option Command) (bus : CommandBus) : Bool × CommandBus :=
  match command with
  | none => (false, bus)
  | some command =>
    let applied := command.apply bus.project
    if applied.ok then (true, { bus with project := applied.state }.record applied.command)
    else (false, { bus with project := applied.state })

/-- Take the last entry back; one that fails stays where it is. -/
def undo (bus : CommandBus) : Bool × CommandBus :=
  match bus.undoStack with
  | [] => (false, bus)
  | entry :: entries =>
    let reverted := entry.revert bus.project
    if reverted.ok then
      (true, { bus with
        project := reverted.state, undoStack := entries
        redoStack := reverted.command :: bus.redoStack, coalescable := false })
    else
      (false, { bus with project := reverted.state, undoStack := reverted.command :: entries })

/-- Make the entry that was taken back last again. -/
def redo (bus : CommandBus) : Bool × CommandBus :=
  match bus.redoStack with
  | [] => (false, bus)
  | entry :: entries =>
    let applied := entry.apply bus.project
    if applied.ok then
      (true, { bus with
        project := applied.state, undoStack := applied.command :: bus.undoStack
        redoStack := entries, coalescable := false })
    else (false, { bus with project := applied.state, redoStack := applied.command :: entries })

def beginTransaction (bus : CommandBus) : CommandBus := { bus with opened := [] :: bus.opened }

/-- Close the innermost transaction; an empty one leaves no entry. -/
def commitTransaction (bus : CommandBus) : CommandBus :=
  match bus.opened with
  | [] => bus
  | [] :: outer => { bus with opened := outer }
  | (command :: commands) :: outer :: outermost =>
    { bus with opened := (outer ++ [.composite (command :: commands)]) :: outermost }
  | [command :: commands] =>
    { bus with
      opened := [], undoStack := .composite (command :: commands) :: bus.undoStack
      redoStack := [], coalescable := false }

/-- Take everything in the innermost transaction back. -/
def abortTransaction (bus : CommandBus) : CommandBus :=
  match bus.opened with
  | [] => bus
  | commands :: outer =>
    { bus with
      opened := outer, project := ((Command.composite commands).revert bus.project).state }

/-- End the coalescing window. -/
def sealHistory (bus : CommandBus) : CommandBus := { bus with coalescable := false }

def clear (bus : CommandBus) : CommandBus := start bus.project

/-! ### Runs -/

/-- A call of the bus. -/
inductive Call
  | execute (command : Option Command)
  | undo | redo | beginTransaction | commitTransaction | abortTransaction | sealHistory | clear

/-- The bus after a call, whatever the call answered. -/
def call (bus : CommandBus) : Call → CommandBus
  | .execute command => (bus.execute command).2
  | .undo => bus.undo.2
  | .redo => bus.redo.2
  | .beginTransaction => bus.beginTransaction
  | .commitTransaction => bus.commitTransaction
  | .abortTransaction => bus.abortTransaction
  | .sealHistory => bus.sealHistory
  | .clear => bus.clear

/-- The bus after one call after the other. -/
def run (bus : CommandBus) (calls : List Call) : CommandBus := calls.foldl call bus

/-- When an undo succeeds, a redo right after it succeeds and gives the project back. -/
def RedoExact (bus : CommandBus) : Prop :=
  bus.undo.1 = true → bus.undo.2.redo.1 = true ∧ bus.undo.2.redo.2.project = bus.project

end CommandBus

/-! ### What makes a call exact -/

/-- A command that a factory built on the project. -/
inductive Built (project : Tables) : Command → Prop
  | structural {command : Command} : Structural project command → Built project command
  | insertNotes (pattern : PatternId) (instrument : InstrumentId) (notes : List Note) :
      Built project (.note (insertNotes pattern instrument notes))
  | removeNotes (pattern : PatternId) (instrument : InstrumentId) (notes : List Note) :
      Built project (.note (removeNotes pattern instrument notes))
  | replaceNotes {pattern : PatternId} {instrument : InstrumentId} {before after : List Note}
      {command : NoteCommand} :
      replaceNotes pattern instrument before after = some command → Built project (.note command)
  | setTransport (transport : TransportState) : Built project (setTransport project transport)

namespace NoteCommand

/-- The notes to remove are in range, and the ties are restored. -/
def Restorable (command : NoteCommand) (project : Tables) : Prop :=
  ∀ pattern, project.patterns.get? command.pattern = some pattern →
    (∀ note ∈ command.removed, isValidNote note = true) ∧
      TiesRestored (pattern.notesOf command.instrument) command.removed command.added

/-- The pattern before the edit, from the pattern after it. -/
def patternBefore (command : NoteCommand) (live : Pattern) : Pattern :=
  live.withSequence command.instrument
    (.assignSorted ((live.notesOf command.instrument).diff command.added ++ command.removed))

/-- The pattern an edit started from can be told from where it led. -/
theorem get?_patternBefore {command command' : NoteCommand} {project project' : Tables}
    {live : Pattern} (hlive : project'.patterns.get? command.pattern = some live)
    (hrevert : command.revert project' = ⟨true, command', project⟩) :
    project.patterns.get? command.pattern = some (command.patternBefore live) := by
  unfold revert at hrevert
  split at hrevert
  · cases (Outcome.mk.inj hrevert).1
  · next stored hedit =>
    obtain ⟨-, -, rfl⟩ := Outcome.mk.inj hrevert
    obtain ⟨-, rfl⟩ := (editSequence_eq_some_iff hlive).1 hedit
    rw [Tables.setLengths_eq, Tables.patterns_mapClips]
    exact Tables.get?_withNotes hlive _ _

/-- Two edits in a row settle the ties, and the clips do not show that they were two. -/
def AbsorbsExactly (entry next : NoteCommand) (project : Tables) : Prop :=
  ∀ live, project.patterns.get? entry.pattern = some live →
    TiesSettled ((entry.patternBefore live).notesOf entry.instrument) entry.removed entry.added ∧
      TiesSettled (live.notesOf next.instrument) next.removed next.added ∧
      ClipsAgree entry next (entry.patternBefore live) project live

end NoteCommand

namespace Command

/-- Nothing refers to what the command creates, and what a note edit removes can be put back. -/
def Restorable (command : Command) (project : Tables) : Prop :=
  command.CreatesFresh project ∧
    match command with
    | note command => command.Restorable project
    | _ => True

/-- One entry does what the two commands did. -/
def AbsorbsExactly : Command → Command → Tables → Prop
  | note entry, note next, project => entry.AbsorbsExactly next project
  | transport entry, transport next, project => TransportCommand.RescalesAgree entry next project
  | _, _, _ => True

variable {project project' project'' : Tables} {command entry next merged : Command}

theorem ready_of_built (h : Built project command) (hrestorable : command.Restorable project) :
    Ready command project := by
  cases h with
  | structural h => exact ready_of_structural h hrestorable.1
  | insertNotes | removeNotes | replaceNotes => exact hrestorable.2
  | setTransport transport => exact rfl

/-- What is known of a command of one kind is known of the command packed in it, and back. -/
theorem done_iff {E : Type} {f : E → Command} {applyE revertE : E → Tables → Outcome Tables E}
    (hf : Function.Injective f)
    (happly : ∀ command project, apply (f command) project = (applyE command project).map f)
    (hrevert : ∀ command project, revert (f command) project = (revertE command project).map f)
    {command : E} :
    Done (f command) project project' ↔ History.Done applyE revertE command project project' :=
  ⟨fun h => h.of_map hf happly hrevert, fun h => h.map happly hrevert⟩

theorem done_edit {command : EditCommand} : Done (.edit command) project project' ↔
    History.Done EditCommand.apply EditCommand.revert command project project' :=
  done_iff (fun _ _ => Command.edit.inj) (fun _ _ => by rw [apply]) fun _ _ => by rw [revert]

theorem done_effectParam {command : EffectParamCommand} :
    Done (.effectParam command) project project' ↔
      History.Done EffectParamCommand.apply EffectParamCommand.revert command project project' :=
  done_iff (fun _ _ => Command.effectParam.inj) (fun _ _ => by rw [apply])
    fun _ _ => by rw [revert]

theorem done_note {command : NoteCommand} : Done (.note command) project project' ↔
    History.Done NoteCommand.apply NoteCommand.revert command project project' :=
  done_iff (fun _ _ => Command.note.inj) (fun _ _ => by rw [apply]) fun _ _ => by rw [revert]

theorem done_transport {command : TransportCommand} :
    Done (.transport command) project project' ↔
      History.Done TransportCommand.apply TransportCommand.revert command project project' :=
  done_iff (fun _ _ => Command.transport.inj) (fun _ _ => by rw [apply])
    fun _ _ => by rw [revert]

theorem done_coalesceWith_note {entry next next' merged : NoteCommand} (hp : project.Healthy)
    (hdone : Done (.note entry) project project')
    (happly : next.apply project' = ⟨true, next', project''⟩)
    (hmerged : entry.coalesceWith next' = some merged)
    (hexact : entry.AbsorbsExactly next project') : Done (.note merged) project project'' := by
  rw [done_note] at hdone ⊢
  obtain ⟨live, hlive, -⟩ := NoteCommand.apply_ok_iff.1 (congrArg Outcome.ok happly)
  have hpattern : entry.pattern = next.pattern := by
    obtain ⟨⟨-, -, hpattern, -⟩, -⟩ := NoteCommand.coalesceWith_eq_some_iff.1 hmerged
    obtain ⟨-, rfl, -⟩ := (NoteCommand.apply_eq_ok_iff hlive).1 happly
    exact hpattern.symm
  rw [← hpattern] at hlive
  obtain ⟨e₁, hrevert, -⟩ := id hdone
  have hbefore := NoteCommand.get?_patternBefore hlive hrevert
  obtain ⟨hsettled, hnext, hclips⟩ := hexact live hlive
  exact (NoteCommand.done_coalesceWith hbefore (hp.sparse _ _ hbefore) hlive hdone hsettled happly
    hnext hmerged hclips).1

/-- **An absorbed command can be taken back and made again.** -/
theorem done_coalesceWith {next' : Command} (hp : project.Healthy)
    (hdone : Done entry project project') (hready : Ready next project')
    (happly : apply next project' = ⟨true, next', project''⟩)
    (hmerged : entry.coalesceWith next' = some merged)
    (hexact : entry.AbsorbsExactly next project') : Done merged project project'' := by
  cases next with
  | edit next =>
    rw [apply, Outcome.map_eq_ok_iff] at happly
    obtain ⟨next', happly, rfl⟩ := happly
    obtain ⟨hwrite, rfl⟩ := Outcome.ofOption_eq_ok_iff.1 happly
    cases entry with
    | edit entry =>
      obtain ⟨merged, habsorbed, rfl⟩ := Option.map_eq_some_iff.1 hmerged
      exact done_edit.2 (EditCommand.done_coalesceWith (done_edit.1 hdone) hwrite habsorbed)
    | _ => cases hmerged
  | effectParam next =>
    rw [apply, Outcome.map_eq_ok_iff] at happly
    obtain ⟨next', happly, rfl⟩ := happly
    obtain ⟨hwrite, rfl⟩ := Outcome.ofOption_eq_ok_iff.1 happly
    cases entry with
    | effectParam entry =>
      obtain ⟨merged, habsorbed, rfl⟩ := Option.map_eq_some_iff.1 hmerged
      exact done_effectParam.2
        (EffectParamCommand.done_coalesceWith (done_effectParam.1 hdone) hwrite habsorbed)
    | _ => cases hmerged
  | note next =>
    rw [apply, Outcome.map_eq_ok_iff] at happly
    obtain ⟨next', happly, rfl⟩ := happly
    cases entry with
    | note entry =>
      obtain ⟨merged, habsorbed, rfl⟩ := Option.map_eq_some_iff.1 hmerged
      exact done_coalesceWith_note hp hdone happly habsorbed hexact
    | _ => cases hmerged
  | transport next =>
    rw [apply, Outcome.map_eq_ok_iff] at happly
    obtain ⟨next', happly, rfl⟩ := happly
    cases entry with
    | transport entry =>
      cases hmerged
      exact done_transport.2 (TransportCommand.done_coalesceWith (done_transport.1 hdone) hready
        happly hexact)
    | _ => cases hmerged
  | _ =>
    -- nothing absorbs a command of another kind
    rw [apply, Outcome.map_eq_ok_iff] at happly
    obtain ⟨next', happly, rfl⟩ := happly
    cases entry <;> cases hmerged

end Command

/-! ### The invariant of a run -/

namespace CommandBus

/-- What makes a call exact: a command is built on the project and restorable, and an entry that
absorbs it does so exactly; nothing is undone or redone inside a transaction. -/
def Permits (bus : CommandBus) : Call → Prop
  | .execute none => True
  | .execute (some command) =>
    Built bus.project command ∧ command.Restorable bus.project ∧
      ∀ entry entries, bus.opened = [] → bus.coalescable = true →
        bus.undoStack = entry :: entries → entry.AbsorbsExactly command bus.project
  | .undo | .redo => bus.opened = []
  | _ => True

/-- The undo stack is a past and the redo stack a future of one project, and the commands of the
open transactions lead from it to the project. -/
def Invariant (bus : CommandBus) : Prop :=
  ∃ base, History.Past Command.apply Command.revert Tables.Healthy bus.undoStack base ∧
    History.Future Command.apply Command.revert Tables.Healthy bus.redoStack base ∧
    History.Chain Command.apply Command.revert Tables.Healthy bus.opened.reverse.flatten base
      bus.project

/-- The undo stack leads from the origin to the project that the redo stack is a future of, and the
open transactions lead from there to where the project is. -/
structure LeadsFrom (origin base : Tables) (bus : CommandBus) : Prop where
  healthy : origin.Healthy
  past : History.Chain Command.apply Command.revert Tables.Healthy bus.undoStack.reverse origin base
  future : History.Future Command.apply Command.revert Tables.Healthy bus.redoStack base
  opened : History.Chain Command.apply Command.revert Tables.Healthy bus.opened.reverse.flatten base
    bus.project

variable {bus : CommandBus} {origin base : Tables}

theorem invariant_iff : bus.Invariant ↔ ∃ origin base, bus.LeadsFrom origin base := by
  constructor
  · rintro ⟨base, hpast, hfuture, hopened⟩
    obtain ⟨origin, hhealthy, hpast⟩ := History.past_iff.1 hpast
    exact ⟨origin, base, hhealthy, hpast, hfuture, hopened⟩
  · rintro ⟨origin, base, h⟩
    exact ⟨base, History.past_iff.2 ⟨origin, h.healthy, h.past⟩, h.future, h.opened⟩

/-- A bus starts with no history. -/
theorem leadsFrom_start {project : Tables} (h : project.Healthy) :
    (start project).LeadsFrom project project :=
  ⟨h, .nil project, .nil project, .nil project⟩

namespace LeadsFrom

theorem healthy_project (h : bus.LeadsFrom origin base) : bus.project.Healthy :=
  h.opened.holds (h.past.holds h.healthy)

/-- Where the open transactions hold no command, the stacks are about the project itself. -/
theorem base_eq (h : bus.LeadsFrom origin base) (hopened : bus.opened.reverse.flatten = []) :
    base = bus.project := by
  have hchain := h.opened
  rw [hopened] at hchain
  cases hchain
  rfl

/-- With no history at all the project is where it started. -/
theorem origin_eq (h : bus.LeadsFrom origin base) (hopened : bus.opened.reverse.flatten = [])
    (hundo : bus.undoStack = []) : origin = bus.project := by
  obtain rfl := h.base_eq hopened
  have hpast := h.past
  rw [hundo] at hpast
  cases hpast
  rfl

/-- Push an entry that leads to where the project is now. -/
theorem push (h : bus.LeadsFrom origin base) (hopened : bus.opened.reverse.flatten = [])
    {entry : Command} {project' : Tables} (hdone : entry.Done bus.project project')
    (hhealthy : project'.Healthy) {redo : List Command}
    (hfuture : History.Future Command.apply Command.revert Tables.Healthy redo project')
    (coalescable : Bool) :
    ({ bus with
      project := project', undoStack := entry :: bus.undoStack, redoStack := redo
      coalescable } : CommandBus).LeadsFrom origin project' where
  healthy := h.healthy
  past := by
    obtain rfl := h.base_eq hopened
    rw [List.reverse_cons]
    exact h.past.append (.singleton hdone hhealthy)
  future := hfuture
  opened := by
    rw [hopened]
    exact .nil project'

/-- Pop the entry that led to where the project is. -/
theorem pop (h : bus.LeadsFrom origin base) (hopened : bus.opened.reverse.flatten = [])
    {entry : Command} {entries : List Command} (hundo : bus.undoStack = entry :: entries) :
    ∃ project, entry.Done project bus.project ∧ ∀ redo coalescable,
      History.Future Command.apply Command.revert Tables.Healthy redo project →
      ({ bus with project, undoStack := entries, redoStack := redo, coalescable } :
        CommandBus).LeadsFrom origin project := by
  obtain rfl := h.base_eq hopened
  have hpast := h.past
  rw [hundo, List.reverse_cons] at hpast
  obtain ⟨project, hbefore, hentry⟩ := hpast.of_append
  cases hentry with
  | cons hdone _ hnil =>
    cases hnil
    refine ⟨project, hdone, fun redo coalescable hfuture =>
      ⟨h.healthy, hbefore, hfuture, ?_⟩⟩
    rw [hopened]
    exact .nil project

theorem record (h : bus.LeadsFrom origin base) {command command' : Command} {project' : Tables}
    (hready : command.Ready bus.project)
    (happly : command.apply bus.project = ⟨true, command', project'⟩)
    (habsorbs : ∀ entry entries, bus.opened = [] → bus.coalescable = true →
      bus.undoStack = entry :: entries → entry.AbsorbsExactly command bus.project) :
    ∃ base, (({ bus with project := project' } : CommandBus).record command').LeadsFrom origin
      base := by
  have hexact := Command.exact_of_ready command bus.project h.healthy_project hready
  have hdone := hexact.done (by rw [happly])
  have hhealthy := hexact.healthy (by rw [happly])
  rw [happly] at hdone hhealthy
  unfold CommandBus.record
  cases hopened : bus.opened with
  | cons commands outer =>
    refine ⟨base, h.healthy, h.past, h.future, ?_⟩
    have hchain := h.opened
    rw [hopened] at hchain
    simp only [List.reverse_cons, List.flatten_append, List.flatten_singleton] at hchain ⊢
    rw [← List.append_assoc]
    exact hchain.append (.singleton hdone hhealthy)
  | nil =>
    have hnone : bus.opened.reverse.flatten = [] := by rw [hopened]; rfl
    have hpush := h.push hnone hdone hhealthy (.nil project') true
    cases hundo : bus.undoStack with
    | nil =>
      rw [hundo, hopened] at hpush
      exact ⟨project', hpush⟩
    | cons entry entries =>
      simp only
      split
      next merged hmerged =>
        split_ifs at hmerged with hcoalescable
        obtain ⟨project, hentry, hpop⟩ := h.pop hnone hundo
        have hpop := hpop [] bus.coalescable (.nil project)
        have hmerged := Command.done_coalesceWith hpop.healthy_project hentry hready happly hmerged
          (habsorbs entry entries hopened hcoalescable hundo)
        have hpush := hpop.push hnone hmerged hhealthy (.nil project') bus.coalescable
        rw [hopened] at hpush
        exact ⟨project', hpush⟩
      next =>
        rw [hundo, hopened] at hpush
        exact ⟨project', hpush⟩

theorem execute (h : bus.LeadsFrom origin base) {command : Option Command}
    (hpermits : bus.Permits (.execute command)) :
    ∃ base, (bus.execute command).2.LeadsFrom origin base := by
  cases command with
  | none => exact ⟨base, h⟩
  | some command =>
    obtain ⟨hbuilt, hrestorable, habsorbs⟩ := hpermits
    have hready := Command.ready_of_built hbuilt hrestorable
    unfold CommandBus.execute
    simp only
    split_ifs with hok
    · exact h.record hready (by rw [← hok]) habsorbs
    · have hexact := Command.exact_of_ready command bus.project h.healthy_project hready
      rw [hexact.failed (Bool.eq_false_of_not_eq_true hok)]
      exact ⟨base, h⟩

theorem undo (h : bus.LeadsFrom origin base) (hopened : bus.opened.reverse.flatten = []) :
    ∃ base, bus.undo.2.LeadsFrom origin base := by
  have hproject := h.healthy_project
  have hfuture := h.future
  rw [h.base_eq hopened] at hfuture
  unfold CommandBus.undo
  cases hundo : bus.undoStack with
  | nil => exact ⟨base, h⟩
  | cons entry entries =>
    obtain ⟨project, hdone, hpop⟩ := h.pop hopened hundo
    obtain ⟨entry', hrevert, hundone⟩ := hdone.undo
    simp only [hrevert, if_true]
    exact ⟨project, hpop _ false (.cons hundone hproject hfuture)⟩

theorem redo (h : bus.LeadsFrom origin base) (hopened : bus.opened.reverse.flatten = []) :
    ∃ base, bus.redo.2.LeadsFrom origin base := by
  have hfuture := h.future
  rw [h.base_eq hopened] at hfuture
  unfold CommandBus.redo
  cases hredo : bus.redoStack with
  | nil => exact ⟨base, h⟩
  | cons entry entries =>
    rw [hredo] at hfuture
    obtain ⟨entry', project, happly, hdone, hhealthy, hfuture⟩ := hfuture.redo
    simp only [happly, if_true]
    exact ⟨project, h.push hopened hdone hhealthy hfuture false⟩

theorem beginTransaction (h : bus.LeadsFrom origin base) :
    bus.beginTransaction.LeadsFrom origin base :=
  ⟨h.healthy, h.past, h.future, by simpa [CommandBus.beginTransaction] using h.opened⟩

theorem commitTransaction (h : bus.LeadsFrom origin base) :
    ∃ base, bus.commitTransaction.LeadsFrom origin base := by
  have hchain := h.opened
  unfold CommandBus.commitTransaction
  split
  next => exact ⟨base, h⟩
  next outer hopened =>
    exact ⟨base, h.healthy, h.past, h.future, by simpa [hopened] using hchain⟩
  next command commands outer outermost hopened =>
    refine ⟨base, h.healthy, h.past, h.future, ?_⟩
    rw [hopened] at hchain
    simp only [List.reverse_cons, List.flatten_append, List.flatten_singleton] at hchain ⊢
    obtain ⟨project, hbefore, hafter⟩ := hchain.of_append
    rw [← List.append_assoc]
    exact hbefore.append (.singleton (Command.done_composite hafter) h.healthy_project)
  next command commands hopened =>
    rw [hopened] at hchain
    simp only [List.reverse_singleton, List.flatten_singleton] at hchain
    refine ⟨bus.project, h.healthy, ?_, .nil _, .nil _⟩
    rw [List.reverse_cons]
    exact h.past.append (.singleton (Command.done_composite hchain) h.healthy_project)

theorem abortTransaction (h : bus.LeadsFrom origin base) :
    bus.abortTransaction.LeadsFrom origin base := by
  have hchain := h.opened
  unfold CommandBus.abortTransaction
  split
  next => exact h
  next commands outer hopened =>
    rw [hopened] at hchain
    simp only [List.reverse_cons, List.flatten_append, List.flatten_singleton] at hchain
    obtain ⟨project, hbefore, hafter⟩ := hchain.of_append
    obtain ⟨command, hrevert, -⟩ := Command.done_composite hafter
    rw [hrevert]
    exact ⟨h.healthy, h.past, h.future, hbefore⟩

end LeadsFrom

theorem Invariant.healthy (h : bus.Invariant) : bus.project.Healthy := by
  obtain ⟨origin, base, h⟩ := invariant_iff.1 h
  exact h.healthy_project

theorem invariant_start {project : Tables} (h : project.Healthy) : (start project).Invariant :=
  invariant_iff.2 ⟨_, _, leadsFrom_start h⟩

/-- Outside transactions the stacks are about the project itself. -/
theorem Invariant.of_opened (h : bus.Invariant) (hopened : bus.opened = []) :
    History.Past Command.apply Command.revert Tables.Healthy bus.undoStack bus.project ∧
      History.Future Command.apply Command.revert Tables.Healthy bus.redoStack bus.project := by
  obtain ⟨base, hpast, hfuture, hchain⟩ := h
  rw [hopened] at hchain
  cases hchain
  exact ⟨hpast, hfuture⟩

/-- **Every permitted call keeps the invariant.** -/
theorem Invariant.call (h : bus.Invariant) {call : Call} (hpermits : bus.Permits call) :
    (bus.call call).Invariant := by
  have hhealthy := h.healthy
  rw [invariant_iff] at h ⊢
  obtain ⟨origin, base, h⟩ := h
  cases call with
  | execute command => exact ⟨origin, h.execute hpermits⟩
  | undo =>
    have hopened : bus.opened = [] := hpermits
    exact ⟨origin, h.undo (by rw [hopened]; rfl)⟩
  | redo =>
    have hopened : bus.opened = [] := hpermits
    exact ⟨origin, h.redo (by rw [hopened]; rfl)⟩
  | beginTransaction => exact ⟨origin, base, h.beginTransaction⟩
  | commitTransaction => exact ⟨origin, h.commitTransaction⟩
  | abortTransaction => exact ⟨origin, base, h.abortTransaction⟩
  | sealHistory => exact ⟨origin, base, h.healthy, h.past, h.future, h.opened⟩
  | clear => exact ⟨_, _, leadsFrom_start hhealthy⟩

/-- Every call of a run is permitted when its turn comes. -/
def PermitsAll (bus : CommandBus) : List Call → Prop
  | [] => True
  | call :: calls => bus.Permits call ∧ (bus.call call).PermitsAll calls

theorem Invariant.run (h : bus.Invariant) {calls : List Call} (hpermits : bus.PermitsAll calls) :
    (bus.run calls).Invariant := by
  induction calls generalizing bus with
  | nil => exact h
  | cons call calls ih => exact ih (h.call hpermits.1) hpermits.2

theorem Invariant.redoExact (h : bus.Invariant) (hopened : bus.opened = []) : bus.RedoExact := by
  intro hok
  obtain ⟨hpast, -⟩ := h.of_opened hopened
  cases hundo : bus.undoStack with
  | nil => simp [CommandBus.undo, hundo] at hok
  | cons entry entries =>
    rw [hundo] at hpast
    obtain ⟨e₁, e₂, project, hrevert, happly⟩ := hpast.redo_undo
    simp [CommandBus.undo, CommandBus.redo, hundo, hrevert, happly]

/-- **Redo is exact along every run of permitted calls.** -/
theorem redoExact_run {project : Tables} (hproject : project.Healthy) {calls : List Call}
    (hpermits : (start project).PermitsAll calls)
    (hopened : ((start project).run calls).opened = []) :
    ((start project).run calls).RedoExact :=
  ((invariant_start hproject).run hpermits).redoExact hopened

theorem redoExact_removeLane :
    ((start (Command.laneProject ⟨4⟩)).run [.execute (some (removeLane ⟨3⟩))]).RedoExact := by
  have hconsistent : (Command.laneProject ⟨4⟩).Consistent :=
    Tables.checkReferentialIntegrity_eq_nil_iff.1 (by decide +kernel)
  refine redoExact_run (hconsistent.healthy (.of_keys (by decide +kernel)))
    ⟨⟨.structural (.removeLane _), ⟨fun _ hentity => ?_, trivial⟩, fun _ _ _ hcoalescable => ?_⟩,
      trivial⟩ (by decide +kernel)
  · cases hentity
  · cases hcoalescable

/-- A lane with one tick of audio, at a tempo of 100. -/
def tickProject : Tables :=
  { newProject ⟨1⟩ with
    lanes := OrderedMap.empty.assign ⟨2⟩ {}
    clips := OrderedMap.empty.assign ⟨3⟩
      { lane := ⟨2⟩, length := 1, source := .audio { path := "tick.wav", destination := ⟨1⟩ } }
    transport := { tempo := .finite 100 } }

/-- The tempo is dragged from where it is through some values. -/
def dragTempo (bus : CommandBus) (tempos : List Double) : CommandBus :=
  tempos.foldl (fun bus tempo => (bus.execute (some (setTransport bus.project
    { bus.project.transport with tempo }))).2) bus

/-- A tick at 100 is a tick at 140, and a tick at 140 is one at 200, but a tick at 100 is two at
200: the absorbed drag does not redo what the two changes did. -/
theorem not_redoExact_dragTempo : tickProject.checkReferentialIntegrity = [] ∧
    ¬((start tickProject).dragTempo [.finite 140, .finite 200]).RedoExact :=
  ⟨by decide +kernel, fun h => absurd (h (by decide +kernel)).2 (by decide +kernel)⟩

end CommandBus

end OneBeat
