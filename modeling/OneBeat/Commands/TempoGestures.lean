import OneBeat.Commands.Bus

/-!
# Tempo gestures

A transport edit absorbs every transport edit that follows it, so a drag of the tempo is one entry.
The entry records the lengths its *first* command found; it does not take over those that later
commands recorded.

**Main theorem** (`CommandBus.gestureUndoExact_iff`): undoing a gesture puts the transport and the
length of every audio clip back exactly when its first command changes the tempo, or the tempo
changes of the gesture, one after the other, lead every audio clip back to its length.
-/

namespace OneBeat

namespace TransportCommand

/-- A clip through the tempos of one transport after the other. -/
def rescaledAlong : Double → List TransportState → Clip → Clip
  | _, [], clip => clip
  | tempo, transport :: transports, clip =>
    rescaledAlong transport.tempo transports (rescaledClip tempo transport.tempo clip)

/-- A clip without a length keeps it. -/
theorem rescaledAlong_of_not_pos {clip : Clip} (h : ¬0 < clip.length) (tempo : Double)
    (transports : List TransportState) : rescaledAlong tempo transports clip = clip := by
  induction transports generalizing tempo with
  | nil => rfl
  | cons transport transports ih =>
    have hstay : rescaledClip tempo transport.tempo clip = clip := by simp [rescaledClip, h]
    rw [rescaledAlong, hstay, ih]

end TransportCommand

namespace CommandBus

/-- One transport edit after the other, each built on the project as it then is. -/
def gesture (bus : CommandBus) (transports : List TransportState) : CommandBus :=
  transports.foldl
    (fun bus transport => (bus.execute (some (setTransport bus.project transport))).2) bus

/-- The gesture is one new entry of the history. -/
def FoldsIntoOne (bus : CommandBus) (transports : List TransportState) : Prop :=
  ∃ entry, (bus.gesture transports).undoStack = entry :: bus.undoStack

/-- Undoing the gesture succeeds, and puts the transport and the length of every audio clip back
to what they were before its first command. -/
def GestureUndoExact (bus : CommandBus) (transports : List TransportState) : Prop :=
  let undone := (bus.gesture transports).undo
  undone.1 = true ∧ undone.2.project.transport = bus.project.transport ∧
    ∀ id clip, bus.project.clips.get? id = some clip → clip.audio.isSome = true →
      (undone.2.project.clips.get? id).map Clip.length = some clip.length

/-- The project after a gesture. -/
def alongTransports (project : Tables) : List TransportState → Tables
  | [] => project
  | transport :: transports =>
    alongTransports ((project.setTransport transport).mapClips fun _ =>
      TransportCommand.rescaledClip project.transport.tempo transport.tempo) transports

theorem alongTransports_eq (project : Tables) (transport : TransportState)
    (transports : List TransportState) :
    ∃ last, alongTransports project (transport :: transports) =
      (project.setTransport last).mapClips fun _ =>
        TransportCommand.rescaledAlong project.transport.tempo (transport :: transports) := by
  induction transports generalizing project transport with
  | nil => exact ⟨transport, rfl⟩
  | cons next transports ih =>
    rw [alongTransports]
    obtain ⟨last, hlast⟩ := ih ((project.setTransport transport).mapClips fun _ =>
      TransportCommand.rescaledClip project.transport.tempo transport.tempo) next
    refine ⟨last, hlast.trans ?_⟩
    simp only [Tables.setTransport_mapClips, Tables.mapClips_mapClips]
    rfl

/-- What executing one transport edit outside a transaction does. -/
theorem execute_setTransport (bus : CommandBus) (transport : TransportState) :
    (bus.execute (some (setTransport bus.project transport))).2 =
      ({ bus with project := alongTransports bus.project [transport] } : CommandBus).record
        (.transport
          { before := bus.project.transport, after := transport
            originalLengths :=
              if tempoChanges bus.project.transport.tempo transport.tempo then
                TransportCommand.recordedLengths bus.project else [] }) := by
  simp only [execute, setTransport, Command.apply, TransportCommand.apply_eq, Outcome.map_mk,
    if_true]
  rfl

/-- Inside a transaction the history stands still. -/
theorem undoStack_gesture_of_opened {bus : CommandBus} (hopened : bus.opened ≠ [])
    (transports : List TransportState) :
    (bus.gesture transports).undoStack = bus.undoStack := by
  induction transports generalizing bus with
  | nil => rfl
  | cons transport transports ih =>
    obtain ⟨commands, outer, hcons⟩ := List.exists_cons_of_ne_nil hopened
    have hstep := execute_setTransport bus transport
    simp only [record, hcons] at hstep
    rw [gesture, List.foldl_cons, hstep]
    exact ih (List.cons_ne_nil _ _)

/-- A transport entry on top absorbs a transport edit. -/
theorem execute_absorbed {bus : CommandBus} (hopened : bus.opened = [])
    (hcoalescable : bus.coalescable = true) {entry : TransportCommand} {entries : List Command}
    (hundo : bus.undoStack = .transport entry :: entries) (transport : TransportState) :
    (bus.execute (some (setTransport bus.project transport))).2 =
      { bus with
        project := alongTransports bus.project [transport]
        undoStack := .transport { entry with after := transport } :: entries
        redoStack := [] } := by
  rw [execute_setTransport]
  simp only [record, hopened, hundo, hcoalescable, if_true, Command.coalesceWith,
    TransportCommand.coalesceWith]

/-- A transport entry on top absorbs a gesture. -/
theorem gesture_of_absorbing {bus : CommandBus} (hopened : bus.opened = [])
    (hcoalescable : bus.coalescable = true) {entry : TransportCommand} {entries : List Command}
    (hundo : bus.undoStack = .transport entry :: entries) (transports : List TransportState) :
    ∃ after, (bus.gesture transports).undoStack = .transport { entry with after } :: entries ∧
      (bus.gesture transports).project = alongTransports bus.project transports := by
  induction transports generalizing bus entry with
  | nil => exact ⟨entry.after, hundo, rfl⟩
  | cons transport transports ih =>
    rw [gesture, List.foldl_cons, execute_absorbed hopened hcoalescable hundo]
    obtain ⟨after, hafter, hproject⟩ := @ih
      { bus with
        project := alongTransports bus.project [transport]
        undoStack := .transport { entry with after := transport } :: entries
        redoStack := [] } hopened hcoalescable { entry with after := transport } rfl
    exact ⟨after, hafter, hproject⟩

/-- The first command of a gesture that is one new entry starts that entry, and the entry keeps
what that command recorded. -/
theorem gesture_of_foldsIntoOne {bus : CommandBus} {transport : TransportState}
    {transports : List TransportState} (hfolds : bus.FoldsIntoOne (transport :: transports)) :
    ∃ after, (bus.gesture (transport :: transports)).undoStack =
        .transport
          { before := bus.project.transport, after
            originalLengths :=
              if tempoChanges bus.project.transport.tempo transport.tempo then
                TransportCommand.recordedLengths bus.project else [] } :: bus.undoStack ∧
      (bus.gesture (transport :: transports)).project =
        alongTransports bus.project (transport :: transports) := by
  obtain ⟨last, hlast⟩ := hfolds
  by_cases hopened : bus.opened = []
  swap
  · rw [undoStack_gesture_of_opened hopened] at hlast
    exact absurd (congrArg List.length hlast) (by simp)
  set first : TransportCommand :=
    { before := bus.project.transport, after := transport
      originalLengths :=
        if tempoChanges bus.project.transport.tempo transport.tempo then
          TransportCommand.recordedLengths bus.project else [] } with hfirst
  have hpushed : (bus.execute (some (setTransport bus.project transport))).2 =
      { bus with
        project := alongTransports bus.project [transport]
        undoStack := .transport first :: bus.undoStack
        redoStack := [], coalescable := true } := by
    cases hundo : bus.undoStack with
    | nil =>
      rw [execute_setTransport]
      simp only [record, hopened, hundo, hfirst]
    | cons entry entries =>
      have hstep := execute_setTransport bus transport
      simp only [record, hopened, hundo] at hstep
      split at hstep
      next merged hmerged =>
        -- absorbed by the entry on top: the history has not grown
        have hcoalescable : bus.coalescable = true := by
          by_contra hsealed
          rw [if_neg hsealed] at hmerged
          cases hmerged
        rw [if_pos hcoalescable] at hmerged
        cases entry with
        | transport entry =>
          rw [gesture, List.foldl_cons, execute_absorbed hopened hcoalescable hundo] at hlast
          obtain ⟨after, hafter, -⟩ := @gesture_of_absorbing
            { bus with
              project := alongTransports bus.project [transport]
              undoStack := .transport { entry with after := transport } :: entries
              redoStack := [] } hopened hcoalescable _ _ rfl transports
          rw [gesture] at hafter
          rw [hafter, hundo] at hlast
          exact absurd (congrArg List.length hlast) (by simp)
        | _ => cases hmerged
      next =>
        rw [hstep, hopened]
  rw [gesture, List.foldl_cons, hpushed]
  exact @gesture_of_absorbing
    { bus with
      project := alongTransports bus.project [transport]
      undoStack := .transport first :: bus.undoStack
      redoStack := [], coalescable := true } hopened rfl first bus.undoStack rfl transports

/-- The lengths a first command that changes the tempo recorded put every audio clip back. -/
theorem length_relength_recordedLengths {project : Tables} {id : ClipId} {clip : Clip}
    (hget : project.clips.get? id = some clip) (haudio : clip.audio.isSome = true)
    (tempo : Double) (transports : List TransportState) :
    (Tables.relength (TransportCommand.recordedLengths project) id
      (TransportCommand.rescaledAlong tempo transports clip)).length = clip.length := by
  by_cases hpos : 0 < clip.length
  · have hmem := (TransportCommand.mem_keys_recordedLengths hget).2 ⟨haudio, hpos⟩
    have hrecorded : ∀ length, (id, length) ∈ TransportCommand.recordedLengths project →
        length = clip.length := by
      intro length hlength
      obtain ⟨other, hother, -, -, rfl⟩ := TransportCommand.mem_recordedLengths.1 hlength
      rw [hget, Option.some_inj] at hother
      rw [hother]
    rw [Tables.relength_of_forall hmem hrecorded, Clip.length_withLength]
  · rw [TransportCommand.rescaledAlong_of_not_pos hpos, Tables.relength_of_notMem]
    exact fun hmem => hpos ((TransportCommand.mem_keys_recordedLengths hget).1 hmem).2

/-- **Undo of a tempo gesture is exact just when its first command changes the tempo, or the
gesture leads every audio clip back to its length.** -/
theorem gestureUndoExact_iff {bus : CommandBus} {transport : TransportState}
    {transports : List TransportState} (hfolds : bus.FoldsIntoOne (transport :: transports)) :
    bus.GestureUndoExact (transport :: transports) ↔
      tempoChanges bus.project.transport.tempo transport.tempo = true ∨
        ∀ id clip, bus.project.clips.get? id = some clip → clip.audio.isSome = true →
          (TransportCommand.rescaledAlong bus.project.transport.tempo (transport :: transports)
            clip).length = clip.length := by
  obtain ⟨after, hundo, hproject⟩ := gesture_of_foldsIntoOne hfolds
  obtain ⟨last, hlast⟩ := alongTransports_eq bus.project transport transports
  rw [hlast] at hproject
  unfold GestureUndoExact
  simp only [undo, hundo, Command.revert, TransportCommand.revert_eq, Outcome.map_mk, if_true,
    true_and, hproject, Tables.transport_mapClips, Tables.transport_setTransport,
    Tables.clips_mapClips, Tables.clips_setTransport, OrderedMap.get?_mapValues]
  by_cases htempo : tempoChanges bus.project.transport.tempo transport.tempo = true
  · refine iff_of_true (fun id clip hget haudio => ?_) (.inl htempo)
    simp only [hget, Option.map_some, htempo, if_true]
    rw [length_relength_recordedLengths hget haudio]
  · rw [or_iff_right htempo]
    refine forall_congr' fun id => forall_congr' fun clip => forall_congr' fun hget =>
      imp_congr_right fun _ => ?_
    simp [hget, htempo, Tables.relength]

/-- Dragging the tempo of a project from 100 to 200. -/
theorem gestureUndoExact_tickProject :
    (start tickProject).GestureUndoExact
      [{ tickProject.transport with tempo := .finite 200 },
        { tickProject.transport with tempo := .finite 200, metronomeEnabled := true }] :=
  (gestureUndoExact_iff ⟨_, rfl⟩).2 (.inl (by decide +kernel))

/-- The same two edits in the other order: the metronome starts the entry, and the tick that became
two stays two. -/
theorem not_gestureUndoExact_tickProject : tickProject.checkReferentialIntegrity = [] ∧
    ∃ transports : List TransportState, transports ≠ [] ∧
      (start tickProject).FoldsIntoOne transports ∧
      ¬(start tickProject).GestureUndoExact transports := by
  refine ⟨by decide +kernel,
    [{ tickProject.transport with metronomeEnabled := true },
      { tickProject.transport with tempo := .finite 200, metronomeEnabled := true }],
    List.cons_ne_nil _ _, ⟨_, rfl⟩, fun h => ?_⟩
  have hlengths := h.2.2 ⟨3⟩ _ rfl (by decide +kernel)
  exact absurd hlengths (by decide +kernel)

end CommandBus

end OneBeat
