import OneBeat.Commands.NoteGestures
import OneBeat.Commands.StructuralUndo
import OneBeat.Commands.Transport

/-!
# Commands

`Command` of `model/command.h`: every command of the model, and `CompositeCommand`, several that
undo as one.  A step gives back the command too, because commands capture their inverse when they
are applied.

Names for the undo menu and change events are not modelled: no step reads them.
-/

namespace OneBeat

/-- A command, as the history stores it. -/
inductive Command
  | add (command : AddedEntity)
  | removeInstrument (command : RemoveInstrument)
  | removePattern (command : RemovePattern)
  | removeLane (command : RemoveLane)
  | removeClip (command : RemoveClip)
  | removeMixerTrack (command : RemoveMixerTrack)
  | edit (command : EditCommand)
  | effectParam (command : EffectParamCommand)
  | note (command : NoteCommand)
  | transport (command : TransportCommand)
  | metadata (command : MetaCommand)
  | composite (commands : List Command)

namespace Command

mutual

/-- Take the effect of a command back. -/
def revert : Command → Tables → Outcome Tables Command
  | add command, project => (command.revert project).map add
  | removeInstrument command, project => (command.revert project).map removeInstrument
  | removePattern command, project => (command.revert project).map removePattern
  | removeLane command, project => (command.revert project).map removeLane
  | removeClip command, project => (command.revert project).map removeClip
  | removeMixerTrack command, project => (command.revert project).map removeMixerTrack
  | edit command, project => (command.revert project).map edit
  | effectParam command, project => (command.revert project).map effectParam
  | note command, project => (command.revert project).map note
  | transport command, project => (command.revert project).map transport
  | metadata command, project => (command.revert project).map metadata
  | composite commands, project => (revertAll commands project).map composite

/-- Revert from the last command to the first, until one fails. -/
def revertAll : List Command → Tables → Outcome Tables (List Command)
  | [], project => ⟨true, [], project⟩
  | command :: commands, project =>
    let later := revertAll commands project
    if later.ok then
      let this := revert command later.state
      ⟨this.ok, this.command :: later.command, this.state⟩
    else ⟨false, command :: later.command, later.state⟩

end

mutual

/-- Make a command take effect. -/
def apply : Command → Tables → Outcome Tables Command
  | add command, project => (command.apply project).map add
  | removeInstrument command, project => (command.apply project).map removeInstrument
  | removePattern command, project => (command.apply project).map removePattern
  | removeLane command, project => (command.apply project).map removeLane
  | removeClip command, project => (command.apply project).map removeClip
  | removeMixerTrack command, project => (command.apply project).map removeMixerTrack
  | edit command, project => (command.apply project).map edit
  | effectParam command, project => (command.apply project).map effectParam
  | note command, project => (command.apply project).map note
  | transport command, project => (command.apply project).map transport
  | metadata command, project => (command.apply project).map metadata
  | composite commands, project => (applyAll commands project).map composite

/-- Apply one after the other; when one fails, roll back those that did apply, whatever their
reverts say. -/
def applyAll : List Command → Tables → Outcome Tables (List Command)
  | [], project => ⟨true, [], project⟩
  | command :: commands, project =>
    let this := apply command project
    if this.ok then
      let later := applyAll commands this.state
      if later.ok then ⟨true, this.command :: later.command, later.state⟩
      else
        let rolledBack := revert this.command later.state
        ⟨false, rolledBack.command :: later.command, rolledBack.state⟩
    else ⟨false, this.command :: commands, this.state⟩

end

/-- Absorb the next command, if the two belong to one gesture. -/
def coalesceWith : Command → Command → Option Command
  | edit command, edit next => (command.coalesceWith next).map edit
  | effectParam command, effectParam next => (command.coalesceWith next).map effectParam
  | note command, note next => (command.coalesceWith next).map note
  | transport command, transport next => some (transport (command.coalesceWith next))
  | _, _ => none

/-- The command has taken effect between the two projects. -/
abbrev Done (command : Command) (project project' : Tables) : Prop :=
  History.Done apply revert command project project'

end Command

end OneBeat
