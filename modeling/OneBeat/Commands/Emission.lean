import OneBeat.Commands.Bus

/-!
# Change notifications

Every mutation of a `Project` that succeeds notifies those who listen (`Project::emit`).  Whether a
step of a command notifies anyone is all that the listeners here look at.

* `Command.state_apply_of_silent`, `Command.state_revert_of_silent` : a step that notifies nobody
  changes nothing.
-/

namespace OneBeat

namespace Command

mutual

/-- Taking a command back notifies the listeners. -/
def emitsRevert : Command → Tables → Bool
  | composite commands, project => emitsRevertAll commands project
  | command, project => (revert command project).ok

/-- Those that were reverted before one failed notify, too. -/
def emitsRevertAll : List Command → Tables → Bool
  | [], _ => false
  | command :: commands, project =>
    let later := revertAll commands project
    emitsRevertAll commands project || (later.ok && emitsRevert command later.state)

end

mutual

/-- Applying a command notifies the listeners. -/
def emitsApply : Command → Tables → Bool
  | composite commands, project => emitsApplyAll commands project
  | command, project => (apply command project).ok

/-- So does rolling back what was applied before one failed. -/
def emitsApplyAll : List Command → Tables → Bool
  | [], _ => false
  | command :: commands, project =>
    let this := apply command project
    let later := applyAll commands this.state
    emitsApply command project ||
      (this.ok && (emitsApplyAll commands this.state ||
        (!later.ok && emitsRevert this.command later.state)))

end

variable {project : Tables}

theorem state_ofOption_of_not_ok {E E' : Type} {f : E → E'} {command : E} {o : Option Tables}
    (h : ((Outcome.ofOption command project o).map f).ok = false) :
    ((Outcome.ofOption command project o).map f).state = project := by
  cases o with
  | none => rfl
  | some project' => cases h

/-! ### A command by itself -/

/-- Several commands that are one. -/
def isComposite : Command → Bool
  | composite _ => true
  | _ => false

/-- A command by itself that cannot be taken back changes nothing. -/
theorem state_revert_of_not_ok {command : Command} (hsingle : command.isComposite = false)
    (h : (revert command project).ok = false) : (revert command project).state = project := by
  cases command with
  | composite commands => cases hsingle
  | transport command | metadata command =>
    rw [revert] at h
    cases h
  | note | removeInstrument | removePattern | removeLane | removeMixerTrack =>
    simp only [revert, NoteCommand.revert, RemoveInstrument.revert, RemovePattern.revert,
      RemoveLane.revert, RemoveMixerTrack.revert] at h ⊢
    split at h
    · rfl
    · cases h
  | add | removeClip | edit | effectParam =>
    simp only [revert, AddedEntity.revert, RemoveClip.revert, EditCommand.revert,
      EffectParamCommand.revert] at h ⊢
    exact state_ofOption_of_not_ok h

/-- A command by itself that does not apply changes nothing. -/
theorem state_apply_of_not_ok {command : Command} (hsingle : command.isComposite = false)
    (h : (apply command project).ok = false) : (apply command project).state = project := by
  cases command with
  | composite commands => cases hsingle
  | transport command | metadata command =>
    rw [apply] at h
    cases h
  | note command =>
    rw [apply, NoteCommand.apply] at h ⊢
    split at h
    · rfl
    · dsimp only at h ⊢
      split at h
      · rfl
      · cases h
  | removeInstrument | removePattern | removeLane | removeClip | removeMixerTrack =>
    simp only [apply, RemoveInstrument.apply, RemovePattern.apply, RemoveLane.apply,
      RemoveClip.apply, RemoveMixerTrack.apply] at h ⊢
    split at h
    · rfl
    · exact state_ofOption_of_not_ok h
  | add | edit | effectParam =>
    simp only [apply, AddedEntity.apply, EditCommand.apply, EffectParamCommand.apply] at h ⊢
    exact state_ofOption_of_not_ok h

theorem emitsRevert_of_single {command : Command} (hsingle : command.isComposite = false)
    (h : emitsRevert command project = false) : (revert command project).ok = false := by
  cases command with
  | composite commands => cases hsingle
  | _ => simpa only [emitsRevert] using h

theorem emitsApply_of_single {command : Command} (hsingle : command.isComposite = false)
    (h : emitsApply command project = false) : (apply command project).ok = false := by
  cases command with
  | composite commands => cases hsingle
  | _ => simpa only [emitsApply] using h

/-! ### Silent steps -/

mutual

/-- **A command that is taken back in silence changes nothing.** -/
theorem state_revert_of_silent (command : Command) (project : Tables)
    (h : emitsRevert command project = false) : (revert command project).state = project := by
  cases command with
  | composite commands =>
    rw [emitsRevert] at h
    rw [revert]
    exact state_revertAll_of_silent commands project h
  | _ => exact state_revert_of_not_ok rfl (emitsRevert_of_single rfl h)

theorem state_revertAll_of_silent : ∀ (commands : List Command) (project : Tables),
    emitsRevertAll commands project = false → (revertAll commands project).state = project
  | [], project, _ => by rw [revertAll]
  | command :: commands, project, h => by
    simp only [emitsRevertAll, Bool.or_eq_false_iff, Bool.and_eq_false_iff] at h
    have hlater := state_revertAll_of_silent commands project h.1
    simp only [revertAll]
    split_ifs with hok
    · rw [hlater] at h ⊢
      exact state_revert_of_silent command project (h.2.resolve_left (by simp [hok]))
    · exact hlater

end

mutual

/-- **A command that is applied in silence changes nothing.** -/
theorem state_apply_of_silent (command : Command) (project : Tables)
    (h : emitsApply command project = false) : (apply command project).state = project := by
  cases command with
  | composite commands =>
    rw [emitsApply] at h
    rw [apply]
    exact state_applyAll_of_silent commands project h
  | _ => exact state_apply_of_not_ok rfl (emitsApply_of_single rfl h)

theorem state_applyAll_of_silent : ∀ (commands : List Command) (project : Tables),
    emitsApplyAll commands project = false → (applyAll commands project).state = project
  | [], project, _ => by rw [applyAll]
  | command :: commands, project, h => by
    simp only [emitsApplyAll, Bool.or_eq_false_iff, Bool.and_eq_false_iff] at h
    have hthis := state_apply_of_silent command project h.1
    simp only [applyAll]
    split_ifs with hok hlater
    · rw [hthis] at h ⊢
      exact state_applyAll_of_silent commands project (h.2.resolve_left (by simp [hok])).1
    · rw [hthis] at h hlater ⊢
      obtain ⟨hsilent, hback⟩ := h.2.resolve_left (by simp [hok])
      have hstate := state_applyAll_of_silent commands project hsilent
      rw [hstate] at hback ⊢
      exact state_revert_of_silent _ project (hback.resolve_left (by simpa using hlater))
    · exact hthis

end

end Command

end OneBeat
