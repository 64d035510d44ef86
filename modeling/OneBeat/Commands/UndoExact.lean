import OneBeat.Commands.Factories
import OneBeat.Model.Invariants

/-!
# Undo of structural commands

In a consistent project every reference resolves, so nothing can refer to an id that is still
free (`AddedEntity.fresh_of_consistent`), and every structural command can be taken back and made
again.

**Main theorem** (`Command.undoExact_of_structural`): on a consistent project that stores nothing
under the default id, a structural command that applies is undone exactly, and redone exactly.
The default id has to be excluded (`Command.not_undoExact_default`): a deletion does not look at
the id, and a restoration refuses it.
-/

namespace OneBeat

namespace Tables.Consistent

variable {project : Tables}

theorem healthy (h : project.Consistent) (hids : project.ValidIds) : project.Healthy :=
  ⟨hids, fun id pattern hpattern i sequence hs => h.sparse id pattern hpattern i sequence hs⟩

end Tables.Consistent

namespace AddedEntity

variable {project : Tables}

/-- An id that is free is one nothing refers to. -/
theorem fresh_of_consistent (h : project.Consistent) {entity : AddedEntity}
    (hrestore : (entity.restore project).isSome) : entity.Fresh project := by
  obtain ⟨project', hrestore⟩ := Option.isSome_iff_exists.1 hrestore
  cases entity with
  | instrument id entity =>
    obtain ⟨⟨-, hfree⟩, -⟩ := restore_eq_some_iff.1 hrestore
    rw [OrderedMap.contains_eq_false_iff] at hfree
    refine ⟨fun k pattern hpattern => ?_, fun k clip hclip => ?_⟩
    · -- a sequence is for an instrument that is there
      by_contra hs
      obtain ⟨sequence, hs⟩ := Option.ne_none_iff_exists'.1 hs
      obtain ⟨instrument, hi⟩ := h.sequenceInstruments k pattern hpattern id sequence hs
      rw [hfree] at hi
      cases hi
    · -- and so is what a clip automates
      have hsource := h.clipSources k clip hclip
      by_contra hauto
      unfold Tables.automatesInstrument Clip.automation at hauto
      unfold Tables.SourceConsistent at hsource
      cases hs : clip.source with
      | pattern | audio => simp [hs] at hauto
      | automation source =>
        simp only [hs, Bool.not_eq_false, Bool.and_eq_true, decide_eq_true_eq] at hauto hsource
        obtain ⟨hkind, rfl⟩ := hauto
        simp [Tables.targetResolves, hkind, hfree] at hsource
  | pattern id entity =>
    obtain ⟨⟨-, hfree⟩, -⟩ := restore_eq_some_iff.1 hrestore
    rw [OrderedMap.contains_eq_false_iff] at hfree
    intro k clip hclip hpattern
    have hsource := h.clipSources k clip hclip
    unfold Clip.pattern at hpattern
    unfold Tables.SourceConsistent at hsource
    cases hs : clip.source with
    | audio | automation => simp [hs] at hpattern
    | pattern p =>
      simp only [hs, Option.some_inj] at hpattern hsource
      subst hpattern
      obtain ⟨pattern, hp⟩ := hsource
      rw [hfree] at hp
      cases hp
  | lane id entity =>
    obtain ⟨⟨-, hfree⟩, -⟩ := restore_eq_some_iff.1 hrestore
    rw [OrderedMap.contains_eq_false_iff] at hfree
    refine ⟨fun k clip hclip hlane => ?_, fun k other hother hgroup => ?_⟩
    · obtain ⟨lane, hl⟩ := h.clipLanes k clip hclip
      rw [hlane, hfree] at hl
      cases hl
    · obtain ⟨-, lane, hl⟩ := h.laneGroups k other hother id hgroup
      rw [hfree] at hl
      cases hl
  | clip id entity => exact trivial
  | mixerTrack id entity =>
    obtain ⟨⟨-, hfree⟩, -⟩ := restore_eq_some_iff.1 hrestore
    rw [OrderedMap.contains_eq_false_iff] at hfree
    have hgone : ∀ track, project.mixerTracks.get? id ≠ some track := fun track htrack => by
      rw [hfree] at htrack
      cases htrack
    refine ⟨?_, ?_, ?_, fun k clip hclip => ?_⟩
    · rintro rfl
      obtain ⟨track, htrack⟩ := h.master
      exact hgone track htrack
    · rintro k instrument hinstrument route hroute rfl
      obtain ⟨track, htrack⟩ := h.routes k instrument hinstrument route hroute
      exact hgone track htrack
    · intro k track htrack houtput
      obtain ⟨-, other, hother⟩ := h.outputs k track htrack id houtput
      exact hgone other hother
    · have hsource := h.clipSources k clip hclip
      unfold Tables.SourceConsistent at hsource
      unfold Tables.playsInto Tables.automatesTrack Clip.audio Clip.automation
      cases hs : clip.source with
      | pattern => simp
      | audio source =>
        simp only [hs] at hsource
        obtain ⟨⟨track, htrack⟩, -⟩ := hsource
        simp only [decide_eq_false_iff_not, and_true]
        rintro rfl
        exact hgone track htrack
      | automation source =>
        simp only [hs] at hsource
        simp only [true_and, Bool.and_eq_false_iff, decide_eq_false_iff_not]
        by_contra hauto
        push Not at hauto
        obtain ⟨hkind, rfl⟩ := hauto
        unfold Tables.targetResolves at hsource
        cases hk : source.targetKind with
        | instrument => simp [hk] at hkind
        | mixerTrack | effect => simp [hk, hfree] at hsource

end AddedEntity

namespace Command

variable {project : Tables} {command : Command}

/-- A revert right after an apply succeeds and gives back every table, the transport and the
metadata, and a second apply gives what the first one gave. -/
def UndoExact (command : Command) (project : Tables) : Prop :=
  let applied := apply command project
  let reverted := revert applied.command applied.state
  let redone := apply reverted.command reverted.state
  reverted.ok = true ∧ reverted.state = project ∧ redone.ok = true ∧ redone.state = applied.state

theorem Exact.undoExact (h : Exact command project) (hok : (apply command project).ok = true) :
    command.UndoExact project := by
  obtain ⟨e₁, hrevert, e₂, e₃, hredo, -, -⟩ := h.done hok
  unfold UndoExact
  simp only [hrevert, hredo, and_self]

/-- **Structural undo is exact.** -/
theorem undoExact_of_structural (hconsistent : project.checkReferentialIntegrity = [])
    (hids : project.ValidIds) (hbuilt : Structural project command)
    (hok : (apply command project).ok = true) : command.UndoExact project := by
  have hconsistent := Tables.checkReferentialIntegrity_eq_nil_iff.1 hconsistent
  have hready : Ready command project := ready_of_structural hbuilt fun entity _ hrestore =>
    AddedEntity.fresh_of_consistent hconsistent hrestore
  exact (exact_of_ready command project (hconsistent.healthy hids) hready).undoExact hok

/-- One lane, and a clip on it that loops an empty pattern. -/
def laneProject (clip : ClipId) : Tables :=
  { newProject ⟨1⟩ with
    patterns := OrderedMap.empty.assign ⟨2⟩ {}
    lanes := OrderedMap.empty.assign ⟨3⟩ {}
    clips := OrderedMap.empty.assign clip { lane := ⟨3⟩, length := 960, source := .pattern ⟨2⟩ } }

theorem undoExact_removeLane : (OneBeat.removeLane ⟨3⟩).UndoExact (laneProject ⟨4⟩) :=
  undoExact_of_structural (by decide +kernel) (.of_keys (by decide +kernel)) (.removeLane _)
    (by decide +kernel)

/-- A clip under the default id is deleted but not restored. -/
theorem not_undoExact_default : (laneProject .none).checkReferentialIntegrity = [] ∧
    Structural (laneProject .none) (OneBeat.removeClip .none) ∧
    (apply (OneBeat.removeClip .none) (laneProject .none)).ok = true ∧
    ¬(OneBeat.removeClip .none).UndoExact (laneProject .none) :=
  ⟨by decide +kernel, .removeClip _, by decide +kernel, fun h => absurd h.1 (by decide +kernel)⟩

end Command

end OneBeat
