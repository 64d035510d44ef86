import OneBeat.Commands.Factories
import OneBeat.Commands.SourceWindow

/-!
# Cutting a clip

What `splitClip` of `model/commands.cpp` stores, and the windows of the two halves of an audio clip.

The left half is shortened first and asked for its stretch ratio after, so its whole window is what
it consumes, however short it has become.  A window that ends before the cut leaves the right half
one of length zero, which stands for the rest of the file.

* `apply_splitClip` : the two halves are stored, and nothing else changes.
* `conservesWindow_iff` : the halves share the window of the clip exactly when the clip is not
  stretched and the cut is inside the window.
-/

namespace OneBeat

/-! ### The two halves -/

/-- What keeps the id. -/
def Clip.leftHalf (clip : Clip) (cut : ℤ) : Clip := shortenTo (cut - clip.start) clip

/-- What is added. -/
def Clip.rightHalf (clip : Clip) (cut : ℤ) : Clip :=
  { clip with
    start := cut
    length := clip.start + clip.length - cut
    source := splitSource clip (cut - clip.start) }

/-- The project after the cut. -/
def Tables.withCut (project : Tables) (rightId id : ClipId) (clip : Clip) (cut : ℤ) : Tables :=
  { project with
    clips := (project.clips.assign id (clip.leftHalf cut)).assign rightId (clip.rightHalf cut) }

theorem OrderedMap.modify_const {α β : Type} [LinearOrder α] {m : OrderedMap α β} {k : α} {v : β}
    (h : m.get? k = some v) (v' : β) : (m.modify k fun _ => v') = m.assign k v' := by
  refine OrderedMap.ext_get? fun k' => ?_
  rw [OrderedMap.get?_modify, OrderedMap.get?_assign]
  split_ifs with hk
  · rw [hk, h]
    rfl
  · rfl

/-- **A cut strictly inside stores the two halves, and nothing else changes.** -/
theorem apply_splitClip {project : Tables} {rightId id : ClipId} {clip : Clip} {cut : ℤ}
    (hclip : project.clips.get? id = some clip) (hlow : clip.start < cut)
    (hhigh : cut < clip.start + clip.length) (hvalid : rightId.valid = true)
    (hfresh : project.clips.get? rightId = none) :
    ∃ command, splitClip project rightId id cut = some command ∧
      (command.apply project).ok = true ∧
      (command.apply project).state = project.withCut rightId id clip cut := by
  have hne : rightId ≠ id := by
    rintro rfl
    rw [hclip] at hfresh
    cases hfresh
  have hcontains : project.clips.contains id = true :=
    OrderedMap.contains_eq_true_iff.2 ⟨clip, hclip⟩
  have hright : (project.clips.assign id (clip.leftHalf cut)).contains rightId = false := by
    rw [OrderedMap.contains_eq_false_iff, OrderedMap.get?_assign, if_neg hne]
    exact hfresh
  have hsplit : splitClip project rightId id cut = some (.composite
      [.edit ⟨.clip id, .length, clip, clip.leftHalf cut⟩,
        .add (.clip rightId (clip.rightHalf cut))]) := by
    simp only [splitClip, hclip, editClip, Option.map_some,
      if_neg (not_or.2 ⟨not_le.2 hlow, not_le.2 hhigh⟩)]
    rfl
  have hedit : EditTarget.write project (.clip id) (clip.leftHalf cut) =
      some { project with clips := project.clips.assign id (clip.leftHalf cut) } := by
    simp only [EditTarget.write, Tables.updateClip, hcontains, if_true,
      OrderedMap.modify_const hclip]
  have hadd : ({ project with clips := project.clips.assign id (clip.leftHalf cut) } :
      Tables).restoreClip rightId (clip.rightHalf cut) =
        some (project.withCut rightId id clip cut) := by
    simp only [Tables.restoreClip, hvalid, hright]
    rfl
  refine ⟨_, hsplit, ?_, ?_⟩ <;>
    simp only [Command.apply, Command.applyAll, EditCommand.apply, AddedEntity.apply,
      AddedEntity.restore, hedit, hadd, Outcome.ofOption, Outcome.map, if_true]

namespace Tables

variable {project : Tables} {rightId id : ClipId} {clip : Clip} {cut : ℤ}

theorem get?_withCut (k : ClipId) :
    (project.withCut rightId id clip cut).clips.get? k =
      if k = rightId then some (clip.rightHalf cut)
      else if k = id then some (clip.leftHalf cut) else project.clips.get? k := by
  simp only [withCut, OrderedMap.get?_assign]
  split_ifs <;> rfl

end Tables

/-! ### The window of an audio clip -/

namespace SourceWindow

/-- The part of the source the first `leftLength` ticks of the clip play, in whole ticks. -/
def consumed (source : AudioSource) (leftLength clipLength : ℤ) : ℤ :=
  (Double.finite (leftLength * audioStretchRatio source clipLength)).truncate

/-- The source of the right half. -/
def rightSource (source : AudioSource) (leftLength clipLength : ℤ) : AudioSource :=
  { source with
    sourceOffset := source.sourceOffset + consumed source leftLength clipLength
    sourceLength :=
      if 0 < source.sourceLength then
        if consumed source leftLength clipLength < source.sourceLength then
          source.sourceLength - consumed source leftLength clipLength
        else 0
      else source.sourceLength }

/-- The source of the left half: the clip is `leftLength` long by now. -/
def leftSource (source : AudioSource) (leftLength : ℤ) : AudioSource :=
  { source with
    sourceLength :=
      if 0 < consumed source leftLength leftLength then consumed source leftLength leftLength
      else source.sourceLength }

/-- The end of the window of a clip, in a file of some length (`0` for an unknown one). -/
def windowEnd (source : AudioSource) (clipLength fileLength : ℤ) : ℤ :=
  source.sourceOffset + audioSourceSpan source clipLength fileLength

/-- The same stretch ratio, up to a tick over the length of the clip. -/
def SameRatio (clipLength : ℤ) (before after : ℚ) : Prop := |after - before| * clipLength ≤ 1

/-- The two halves share the window of the clip between them, and play it as fast as before. -/
structure ConservesWindow (fileLength : ℤ) (source : AudioSource)
    (leftLength clipLength : ℤ) : Prop where
  start : (leftSource source leftLength).sourceOffset = source.sourceOffset
  joined : windowEnd (leftSource source leftLength) leftLength fileLength =
    (rightSource source leftLength clipLength).sourceOffset
  covered : windowEnd (rightSource source leftLength clipLength) (clipLength - leftLength)
    fileLength = windowEnd source clipLength fileLength
  leftRatio : SameRatio leftLength (audioStretchRatio source clipLength)
    (audioStretchRatio (leftSource source leftLength) leftLength)
  rightRatio : SameRatio (clipLength - leftLength) (audioStretchRatio source clipLength)
    (audioStretchRatio (rightSource source leftLength clipLength) (clipLength - leftLength))

variable {source : AudioSource} {leftLength clipLength : ℤ}

theorem audioStretchRatio_of_off (h : source.stretchMode = .off) (clipLength : ℤ) :
    audioStretchRatio source clipLength = 1 := by
  rw [audioStretchRatio, if_pos h]

theorem audioStretchRatio_of_window (h : source.stretchMode ≠ .off)
    (hwindow : 0 < source.sourceLength) (hlength : 0 < clipLength) :
    audioStretchRatio source clipLength = source.sourceLength / clipLength := by
  have hspan : audioSourceSpan source clipLength = source.sourceLength := by
    rw [audioSourceSpan, if_pos hwindow]
  rw [audioStretchRatio, hspan, if_neg h,
    if_neg (not_or.2 ⟨not_le.2 hwindow, not_le.2 hlength⟩)]

theorem truncate_of_nonneg {q : ℚ} (h : 0 ≤ q) : (Double.finite q).truncate = ⌊q⌋ := if_pos h

/-- A clip that is not stretched consumes what it plays. -/
theorem consumed_of_off (h : source.stretchMode = .off) (hleft : 0 ≤ leftLength) :
    consumed source leftLength clipLength = leftLength := by
  rw [consumed, audioStretchRatio_of_off h, mul_one,
    truncate_of_nonneg (by exact_mod_cast hleft), Int.floor_intCast]

/-- **The shortened clip consumes its whole window**: its ratio is that of the window to the new
length. -/
theorem consumed_left (h : source.stretchMode ≠ .off) (hwindow : 0 < source.sourceLength)
    (hleft : 0 < leftLength) :
    consumed source leftLength leftLength = source.sourceLength := by
  have hne : (leftLength : ℚ) ≠ 0 := by exact_mod_cast hleft.ne'
  rw [consumed, audioStretchRatio_of_window h hwindow hleft, mul_div_cancel₀ _ hne,
    truncate_of_nonneg (by exact_mod_cast hwindow.le), Int.floor_intCast]

/-- The clip as it was consumes less than its window before the cut. -/
theorem consumed_right_lt (h : source.stretchMode ≠ .off) (hwindow : 0 < source.sourceLength)
    (hleft : 0 < leftLength) (hinside : leftLength < clipLength) :
    consumed source leftLength clipLength < source.sourceLength := by
  have hclip : (0 : ℚ) < clipLength := by exact_mod_cast hleft.trans hinside
  have hwindow' : (0 : ℚ) < source.sourceLength := by exact_mod_cast hwindow
  have hleft' : (0 : ℚ) < leftLength := by exact_mod_cast hleft
  have hinside' : (leftLength : ℚ) < clipLength := by exact_mod_cast hinside
  rw [consumed, audioStretchRatio_of_window h hwindow (hleft.trans hinside),
    truncate_of_nonneg (by positivity), Int.floor_lt, mul_div_assoc', div_lt_iff₀ hclip, mul_comm]
  exact mul_lt_mul_of_pos_left hinside' hwindow'

/-- What is not stretched keeps its ratio. -/
theorem sameRatio_of_off (after : AudioSource) (h : source.stretchMode = .off)
    (hafter : after.stretchMode = .off) (clipLength length : ℤ) :
    SameRatio length (audioStretchRatio source clipLength) (audioStretchRatio after length) := by
  rw [SameRatio, audioStretchRatio_of_off h, audioStretchRatio_of_off hafter, sub_self, abs_zero,
    zero_mul]
  exact zero_le_one

/-- **The halves share the window exactly when the clip is not stretched and the cut is inside the
window.** -/
theorem conservesWindow_iff (fileLength : ℤ) (source : AudioSource) (leftLength clipLength : ℤ)
    (hwindow : 0 < source.sourceLength) (hleft : 0 < leftLength)
    (hinside : leftLength < clipLength) :
    ConservesWindow fileLength source leftLength clipLength ↔
      source.stretchMode = .off ∧ leftLength < source.sourceLength := by
  constructor
  · intro h
    have hoff : source.stretchMode = .off := by
      by_contra hstretched
      have hspan : audioSourceSpan (leftSource source leftLength) leftLength fileLength =
          source.sourceLength := by
        have hlength : (leftSource source leftLength).sourceLength = source.sourceLength := by
          simp only [leftSource, consumed_left hstretched hwindow hleft, if_pos hwindow]
        rw [audioSourceSpan, hlength, if_pos hwindow]
      have hjoined : source.sourceOffset + source.sourceLength =
          source.sourceOffset + consumed source leftLength clipLength :=
        hspan ▸ h.joined
      have hlt := consumed_right_lt hstretched hwindow hleft hinside
      omega
    refine ⟨hoff, ?_⟩
    by_contra hpast
    -- the right half is left with the rest of the file, which begins where the window is over
    have hright : consumed source leftLength clipLength = leftLength :=
      consumed_of_off hoff hleft.le
    have hcovered := h.covered
    simp only [windowEnd, audioSourceSpan, rightSource, hright, if_pos hwindow, if_neg hpast,
      lt_irrefl, if_false] at hcovered
    split_ifs at hcovered <;> omega
  · rintro ⟨hoff, hlt⟩
    have hconsumed : ∀ length, consumed source leftLength length = leftLength :=
      fun _ => consumed_of_off hoff hleft.le
    have hrest : 0 < source.sourceLength - leftLength := by omega
    refine ⟨rfl, ?_, ?_, sameRatio_of_off (leftSource source leftLength) hoff hoff _ _,
      sameRatio_of_off (rightSource source leftLength clipLength) hoff hoff _ _⟩
    · simp only [windowEnd, audioSourceSpan, leftSource, rightSource, hconsumed, if_pos hleft]
    · simp only [windowEnd, audioSourceSpan, rightSource, hconsumed, if_pos hwindow, if_pos hlt,
        if_pos hrest]
      omega

/-- A beat of a file. -/
def fullSpeed : AudioSource := { destination := ⟨1⟩, sourceLength := 960 }

/-- A cut in the middle of a clip that is not stretched. -/
theorem conservesWindow_fullSpeed : ConservesWindow 0 fullSpeed 480 960 :=
  (conservesWindow_iff 0 fullSpeed 480 960 (by decide +kernel) (by decide) (by decide)).2
    ⟨rfl, by decide +kernel⟩

/-- A beat of a file, stretched to two. -/
def halfSpeed : AudioSource :=
  { destination := ⟨1⟩, sourceLength := 960, stretchMode := .stretch }

/-- **The left half of a stretched clip plays the whole window, twice as fast**: it keeps the beat
it had, and the right half plays its second half again. -/
theorem not_conservesWindow_halfSpeed :
    (({ lane := ⟨1⟩, length := 1920, source := .audio halfSpeed } : Clip).leftHalf 960).audio =
        some halfSpeed ∧
      (({ lane := ⟨1⟩, length := 1920, source := .audio halfSpeed } : Clip).rightHalf 960).audio =
        some { halfSpeed with sourceOffset := 480, sourceLength := 480 } ∧
      leftSource halfSpeed 960 = halfSpeed ∧
      ¬ConservesWindow 0 halfSpeed 960 1920 := by
  refine ⟨by decide +kernel, by decide +kernel, by decide +kernel, fun h => ?_⟩
  have hjoined := h.joined
  revert hjoined
  decide +kernel

end SourceWindow

end OneBeat
