import Mathlib.Tactic.FieldSimp
import Mathlib.Tactic.LinearCombination
import OneBeat.Commands.Factories
import OneBeat.Commands.NoteEdit
import OneBeat.Commands.SourceWindow

/-!
# The left edge of a clip

`PlaylistStore.updateClipResizeStart`, over the clip edits of the engine.  Every update works from
the clip as it was when the drag began.  Ratios and positions are exact here; what is rounded is
what the source rounds, to whole ticks.

* `drag_eq` : a drag leaves what its last update alone would leave.
* `keepsAudio_drag_iff` : when the audio that both clips cover stays where it is.
-/

namespace OneBeat

namespace Clip

/-! ### The engine's side -/

/-- `ob_engine_clip_move` within the lane. -/
def movedTo (clip : Clip) (start : ℤ) : Clip := { clip with start }

/-- `ob_engine_audio_clip_resize` -/
def resizedTo (clip : Clip) (length : ℤ) : Clip :=
  match clip.source with
  | .audio source =>
    if source.stretchMode ≠ .off ∨ source.sourceLength ≤ 0 then clip.withLength length
    else { clip with length, source := .audio { source with sourceLength := length } }
  | _ => clip.withLength length

/-- `ob_engine_audio_clip_set_window` -/
def windowedTo (clip : Clip) (sourceOffset sourceLength : ℤ) : Clip :=
  match clip.source with
  | .audio source => { clip with source := .audio { source with sourceOffset, sourceLength } }
  | _ => clip

theorem audio_eq_some_iff {clip : Clip} {source : AudioSource} :
    clip.audio = some source ↔ clip.source = .audio source := by
  rw [audio]
  cases clip.source <;> simp

/-- **The edits are those of the commands.** -/
theorem resizeAudioClip_eq {project : Tables} {id : ClipId} {clip : Clip}
    (h : project.clips.get? id = some clip) {length : ℤ} (hlength : 0 < length) :
    resizeAudioClip project id length =
      some (.edit { target := .clip id, field := .length, before := clip,
                    after := clip.resizedTo length }) := by
  rw [resizeAudioClip, if_neg hlength.not_ge, h]
  cases hsource : clip.source with
  | audio source => simp [audio, resizedTo, editClip, h, hsource]
  | _ => simp [audio, resizedTo, editClip, h, hsource]

theorem setAudioClipWindow_eq {project : Tables} {id : ClipId} {clip : Clip}
    {source : AudioSource} (h : project.clips.get? id = some clip)
    (haudio : clip.audio = some source) {sourceOffset sourceLength : ℤ}
    (hoffset : 0 ≤ sourceOffset) (hlength : 0 ≤ sourceLength) :
    setAudioClipWindow project id sourceOffset sourceLength =
      some (.edit { target := .clip id, field := .source, before := clip,
                    after := clip.windowedTo sourceOffset sourceLength }) := by
  have hsource := audio_eq_some_iff.1 haudio
  rw [setAudioClipWindow, if_neg (by omega), editAudio, h]
  simp [editClip, h, haudio, windowedTo, hsource]

end Clip

/-! ### The client's side -/

namespace PlaylistStore

/-- `1 << 62` -/
def windowLimit : ℤ := 2 ^ 62

/-- The new left edge. -/
def edge (origin : Clip) (startTicks : ℤ) : ℤ :=
  clampInt startTicks 0 (origin.start + origin.length - 1)

/-- Source ticks per tick of the timeline, as the client has it. -/
def clientRatio (sourceDuration : ℤ) (audio : AudioSource) (originLength : ℤ) : ℚ :=
  if audio.stretchMode = .off ∨ originLength ≤ 0 then 1
  else audioSourceSpan audio originLength sourceDuration / originLength

/-- The offset and the length of the window once `consumed` ticks of it are gone. -/
def trimmedWindow (sourceDuration : ℤ) (audio : AudioSource) (consumed : ℤ) : ℤ × ℤ :=
  if audio.reversed then
    if 0 < audio.sourceLength then
      (audio.sourceOffset, clampInt (audio.sourceLength - consumed) 0 windowLimit)
    else if 0 < consumed ∧ audio.sourceOffset < sourceDuration then
      (audio.sourceOffset,
        clampInt (sourceDuration - audio.sourceOffset - consumed) 0 windowLimit)
    else (audio.sourceOffset, audio.sourceLength)
  else
    (clampInt (audio.sourceOffset + consumed) 0 windowLimit,
      if 0 < audio.sourceLength then clampInt (audio.sourceLength - consumed) 0 windowLimit
      else audio.sourceLength)

/-- The left edge goes to a tick.  `origin` is the clip when the drag began, `sourceDuration` that
of its file or 0. -/
def updateClipResizeStart (sourceDuration : ℤ) (origin clip : Clip) (startTicks : ℤ) : Clip :=
  if origin.length ≤ 0 then clip
  else
    let start := edge origin startTicks
    let length := origin.start + origin.length - start
    match origin.audio with
    | none => (clip.movedTo start).withLength length
    | some audio =>
      let consumed := roundHalfAway
        ((start - origin.start : ℤ) * clientRatio sourceDuration audio origin.length)
      let window := trimmedWindow sourceDuration audio consumed
      ((clip.movedTo start).resizedTo length).windowedTo window.1 window.2

/-- The updates of a drag. -/
def dragLeftEdge (sourceDuration : ℤ) (origin : Clip) (ticks : List ℤ) : Clip :=
  ticks.foldl (updateClipResizeStart sourceDuration origin) origin

/-! ### Where the clip reads its file -/

/-- The ticks of the window that the file has.  Where its duration is not known, or the window begins
behind its end and nothing is heard, the window is taken at its word. -/
def playedLength (sourceDuration sourceOffset sourceLength : ℤ) : ℤ :=
  if sourceOffset < sourceDuration then
    if 0 < sourceLength ∧ sourceLength < sourceDuration - sourceOffset then sourceLength
    else sourceDuration - sourceOffset
  else sourceLength

/-- Where in its file the clip starts to read. -/
def firstRead (sourceDuration : ℤ) (audio : AudioSource) : ℤ :=
  if audio.reversed then
    audio.sourceOffset + playedLength sourceDuration audio.sourceOffset audio.sourceLength
  else audio.sourceOffset

/-- Where in its file the clip reads at a tick of the timeline, as long as its window lasts. -/
def sourcePosition (sourceDuration : ℤ) (clip : Clip) (audio : AudioSource) (tick : ℤ) : ℚ :=
  let moved := (tick - clip.start : ℤ) * SourceWindow.audioStretchRatio audio clip.length
  if audio.reversed then firstRead sourceDuration audio - moved
  else firstRead sourceDuration audio + moved

def Covers (clip : Clip) (tick : ℤ) : Prop :=
  clip.start ≤ tick ∧ tick < clip.start + clip.length

/-- The rest of the audio is where it was, and the window is no more than was asked. -/
structure KeepsWindow (sourceDuration : ℤ) (before after : Clip) (audio live : AudioSource) :
    Prop where
  position : ∀ tick, Covers before tick → Covers after tick →
    sourcePosition sourceDuration after live tick = sourcePosition sourceDuration before audio tick
  ratio : SourceWindow.audioStretchRatio live after.length =
    SourceWindow.audioStretchRatio audio before.length
  /-- Only a window with a length can become the rest of the file. -/
  window : 0 < audio.sourceLength → 0 < live.sourceLength ∧
    (live.sourceLength : ℚ) ≤ audio.sourceLength -
      (after.start - before.start : ℤ) * SourceWindow.audioStretchRatio audio before.length

def KeepsAudio (sourceDuration : ℤ) (before after : Clip) : Prop :=
  ∀ audio, before.audio = some audio →
    ∃ live, after.audio = some live ∧ KeepsWindow sourceDuration before after audio live

/-- A clip that is in a project. -/
structure Stored (clip : Clip) : Prop where
  start : 0 ≤ clip.start
  length : 0 < clip.length
  window : ∀ audio, clip.audio = some audio → 0 ≤ audio.sourceOffset ∧ 0 ≤ audio.sourceLength

/-! ### When it is kept -/

/-- A window with a length loses `cut` ticks, which are whole and fewer than it has; and the file
has, from the other end when it is reversed, what the window asks for. -/
def KeepsTrimmed (sourceDuration : ℤ) (audio : AudioSource) (cut : ℤ) : Prop :=
  cut < audio.sourceLength ∧
    (audio.stretchMode = .off ∨ audio.sourceLength - cut ≤ windowLimit) ∧
    if audio.reversed then
      playedLength sourceDuration audio.sourceOffset (min (audio.sourceLength - cut) windowLimit) =
        playedLength sourceDuration audio.sourceOffset audio.sourceLength - cut
    else 0 ≤ audio.sourceOffset + cut ∧ audio.sourceOffset + cut ≤ windowLimit

/-- The rest of the file, reversed: it loses ticks that it has, and it is not stretched. -/
def KeepsReversedRest (sourceDuration : ℤ) (audio : AudioSource) (originLength delta : ℤ) : Prop :=
  delta = 0 ∨
    0 < delta ∧ delta < sourceDuration - audio.sourceOffset ∧
      sourceDuration - audio.sourceOffset - delta ≤ windowLimit ∧
      (audio.stretchMode = .off ∨ sourceDuration - audio.sourceOffset = originLength)

/-- The rest of the file: the ticks that go are as many at the client's ratio, or they are cut down
to as many. -/
def KeepsRest (sourceDuration : ℤ) (audio : AudioSource) (originLength delta : ℤ) : Prop :=
  let consumed := roundHalfAway (delta * clientRatio sourceDuration audio originLength)
  0 ≤ audio.sourceOffset + delta ∧ audio.sourceOffset + delta ≤ windowLimit ∧
    (consumed = delta ∨ audio.sourceOffset + delta = 0 ∧ consumed < delta ∨
      audio.sourceOffset + delta = windowLimit ∧ delta < consumed)

/-- What the left edge may do. -/
def EdgeKeeps (sourceDuration : ℤ) (origin : Clip) (audio : AudioSource) (startTicks : ℤ) : Prop :=
  let delta := edge origin startTicks - origin.start
  if 0 < audio.sourceLength then
    ∃ cut : ℤ, (cut : ℚ) = delta * SourceWindow.audioStretchRatio audio origin.length ∧
      KeepsTrimmed sourceDuration audio cut
  else if audio.reversed then KeepsReversedRest sourceDuration audio origin.length delta
  else KeepsRest sourceDuration audio origin.length delta

/-! ### Clamps and ratios -/

theorem clampInt_of_nonneg {value high : ℤ} (hvalue : 0 ≤ value) :
    clampInt value 0 high = min value high := by
  unfold clampInt
  split_ifs <;> omega

theorem pos_of_clampInt_pos {value high : ℤ} (h : 0 < clampInt value 0 high) : 0 < value := by
  unfold clampInt at h
  split_ifs at h <;> omega

theorem clampInt_windowLimit_eq_iff {value shifted : ℤ} :
    clampInt value 0 windowLimit = shifted ↔
      0 ≤ shifted ∧ shifted ≤ windowLimit ∧
        (value = shifted ∨ shifted = 0 ∧ value < shifted ∨
          shifted = windowLimit ∧ shifted < value) := by
  unfold clampInt windowLimit
  split_ifs <;> omega

theorem roundHalfAway_intCast (n : ℤ) : roundHalfAway n = n := by
  have hround := abs_roundHalfAway_sub_le (n : ℚ)
  rw [abs_le] at hround
  have hlow : (-1 : ℚ) < (roundHalfAway n - n : ℤ) := by push_cast; linarith
  have hhigh : ((roundHalfAway n - n : ℤ) : ℚ) < 1 := by push_cast; linarith
  have hlow' : -1 < roundHalfAway n - n := by exact_mod_cast hlow
  have hhigh' : roundHalfAway n - n < 1 := by exact_mod_cast hhigh
  omega

variable {sourceDuration : ℤ} {audio live : AudioSource}

/-- Unless it is not stretched, the window fills the clip. -/
theorem ratio_of_window (hwindow : 0 < audio.sourceLength) {length : ℤ} (hlength : 0 < length) :
    SourceWindow.audioStretchRatio audio length =
      if audio.stretchMode = .off then 1 else (audio.sourceLength : ℚ) / length := by
  rw [SourceWindow.audioStretchRatio, audioSourceSpan, if_pos hwindow]
  simp [hwindow.not_ge, hlength.not_ge]

/-- For a window with a length the client has the ratio of the engine. -/
theorem clientRatio_of_window (hwindow : 0 < audio.sourceLength) {length : ℤ}
    (hlength : 0 < length) :
    clientRatio sourceDuration audio length = SourceWindow.audioStretchRatio audio length := by
  rw [ratio_of_window hwindow hlength, clientRatio, audioSourceSpan, if_pos hwindow]
  simp [hlength.not_ge]

/-! ### The edits of a drag -/

variable {origin clip : Clip}

theorem updateClipResizeStart_audio (hlength : 0 < origin.length)
    (haudio : origin.audio = some audio) (hlive : clip.source = .audio live) (startTicks : ℤ) :
    updateClipResizeStart sourceDuration origin clip startTicks =
      let start := edge origin startTicks
      let window := trimmedWindow sourceDuration audio (roundHalfAway
        ((start - origin.start : ℤ) * clientRatio sourceDuration audio origin.length))
      { clip with
        start, length := origin.start + origin.length - start
        source := .audio { live with sourceOffset := window.1, sourceLength := window.2 } } := by
  rw [updateClipResizeStart, if_neg hlength.not_ge, haudio]
  simp only [Clip.movedTo, Clip.resizedTo, hlive]
  split_ifs <;> simp [Clip.windowedTo, Clip.withLength]

/-- An update leaves nothing of the one before. -/
theorem updateClipResizeStart_twice (sourceDuration : ℤ) (origin clip : Clip) (first last : ℤ) :
    updateClipResizeStart sourceDuration origin
        (updateClipResizeStart sourceDuration origin clip first) last =
      updateClipResizeStart sourceDuration origin clip last := by
  by_cases hlength : origin.length ≤ 0
  · simp [updateClipResizeStart, hlength]
  · rw [not_le] at hlength
    cases haudio : origin.audio with
    | none => simp [updateClipResizeStart, hlength.not_ge, haudio, Clip.movedTo, Clip.withLength]
    | some audio =>
      cases hsource : clip.source with
      | audio live =>
        rw [updateClipResizeStart_audio hlength haudio hsource,
          updateClipResizeStart_audio hlength haudio hsource,
          updateClipResizeStart_audio hlength haudio rfl]
      | _ =>
        simp [updateClipResizeStart, hlength.not_ge, haudio, Clip.movedTo, Clip.withLength,
          Clip.resizedTo, Clip.windowedTo, hsource]

theorem updateClipResizeStart_foldl (sourceDuration : ℤ) (origin : Clip) (ticks : List ℤ)
    (last : ℤ) (clip : Clip) :
    updateClipResizeStart sourceDuration origin
        (ticks.foldl (updateClipResizeStart sourceDuration origin) clip) last =
      updateClipResizeStart sourceDuration origin clip last := by
  induction ticks generalizing clip with
  | nil => rfl
  | cons first ticks ih => rw [List.foldl_cons, ih, updateClipResizeStart_twice]

/-- **Only the last update of a drag counts.** -/
theorem drag_eq (sourceDuration : ℤ) (origin : Clip) (ticks : List ℤ) (last : ℤ) :
    dragLeftEdge sourceDuration origin (ticks ++ [last]) =
      updateClipResizeStart sourceDuration origin origin last := by
  rw [dragLeftEdge, List.foldl_append]
  exact updateClipResizeStart_foldl sourceDuration origin ticks last origin

/-! ### Positions -/

/-- With the end where it was and at the same ratio, all positions stay when the clip starts to
read as much further on as the edge moves. -/
theorem position_iff {before after : Clip} (hreversed : live.reversed = audio.reversed)
    (hratio : SourceWindow.audioStretchRatio live after.length =
      SourceWindow.audioStretchRatio audio before.length)
    (hend : after.start + after.length = before.start + before.length)
    (hbefore : 0 < before.length) (hafter : 0 < after.length) :
    (∀ tick, Covers before tick → Covers after tick →
      sourcePosition sourceDuration after live tick =
        sourcePosition sourceDuration before audio tick) ↔
      (firstRead sourceDuration live : ℚ) = firstRead sourceDuration audio +
        (if audio.reversed then -1 else 1) *
          ((after.start - before.start : ℤ) *
            SourceWindow.audioStretchRatio audio before.length) := by
  simp only [sourcePosition, hreversed, hratio]
  constructor
  · intro h
    -- both cover the last tick
    have hlast := h (before.start + before.length - 1) ⟨by omega, by omega⟩ ⟨by omega, by omega⟩
    split_ifs at hlast ⊢
    · push_cast at hlast ⊢
      linear_combination hlast
    · push_cast at hlast ⊢
      linear_combination hlast
  · intro h tick _ _
    split_ifs at h ⊢
    · push_cast at h ⊢
      linear_combination h
    · push_cast at h ⊢
      linear_combination h

/-! ### A window with a length -/

/-- The source after the window lost `consumed` ticks. -/
def trimmedSource (sourceDuration : ℤ) (audio : AudioSource) (consumed : ℤ) : AudioSource :=
  { audio with
    sourceOffset := (trimmedWindow sourceDuration audio consumed).1
    sourceLength := (trimmedWindow sourceDuration audio consumed).2 }

/-- The clip from a tick to its end. -/
def trimmedClip (origin : Clip) (start : ℤ) (live : AudioSource) : Clip :=
  { origin with start, length := origin.start + origin.length - start, source := .audio live }

theorem keepsAudio_update_iff (hlength : 0 < origin.length) (startTicks : ℤ) :
    KeepsAudio sourceDuration origin
        (updateClipResizeStart sourceDuration origin origin startTicks) ↔
      ∀ audio, origin.audio = some audio →
        let start := edge origin startTicks
        let live := trimmedSource sourceDuration audio (roundHalfAway
          ((start - origin.start : ℤ) * clientRatio sourceDuration audio origin.length))
        KeepsWindow sourceDuration origin (trimmedClip origin start live) audio live := by
  refine forall₂_congr fun audio haudio => ?_
  rw [updateClipResizeStart_audio hlength haudio (Clip.audio_eq_some_iff.1 haudio)]
  constructor
  · rintro ⟨live, hlive, h⟩
    obtain rfl := Option.some_inj.1 hlive
    exact h
  · exact fun h => ⟨_, rfl, h⟩

/-- At an unchanged ratio the window loses just what the edge takes. -/
theorem ratio_eq_iff {start : ℤ} {window window' : ℤ} {length : ℤ} (hlength : 0 < length)
    (hstart : start < length) :
    (window' : ℚ) / (length - start : ℤ) = window / length ↔
      (window' : ℚ) = window - start * (window / length) := by
  have hne : (length : ℚ) ≠ 0 := by exact_mod_cast hlength.ne'
  have hne' : ((length - start : ℤ) : ℚ) ≠ 0 := by exact_mod_cast (by omega : length - start ≠ 0)
  rw [div_eq_iff hne']
  push_cast
  constructor
  · intro h
    rw [h]
    field_simp
  · intro h
    rw [h]
    field_simp

theorem sourceLength_trimmedSource (hwindow : 0 < audio.sourceLength) (consumed : ℤ) :
    (trimmedSource sourceDuration audio consumed).sourceLength =
      clampInt (audio.sourceLength - consumed) 0 windowLimit := by
  unfold trimmedSource trimmedWindow
  split_ifs <;> rfl

theorem firstRead_trimmedSource (sourceDuration : ℤ) (hwindow : 0 < audio.sourceLength)
    (consumed : ℤ) :
    firstRead sourceDuration (trimmedSource sourceDuration audio consumed) =
      if audio.reversed then
        audio.sourceOffset + playedLength sourceDuration audio.sourceOffset
          (clampInt (audio.sourceLength - consumed) 0 windowLimit)
      else clampInt (audio.sourceOffset + consumed) 0 windowLimit := by
  unfold firstRead trimmedSource trimmedWindow
  split_ifs <;> rfl

section Trimmed

variable {start cut : ℤ}

theorem length_trimmedClip (origin : Clip) (start : ℤ) (live : AudioSource) :
    (trimmedClip origin start live).length = origin.length - (start - origin.start) := by
  show origin.start + origin.length - start = _
  ring

/-- All positions stay when the clip starts to read as much further on as its edge moved. -/
theorem position_trimmed_iff (sourceDuration : ℤ) (hreversed : live.reversed = audio.reversed)
    (hlength : 0 < origin.length) (hstart : start < origin.start + origin.length)
    (hratio : SourceWindow.audioStretchRatio live (trimmedClip origin start live).length =
      SourceWindow.audioStretchRatio audio origin.length)
    (hcut : (cut : ℚ) = (start - origin.start : ℤ) *
      SourceWindow.audioStretchRatio audio origin.length) :
    (∀ tick, Covers origin tick → Covers (trimmedClip origin start live) tick →
      sourcePosition sourceDuration (trimmedClip origin start live) live tick =
        sourcePosition sourceDuration origin audio tick) ↔
      firstRead sourceDuration live =
        firstRead sourceDuration audio + if audio.reversed then -cut else cut := by
  have hlive := length_trimmedClip origin start live
  rw [position_iff hreversed hratio (by rw [hlive]; show start + _ = _; ring) hlength
    (by rw [hlive]; omega)]
  have hmoved : ((trimmedClip origin start live).start - origin.start : ℤ) *
      SourceWindow.audioStretchRatio audio origin.length = (cut : ℚ) := hcut.symm
  rw [hmoved]
  split_ifs
  · rw [neg_one_mul]
    exact_mod_cast Iff.rfl
  · rw [one_mul]
    exact_mod_cast Iff.rfl

/-- Unless it is not stretched, the ratio stays when the window is cut as asked. -/
theorem ratio_trimmed_iff (hmode : live.stretchMode = audio.stretchMode)
    (hlength : 0 < origin.length) (hwindow : 0 < audio.sourceLength)
    (hlive : 0 < live.sourceLength) (hstart : start < origin.start + origin.length) :
    SourceWindow.audioStretchRatio live (trimmedClip origin start live).length =
        SourceWindow.audioStretchRatio audio origin.length ↔
      audio.stretchMode = .off ∨
        (live.sourceLength : ℚ) = audio.sourceLength - (start - origin.start : ℤ) *
          SourceWindow.audioStretchRatio audio origin.length := by
  rw [length_trimmedClip, ratio_of_window hlive (by omega), ratio_of_window hwindow hlength, hmode]
  by_cases hoff : audio.stretchMode = .off
  · simp [hoff]
  · simp only [hoff, false_or]
    exact ratio_eq_iff hlength (by omega)

/-- **A window with a length**, when the ticks that go are whole. -/
theorem keepsWindow_iff_of_cut (hlength : 0 < origin.length) (hwindow : 0 < audio.sourceLength)
    (hstart : start < origin.start + origin.length)
    (hcut : (cut : ℚ) = (start - origin.start : ℤ) *
      SourceWindow.audioStretchRatio audio origin.length)
    (hlive : live = trimmedSource sourceDuration audio cut) :
    KeepsWindow sourceDuration origin (trimmedClip origin start live) audio live ↔
      KeepsTrimmed sourceDuration audio cut := by
  have hreversed : live.reversed = audio.reversed := by rw [hlive]; rfl
  have hmode : live.stretchMode = audio.stretchMode := by rw [hlive]; rfl
  have hwindow' : live.sourceLength = clampInt (audio.sourceLength - cut) 0 windowLimit := by
    rw [hlive, sourceLength_trimmedSource hwindow]
  have hread := firstRead_trimmedSource sourceDuration hwindow cut
  rw [← hlive] at hread
  constructor
  · rintro ⟨hposition, hratio, hkept⟩
    -- the window has a length still, so it was not clamped at 0
    obtain ⟨hpos, -⟩ := hkept hwindow
    have hless : 0 < audio.sourceLength - cut := by
      rw [hwindow'] at hpos
      exact pos_of_clampInt_pos hpos
    rw [clampInt_of_nonneg hless.le] at hread hwindow'
    rw [position_trimmed_iff sourceDuration hreversed hlength hstart hratio hcut, hread,
      firstRead] at hposition
    refine ⟨by omega, ?_, ?_⟩
    · refine ((ratio_trimmed_iff hmode hlength hwindow hpos hstart).1 hratio).imp_right fun h => ?_
      rw [← hcut] at h
      have h' : live.sourceLength = audio.sourceLength - cut := by exact_mod_cast h
      omega
    · split_ifs at hposition ⊢
      · omega
      · have h := clampInt_windowLimit_eq_iff.1 hposition
        exact ⟨h.1, h.2.1⟩
  · rintro ⟨hless, hlimit, hfile⟩
    rw [clampInt_of_nonneg (by omega)] at hread hwindow'
    have hpos : 0 < live.sourceLength := by
      rw [hwindow', windowLimit]
      omega
    have hratio := (ratio_trimmed_iff hmode hlength hwindow hpos hstart).2
      (hlimit.imp_right fun h => by
        rw [← hcut, hwindow', min_eq_left h]
        push_cast
        rfl)
    refine ⟨?_, hratio, fun _ => ⟨hpos, ?_⟩⟩
    · rw [position_trimmed_iff sourceDuration hreversed hlength hstart hratio hcut, hread,
        firstRead]
      split_ifs at hfile ⊢
      · omega
      · exact clampInt_windowLimit_eq_iff.2 ⟨hfile.1, hfile.2, .inl rfl⟩
    · have hle : live.sourceLength ≤ audio.sourceLength - cut := by omega
      show (live.sourceLength : ℚ) ≤ audio.sourceLength - (start - origin.start : ℤ) * _
      rw [← hcut]
      exact_mod_cast hle

/-- When a window with a length stays in place, the ticks that go are whole. -/
theorem exists_cut (hmode : live.stretchMode = audio.stretchMode) (hlength : 0 < origin.length)
    (hwindow : 0 < audio.sourceLength) (hstart : start < origin.start + origin.length)
    (h : KeepsWindow sourceDuration origin (trimmedClip origin start live) audio live) :
    ∃ cut : ℤ, (cut : ℚ) = (start - origin.start : ℤ) *
      SourceWindow.audioStretchRatio audio origin.length := by
  rcases (ratio_trimmed_iff hmode hlength hwindow (h.window hwindow).1 hstart).1 h.ratio with
    hoff | hcut
  · refine ⟨start - origin.start, ?_⟩
    rw [SourceWindow.audioStretchRatio, if_pos hoff, mul_one]
  · refine ⟨audio.sourceLength - live.sourceLength, ?_⟩
    push_cast at hcut ⊢
    linear_combination -hcut

theorem keepsWindow_trimmed_iff (hlength : 0 < origin.length) (hwindow : 0 < audio.sourceLength)
    (hstart : start < origin.start + origin.length)
    (hlive : live = trimmedSource sourceDuration audio (roundHalfAway
      ((start - origin.start : ℤ) * clientRatio sourceDuration audio origin.length))) :
    KeepsWindow sourceDuration origin (trimmedClip origin start live) audio live ↔
      ∃ cut : ℤ, (cut : ℚ) = (start - origin.start : ℤ) *
          SourceWindow.audioStretchRatio audio origin.length ∧
        KeepsTrimmed sourceDuration audio cut := by
  rw [clientRatio_of_window hwindow hlength] at hlive
  -- what is whole is not rounded
  have hrounded : ∀ cut : ℤ, (cut : ℚ) = (start - origin.start : ℤ) *
      SourceWindow.audioStretchRatio audio origin.length →
        live = trimmedSource sourceDuration audio cut := by
    intro cut hcut
    rw [hlive, ← hcut, roundHalfAway_intCast]
  constructor
  · intro h
    obtain ⟨cut, hcut⟩ := exists_cut (by rw [hlive]; rfl) hlength hwindow hstart h
    exact ⟨cut, hcut,
      (keepsWindow_iff_of_cut hlength hwindow hstart hcut (hrounded cut hcut)).1 h⟩
  · rintro ⟨cut, hcut, h⟩
    exact (keepsWindow_iff_of_cut hlength hwindow hstart hcut (hrounded cut hcut)).2 h

end Trimmed

/-! ### The rest of the file -/

section Rest

variable {start : ℤ}

theorem ratio_of_rest (hoffset : 0 ≤ audio.sourceOffset) (hwindow : audio.sourceLength = 0)
    (length : ℤ) : SourceWindow.audioStretchRatio audio length = 1 :=
  SourceWindow.audioStretchRatio_of_whole hoffset hwindow.le length

theorem clampInt_windowLimit_nonneg (value : ℤ) : 0 ≤ clampInt value 0 windowLimit := by
  unfold clampInt windowLimit
  split_ifs <;> omega

/-- **The rest of the file**: it is never stretched, and its ticks go at the offset. -/
theorem keepsWindow_rest_iff (hlength : 0 < origin.length) (hoffset : 0 ≤ audio.sourceOffset)
    (hwindow : audio.sourceLength = 0) (hforward : audio.reversed = false)
    (hstart : start < origin.start + origin.length)
    (hlive : live = trimmedSource sourceDuration audio (roundHalfAway
      ((start - origin.start : ℤ) * clientRatio sourceDuration audio origin.length))) :
    KeepsWindow sourceDuration origin (trimmedClip origin start live) audio live ↔
      KeepsRest sourceDuration audio origin.length (start - origin.start) := by
  set consumed := roundHalfAway
    ((start - origin.start : ℤ) * clientRatio sourceDuration audio origin.length) with hconsumed
  have hreversed : live.reversed = audio.reversed := by rw [hlive]; rfl
  have hwindow' : live.sourceLength = 0 := by
    simp [hlive, trimmedSource, trimmedWindow, hforward, hwindow]
  have hoffset' : live.sourceOffset = clampInt (audio.sourceOffset + consumed) 0 windowLimit := by
    simp [hlive, trimmedSource, trimmedWindow, hforward]
  have hratio : SourceWindow.audioStretchRatio live (trimmedClip origin start live).length =
      SourceWindow.audioStretchRatio audio origin.length := by
    rw [ratio_of_rest hoffset hwindow, ratio_of_rest _ hwindow']
    rw [hoffset']
    exact clampInt_windowLimit_nonneg _
  have hcut : ((start - origin.start : ℤ) : ℚ) = (start - origin.start : ℤ) *
      SourceWindow.audioStretchRatio audio origin.length := by
    rw [ratio_of_rest hoffset hwindow, mul_one]
  have hposition := position_trimmed_iff sourceDuration hreversed hlength
    hstart hratio hcut
  rw [firstRead, firstRead, hreversed, hforward, if_neg Bool.false_ne_true,
    if_neg Bool.false_ne_true, if_neg Bool.false_ne_true, hoffset',
    clampInt_windowLimit_eq_iff] at hposition
  have hrest : KeepsWindow sourceDuration origin (trimmedClip origin start live) audio live ↔
      ∀ tick, Covers origin tick → Covers (trimmedClip origin start live) tick →
        sourcePosition sourceDuration (trimmedClip origin start live) live tick =
          sourcePosition sourceDuration origin audio tick :=
    ⟨fun h => h.position, fun h => ⟨h, hratio, fun hpos => absurd hpos (by omega)⟩⟩
  rw [hrest, hposition, KeepsRest, ← hconsumed]
  constructor
  · rintro ⟨hlow, hhigh, hvalue⟩
    exact ⟨hlow, hhigh, by omega⟩
  · rintro ⟨hlow, hhigh, hvalue⟩
    exact ⟨hlow, hhigh, by omega⟩

/-- Ticks go from a reversed rest when there are any to go and the file has some. -/
theorem sourceLength_reversedRest (sourceDuration : ℤ) (hwindow : audio.sourceLength = 0)
    (hreversed : audio.reversed = true) (consumed : ℤ) :
    (trimmedSource sourceDuration audio consumed).sourceLength =
      if 0 < consumed ∧ audio.sourceOffset < sourceDuration then
        clampInt (sourceDuration - audio.sourceOffset - consumed) 0 windowLimit
      else 0 := by
  simp only [trimmedSource, trimmedWindow, hreversed, hwindow, lt_irrefl, if_true, if_false]
  split_ifs <;> rfl

/-- The client's ratio where the rest of the file is not stretched. -/
theorem clientRatio_of_unstretched (hlength : 0 < origin.length) (hwindow : audio.sourceLength = 0)
    (hfile : audio.sourceOffset < sourceDuration)
    (h : audio.stretchMode = .off ∨ sourceDuration - audio.sourceOffset = origin.length) :
    clientRatio sourceDuration audio origin.length = 1 := by
  rw [clientRatio]
  rcases h with hoff | hfills
  · rw [if_pos (.inl hoff)]
  · split_ifs
    · rfl
    · have hne : (origin.length : ℚ) ≠ 0 := by exact_mod_cast hlength.ne'
      rw [audioSourceSpan, if_neg (by omega), if_pos hfile, hfills, div_self hne]

/-- A window that has got a length is unstretched where it is as long as the clip. -/
theorem ratio_eq_one_iff (hmode : live.stretchMode = audio.stretchMode)
    (hlive : 0 < live.sourceLength) (hstart : start < origin.start + origin.length) :
    SourceWindow.audioStretchRatio live (trimmedClip origin start live).length = 1 ↔
      audio.stretchMode = .off ∨ live.sourceLength = origin.length - (start - origin.start) := by
  have hlength : 0 < origin.length - (start - origin.start) := by omega
  have hne : ((origin.length - (start - origin.start) : ℤ) : ℚ) ≠ 0 := by
    exact_mod_cast hlength.ne'
  rw [length_trimmedClip, ratio_of_window hlive hlength, hmode]
  by_cases hoff : audio.stretchMode = .off
  · simp [hoff]
  · rw [if_neg hoff, div_eq_one_iff_eq hne, Int.cast_inj]
    simp [hoff]

/-- A reversed rest stays in place when the file has as many ticks less for it as the edge took. -/
theorem keepsWindow_reversedRest_iff_played (hlength : 0 < origin.length)
    (hoffset : 0 ≤ audio.sourceOffset) (hwindow : audio.sourceLength = 0)
    (hback : audio.reversed = true) (hstart : start < origin.start + origin.length)
    {consumed : ℤ} (hlive : live = trimmedSource sourceDuration audio consumed) :
    KeepsWindow sourceDuration origin (trimmedClip origin start live) audio live ↔
      SourceWindow.audioStretchRatio live (trimmedClip origin start live).length = 1 ∧
        playedLength sourceDuration audio.sourceOffset live.sourceLength =
          playedLength sourceDuration audio.sourceOffset 0 - (start - origin.start) := by
  have hreversed : live.reversed = audio.reversed := by rw [hlive]; rfl
  have hoffset' : live.sourceOffset = audio.sourceOffset := by
    simp only [hlive, trimmedSource, trimmedWindow, hback, if_true]
    split_ifs <;> rfl
  -- the engine plays the rest of a file unstretched, so what goes is what the edge took
  have hone := ratio_of_rest hoffset hwindow origin.length
  have hcut : ((start - origin.start : ℤ) : ℚ) = (start - origin.start : ℤ) *
      SourceWindow.audioStretchRatio audio origin.length := by
    rw [hone, mul_one]
  have hposition := fun hratio => position_trimmed_iff sourceDuration hreversed
    hlength hstart hratio hcut
  simp only [firstRead, hreversed, hback, if_true, hoffset', hwindow] at hposition
  rw [← hone]
  constructor
  · intro h
    have := (hposition h.ratio).1 h.position
    exact ⟨h.ratio, by omega⟩
  · rintro ⟨hratio, h⟩
    exact ⟨(hposition hratio).2 (by omega), hratio, fun hpos => absurd hpos (by omega)⟩

/-- **The rest of the file, reversed**: it gets a length when ticks go. -/
theorem keepsWindow_reversedRest_iff (hlength : 0 < origin.length)
    (hoffset : 0 ≤ audio.sourceOffset) (hwindow : audio.sourceLength = 0)
    (hback : audio.reversed = true) (hstart : start < origin.start + origin.length)
    (hlive : live = trimmedSource sourceDuration audio (roundHalfAway
      ((start - origin.start : ℤ) * clientRatio sourceDuration audio origin.length))) :
    KeepsWindow sourceDuration origin (trimmedClip origin start live) audio live ↔
      KeepsReversedRest sourceDuration audio origin.length (start - origin.start) := by
  rw [keepsWindow_reversedRest_iff_played hlength hoffset hwindow hback hstart hlive,
    KeepsReversedRest]
  set consumed := roundHalfAway
    ((start - origin.start : ℤ) * clientRatio sourceDuration audio origin.length) with hconsumed
  have hmode : live.stretchMode = audio.stretchMode := by rw [hlive]; rfl
  have hwindow' := sourceLength_reversedRest sourceDuration hwindow hback consumed
  rw [← hlive] at hwindow'
  -- nothing goes when the edge stays, and what goes of an unstretched rest is not rounded
  have hnone : start - origin.start = 0 → consumed = 0 := by
    intro h
    rw [hconsumed, h, Int.cast_zero, zero_mul]
    exact_mod_cast roundHalfAway_intCast 0
  have hall : audio.sourceOffset < sourceDuration →
      (audio.stretchMode = .off ∨ sourceDuration - audio.sourceOffset = origin.length) →
        consumed = start - origin.start := by
    intro hfile h
    rw [hconsumed, clientRatio_of_unstretched hlength hwindow hfile h, mul_one,
      roundHalfAway_intCast]
  by_cases hpos : 0 < live.sourceLength
  · -- the rest has got a length, which must be what the file had, less what the edge took
    have hgoes : 0 < consumed ∧ audio.sourceOffset < sourceDuration := by
      by_contra hgoes
      rw [if_neg hgoes] at hwindow'
      omega
    rw [if_pos hgoes] at hwindow'
    have hleft := pos_of_clampInt_pos (hwindow' ▸ hpos)
    rw [clampInt_of_nonneg hleft.le] at hwindow'
    have hplayed : playedLength sourceDuration audio.sourceOffset live.sourceLength =
        live.sourceLength := by
      rw [playedLength, if_pos hgoes.2, if_pos ⟨hpos, by omega⟩]
    have hall' : playedLength sourceDuration audio.sourceOffset 0 =
        sourceDuration - audio.sourceOffset := by
      rw [playedLength, if_pos hgoes.2, if_neg (by omega)]
    rw [hplayed, hall', ratio_eq_one_iff hmode hpos hstart]
    constructor
    · rintro ⟨hsame, hless⟩
      exact .inr ⟨by omega, by omega, by omega, hsame.imp_right fun h => by omega⟩
    · rintro (hnot | ⟨hsome, hfewer, hlimit, hsame⟩)
      · have := hnone hnot
        omega
      · have := hall hgoes.2 hsame
        exact ⟨hsame.imp_right fun h => by omega, by omega⟩
  · have hzero : live.sourceLength = 0 := by
      have := clampInt_windowLimit_nonneg (sourceDuration - audio.sourceOffset - consumed)
      split_ifs at hwindow' <;> omega
    have hoffset' : 0 ≤ live.sourceOffset := by
      simp only [hlive, trimmedSource, trimmedWindow, hback, if_true]
      split_ifs <;> exact hoffset
    -- the clip still plays to the end of the file, so the edge must not have moved
    rw [ratio_of_rest hoffset' hzero, hzero]
    constructor
    · exact fun h => .inl (by omega)
    · rintro (hnot | ⟨hsome, hfewer, hlimit, hsame⟩)
      · exact ⟨rfl, by omega⟩
      · -- the file has ticks left, so the window has a length
        have := hall (by omega) hsame
        rw [if_pos ⟨by omega, by omega⟩, this, clampInt_of_nonneg (by omega)] at hwindow'
        omega

end Rest

/-! ### The drag -/

theorem edge_lt (h : Stored origin) (startTicks : ℤ) :
    edge origin startTicks < origin.start + origin.length := by
  have hstart := h.start
  have hlength := h.length
  unfold edge clampInt
  split_ifs <;> omega

theorem keepsAudio_edge_iff (h : Stored origin) (sourceDuration startTicks : ℤ) :
    KeepsAudio sourceDuration origin
        (updateClipResizeStart sourceDuration origin origin startTicks) ↔
      ∀ audio, origin.audio = some audio →
        EdgeKeeps sourceDuration origin audio startTicks := by
  rw [keepsAudio_update_iff h.length]
  refine forall₂_congr fun audio haudio => ?_
  obtain ⟨hoffset, hwindow⟩ := h.window audio haudio
  have hedge := edge_lt h startTicks
  rw [EdgeKeeps]
  split_ifs with hpos hback
  · exact keepsWindow_trimmed_iff h.length hpos hedge rfl
  · exact keepsWindow_reversedRest_iff h.length hoffset (by omega) hback hedge rfl
  · exact keepsWindow_rest_iff h.length hoffset (by omega) (by simpa using hback) hedge rfl

theorem keepsAudio_refl (sourceDuration : ℤ) (clip : Clip) :
    KeepsAudio sourceDuration clip clip := by
  refine fun audio haudio => ⟨audio, haudio, fun _ _ _ => rfl, rfl, fun hpos => ⟨hpos, ?_⟩⟩
  rw [sub_self, Int.cast_zero, zero_mul, sub_zero]

/-- **A drag of the left edge keeps the rest of the audio in place** when the edge ends where it may
be, and only then. -/
theorem keepsAudio_drag_iff (sourceDuration : ℤ) (h : Stored origin) (ticks : List ℤ) :
    KeepsAudio sourceDuration origin (dragLeftEdge sourceDuration origin ticks) ↔
      ∀ audio, origin.audio = some audio → ∀ startTicks, ticks.getLast? = some startTicks →
        EdgeKeeps sourceDuration origin audio startTicks := by
  rcases ticks.eq_nil_or_concat with rfl | ⟨ticks, last, rfl⟩
  · simp [dragLeftEdge, keepsAudio_refl]
  · rw [List.concat_eq_append, drag_eq, keepsAudio_edge_iff h, List.getLast?_append]
    simp

/-- A clip of one beat, a beat into the arrangement. -/
def oneBeat (audio : AudioSource) : Clip :=
  { lane := ⟨1⟩, start := 960, length := 960, source := .audio audio }

theorem stored_oneBeat {audio : AudioSource} (hoffset : 0 ≤ audio.sourceOffset)
    (hwindow : 0 ≤ audio.sourceLength) : Stored (oneBeat audio) := by
  refine ⟨Int.natCast_nonneg 960, Int.natCast_pos.2 (by decide), fun source hsource => ?_⟩
  obtain rfl := Option.some_inj.1 hsource
  exact ⟨hoffset, hwindow⟩

/-- Half a beat of the file, stretched to a beat. -/
def stretchedBeat : AudioSource :=
  { destination := ⟨1⟩, sourceOffset := 480, sourceLength := 480, stretchMode := .stretch }

/-- The edge goes out by half a beat, and a quarter of a beat of the file comes with it. -/
theorem keepsAudio_drag_stretchedBeat :
    KeepsAudio 1920 (oneBeat stretchedBeat)
      (dragLeftEdge 1920 (oneBeat stretchedBeat) [900, 480]) := by
  refine (keepsAudio_drag_iff 1920 (stored_oneBeat (by decide) (by decide)) [900, 480]).2
    fun audio haudio startTicks hlast => ?_
  obtain rfl := Option.some_inj.1 haudio
  obtain rfl := Option.some_inj.1 hlast
  exact ⟨-240, by decide +kernel, by decide +kernel, .inr (by decide +kernel),
    by decide +kernel, by decide +kernel⟩

/-- **The audio moves** when the edge goes out past the start of the file, and a clip that is longer
than its window gets the rest of the file once the edge is past the window. -/
theorem not_keepsAudio :
    ¬KeepsAudio 1920 (oneBeat { destination := ⟨1⟩, sourceLength := 960 })
      (dragLeftEdge 1920 (oneBeat { destination := ⟨1⟩, sourceLength := 960 }) [480]) ∧
    ¬KeepsAudio 1920 (oneBeat { destination := ⟨1⟩, sourceLength := 240 })
      (dragLeftEdge 1920 (oneBeat { destination := ⟨1⟩, sourceLength := 240 }) [1440]) := by
  constructor
  · intro h
    obtain ⟨live, hlive, hkept⟩ := h _ rfl
    obtain rfl := Option.some_inj.1 hlive
    exact absurd (hkept.position 960 ⟨by decide +kernel, by decide +kernel⟩
      ⟨by decide +kernel, by decide +kernel⟩) (by decide +kernel)
  · intro h
    obtain ⟨live, hlive, hkept⟩ := h _ rfl
    obtain rfl := Option.some_inj.1 hlive
    exact absurd (hkept.window (by decide)).1 (by decide +kernel)

end PlaylistStore

end OneBeat
