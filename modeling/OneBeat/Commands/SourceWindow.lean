import OneBeat.Commands.Transport
import OneBeat.Core.TimeMap

/-!
# What an audio clip plays after a tempo change

`resolveClipPlayback` of `abi/onebeat_abi.cpp`, before and after a `TransportCommand` has rescaled
the clips.  Tempos, rates and positions are exact here; what is rounded is what the source rounds,
to whole frames and to whole ticks.

The window into the source is kept in ticks, and it is read at the tempo of the project.  So the
same window is another part of the file at another tempo, though the length of the clip follows.

**Main theorem** (`keepsPlayback_iff`): a clip plays the same at all tempos exactly when it plays
its file from the start to the end, up to a tick.
-/

namespace OneBeat

/-! ### Rounding -/

theorem abs_roundHalfAway_sub_le (q : ℚ) : |(roundHalfAway q : ℚ) - q| ≤ 1 / 2 := by
  rw [abs_le, roundHalfAway]
  split_ifs
  · have hle := Int.floor_le (q + 1 / 2)
    have hlt := Int.lt_floor_add_one (q + 1 / 2)
    constructor <;> linarith
  · have hle := Int.le_ceil (q - 1 / 2)
    have hlt := Int.ceil_lt_add_one (q - 1 / 2)
    constructor <;> linarith

namespace SourceWindow

/-! ### The playback of a clip -/

/-- Everything lands inside 20..999. -/
def clampTempo (bpm : ℚ) : ℚ := if ¬20 < bpm then 20 else if 999 < bpm then 999 else bpm

def framesPerBeat (sampleRate tempo : ℚ) : ℚ := sampleRate * 60 / clampTempo tempo

def beatsToFrames (sampleRate tempo beats : ℚ) : ℤ :=
  roundHalfAway (beats * framesPerBeat sampleRate tempo)

/-- How a clip plays its file, in frames. -/
structure ClipPlayback where
  enabled : Bool
  startFrame : ℤ
  /-- `0` is the rest of the file. -/
  lengthFrames : ℤ
  reversed : Bool
  /-- Frames of the file per frame of the timeline. -/
  rate : ℚ
  pitchPreserving : Bool

def audioStretchRatio (source : AudioSource) (clipLength : ℤ) : ℚ :=
  if source.stretchMode = .off then 1
  else if audioSourceSpan source clipLength ≤ 0 ∨ clipLength ≤ 0 then 1
  else audioSourceSpan source clipLength / clipLength

def resolveClipPlayback (sampleRate tempo : ℚ) (clip : Clip) (audio : AudioSource) :
    ClipPlayback :=
  let toFrames (ticks : ℤ) := beatsToFrames sampleRate tempo (ticks / ticksPerQuarter)
  { enabled := true
    startFrame := toFrames audio.sourceOffset
    lengthFrames := if 0 < audio.sourceLength then toFrames audio.sourceLength else 0
    reversed := audio.reversed
    rate := audioStretchRatio audio clip.length
    pitchPreserving := audio.stretchMode = .stretch }

/-- How a clip of the project is played, if it is an audio clip. -/
def playback (sampleRate tempo : ℚ) (clip : Clip) : Option ClipPlayback :=
  clip.audio.map (resolveClipPlayback sampleRate tempo clip)

/-! ### The tempo change -/

def rescaledLength (fromTempo toTempo : ℚ) (length : ℤ) : ℤ :=
  max 1 (roundHalfAway (length * (toTempo / fromTempo)))

/-- The clip after a `TransportCommand`. -/
def rescaledClip (fromTempo toTempo : ℚ) (clip : Clip) : Clip :=
  if !(fromTempo ≤ 0 || toTempo ≤ 0 || fromTempo = toTempo) &&
      (clip.audio.isSome && 0 < clip.length) then
    clip.withLength (rescaledLength fromTempo toTempo clip.length)
  else clip

/-! ### Playing the same -/

/-- The frames of a tick. -/
def tickFrames (sampleRate tempo : ℚ) : ℚ := framesPerBeat sampleRate tempo / 960

/-- The same frames, up to a tick and the rounding to whole frames. -/
def SameFrames (sampleRate fromTempo toTempo : ℚ) (before after : ℤ) : Prop :=
  |(after : ℚ) - before| ≤ max (tickFrames sampleRate fromTempo) (tickFrames sampleRate toTempo) + 1

/-- The same playback, up to the rounding of one tick.  At another rate the clip comes to another
end of its file; a tick of the file, or what a tick of the timeline plays, makes no difference. -/
structure SamePlayback (sampleRate fromTempo toTempo : ℚ) (length : ℤ)
    (before after : ClipPlayback) : Prop where
  startFrame : SameFrames sampleRate fromTempo toTempo before.startFrame after.startFrame
  lengthFrames : SameFrames sampleRate fromTempo toTempo before.lengthFrames after.lengthFrames
  rate : before.pitchPreserving = false → |after.rate - before.rate| * length ≤ 1 + before.rate

/-- No tempo change makes a difference. -/
def KeepsPlayback (clip : Clip) : Prop :=
  ∀ sampleRate fromTempo toTempo : ℚ, 0 < sampleRate →
    ∀ before, playback sampleRate fromTempo clip = some before →
      ∃ after, playback sampleRate toTempo (rescaledClip fromTempo toTempo clip) = some after ∧
        SamePlayback sampleRate fromTempo toTempo (rescaledClip fromTempo toTempo clip).length
          before after

/-- The clip plays its file from the start to the end, up to a tick; resampled it plays all of it,
or it has no length. -/
structure PlaysWholeFile (clip : Clip) (source : AudioSource) : Prop where
  offset : |source.sourceOffset| ≤ 1
  length : source.sourceLength ≤ 1
  resampled : source.stretchMode = .resample →
    (source.sourceLength ≤ 0 ∧ 0 ≤ source.sourceOffset) ∨ clip.length ≤ 0

theorem tickFrames_pos {sampleRate : ℚ} (hrate : 0 < sampleRate) (tempo : ℚ) :
    0 < tickFrames sampleRate tempo := by
  have htempo : 0 < clampTempo tempo := by
    unfold clampTempo
    split_ifs <;> linarith
  unfold tickFrames framesPerBeat
  positivity

/-- The frame of a tick, up to the rounding. -/
theorem abs_beatsToFrames_sub_le (sampleRate tempo : ℚ) (ticks : ℤ) :
    |(beatsToFrames sampleRate tempo (ticks / ticksPerQuarter) : ℚ) -
      ticks * tickFrames sampleRate tempo| ≤ 1 / 2 := by
  have heq : (ticks : ℚ) / ticksPerQuarter * framesPerBeat sampleRate tempo =
      ticks * tickFrames sampleRate tempo := by
    rw [tickFrames, ticksPerQuarter]
    push_cast
    ring
  have hround := abs_roundHalfAway_sub_le ((ticks : ℚ) / ticksPerQuarter *
    framesPerBeat sampleRate tempo)
  rwa [← beatsToFrames, heq] at hround

/-- A tick is one tick away from the start at any tempo. -/
theorem sameFrames_of_abs_le_one {sampleRate : ℚ} (hrate : 0 < sampleRate)
    (fromTempo toTempo : ℚ) {ticks : ℤ} (h : |ticks| ≤ 1) :
    SameFrames sampleRate fromTempo toTempo
      (beatsToFrames sampleRate fromTempo (ticks / ticksPerQuarter))
      (beatsToFrames sampleRate toTempo (ticks / ticksPerQuarter)) := by
  have hfrom := abs_beatsToFrames_sub_le sampleRate fromTempo ticks
  have hto := abs_beatsToFrames_sub_le sampleRate toTempo ticks
  have hfrom' := tickFrames_pos hrate fromTempo
  have hto' := tickFrames_pos hrate toTempo
  have hle := le_max_left (tickFrames sampleRate fromTempo) (tickFrames sampleRate toTempo)
  have hle' := le_max_right (tickFrames sampleRate fromTempo) (tickFrames sampleRate toTempo)
  rw [abs_le] at hfrom hto
  rw [SameFrames, abs_le]
  rcases (by rw [abs_le] at h; omega : ticks = -1 ∨ ticks = 0 ∨ ticks = 1) with rfl | rfl | rfl
  all_goals
    push_cast at hfrom hto ⊢
    constructor <;> linarith

theorem sameFrames_zero {sampleRate : ℚ} (hrate : 0 < sampleRate) (fromTempo toTempo : ℚ) :
    SameFrames sampleRate fromTempo toTempo 0 0 := by
  have hle := (tickFrames_pos hrate fromTempo).le.trans
    (le_max_left _ (tickFrames sampleRate toTempo))
  rw [SameFrames, sub_self, abs_zero]
  linarith

/-- More than a tick in, the frames at the slowest and the fastest tempo are ticks apart. -/
theorem abs_le_one_of_sameFrames {ticks : ℤ}
    (h : SameFrames 48000 20 999 (beatsToFrames 48000 20 (ticks / ticksPerQuarter))
      (beatsToFrames 48000 999 (ticks / ticksPerQuarter))) : |ticks| ≤ 1 := by
  have hslow : tickFrames 48000 20 = 150 := by
    norm_num [tickFrames, framesPerBeat, clampTempo]
  have hfast : tickFrames 48000 999 = 1000 / 333 := by
    norm_num [tickFrames, framesPerBeat, clampTempo]
  have hfrom := abs_beatsToFrames_sub_le 48000 20 ticks
  have hto := abs_beatsToFrames_sub_le 48000 999 ticks
  rw [SameFrames, hslow, hfast, max_eq_left (by norm_num), abs_le] at h
  rw [hslow, abs_le] at hfrom
  rw [hfast, abs_le] at hto
  -- the two positions differ by some 146 frames a tick, and may differ by one tick
  have hlow : (-2 : ℚ) < ticks := by linarith
  have hhigh : (ticks : ℚ) < 2 := by linarith
  rw [abs_le]
  constructor
  · have : (-2 : ℤ) < ticks := by exact_mod_cast hlow
    omega
  · have : ticks < (2 : ℤ) := by exact_mod_cast hhigh
    omega

/-! ### The rate -/

variable {clip : Clip} {source : AudioSource}

@[simp] theorem rescaledClip_audio (fromTempo toTempo : ℚ) (clip : Clip) :
    (rescaledClip fromTempo toTempo clip).audio = clip.audio := by
  rw [rescaledClip]
  split_ifs <;> rfl

/-- A clip without a length is not rescaled. -/
theorem rescaledClip_of_length_nonpos (fromTempo toTempo : ℚ) (h : clip.length ≤ 0) :
    rescaledClip fromTempo toTempo clip = clip := by
  rw [rescaledClip, if_neg]
  simp [h.not_gt]

/-- A clip that plays its whole file is not stretched, whatever its length. -/
theorem audioStretchRatio_of_whole (hoffset : 0 ≤ source.sourceOffset)
    (hlength : source.sourceLength ≤ 0) (clipLength : ℤ) :
    audioStretchRatio source clipLength = 1 := by
  have hspan : audioSourceSpan source clipLength = clipLength := by
    rw [audioSourceSpan, if_neg hlength.not_gt, if_neg hoffset.not_gt]
  rw [audioStretchRatio, hspan]
  split_ifs with hoff hclip
  · rfl
  · rfl
  · have hne : (clipLength : ℚ) ≠ 0 := by exact_mod_cast (by omega : clipLength ≠ 0)
    exact div_self hne

/-- What is resampled keeps its rate. -/
theorem rate_eq (h : PlaysWholeFile clip source) (hmode : source.stretchMode ≠ .stretch)
    (fromTempo toTempo : ℚ) :
    audioStretchRatio source (rescaledClip fromTempo toTempo clip).length =
      audioStretchRatio source clip.length := by
  cases hstretch : source.stretchMode with
  | off => rw [audioStretchRatio, audioStretchRatio, if_pos hstretch, if_pos hstretch]
  | stretch => exact absurd hstretch hmode
  | resample =>
    rcases h.resampled hstretch with ⟨hlength, hoffset⟩ | hclip
    · rw [audioStretchRatio_of_whole hoffset hlength, audioStretchRatio_of_whole hoffset hlength]
    · rw [rescaledClip_of_length_nonpos fromTempo toTempo hclip]

theorem ratio_nonneg (source : AudioSource) (clipLength : ℤ) : 0 ≤ audioStretchRatio source clipLength := by
  rw [audioStretchRatio]
  split_ifs with hoff hspan
  · exact zero_le_one
  · exact zero_le_one
  · rw [not_or, not_le, not_le] at hspan
    exact div_nonneg (by exact_mod_cast hspan.1.le) (by exact_mod_cast hspan.2.le)

/-- From the slowest to the fastest tempo the clip gets longer by far more than a tick, while its
window stays what it is. -/
theorem not_sameRate (hmode : source.stretchMode = .resample) (haudio : clip.audio = some source)
    (hclip : 0 < clip.length)
    (hspan : ∀ length, audioSourceSpan source length = audioSourceSpan source clip.length)
    (hpos : 0 < audioSourceSpan source clip.length) :
    1 + audioStretchRatio source clip.length <
      |audioStretchRatio source (rescaledClip 20 999 clip).length -
        audioStretchRatio source clip.length| * (rescaledClip 20 999 clip).length := by
  have hlength : (rescaledClip 20 999 clip).length = rescaledLength 20 999 clip.length := by
    rw [rescaledClip, haudio]
    norm_num [hclip]
  -- the new length is at least forty-nine times the old one
  have hround := abs_roundHalfAway_sub_le ((clip.length : ℚ) * (999 / 20))
  rw [abs_le] at hround
  have hone : (1 : ℚ) ≤ clip.length := by exact_mod_cast hclip
  have hspan' : (1 : ℚ) ≤ audioSourceSpan source clip.length := by exact_mod_cast hpos
  set after := (rescaledClip 20 999 clip).length with hafter
  have hle : (roundHalfAway ((clip.length : ℚ) * (999 / 20)) : ℚ) ≤ after := by
    rw [hlength, rescaledLength]
    exact_mod_cast le_max_right _ _
  have hlong : (49 : ℚ) * clip.length ≤ after := by linarith
  have hafterpos : (0 : ℚ) < after := by linarith
  have hnot : ¬after ≤ 0 := not_le.2 (by exact_mod_cast hafterpos)
  have hratio : ∀ length : ℤ, 0 < length →
      audioStretchRatio source length = audioSourceSpan source clip.length / length := by
    intro length hlength
    rw [audioStretchRatio, if_neg (by rw [hmode]; decide), hspan length,
      if_neg (by rw [not_or]; exact ⟨not_le.2 hpos, not_le.2 hlength⟩)]
  rw [hratio clip.length hclip, hratio after (not_le.1 hnot)]
  generalize (audioSourceSpan source clip.length : ℚ) = span at hspan'
  have hclip' : (0 : ℚ) < clip.length := by linarith
  have hle : span / clip.length ≤ span := div_le_self (by linarith) hone
  -- and the rate falls with it
  have habs : |span / after - span / clip.length| * after =
      span / clip.length * after - span := by
    have hmono : span / after ≤ span / clip.length :=
      div_le_div_of_nonneg_left (by linarith) hclip' (by linarith)
    rw [abs_of_nonpos (by linarith), neg_sub, sub_mul, div_mul_cancel₀ _ hafterpos.ne']
  have hmul : span * 49 ≤ span / clip.length * after := by
    rw [div_mul_eq_mul_div, le_div_iff₀ hclip', mul_assoc]
    exact mul_le_mul_of_nonneg_left hlong (by linarith)
  rw [habs]
  linarith

/-- **A clip plays the same at all tempos exactly when it plays its whole file.** -/
theorem keepsPlayback_iff (clip : Clip) :
    KeepsPlayback clip ↔ ∀ source, clip.audio = some source → PlaysWholeFile clip source := by
  constructor
  · intro h source haudio
    obtain ⟨after, hafter, hsame⟩ := h 48000 20 999 (by norm_num) _
      (show playback 48000 20 clip = some (resolveClipPlayback 48000 20 clip source) by
        rw [playback, haudio]; rfl)
    rw [playback, rescaledClip_audio, haudio] at hafter
    obtain rfl := Option.some.inj hafter
    refine ⟨abs_le_one_of_sameFrames hsame.startFrame, ?_, fun hmode => ?_⟩
    · by_contra hlong
      have hpos : 0 < source.sourceLength := by omega
      have hframes := hsame.lengthFrames
      simp only [resolveClipPlayback, if_pos hpos] at hframes
      have := (abs_le.1 (abs_le_one_of_sameFrames hframes)).2
      omega
    · by_contra hnot
      rw [not_or, not_and_or, not_le, not_le, not_le] at hnot
      obtain ⟨hwindow, hclip⟩ := hnot
      -- the window does not depend on the length of the clip
      have hspan : (∀ length, audioSourceSpan source length = audioSourceSpan source clip.length) ∧
          0 < audioSourceSpan source clip.length := by
        simp only [audioSourceSpan]
        rcases hwindow with hlength | hoffset
        · simp [hlength]
        · split_ifs
          · exact ⟨fun _ => rfl, by omega⟩
          · exact ⟨fun _ => rfl, by omega⟩
      have hrate := hsame.rate (by simp [resolveClipPlayback, hmode])
      exact absurd hrate (not_le.2 (not_sameRate hmode haudio hclip hspan.1 hspan.2))
  · intro h sampleRate fromTempo toTempo hrate before hbefore
    obtain ⟨source, haudio, rfl⟩ := Option.map_eq_some_iff.1 hbefore
    have hwhole := h source haudio
    have hafter : playback sampleRate toTempo (rescaledClip fromTempo toTempo clip) =
        some (resolveClipPlayback sampleRate toTempo (rescaledClip fromTempo toTempo clip)
          source) := by
      rw [playback, rescaledClip_audio, haudio, Option.map_some]
    refine ⟨_, hafter, ?_, ?_, fun hpitch => ?_⟩
    · exact sameFrames_of_abs_le_one hrate fromTempo toTempo hwhole.offset
    · simp only [resolveClipPlayback]
      split_ifs with hpos
      · have hone : |source.sourceLength| ≤ 1 := abs_le.2 ⟨by omega, hwhole.length⟩
        exact sameFrames_of_abs_le_one hrate fromTempo toTempo hone
      · exact sameFrames_zero hrate fromTempo toTempo
    · have hmode : source.stretchMode ≠ .stretch := by
        simpa [resolveClipPlayback] using hpitch
      have heq := rate_eq hwhole hmode fromTempo toTempo
      have hnonneg := ratio_nonneg source clip.length
      simp only [resolveClipPlayback, heq, sub_self, abs_zero, zero_mul]
      linarith

/-- A sample that starts a beat in. -/
def secondBeat : Clip :=
  { lane := ⟨1⟩, length := 960, source := .audio { destination := ⟨1⟩, sourceOffset := 960 } }

/-- **At half the tempo the clip starts a second into its file, and not half a second.** -/
theorem not_keepsPlayback_secondBeat :
    (playback 48000 120 secondBeat).map ClipPlayback.startFrame = some 24000 ∧
      (playback 48000 60 (rescaledClip 120 60 secondBeat)).map ClipPlayback.startFrame =
        some 48000 ∧
      ¬KeepsPlayback secondBeat := by
  refine ⟨by decide +kernel, by decide +kernel, fun h => ?_⟩
  obtain ⟨after, hafter, hsame⟩ := h 48000 120 60 (by norm_num) _ rfl
  obtain rfl := Option.some.inj hafter
  have hframes := hsame.startFrame
  revert hframes
  rw [SameFrames]
  decide +kernel

end SourceWindow

end OneBeat
