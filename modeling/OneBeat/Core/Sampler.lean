import OneBeat.Core.TimeStretch

/-!
# The sampler

`core/sampler.h` and `core/sampler.cpp`: a fixed number of voices; when all of them play, the oldest
is stolen, fades, and starts again with the note that is queued behind it.

What a voice does in a frame is a step (`plainFrame`, `fadeFrame`), and a call of `render` plays the
voices one after the other.  The output is a function of channel and frame.  The log is not
modelled.
-/

namespace OneBeat

/-- How a clip plays its file. -/
structure ClipPlayback (D : Type) where
  enabled : Bool := false
  startFrame : ℤ := 0
  lengthFrames : ℤ := 0
  reversed : Bool := false
  rate : D
  pitchPreserving : Bool := false

structure Voice (F D : Type) where
  active : Bool := false
  releasing : Bool := false
  note : ℤ := 0
  gain : F
  position : D
  rate : D
  fade : F
  fadeStep : F
  /-- When it was started. -/
  order : ℕ := 0
  /-- What starts after the fade; negative if nothing. -/
  pendingNote : ℤ := -1
  pendingVelocity : F
  windowStart : ℤ := 0
  windowLength : ℤ := 0
  reversed : Bool := false
  stretching : Bool := false

/-- What rendering only reads. -/
structure Patch (F D : Type) where
  sample : Option (SampleData F D)
  clip : ClipPlayback D
  maxBlockFrames : ℕ
  sampleRate : D
  releaseStep : F
  stealStep : F

/-- What the voices share. -/
structure Shared (F D : Type) where
  stretch : TimeStretch F D
  orderCounter : ℕ := 0

structure Sampler (F D : Type) where
  patch : Patch F D
  shared : Shared F D
  voices : List (Voice F D)

/-- Some channels of some frames, as a function of channel and frame. -/
structure AudioBuffer (F : Type) where
  numChannels : ℕ
  channel : ℕ → ℕ → F

namespace Sampler

def maxVoices : ℕ := 32
def rootNote : ℤ := 60

variable {F D : Type} [FloatOps F] [DoubleOps D]

/-- `Voice{}`. -/
def idleVoice : Voice F D where
  gain := 0
  position := 0
  rate := 1
  fade := 1
  fadeStep := 0
  pendingVelocity := 0

/-- Make the sampler ready; a fallback is played when there is no sample. -/
def prepare [Narrow F D] (s : Sampler F D) (fallback : SampleData F D) (sampleRate : D)
    (maxBlockFrames : ℤ) : Sampler F D :=
  let step (seconds : ℚ) : F := narrow (1 / (ofRat seconds * sampleRate))
  { patch := { s.patch with
      sample := some (s.patch.sample.getD fallback)
      maxBlockFrames := if 0 < maxBlockFrames then maxBlockFrames.toNat else 1
      sampleRate
      releaseStep := step (8 / 1000)
      stealStep := step (2 / 1000) }
    shared := { s.shared with stretch := s.shared.stretch.prepare TimeStretch.maxChannels }
    voices := List.replicate maxVoices idleVoice }

/-! ### Starting and releasing -/

/-- The clip keeps its pitch at another speed. -/
def stretches (clip : ClipPlayback D) : Bool :=
  clip.pitchPreserving && !FloatOps.eq clip.rate 1

variable (patch : Patch F D)

/-- The voice starts to play the note. -/
def startVoice (shared : Shared F D) (voice : Voice F D) (note : ℤ) (velocity : F) :
    Voice F D × Shared F D :=
  let sourceRate := match patch.sample with
    | some sample => sample.sampleRate
    | none => patch.sampleRate
  let sourceFrames := match patch.sample with
    | some sample => sample.frames
    | none => 0
  let order := shared.orderCounter + 1
  let started := { voice with
    active := true
    releasing := false
    note
    gain := velocity
    position := 0
    fade := 1
    fadeStep := 0
    pendingNote := -1
    order
    stretching := false
    reversed := false
    windowStart := 0
    windowLength := sourceFrames }
  let shared := { shared with orderCounter := order }
  let deviceRatio := sourceRate / patch.sampleRate
  if !patch.clip.enabled then
    let semitones : D := ofInt (note - rootNote)
    ({ started with rate := DoubleOps.pow (ofRat 2) (semitones / ofRat 12) * deviceRatio }, shared)
  else
    let clip := patch.clip
    let start := if clip.startFrame < 0 then 0 else clip.startFrame
    let remaining := if start < sourceFrames then sourceFrames - start else 0
    let length :=
      if 0 < clip.lengthFrames ∧ clip.lengthFrames < remaining then clip.lengthFrames else remaining
    let windowed := { started with
      windowStart := start
      windowLength := length
      reversed := clip.reversed
      stretching := stretches clip }
    if stretches clip then
      ({ windowed with rate := deviceRatio }, { shared with stretch := shared.stretch.reset })
    else ({ windowed with rate := clip.rate * deviceRatio }, shared)

/-- The first voice that is free starts. -/
def startFree (shared : Shared F D) (note : ℤ) (velocity : F) :
    List (Voice F D) → Option (List (Voice F D) × Shared F D)
  | [] => none
  | voice :: voices =>
    if !voice.active then
      let started := startVoice patch shared voice note velocity
      some (started.1 :: voices, started.2)
    else
      match startFree shared note velocity voices with
      | some (voices, shared) => some (voice :: voices, shared)
      | none => none

/-- The voice fades, and the note is queued behind it. -/
def steal (note : ℤ) (velocity : F) (voice : Voice F D) : Voice F D :=
  { voice with
    releasing := true, fadeStep := patch.stealStep, pendingNote := note, pendingVelocity := velocity }

/-- The place of the first voice with the lowest order. -/
def oldest (voices : List (Voice F D)) : ℕ :=
  match voices with
  | [] => 0
  | first :: _ =>
    (voices.zipIdx.foldl (fun (best : ℕ × ℕ) (voice : Voice F D × ℕ) =>
      if voice.1.order < best.1 then (voice.1.order, voice.2) else best) (first.order, 0)).2

def noteOn (s : Sampler F D) (note : ℤ) (velocity : F) : Sampler F D :=
  match startFree s.patch s.shared note velocity s.voices with
  | some (voices, shared) => { s with voices, shared }
  | none => { s with voices := s.voices.modify (oldest s.voices) (steal s.patch note velocity) }

def noteOff (s : Sampler F D) (note : ℤ) : Sampler F D :=
  { s with voices := s.voices.map fun voice =>
      if voice.active && !voice.releasing && voice.note = note then
        { voice with releasing := true, fadeStep := s.patch.releaseStep }
      else voice }

def allNotesOff (s : Sampler F D) : Sampler F D :=
  { s with voices := s.voices.map fun voice =>
      if voice.active && !voice.releasing then
        { voice with releasing := true, fadeStep := s.patch.releaseStep, pendingNote := -1 }
      else voice }

def activeVoices (s : Sampler F D) : ℕ := s.voices.countP Voice.active

/-! ### Rendering -/

/-- The window of the voice, in the sample that is there now. -/
def windowFor (voice : Voice F D) (sample : Option (SampleData F D)) : SourceWindow F D :=
  match sample with
  | none => {}
  | some data =>
    if data.frames ≤ 0 then {}
    else
      let start := if voice.windowStart < data.frames then voice.windowStart else 0
      let remaining := data.frames - start
      { sample
        start
        length := if voice.windowLength < remaining then voice.windowLength else remaining
        reversed := voice.reversed }

/-- What a frame is to a voice: nothing is left to play; it goes on; or its fade is over. -/
inductive Frame (F D : Type)
  | spent (voice : Voice F D)
  | played (value : ℕ → F) (voice : Voice F D)
  | faded (value : ℕ → F) (voice : Voice F D)

/-- One frame of a voice that is not stretched. -/
def plainFrame [Narrow F D] (window : SourceWindow F D) (voice : Voice F D) : Frame F D :=
  if FloatOps.le (ofInt (window.length - 1)) voice.position then
    .spent { voice with active := false }
  else
    let amplitude := voice.gain * voice.fade
    let value channel := window.read voice.position channel * amplitude
    let voice := { voice with position := voice.position + voice.rate }
    if voice.releasing then
      let voice := { voice with fade := voice.fade - voice.fadeStep }
      if FloatOps.le voice.fade 0 then .faded value voice else .played value voice
    else .played value voice

/-- One frame of a stretched voice, of what the stretcher has produced. -/
def fadeFrame (produced : ℕ → F) (voice : Voice F D) : Frame F D :=
  let amplitude := voice.gain * voice.fade
  let value channel := produced channel * amplitude
  if !voice.releasing then .played value voice
  else
    let voice := { voice with fade := voice.fade - voice.fadeStep }
    if FloatOps.lt 0 voice.fade then .played value voice else .faded value voice

/-- How some frames end for a voice: it goes on, it has ended, or its fade is over. -/
inductive Ending (F D : Type)
  | goesOn (voice : Voice F D)
  | ended (voice : Voice F D)
  | faded (voice : Voice F D)

/-- A voice plays frame after frame, until it ends or its fade is over. -/
def play {α : Type} (frame : α → Voice F D → Frame F D) :
    List α → Voice F D → List (ℕ → F) × Ending F D
  | [], voice => ([], .goesOn voice)
  | input :: inputs, voice =>
    match frame input voice with
    | .spent voice => ([], .ended voice)
    | .faded value voice => ([value], .faded voice)
    | .played value voice =>
      let rest := play frame inputs voice
      (value :: rest.1, rest.2)

/-- The frames of a voice that is not stretched. -/
def playPlain [Narrow F D] (window : SourceWindow F D) (numFrames : ℕ) (voice : Voice F D) :
    List (ℕ → F) × Ending F D :=
  play (fun _ => plainFrame window) (List.replicate numFrames ()) voice

/-- The plane that a channel is served from. -/
def ofPlanes (planes : ℕ) (produced : ℕ → F) (channel : ℕ) : F :=
  produced (if channel < planes then channel else planes - 1)

/-- The voice ends with its window, and not only when the next frames are asked for. -/
def Ending.spentIf (spent : Bool) : Ending F D → Ending F D
  | .goesOn voice => if spent then .ended { voice with active := false } else .goesOn voice
  | ending => ending

/-- The frames of a stretched voice; also the stretcher after them. -/
def renderStretchedVoice [Narrow F D] (window : SourceWindow F D) (outChannels numFrames : ℕ)
    (stretch : TimeStretch F D) (voice : Voice F D) :
    (List (ℕ → F) × Ending F D) × TimeStretch F D :=
  let planes := min outChannels TimeStretch.maxChannels
  let frames := min numFrames patch.maxBlockFrames
  if frames = 0 ∨ planes = 0 then (([], .goesOn voice), stretch)
  else
    let (produced, stretch) := stretch.render window.source patch.clip.rate frames
    let (played, ending) := play fadeFrame (produced.map (ofPlanes planes)) voice
    ((played, ending.spentIf (produced.length < frames || stretch.finished)), stretch)

/-- The frames of a voice, how they end, and the stretcher after them. -/
def playVoice [Narrow F D] (outChannels numFrames : ℕ) (stretch : TimeStretch F D)
    (voice : Voice F D) : (List (ℕ → F) × Ending F D) × TimeStretch F D :=
  if !voice.active then (([], .goesOn voice), stretch)
  else
    let window := windowFor voice patch.sample
    if !window.valid then (([], .ended { voice with active := false }), stretch)
    else if voice.stretching then
      renderStretchedVoice patch window outChannels numFrames stretch voice
    else (playPlain window numFrames voice, stretch)

/-- The fade is over: the voice ends, or the queued note starts. -/
def fadedOut (shared : Shared F D) (voice : Voice F D) : Voice F D × Shared F D :=
  let ended := { voice with fade := 0, active := false }
  if 0 ≤ ended.pendingNote then
    startVoice patch shared ended ended.pendingNote ended.pendingVelocity
  else (ended, shared)

/-- What becomes of a voice. -/
def Ending.finish (shared : Shared F D) : Ending F D → Voice F D × Shared F D
  | .goesOn voice => (voice, shared)
  | .ended voice => (voice, shared)
  | .faded voice => fadedOut patch shared voice

/-- Add frames to the output. -/
def mix (output : AudioBuffer F) (startFrame : ℕ) (frames : List (ℕ → F)) : AudioBuffer F :=
  { output with channel := fun c f =>
      if c < output.numChannels ∧ startFrame ≤ f then
        match frames[f - startFrame]? with
        | some value => output.channel c f + value c
        | none => output.channel c f
      else output.channel c f }

/-- The voices play one after the other. -/
def renderVoices [Narrow F D] (startFrame numFrames : ℕ) :
    List (Voice F D) → Shared F D → AudioBuffer F → List (Voice F D) × Shared F D × AudioBuffer F
  | [], shared, output => ([], shared, output)
  | voice :: voices, shared, output =>
    let ((frames, ending), stretch) :=
      playVoice patch output.numChannels numFrames shared.stretch voice
    let (voice, shared) := ending.finish patch { shared with stretch }
    let rest := renderVoices startFrame numFrames voices shared (mix output startFrame frames)
    (voice :: rest.1, rest.2)

def render [Narrow F D] (s : Sampler F D) (output : AudioBuffer F) (startFrame numFrames : ℕ) :
    Sampler F D × AudioBuffer F :=
  let (voices, shared, output) := renderVoices s.patch startFrame numFrames s.voices s.shared output
  ({ s with voices, shared }, output)

/-- Before `prepare`, without a sample. -/
def unprepared : Sampler IeeeFloat IeeeDouble where
  patch :=
    { sample := none, clip := { rate := 1 }, maxBlockFrames := 0, sampleRate := ofRat 48000,
      releaseStep := 0, stealStep := 0 }
  shared := { stretch := .unprepared }
  voices := List.replicate maxVoices idleVoice

/-! ### What a start and a frame can do -/

theorem startVoice_eq (patch : Patch F D) (shared : Shared F D) (voice : Voice F D) (note : ℤ)
    (velocity : F) :
    let started := (startVoice patch shared voice note velocity).1
    started.note = note ∧ started.pendingNote = -1 ∧ started.active = true ∧
      started.releasing = false := by
  unfold startVoice
  dsimp only
  split
  · exact ⟨rfl, rfl, rfl, rfl⟩
  · split <;> exact ⟨rfl, rfl, rfl, rfl⟩

/-- The voice has moved on in its sample and in its fade. -/
def moved (voice : Voice F D) (position : D) (fade : F) : Voice F D := { voice with position, fade }

/-- The frames of a voice: it ends, it moves on, or it was releasing and its fade is over. -/
inductive FrameStep (voice : Voice F D) : Frame F D → Prop
  | spent : FrameStep voice (.spent { voice with active := false })
  | played value position fade : FrameStep voice (.played value (moved voice position fade))
  | faded value position fade (hreleasing : voice.releasing = true) :
    FrameStep voice (.faded value (moved voice position fade))

theorem plainFrame_step [Narrow F D] (window : SourceWindow F D) (voice : Voice F D) :
    FrameStep voice (plainFrame window voice) := by
  unfold plainFrame
  dsimp only
  split
  · exact .spent
  · split
    · split
      · exact .faded _ _ _ ‹_›
      · exact .played _ _ _
    · exact .played _ _ _

omit [DoubleOps D] in
theorem fadeFrame_step (produced : ℕ → F) (voice : Voice F D) :
    FrameStep voice (fadeFrame produced voice) := by
  unfold fadeFrame
  dsimp only
  split
  · exact .played _ _ _
  · split
    · exact .played _ _ _
    · refine .faded _ _ _ ?_
      simp_all

end Sampler

end OneBeat
