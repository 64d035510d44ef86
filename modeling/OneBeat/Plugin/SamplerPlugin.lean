import Mathlib.Tactic.Linarith
import OneBeat.Core.Sampler
import OneBeat.Plugin.Event

/-!
# The built-in sampler as a plug-in

`plugin/builtin/sampler_plugin.cpp`, with `ParamInfo` and `ModulatedValue` of
`plugin/parameters.h`: the sampler behind the events of a block.  A note sounds transposed by a
parameter, which may be automated and modulated while the note sounds.

The loop of `process` cuts the block at the frames of its events.  Where it cuts does not depend on
the sampler, so a block is a list of moments (`ProcessBlock.moments`).
-/

namespace OneBeat

/-- What the code reads of the description of a parameter. -/
structure ParamInfo where
  id : ℕ
  minValue : Double
  maxValue : Double
  defaultValue : Double

namespace ParamInfo

def clamp (info : ParamInfo) (value : Double) : Double :=
  if value.lt info.minValue then info.minValue
  else if info.maxValue.lt value then info.maxValue else value

end ParamInfo

/-- What the user has set, and an offset that is never written back. -/
structure ModulatedValue where
  base : Double
  modulation : Double

def ModulatedValue.effective (value : ModulatedValue) (info : ParamInfo) : Double :=
  info.clamp (value.base.add value.modulation)

/-- `static_cast<int16_t>`. -/
def int16 (n : ℤ) : ℤ := Int.bmod n (2 ^ 16)

structure SamplerPlugin (F D : Type) where
  gain : ModulatedValue := ⟨1, 0⟩
  transpose : ModulatedValue := ⟨0, 0⟩
  sampler : Sampler F D

/-- A block of frames, with the events in it; the output is there if the plug-in has a port. -/
structure ProcessBlock (F : Type) where
  frames : ℕ
  output : Option (AudioBuffer F)
  events : List PluginEvent

namespace SamplerPlugin

def gainParam : ParamInfo := ⟨1, 0, .finite 2, 1⟩

def transposeParam : ParamInfo := ⟨2, .finite (-24), .finite 24, 0⟩

variable {F D : Type} [FloatOps F] [DoubleOps D]

/-! ### Events -/

/-- The semitones that notes are transposed by. -/
def semitones (p : SamplerPlugin F D) : ℤ := int16 (p.transpose.effective transposeParam).truncate

/-- The note that sounds for a key. -/
def sounding (p : SamplerPlugin F D) (key : ℤ) : ℤ := int16 (key + p.semitones)

def applyEvent [Narrow F Double] (p : SamplerPlugin F D) (event : PluginEvent) :
    SamplerPlugin F D :=
  match event.type with
  | .noteOn =>
    let velocity : F := narrow (event.value.mul (p.gain.effective gainParam))
    { p with sampler := p.sampler.noteOn (p.sounding event.key) velocity }
  | .noteOff =>
    if event.key = wildcard then { p with sampler := p.sampler.allNotesOff }
    else { p with sampler := p.sampler.noteOff (p.sounding event.key) }
  | .noteChoke => { p with sampler := p.sampler.allNotesOff }
  | .paramValue =>
    if event.id = gainParam.id then
      { p with gain := { p.gain with base := gainParam.clamp event.value } }
    else if event.id = transposeParam.id then
      { p with transpose := { p.transpose with base := transposeParam.clamp event.value } }
    else p
  | .paramModulation =>
    if event.id = gainParam.id then { p with gain := { p.gain with modulation := event.value } }
    else if event.id = transposeParam.id then
      { p with transpose := { p.transpose with modulation := event.value } }
    else p
  | _ => p

/-! ### Blocks -/

/-- What the loop of `process` does: it starts on an output, renders some frames, applies an
event. -/
inductive Moment (F : Type)
  | start (output : AudioBuffer F)
  | render (startFrame numFrames : ℕ)
  | apply (event : PluginEvent)

/-- The frame up to which the loop renders next. -/
def nextCut (frames consumed : ℕ) : List PluginEvent → ℕ
  | [] => frames
  | event :: _ => if event.time < frames then max event.time consumed else frames

/-- The event is applied when the frames up to `consumed` are rendered. -/
def due (frames consumed : ℕ) (event : PluginEvent) : Bool :=
  event.time ≤ consumed && event.time < frames

theorem nextCut_cons (frames consumed : ℕ) (event : PluginEvent) (events : List PluginEvent) :
    nextCut frames consumed (event :: events) =
      if event.time < frames then max event.time consumed else frames := rfl

theorem le_nextCut {frames consumed : ℕ} (h : consumed < frames) (events : List PluginEvent) :
    consumed ≤ nextCut frames consumed events := by
  cases events with
  | nil => exact h.le
  | cons event events =>
    rw [nextCut_cons]
    split_ifs
    · exact le_max_right ..
    · exact h.le

/-- The loop renders some frames or comes to an event. -/
theorem cut_decreases {frames consumed : ℕ} (h : consumed < frames) (events : List PluginEvent) :
    frames - nextCut frames consumed events +
      (events.dropWhile (due frames (nextCut frames consumed events))).length <
      frames - consumed + events.length := by
  have hle := le_nextCut h events
  have hlength := (List.dropWhile_suffix (due frames (nextCut frames consumed events))
    (l := events)).length_le
  rcases hle.eq_or_lt with heq | hlt
  · cases events with
    | nil => exact absurd heq h.ne
    | cons event events =>
      have hdue : due frames (nextCut frames consumed (event :: events)) event = true := by
        rw [nextCut_cons] at heq ⊢
        split_ifs at heq ⊢ with htime
        · simp [due, htime]
        · exact absurd heq h.ne
      rw [List.dropWhile_cons_of_pos hdue]
      have := (List.dropWhile_suffix (due frames (nextCut frames consumed (event :: events)))
        (l := events)).length_le
      simp only [List.length_cons]
      omega
  · omega

/-- The loop of `process`, from the frame `consumed` and the first event not applied. -/
def cut (F : Type) (frames consumed : ℕ) (events : List PluginEvent) : List (Moment F) :=
  if h : consumed < frames then
    let next := nextCut frames consumed events
    let rendered := if consumed < next then [.render consumed (next - consumed)] else []
    let applied := (events.takeWhile (due frames next)).map .apply
    have := cut_decreases h events
    rendered ++ applied ++ cut F frames next (events.dropWhile (due frames next))
  else []
termination_by frames - consumed + events.length

end SamplerPlugin

open SamplerPlugin

/-- The moments of a block; without an output the plug-in fails. -/
def ProcessBlock.moments {F : Type} (block : ProcessBlock F) : List (Moment F) :=
  match block.output with
  | none => []
  | some output => .start output :: cut F block.frames 0 block.events

namespace SamplerPlugin

inductive ProcessStatus
  | error | continue | sleep
  deriving DecidableEq

variable {F D : Type} [FloatOps F] [DoubleOps D] [Narrow F D] [Narrow F Double]

/-- The plug-in and the output it is writing to. -/
abbrev Rendering (F D : Type) := SamplerPlugin F D × Option (AudioBuffer F)

def moment (s : Rendering F D) : Moment F → Rendering F D
  | .start output => (s.1, some output)
  | .render startFrame numFrames =>
    match s.2 with
    | none => s
    | some output =>
      let (sampler, output) := s.1.sampler.render output startFrame numFrames
      ({ s.1 with sampler }, some output)
  | .apply event => (s.1.applyEvent event, s.2)

instance : Narrow IeeeFloat Double where
  narrow value := ⟨value.toFloat⟩

/-- The moments, one after the other. -/
def run (s : Rendering F D) (moments : List (Moment F)) : Rendering F D := moments.foldl moment s

def process (p : SamplerPlugin F D) (block : ProcessBlock F) : ProcessStatus × Rendering F D :=
  let s := run (p, none) block.moments
  let status :=
    if block.output.isNone then .error
    else if 0 < s.1.sampler.activeVoices then .continue else .sleep
  (status, s)

/-- `onConfigure`, with the sample to play when there is none. -/
def configure (p : SamplerPlugin F D) (fallback : SampleData F D) (sampleRate : D)
    (maxBlockFrames : ℕ) : SamplerPlugin F D :=
  { p with sampler := p.sampler.prepare fallback sampleRate maxBlockFrames }

/-! ### The moments of a run -/

theorem run_append (s : Rendering F D) (before after : List (Moment F)) :
    run s (before ++ after) = run (run s before) after :=
  List.foldl_append ..

end SamplerPlugin

end OneBeat
