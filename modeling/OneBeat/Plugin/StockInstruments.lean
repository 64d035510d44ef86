import Mathlib.Data.List.FinRange
import Mathlib.Logic.Function.Basic
import OneBeat.Plugin.SamplerPlugin

/-!
# The stock instruments

The engines of `stock_plugins/piano`, `guitar` and `synth`, and the adapters that feed them CLAP
events: the piano, the guitar, the lowkey (the guitar's engine, an octave down), the synth and the
organ (the synth's engine).  An engine has 32 voices; a note-on claims one of them, a note-off lets
go those that match its address.

What the sample loop makes of a voice is open (`Rendered`): it may let the voice die, and it moves
its age and its levels.  Parameters reach the sound only, so an event that sets one leaves the
voices alone.

* `handleEvent` : what an instrument does with an event;
* `Sounding.handle` : the same, with the note-on that started each voice on record;
* `step_voice` : a moment starts a voice or keeps its address.
-/

namespace OneBeat

/-- What a note event is addressed to; a negative part stands for every value. -/
structure NoteAddress where
  noteId : ℤ
  channel : ℤ
  key : ℤ
  deriving DecidableEq

/-- Every note: what the host sends to stop all of them. -/
def NoteAddress.everyNote : NoteAddress := ⟨wildcard, wildcard, wildcard⟩

/-- What the engines read of a voice to claim it and to let it go.  The address is in three 16-bit
fields; the guitar has a release time, the other two an envelope. -/
structure StockVoice where
  active : Bool := false
  released : Bool := false
  address : NoteAddress := ⟨-1, 0, 60⟩
  envelope : Double := 0
  releaseTime : Double := 0
  /-- In seconds of sound; 0 until the voice has been rendered. -/
  age : Double := 0

abbrev StockVoices := Fin 32 → StockVoice

namespace StockVoice

/-- A note-on sets a voice up. -/
def started (address : NoteAddress) (envelope : Double) : StockVoice :=
  { active := true, address, envelope }

/-- The piano and the synth let a voice go. -/
def letGo (choke : Bool) (voice : StockVoice) : StockVoice :=
  if choke then { voice with active := false, envelope := 0 } else { voice with released := true }

/-- A voice that sounds and has not been let go. -/
def Held (voice : StockVoice) : Prop := voice.active = true ∧ voice.released = false

instance (voice : StockVoice) : Decidable voice.Held :=
  inferInstanceAs (Decidable (_ ∧ _))

end StockVoice

namespace StockVoices

def firstInactive (voices : StockVoices) : Option (Fin 32) :=
  (List.finRange 32).find? fun i => !(voices i).active

/-- One turn of the loop that looks for a voice to steal. -/
def quieter (voices : StockVoices) (selected : Option (Fin 32)) (i : Fin 32) : Option (Fin 32) :=
  if (voices i).age.le 0 then selected
  else match selected with
    | none => some i
    | some j =>
      if (voices i).released ≠ (voices j).released then
        if (voices i).released then some i else some j
      else if (voices i).envelope.lt (voices j).envelope then some i else some j

/-- The quietest voice, one that has been let go before one that is held. -/
def quietest (voices : StockVoices) : Option (Fin 32) :=
  (List.finRange 32).foldl voices.quieter none

/-- The eligible voice with the largest measure above the floor. -/
def longest (voices : StockVoices) (eligible : StockVoice → Bool) (measure : StockVoice → Double)
    (floor : Double) : Option (Fin 32) :=
  ((List.finRange 32).foldl
    (fun (best : Double × Option (Fin 32)) i =>
      if eligible (voices i) && best.1.lt (measure (voices i)) then (measure (voices i), some i)
      else best)
    (floor, none)).2

/-- The claimed voice is started; no claim, and the note is dropped. -/
def start (voices : StockVoices) (claimed : Option (Fin 32)) (voice : StockVoice) : StockVoices :=
  match claimed with
  | none => voices
  | some i => Function.update voices i voice

end StockVoices

/-- `static_cast<int16_t>` of each part. -/
def NoteAddress.narrowed (note : NoteAddress) : NoteAddress :=
  ⟨int16 note.noteId, int16 note.channel, int16 note.key⟩

/-- `0.0001` -/
def attackEnvelope : Double := BinaryFormat.double.ofRat (1 / 10000)

/-! ### The engines -/

namespace PianoEngine

def voiceMatches (voice : StockVoice) (note : NoteAddress) : Bool :=
  if !voice.active then false
  else if 0 ≤ note.noteId ∧ voice.address.noteId ≠ note.noteId then false
  else if 0 ≤ note.channel ∧ voice.address.channel ≠ note.channel then false
  else decide (note.key < 0 ∨ voice.address.key = note.key)

def selected (voices : StockVoices) : Option (Fin 32) :=
  voices.firstInactive.or voices.quietest

def noteOn (voices : StockVoices) (note : NoteAddress) : StockVoices :=
  voices.start (selected voices) (.started note.narrowed attackEnvelope)

def noteOff (voices : StockVoices) (note : NoteAddress) (choke : Bool) : StockVoices := fun i =>
  if voiceMatches (voices i) note then (voices i).letGo choke else voices i

end PianoEngine

namespace GuitarEngine

/-- With both note ids there they decide; otherwise channel and key do, as they stand. -/
def voiceMatches (voice : StockVoice) (note : NoteAddress) : Bool :=
  if !voice.active then false
  else if 0 ≤ note.noteId ∧ 0 ≤ voice.address.noteId then voice.address.noteId = note.noteId
  else voice.address.channel = note.channel ∧ voice.address.key = note.key

/-- The voice furthest into its release, or else the oldest. -/
def target (voices : StockVoices) : Option (Fin 32) :=
  (voices.firstInactive.or
    (voices.longest (fun voice => Double.lt 0 voice.age && voice.released) StockVoice.releaseTime
      (.finite (-1)))).or
    (voices.longest (fun _ => true) StockVoice.age 0)

def noteOff (voices : StockVoices) (note : NoteAddress) (choke : Bool) : StockVoices := fun i =>
  if voiceMatches (voices i) note then
    { voices i with released := true, active := if choke then false else (voices i).active }
  else voices i

def noteOn (voices : StockVoices) (note : NoteAddress) (velocity : Double) : StockVoices :=
  if velocity.le 0 then noteOff voices note false
  else voices.start (target voices) (.started note.narrowed 0)

end GuitarEngine

namespace SynthEngine

def voiceMatches (voice : StockVoice) (note : NoteAddress) : Bool :=
  if !voice.active then false
  else if 0 ≤ note.noteId ∧ 0 ≤ voice.address.noteId ∧ voice.address.noteId ≠ note.noteId then false
  else if 0 ≤ note.channel ∧ voice.address.channel ≠ note.channel then false
  else if 0 ≤ note.key ∧ voice.address.key ≠ note.key then false
  else true

def selected (voices : StockVoices) : Option (Fin 32) :=
  voices.firstInactive.or voices.quietest

def noteOff (voices : StockVoices) (note : NoteAddress) (choke : Bool) : StockVoices :=
  let matched := (List.finRange 32).any fun i => voiceMatches (voices i) note
  let after : StockVoices := fun i =>
    if voiceMatches (voices i) note then (voices i).letGo choke else voices i
  -- a note-off without a note id that matches nothing lets every voice go
  if !matched && note.noteId < 0 then
    fun i => if (after i).active then (after i).letGo choke else after i
  else after

/-- The address a voice is stored under, with the key on the keyboard. -/
def stored (note : NoteAddress) : NoteAddress :=
  ⟨int16 note.noteId, int16 note.channel, int16 (max 0 (min note.key 127))⟩

def noteOn (voices : StockVoices) (note : NoteAddress) (velocity : Double) : StockVoices :=
  if velocity.le 0 then noteOff voices note false
  else voices.start (selected voices) (.started (stored note) attackEnvelope)

end SynthEngine

/-! ### The adapters -/

/-- A CLAP event as far as an adapter reads it. -/
inductive ClapEvent
  | noteOn (note : NoteAddress) (velocity : Double)
  | noteOff (note : NoteAddress)
  | noteChoke (note : NoteAddress)
  | paramValue (id : ℕ) (value : Double)
  | midi (data0 data1 data2 : UInt8)
  /-- Of another space, or of a type no adapter reads. -/
  | other

/-- What an event asks of the engine. -/
inductive NoteCall
  | on (note : NoteAddress) (velocity : Double)
  | off (note : NoteAddress) (choke : Bool)

inductive StockInstrument
  | piano | guitar | lowkey | synth | organ
  deriving DecidableEq

/-- A MIDI message has no note id. -/
def midiNote (data0 data1 : UInt8) : NoteAddress :=
  ⟨-1, ((data0 &&& 0x0f).toNat : ℤ), ((data1 &&& 0x7f).toNat : ℤ)⟩

def midiCall (data0 data1 data2 : UInt8) : Option NoteCall :=
  let status := data0 &&& 0xf0
  let velocity := data2 &&& 0x7f
  if status = 0x90 ∧ 0 < velocity then
    some (.on (midiNote data0 data1) ((Double.ofInt velocity.toNat).div (.finite 127)))
  else if status = 0x80 ∨ (status = 0x90 ∧ velocity = 0) then
    some (.off (midiNote data0 data1) false)
  else none

/-- Lowkey is tuned down one octave at the note boundary. -/
def lowered (note : NoteAddress) : NoteAddress := { note with key := max 0 (note.key - 12) }

namespace StockInstrument

/-- The note an event is about; the lowkey does not read MIDI. -/
def noteCall (instrument : StockInstrument) : ClapEvent → Option NoteCall
  | .noteOn note velocity => some (.on note velocity)
  | .noteOff note => some (.off note false)
  | .noteChoke note => some (.off note true)
  | .paramValue _ _ => none
  | .midi data0 data1 data2 => if instrument = lowkey then none else midiCall data0 data1 data2
  | .other => none

def perform (instrument : StockInstrument) (voices : StockVoices) : NoteCall → StockVoices
  | .on note velocity => match instrument with
    | piano => PianoEngine.noteOn voices note
    | guitar => GuitarEngine.noteOn voices note velocity
    | lowkey => GuitarEngine.noteOn voices (lowered note) velocity
    | synth | organ => SynthEngine.noteOn voices note velocity
  | .off note choke => match instrument with
    | piano => PianoEngine.noteOff voices note choke
    | guitar => GuitarEngine.noteOff voices note choke
    | lowkey => GuitarEngine.noteOff voices (lowered note) choke
    | synth | organ => SynthEngine.noteOff voices note choke

def handleEvent (instrument : StockInstrument) (voices : StockVoices) (event : ClapEvent) :
    StockVoices :=
  match instrument.noteCall event with
  | none => voices
  | some call => instrument.perform voices call

/-- The address under which a note-on stores its voice. -/
def stored (instrument : StockInstrument) (note : NoteAddress) : NoteAddress :=
  match instrument with
  | piano | guitar => note.narrowed
  | lowkey => (lowered note).narrowed
  | synth | organ => SynthEngine.stored note

/-- The voice that a call starts, with the note that it starts on it. -/
def starts (instrument : StockInstrument) (voices : StockVoices) :
    NoteCall → Option (Fin 32 × NoteAddress)
  | .on note velocity => match instrument with
    | piano => (PianoEngine.selected voices).map (·, note)
    | guitar | lowkey =>
      if velocity.le 0 then none else (GuitarEngine.target voices).map (·, note)
    | synth | organ =>
      if velocity.le 0 then none else (SynthEngine.selected voices).map (·, note)
  | .off _ _ => none

end StockInstrument

/-- What the sample loop leaves of a voice. -/
structure Rendered where
  survives : Bool
  envelope : Double
  releaseTime : Double
  age : Double

def StockVoice.render (voice : StockVoice) (rendered : Rendered) : StockVoice :=
  if voice.active then
    { voice with
      active := rendered.survives
      envelope := rendered.envelope
      releaseTime := if voice.released then rendered.releaseTime else voice.releaseTime
      age := rendered.age }
  else voice

/-- The adapter's loop: an event, or a stretch of sound between two of them. -/
inductive StockMoment
  | event (event : ClapEvent)
  | render (rendered : Fin 32 → Rendered)

/-- The voices, with the note-on that started each: what nothing in an engine reads. -/
structure Sounding where
  voices : StockVoices := fun _ => {}
  startedBy : Fin 32 → NoteAddress := fun _ => ⟨-1, 0, 60⟩

namespace Sounding

def handle (instrument : StockInstrument) (s : Sounding) (event : ClapEvent) : Sounding where
  voices := instrument.handleEvent s.voices event
  startedBy := match (instrument.noteCall event).bind (instrument.starts s.voices) with
    | none => s.startedBy
    | some (i, note) => Function.update s.startedBy i note

def step (instrument : StockInstrument) (s : Sounding) : StockMoment → Sounding
  | .event event => s.handle instrument event
  | .render rendered => { s with voices := fun i => (s.voices i).render (rendered i) }

/-- From a fresh plug-in. -/
def run (instrument : StockInstrument) (moments : List StockMoment) : Sounding :=
  moments.foldl (step instrument) {}

end Sounding


/-! ### What a moment leaves of a voice -/

/-- A voice that is not started keeps its address and does not come back. -/
structure StockVoice.KeptBy (voice after : StockVoice) : Prop where
  address : after.address = voice.address
  active : after.active = true → voice.active = true
  released : voice.released = true → after.released = true

namespace StockVoice

theorem KeptBy.refl (voice : StockVoice) : voice.KeptBy voice := ⟨rfl, id, id⟩

theorem KeptBy.trans {a b c : StockVoice} (hab : a.KeptBy b) (hbc : b.KeptBy c) : a.KeptBy c :=
  ⟨hbc.address.trans hab.address, hab.active ∘ hbc.active, hbc.released ∘ hab.released⟩

theorem keptBy_letGo (choke : Bool) (voice : StockVoice) : voice.KeptBy (voice.letGo choke) := by
  cases choke
  · exact ⟨rfl, id, fun _ => rfl⟩
  · exact ⟨rfl, by simp [letGo], id⟩

theorem keptBy_render (voice : StockVoice) (rendered : Rendered) :
    voice.KeptBy (voice.render rendered) := by
  rw [render]
  split
  next hactive => exact ⟨rfl, fun _ => hactive, id⟩
  next => exact .refl voice

end StockVoice

theorem PianoEngine.keptBy_noteOff (voices : StockVoices) (note : NoteAddress) (choke : Bool)
    (i : Fin 32) : (voices i).KeptBy (PianoEngine.noteOff voices note choke i) := by
  rw [PianoEngine.noteOff]
  split
  · exact StockVoice.keptBy_letGo choke _
  · exact .refl _

theorem GuitarEngine.keptBy_noteOff (voices : StockVoices) (note : NoteAddress) (choke : Bool)
    (i : Fin 32) : (voices i).KeptBy (GuitarEngine.noteOff voices note choke i) := by
  rw [GuitarEngine.noteOff]
  split
  · refine ⟨rfl, ?_, fun _ => rfl⟩
    cases choke <;> simp
  · exact .refl _

theorem SynthEngine.keptBy_noteOff (voices : StockVoices) (note : NoteAddress) (choke : Bool)
    (i : Fin 32) : (voices i).KeptBy (SynthEngine.noteOff voices note choke i) := by
  have hmatched (voice : StockVoice) (p : Prop) [Decidable p] :
      voice.KeptBy (if p then voice.letGo choke else voice) := by
    split
    · exact StockVoice.keptBy_letGo choke voice
    · exact .refl voice
  rw [SynthEngine.noteOff]
  split
  · exact (hmatched _ _).trans (hmatched _ _)
  · exact hmatched _ _

/-- The claimed voice is the new one, and the others are not touched. -/
theorem StockVoices.start_voice (voices : StockVoices) (claimed : Option (Fin 32))
    (note : NoteAddress) (voice : StockVoice) (i : Fin 32) :
    (claimed.map (·, note) = some (i, note) ∧ voices.start claimed voice i = voice) ∨
      ((∀ note', claimed.map (·, note) ≠ some (i, note')) ∧
        (voices i).KeptBy (voices.start claimed voice i)) := by
  rcases claimed with - | j
  · exact .inr ⟨by simp, .refl _⟩
  · by_cases hij : i = j
    · exact .inl ⟨by simp [hij], by simp [start, hij]⟩
    · refine .inr ⟨by simp [Ne.symm hij], ?_⟩
      rw [start, Function.update_of_ne hij]
      exact .refl _

namespace StockInstrument

theorem keptBy_off (instrument : StockInstrument) (voices : StockVoices) (note : NoteAddress)
    (choke : Bool) (i : Fin 32) :
    (voices i).KeptBy (instrument.perform voices (.off note choke) i) := by
  cases instrument
  · exact PianoEngine.keptBy_noteOff voices note choke i
  · exact GuitarEngine.keptBy_noteOff voices note choke i
  · exact GuitarEngine.keptBy_noteOff voices (lowered note) choke i
  · exact SynthEngine.keptBy_noteOff voices note choke i
  · exact SynthEngine.keptBy_noteOff voices note choke i

/-- **A call starts a voice, under the address the instrument stores, or keeps it.** -/
theorem perform_voice (instrument : StockInstrument) (voices : StockVoices) (call : NoteCall)
    (i : Fin 32) :
    (∃ note envelope, instrument.starts voices call = some (i, note) ∧
      instrument.perform voices call i = .started (instrument.stored note) envelope) ∨
    ((∀ note, instrument.starts voices call ≠ some (i, note)) ∧
      (voices i).KeptBy (instrument.perform voices call i)) := by
  cases call with
  | off note choke => exact .inr ⟨by simp [starts], instrument.keptBy_off voices note choke i⟩
  | on note velocity =>
    by_cases hoff : instrument ≠ piano ∧ velocity.le 0 = true
    · -- a note-on without velocity is a note-off
      have hperform : instrument.perform voices (.on note velocity)
          = instrument.perform voices (.off note false) := by
        cases instrument <;> first | exact absurd rfl hoff.1 | exact if_pos hoff.2
      refine .inr ⟨?_, hperform ▸ instrument.keptBy_off voices note false i⟩
      cases instrument <;> simp_all [starts]
    · have hplays (h : instrument ≠ piano) : ¬velocity.le 0 = true := fun hle => hoff ⟨h, hle⟩
      have hclaimed : ∃ claimed envelope,
          instrument.starts voices (.on note velocity) = claimed.map (·, note) ∧
          instrument.perform voices (.on note velocity)
            = voices.start claimed (.started (instrument.stored note) envelope) := by
        cases instrument with
        | piano => exact ⟨_, _, rfl, rfl⟩
        | guitar | lowkey | synth | organ =>
          exact ⟨_, _, if_neg (hplays nofun), if_neg (hplays nofun)⟩
      obtain ⟨claimed, envelope, hstarts, hperform⟩ := hclaimed
      rw [hstarts, hperform]
      rcases voices.start_voice claimed note (.started (instrument.stored note) envelope) i with
        hnew | hkept
      · exact .inl ⟨note, envelope, hnew⟩
      · exact .inr hkept

end StockInstrument

/-! ### What stays true along a run -/

namespace Sounding

/-- A voice is stored under what its note-on was addressed to. -/
def Traced (instrument : StockInstrument) (s : Sounding) : Prop :=
  ∀ i, (s.voices i).active = true → (s.voices i).address = instrument.stored (s.startedBy i)

/-- Every voice was started by a note of the kind. -/
def StartedFrom (P : NoteAddress → Prop) (s : Sounding) : Prop :=
  ∀ i, (s.voices i).active = true → P (s.startedBy i)

/-- Every note-on of the moment is of the kind. -/
def Starts (instrument : StockInstrument) (P : NoteAddress → Prop) (moment : StockMoment) : Prop :=
  ∀ event note velocity, moment = .event event →
    instrument.noteCall event = some (.on note velocity) → P note

/-- **A moment starts a voice, or keeps it and the note on record.** -/
theorem step_voice (instrument : StockInstrument) (s : Sounding) (moment : StockMoment)
    (i : Fin 32) :
    (∃ event note velocity envelope, moment = .event event ∧
      instrument.noteCall event = some (.on note velocity) ∧
      (s.step instrument moment).voices i = .started (instrument.stored note) envelope ∧
      (s.step instrument moment).startedBy i = note) ∨
    ((s.voices i).KeptBy ((s.step instrument moment).voices i) ∧
      (s.step instrument moment).startedBy i = s.startedBy i) := by
  cases moment with
  | render rendered => exact .inr ⟨StockVoice.keptBy_render _ _, rfl⟩
  | event event =>
    rw [step, handle, StockInstrument.handleEvent]
    cases hcall : instrument.noteCall event with
    | none => exact .inr ⟨.refl _, rfl⟩
    | some call =>
      simp only [Option.bind_some]
      rcases instrument.perform_voice s.voices call i with
        ⟨note, envelope, hstarts, hvoice⟩ | ⟨hstarts, hkept⟩
      · -- only a note-on starts a voice
        obtain ⟨velocity, rfl⟩ : ∃ velocity, call = .on note velocity := by
          cases call with
          | off => simp [StockInstrument.starts] at hstarts
          | on note' velocity =>
            refine ⟨velocity, ?_⟩
            cases instrument <;> simp_all [StockInstrument.starts]
        exact .inl ⟨event, note, velocity, envelope, rfl, hcall, hvoice, by simp [hstarts]⟩
      · refine .inr ⟨hkept, ?_⟩
        cases hnew : instrument.starts s.voices call with
        | none => rfl
        | some new =>
          have hne : i ≠ new.1 := by
            rintro rfl
            exact hstarts new.2 hnew
          exact Function.update_of_ne hne _ _

theorem traced_step {instrument : StockInstrument} {s : Sounding} (h : s.Traced instrument)
    (moment : StockMoment) : (s.step instrument moment).Traced instrument := by
  intro i hactive
  rcases s.step_voice instrument moment i with
    ⟨event, note, velocity, envelope, -, -, hvoice, hnote⟩ | ⟨hkept, hnote⟩
  · rw [hvoice, hnote]
    rfl
  · rw [hkept.address, hnote]
    exact h i (hkept.active hactive)

theorem startedFrom_step {instrument : StockInstrument} {P : NoteAddress → Prop} {s : Sounding}
    (h : s.StartedFrom P) {moment : StockMoment} (hmoment : Starts instrument P moment) :
    (s.step instrument moment).StartedFrom P := by
  intro i hactive
  rcases s.step_voice instrument moment i with
    ⟨event, note, velocity, envelope, hevent, hcall, -, hnote⟩ | ⟨hkept, hnote⟩
  · rw [hnote]
    exact hmoment event note velocity hevent hcall
  · rw [hnote]
    exact h i (hkept.active hactive)

theorem run_concat (instrument : StockInstrument) (moments : List StockMoment)
    (moment : StockMoment) :
    run instrument (moments ++ [moment]) = (run instrument moments).step instrument moment := by
  simp [run]

/-- In every state a run comes to, the voices are stored under what started them. -/
theorem traced_run (instrument : StockInstrument) (moments : List StockMoment) :
    (run instrument moments).Traced instrument := by
  induction moments using List.reverseRecOn with
  | nil =>
    intro i hactive
    cases hactive
  | append_singleton moments moment ih =>
    rw [run_concat]
    exact traced_step ih moment

theorem startedFrom_run {instrument : StockInstrument} {P : NoteAddress → Prop}
    {moments : List StockMoment} (h : ∀ moment ∈ moments, Starts instrument P moment) :
    (run instrument moments).StartedFrom P := by
  induction moments using List.reverseRecOn with
  | nil =>
    intro i hactive
    cases hactive
  | append_singleton moments moment ih =>
    rw [run_concat]
    refine startedFrom_step (ih fun m hm => h m (List.mem_append_left _ hm)) (h moment ?_)
    exact List.mem_append_right _ (List.mem_singleton_self moment)

end Sounding

end OneBeat
