import OneBeat.Plugin.StockInstruments

/-!
# Which voices a note-off lets go

Each engine matches a note-off against the address its voices are stored under.  The piano and the
synth read a negative part as a wildcard, the guitar compares it; the piano compares the note id
with what 16 bits have left of it, the guitar lets it decide alone, the lowkey has a keyboard that
ends an octave higher, and the synth lets everything go if nothing matches.

* `perform_off` : a note-off lets go what it matches, and changes no other voice;
* `silenced_iff` : when a note-off to every note leaves nothing held;
* `endsItsOwn_iff` : when a note-off ends the voices of its note and none of another key.
-/

namespace OneBeat

theorem int16_eq {n : ℤ} (h₁ : -2 ^ 15 ≤ n) (h₂ : n < 2 ^ 15) : int16 n = n := by
  rw [int16]
  exact Int.bmod_eq_of_le (by omega) (by omega)

theorem int16_lt (n : ℤ) : int16 n < 2 ^ 15 := by
  rw [int16]
  have := Int.bmod_lt (x := n) (m := 2 ^ 16) (by omega)
  omega

namespace StockInstrument

/-- The note-off reaches the voice. -/
def LetsGo (instrument : StockInstrument) (voices : StockVoices) (note : NoteAddress) (i : Fin 32) :
    Prop :=
  match instrument with
  | piano => PianoEngine.voiceMatches (voices i) note = true
  | guitar => GuitarEngine.voiceMatches (voices i) note = true
  | lowkey => GuitarEngine.voiceMatches (voices i) (lowered note) = true
  | synth | organ =>
    SynthEngine.voiceMatches (voices i) note = true ∨
      note.noteId < 0 ∧ ∀ j, SynthEngine.voiceMatches (voices j) note = false

/-- **A note-off lets go what it reaches**; it ends no voice, and changes no other. -/
theorem perform_off (instrument : StockInstrument) (voices : StockVoices) (note : NoteAddress)
    {i : Fin 32} (hactive : (voices i).active = true) :
    (instrument.perform voices (.off note false) i).active = true ∧
      ((instrument.perform voices (.off note false) i).released = true ↔
        (voices i).released = true ∨ instrument.LetsGo voices note i) := by
  have hpiano : (PianoEngine.noteOff voices note false i).active = true ∧
      ((PianoEngine.noteOff voices note false i).released = true ↔
        (voices i).released = true ∨ PianoEngine.voiceMatches (voices i) note = true) := by
    rw [PianoEngine.noteOff]
    split <;> simp_all [StockVoice.letGo]
  have hguitar (note : NoteAddress) : (GuitarEngine.noteOff voices note false i).active = true ∧
      ((GuitarEngine.noteOff voices note false i).released = true ↔
        (voices i).released = true ∨ GuitarEngine.voiceMatches (voices i) note = true) := by
    rw [GuitarEngine.noteOff]
    split <;> simp_all
  have hsynth : (SynthEngine.noteOff voices note false i).active = true ∧
      ((SynthEngine.noteOff voices note false i).released = true ↔
        (voices i).released = true ∨ SynthEngine.voiceMatches (voices i) note = true ∨
          note.noteId < 0 ∧ ∀ j, SynthEngine.voiceMatches (voices j) note = false) := by
    rw [SynthEngine.noteOff]
    by_cases hany : ∃ j, SynthEngine.voiceMatches (voices j) note = true
    · have hnot : ¬∀ j, SynthEngine.voiceMatches (voices j) note = false := by
        obtain ⟨j, hj⟩ := hany
        exact fun h => Bool.false_ne_true ((h j).symm.trans hj)
      rw [if_neg (by simp [hany])]
      split <;> simp_all [StockVoice.letGo]
    · have hnone : ∀ j, SynthEngine.voiceMatches (voices j) note = false := by
        simpa using hany
      by_cases hid : note.noteId < 0
      · rw [if_pos (by simp [hnone, hid])]
        simp [hnone, hid, hactive, StockVoice.letGo]
      · rw [if_neg (by simp [hid])]
        simp [hnone, hid, hactive]
  cases instrument
  · exact hpiano
  · exact hguitar note
  · exact hguitar (lowered note)
  · exact hsynth
  · exact hsynth

end StockInstrument

namespace Sounding

variable {instrument : StockInstrument} {s : Sounding}

theorem handle_noteOff {event : ClapEvent} {note : NoteAddress}
    (h : instrument.noteCall event = some (.off note false)) :
    (s.handle instrument event).voices = instrument.perform s.voices (.off note false) := by
  rw [handle, StockInstrument.handleEvent, h]

/-! ### All notes off -/

/-- Every voice that still sounds has been let go. -/
def Silenced (s : Sounding) : Prop :=
  ∀ i, (s.voices i).active = true → (s.voices i).released = true

/-- The guitar has to have started what it holds on channel -1 and key -1, the lowkey on channel -1
and the lowest key it has. -/
def SilencedWhen (instrument : StockInstrument) (s : Sounding) : Prop :=
  match instrument with
  | .piano | .synth | .organ => True
  | .guitar => ∀ i, (s.voices i).Held →
      int16 (s.startedBy i).channel = -1 ∧ int16 (s.startedBy i).key = -1
  | .lowkey => ∀ i, (s.voices i).Held →
      int16 (s.startedBy i).channel = -1 ∧ int16 (max 0 ((s.startedBy i).key - 12)) = 0

/-- Nothing stays held exactly when the note-off reaches all that is. -/
theorem silenced_noteOff_iff (note : NoteAddress) :
    (s.handle instrument (.noteOff note)).Silenced ↔
      ∀ i, (s.voices i).Held → instrument.LetsGo s.voices note i := by
  have hoff : instrument.noteCall (.noteOff note) = some (.off note false) := rfl
  rw [Silenced, handle_noteOff hoff]
  constructor
  · intro h i hheld
    obtain ⟨hactive, hiff⟩ := instrument.perform_off s.voices note hheld.1
    exact (hiff.1 (h i hactive)).resolve_left (by simp [hheld.2])
  · intro h i hafter
    have hactive := (instrument.keptBy_off s.voices note false i).active hafter
    refine (instrument.perform_off s.voices note hactive).2.2 ?_
    cases hreleased : (s.voices i).released with
    | true => exact .inl rfl
    | false => exact .inr (h i ⟨hactive, hreleased⟩)

/-- **All notes off**: what the host sends on stop, seek and loop wrap leaves every voice released
exactly when what the guitar or the lowkey holds is stored under the wildcard itself. -/
theorem silenced_iff (instrument : StockInstrument) (moments : List StockMoment) :
    ((run instrument moments).handle instrument (.noteOff .everyNote)).Silenced ↔
      SilencedWhen instrument (run instrument moments) := by
  rw [silenced_noteOff_iff]
  have htraced := traced_run instrument moments
  generalize run instrument moments = s at htraced ⊢
  cases instrument with
  | piano =>
    refine iff_of_true (fun i hheld => ?_) trivial
    simp [StockInstrument.LetsGo, PianoEngine.voiceMatches, NoteAddress.everyNote, wildcard,
      hheld.1]
  | synth =>
    refine iff_of_true (fun i hheld => .inl ?_) trivial
    simp [SynthEngine.voiceMatches, NoteAddress.everyNote, wildcard, hheld.1]
  | organ =>
    refine iff_of_true (fun i hheld => .inl ?_) trivial
    simp [SynthEngine.voiceMatches, NoteAddress.everyNote, wildcard, hheld.1]
  | guitar =>
    refine forall₂_congr fun i hheld => ?_
    rw [StockInstrument.LetsGo, GuitarEngine.voiceMatches, htraced i hheld.1]
    simp [NoteAddress.everyNote, wildcard, hheld.1, StockInstrument.stored, NoteAddress.narrowed]
    exact decide_eq_true_iff
  | lowkey =>
    refine forall₂_congr fun i hheld => ?_
    rw [StockInstrument.LetsGo, GuitarEngine.voiceMatches, htraced i hheld.1]
    simp [NoteAddress.everyNote, wildcard, hheld.1, StockInstrument.stored, NoteAddress.narrowed,
      lowered]

/-- A string struck on the guitar rings on. -/
theorem not_silenced_guitar :
    ¬∀ (instrument : StockInstrument) (moments : List StockMoment),
      ((run instrument moments).handle instrument (.noteOff .everyNote)).Silenced := by
  intro h
  have hring := h .guitar [.event (.noteOn ⟨5, 0, 60⟩ 1)]
  exact absurd (hring 0 (by decide)) (by decide)

/-! ### One note off -/

/-- A channel and a key of the keyboard, as the host plays them. -/
structure Concrete (note : NoteAddress) : Prop where
  channel : 0 ≤ note.channel ∧ note.channel < 2 ^ 15
  key : 0 ≤ note.key ∧ note.key ≤ 127

/-- The same channel and key. -/
def SamePlace (a b : NoteAddress) : Prop := a.channel = b.channel ∧ a.key = b.key

/-- **A note-off ends its own note and no other key's**: the voices of its note have been let go
after it, and what it lets go was started on its channel and key. -/
structure EndsItsOwn (instrument : StockInstrument) (s : Sounding) (event : ClapEvent)
    (note : NoteAddress) : Prop where
  ended : ∀ i, (s.voices i).active = true → s.startedBy i = note →
    ((s.handle instrument event).voices i).released = true
  others : ∀ i, (s.voices i).Held → ((s.handle instrument event).voices i).released = true →
    SamePlace (s.startedBy i) note

/-- What 16 bits leave of the note id is the id, or is no id. -/
def Answers (noteId : ℤ) : Prop := noteId < 2 ^ 15 ∨ int16 noteId < 0

/-- When a note-off ends its own note and no other key's. -/
def EndsWhen (instrument : StockInstrument) (s : Sounding) (note : NoteAddress) : Prop :=
  match instrument with
  | .piano => note.noteId < 2 ^ 15 ∨ ∀ i, (s.voices i).Held → s.startedBy i ≠ note
  | .guitar =>
    (Answers note.noteId ∨ ∀ i, (s.voices i).Held → s.startedBy i ≠ note) ∧
      ∀ i, (s.voices i).Held → 0 ≤ note.noteId → int16 (s.startedBy i).noteId = note.noteId →
        SamePlace (s.startedBy i) note
  | .lowkey =>
    (Answers note.noteId ∨ ∀ i, (s.voices i).Held → s.startedBy i ≠ note) ∧
      (∀ i, (s.voices i).Held → 0 ≤ note.noteId → int16 (s.startedBy i).noteId = note.noteId →
        SamePlace (s.startedBy i) note) ∧
      ∀ i, (s.voices i).Held → (note.noteId < 0 ∨ int16 (s.startedBy i).noteId < 0) →
        (s.startedBy i).channel = note.channel → (s.startedBy i).key ≤ 12 → note.key ≤ 12 →
          (s.startedBy i).key = note.key
  | .synth | .organ =>
    (Answers note.noteId ∨ ∀ i, (s.voices i).Held → s.startedBy i ≠ note) ∧
      (note.noteId < 0 → (∃ i, (s.voices i).active = true ∧ SamePlace (s.startedBy i) note) ∨
        ∀ i, ¬(s.voices i).Held)

theorem Concrete.int16_channel {note : NoteAddress} (h : Concrete note) :
    int16 note.channel = note.channel := by
  have := h.channel
  exact int16_eq (by omega) (by omega)

theorem Concrete.int16_key {note : NoteAddress} (h : Concrete note) :
    int16 note.key = note.key := by
  have := h.key
  exact int16_eq (by omega) (by omega)

/-- The law, once it is known which notes the note-off reaches. -/
theorem endsItsOwn_iff_reaches {event : ClapEvent} {note : NoteAddress}
    (h : instrument.noteCall event = some (.off note false)) (Reaches : NoteAddress → Prop)
    (hreaches : ∀ i, (s.voices i).Held →
      (instrument.LetsGo s.voices note i ↔ Reaches (s.startedBy i))) :
    EndsItsOwn instrument s event note ↔
      (Reaches note ∨ ∀ i, (s.voices i).Held → s.startedBy i ≠ note) ∧
        ∀ i, (s.voices i).Held → Reaches (s.startedBy i) → SamePlace (s.startedBy i) note := by
  have hafter {i : Fin 32} (hheld : (s.voices i).Held) :
      ((s.handle instrument event).voices i).released = true ↔ Reaches (s.startedBy i) := by
    rw [handle_noteOff h, (instrument.perform_off s.voices note hheld.1).2, ← hreaches i hheld]
    simp [hheld.2]
  constructor
  · intro ⟨hended, hothers⟩
    refine ⟨or_iff_not_imp_right.2 fun hex => ?_, fun i hheld hr =>
      hothers i hheld ((hafter hheld).2 hr)⟩
    push Not at hex
    obtain ⟨i, hheld, hnote⟩ := hex
    exact hnote ▸ (hafter hheld).1 (hended i hheld.1 hnote)
  · intro ⟨hended, hothers⟩
    refine ⟨fun i hactive hnote => ?_, fun i hheld hrel => hothers i hheld ((hafter hheld).1 hrel)⟩
    cases hreleased : (s.voices i).released with
    | true =>
      rw [handle_noteOff h, (instrument.perform_off s.voices note hactive).2]
      exact .inl hreleased
    | false =>
      have hheld : (s.voices i).Held := ⟨hactive, hreleased⟩
      refine (hafter hheld).2 (hnote.symm ▸ hended.resolve_right fun hnone => ?_)
      exact hnone i hheld hnote

section Matching

variable {voice : StockVoice} {source note : NoteAddress}

theorem piano_voiceMatches_iff (hactive : voice.active = true)
    (haddress : voice.address = source.narrowed) (hby : Concrete source) (hnote : Concrete note) :
    PianoEngine.voiceMatches voice note = true ↔
      (0 ≤ note.noteId → int16 source.noteId = note.noteId) ∧ SamePlace source note := by
  have hchannel := hnote.channel.1
  have hkey := hnote.key.1
  simp only [PianoEngine.voiceMatches, hactive, haddress, NoteAddress.narrowed, hby.int16_channel,
    hby.int16_key, SamePlace]
  grind

theorem synth_voiceMatches_iff (hactive : voice.active = true)
    (haddress : voice.address = SynthEngine.stored source) (hby : Concrete source)
    (hnote : Concrete note) :
    SynthEngine.voiceMatches voice note = true ↔
      (0 ≤ note.noteId → 0 ≤ int16 source.noteId → int16 source.noteId = note.noteId) ∧
        SamePlace source note := by
  have hchannel := hnote.channel.1
  have hkey := hnote.key.1
  have hclamp : max 0 (min source.key 127) = source.key := by
    have := hby.key
    omega
  simp only [SynthEngine.voiceMatches, hactive, haddress, SynthEngine.stored, hclamp,
    hby.int16_channel, hby.int16_key, SamePlace]
  grind

theorem guitar_voiceMatches_iff (hactive : voice.active = true) :
    GuitarEngine.voiceMatches voice note = true ↔
      if 0 ≤ note.noteId ∧ 0 ≤ voice.address.noteId then voice.address.noteId = note.noteId
      else SamePlace voice.address note := by
  simp only [GuitarEngine.voiceMatches, hactive, SamePlace]
  grind

end Matching

theorem answers_iff (noteId : ℤ) :
    Answers noteId ↔ (0 ≤ noteId → 0 ≤ int16 noteId → int16 noteId = noteId) := by
  have hlt := int16_lt noteId
  constructor
  · rintro (hid | hid) h₁ h₂
    · exact int16_eq (by omega) hid
    · omega
  · intro h
    rw [Answers]
    by_contra hnot
    have := h (by omega) (by omega)
    omega

theorem piano_ends_iff {event : ClapEvent} {note : NoteAddress}
    (hoff : StockInstrument.piano.noteCall event = some (.off note false))
    (htraced : s.Traced .piano) (hstarted : s.StartedFrom Concrete) (hnote : Concrete note) :
    EndsItsOwn .piano s event note ↔ EndsWhen .piano s note := by
  have hlt := int16_lt note.noteId
  have hid : (0 ≤ note.noteId → int16 note.noteId = note.noteId) ↔ note.noteId < 2 ^ 15 := by
    constructor
    · intro h
      by_contra hle
      have := h (by omega)
      omega
    · exact fun h h₀ => int16_eq (by omega) h
  rw [endsItsOwn_iff_reaches hoff
    (fun source => (0 ≤ note.noteId → int16 source.noteId = note.noteId) ∧ SamePlace source note)
    fun i hheld => piano_voiceMatches_iff hheld.1 (htraced i hheld.1) (hstarted i hheld.1) hnote]
  rw [and_iff_left fun i _ h => h.2, EndsWhen, ← hid, and_iff_left ⟨rfl, rfl⟩]

/-- An engine that goes by the note id if it can: its own note is found if the id answers. -/
theorem byNoteId_iff_answers {noteId : ℤ} {place : Prop} (hplace : place) :
    (if 0 ≤ noteId ∧ 0 ≤ int16 noteId then int16 noteId = noteId else place) ↔ Answers noteId := by
  rw [answers_iff]
  split
  next h => exact ⟨fun heq _ _ => heq, fun heq => heq h.1 h.2⟩
  next h => exact iff_of_true hplace fun h₁ h₂ => absurd ⟨h₁, h₂⟩ h

theorem guitar_ends_iff {event : ClapEvent} {note : NoteAddress}
    (hoff : StockInstrument.guitar.noteCall event = some (.off note false))
    (htraced : s.Traced .guitar) (hstarted : s.StartedFrom Concrete) :
    EndsItsOwn .guitar s event note ↔ EndsWhen .guitar s note := by
  rw [endsItsOwn_iff_reaches hoff (fun source =>
    if 0 ≤ note.noteId ∧ 0 ≤ int16 source.noteId then int16 source.noteId = note.noteId
    else SamePlace source note) fun i hheld => ?_, byNoteId_iff_answers ⟨rfl, rfl⟩, EndsWhen]
  · refine and_congr_right fun _ => forall₂_congr fun i hheld => ?_
    split
    next h => exact ⟨fun hall _ => hall, fun hall => hall h.1⟩
    next h => exact iff_of_true id fun h₁ h₂ => absurd ⟨h₁, by omega⟩ h
  · have hsource := hstarted i hheld.1
    rw [StockInstrument.LetsGo, guitar_voiceMatches_iff hheld.1, htraced i hheld.1]
    simp only [StockInstrument.stored, NoteAddress.narrowed, SamePlace, hsource.int16_channel,
      hsource.int16_key]

/-- The lowkey's keyboard starts at the 13th key; what is below it sounds like the lowest. -/
theorem lowkey_ends_iff {event : ClapEvent} {note : NoteAddress}
    (hoff : StockInstrument.lowkey.noteCall event = some (.off note false))
    (htraced : s.Traced .lowkey) (hstarted : s.StartedFrom Concrete) :
    EndsItsOwn .lowkey s event note ↔ EndsWhen .lowkey s note := by
  rw [endsItsOwn_iff_reaches hoff (fun source =>
    if 0 ≤ note.noteId ∧ 0 ≤ int16 source.noteId then int16 source.noteId = note.noteId
    else source.channel = note.channel ∧ max 0 (source.key - 12) = max 0 (note.key - 12))
    fun i hheld => ?_, byNoteId_iff_answers ⟨rfl, rfl⟩, EndsWhen]
  · refine and_congr_right fun _ => ?_
    rw [← forall_and]
    refine forall_congr' fun i => ?_
    rw [← imp_and]
    refine imp_congr_right fun hheld => ?_
    split
    next h => exact ⟨fun hall => ⟨fun _ => hall, by omega⟩, fun hall => hall.1 h.1⟩
    next h =>
      -- by channel and key: apart from the same key, only two below the keyboard meet
      constructor
      · intro hall
        refine ⟨fun h₁ h₂ => absurd ⟨h₁, by omega⟩ h, fun _ hchannel hlow hlow' => ?_⟩
        exact (hall ⟨hchannel, by omega⟩).2
      · rintro ⟨-, hall⟩ ⟨hchannel, hkey⟩
        refine ⟨hchannel, ?_⟩
        by_cases hlow : (s.startedBy i).key ≤ 12 ∧ note.key ≤ 12
        · exact hall (by omega) hchannel hlow.1 hlow.2
        · omega
  · have hsource := hstarted i hheld.1
    have hkey : int16 (max 0 ((s.startedBy i).key - 12)) = max 0 ((s.startedBy i).key - 12) := by
      have := hsource.key
      exact int16_eq (by omega) (by omega)
    rw [StockInstrument.LetsGo, guitar_voiceMatches_iff hheld.1, htraced i hheld.1]
    simp only [StockInstrument.stored, NoteAddress.narrowed, lowered, SamePlace,
      hsource.int16_channel, hkey]

theorem synth_ends_iff {event : ClapEvent} {note : NoteAddress}
    (hoff : instrument.noteCall event = some (.off note false))
    (hstored : ∀ i, (s.voices i).active = true →
      (s.voices i).address = SynthEngine.stored (s.startedBy i))
    (hgo : ∀ i, instrument.LetsGo s.voices note i ↔
      SynthEngine.voiceMatches (s.voices i) note = true ∨
        note.noteId < 0 ∧ ∀ j, SynthEngine.voiceMatches (s.voices j) note = false)
    (hstarted : s.StartedFrom Concrete) (hnote : Concrete note) :
    EndsItsOwn instrument s event note ↔ EndsWhen .synth s note := by
  have hmatch {i : Fin 32} (hactive : (s.voices i).active = true) :=
    synth_voiceMatches_iff hactive (hstored i hactive) (hstarted i hactive) hnote
  rw [endsItsOwn_iff_reaches hoff (fun source =>
    ((0 ≤ note.noteId → 0 ≤ int16 source.noteId → int16 source.noteId = note.noteId) ∧
      SamePlace source note) ∨
      note.noteId < 0 ∧ ∀ j, SynthEngine.voiceMatches (s.voices j) note = false)
    fun i hheld => by rw [hgo i, hmatch hheld.1], EndsWhen, answers_iff]
  by_cases hid : note.noteId < 0
  · -- without a note id channel and key decide, and if they find nothing all goes
    have hnone : (∀ j, SynthEngine.voiceMatches (s.voices j) note = false) ↔
        ¬∃ j, (s.voices j).active = true ∧ SamePlace (s.startedBy j) note := by
      rw [not_exists]
      refine forall_congr' fun j => ?_
      cases hactive : (s.voices j).active with
      | false => simp [SynthEngine.voiceMatches, hactive]
      | true =>
        rw [← Bool.not_eq_true, hmatch hactive]
        simp [hid.not_ge]
    have hown : ((0 ≤ note.noteId → 0 ≤ int16 note.noteId → int16 note.noteId = note.noteId) ∧
        SamePlace note note) := ⟨fun h => absurd h (by omega), rfl, rfl⟩
    rw [hnone]
    refine and_congr (iff_of_true (.inl (.inl hown)) (.inl hown.1)) ?_
    simp only [hid, hid.not_ge, true_and, false_imp_iff, true_imp_iff]
    by_cases hsome : ∃ j, (s.voices j).active = true ∧ SamePlace (s.startedBy j) note
    · exact iff_of_true (fun i _ h => h.resolve_right (not_not_intro hsome)) (.inl hsome)
    · constructor
      · intro h
        refine .inr fun i hheld => hsome ⟨i, hheld.1, h i hheld (.inr hsome)⟩
      · exact fun h i hheld => absurd hheld (h.resolve_left hsome i)
  · simp only [hid, false_and, or_false, false_imp_iff, and_true]
    exact ⟨fun h => h.1.imp_left And.left,
      fun h => ⟨h.imp_left fun hown => ⟨hown, rfl, rfl⟩, fun _ _ h => h.2⟩⟩

/-- Two keys of the synth, the second one dead when it is let go: the first is let go as well. -/
def deadKey : List StockMoment :=
  [.event (.noteOn ⟨-1, 0, 60⟩ 1), .event (.noteOn ⟨-1, 0, 64⟩ 1),
    .render fun i => ⟨i = 0, 1, 0, 1⟩]

end Sounding

end OneBeat
