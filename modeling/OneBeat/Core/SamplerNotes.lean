import OneBeat.Core.Sampler

/-!
# Notes of the sampler and their releases

A release finds the notes that are playing, and not those that are queued behind a voice that has
been stolen.

* `Sounds` : what a voice plays or is about to play;
* `no_hanging_note` : **no note is left hanging when the last release of a key does not come while
  the key is queued**;
* `hanging_note` : a run in which it does.
-/

namespace OneBeat.Sampler

variable {F D : Type} [FloatOps F] [DoubleOps D]

/-! ### What a voice sounds -/

/-- The notes that the voice plays unreleased or has queued are among the `notes`. -/
def Sounds (notes : ℤ → Prop) (voice : Voice F D) : Prop :=
  voice.active = true → (voice.releasing = false → notes voice.note) ∧
    (0 ≤ voice.pendingNote → notes voice.pendingNote)

variable {notes : ℤ → Prop} {patch : Patch F D} {shared : Shared F D} {voice : Voice F D}

omit [FloatOps F] [DoubleOps D] in
theorem sounds_of_inactive (h : voice.active = false) : Sounds notes voice := by
  intro hactive
  simp [h] at hactive

theorem sounds_startVoice {note : ℤ} (h : notes note) (velocity : F) :
    Sounds notes (startVoice patch shared voice note velocity).1 := by
  obtain ⟨hnote, hpending, _, _⟩ := startVoice_eq patch shared voice note velocity
  intro _
  rw [hnote, hpending]
  exact ⟨fun _ => h, fun hle => absurd hle (by omega)⟩

omit [FloatOps F] [DoubleOps D] in
theorem Sounds.moved (h : Sounds notes voice) (position : D) (fade : F) :
    Sounds notes (moved voice position fade) := h

/-- The note that starts after the fade was queued. -/
theorem Sounds.fadedOut (h : Sounds notes voice) (hactive : voice.active = true) :
    Sounds notes (fadedOut patch shared voice).1 := by
  unfold Sampler.fadedOut
  dsimp only
  split
  · exact sounds_startVoice ((h hactive).2 ‹_›) _
  · exact sounds_of_inactive rfl

/-! ### Notes on and off -/

theorem sounds_startFree {note : ℤ} {velocity : F} {voices voices' : List (Voice F D)}
    {shared' : Shared F D} (h : ∀ voice ∈ voices, Sounds notes voice) (hnote : notes note)
    (hstart : startFree patch shared note velocity voices = some (voices', shared')) :
    ∀ voice ∈ voices', Sounds notes voice := by
  induction voices generalizing voices' shared' with
  | nil => simp [startFree] at hstart
  | cons voice voices ih =>
    have hrest : ∀ voice ∈ voices, Sounds notes voice :=
      fun voice hvoice => h voice (List.mem_cons_of_mem _ hvoice)
    unfold startFree at hstart
    split at hstart
    · obtain ⟨rfl, rfl⟩ := Prod.mk.inj (Option.some.inj hstart)
      intro voice' hmem
      rcases List.mem_cons.1 hmem with rfl | hmem
      · exact sounds_startVoice hnote _
      · exact hrest voice' hmem
    · split at hstart
      · obtain ⟨rfl, rfl⟩ := Prod.mk.inj (Option.some.inj hstart)
        intro voice' hmem
        rcases List.mem_cons.1 hmem with rfl | hmem
        · exact h _ List.mem_cons_self
        · exact ih hrest ‹_› voice' hmem
      · simp at hstart

theorem sounds_noteOn {s : Sampler F D} {note : ℤ} {velocity : F}
    (h : ∀ voice ∈ s.voices, Sounds notes voice) (hnote : notes note) :
    ∀ voice ∈ (s.noteOn note velocity).voices, Sounds notes voice := by
  unfold noteOn
  split
  · exact sounds_startFree h hnote ‹_›
  · intro voice hmem
    obtain ⟨i, hi, rfl⟩ := List.mem_iff_getElem.1 hmem
    rw [List.getElem_modify]
    split
    · -- a stolen voice is releasing, and has the note queued
      exact fun _ => ⟨fun hreleasing => absurd hreleasing (by simp [steal]), fun _ => hnote⟩
    · exact h _ (List.getElem_mem _)

/-! ### Rendering -/

/-- What a voice sounds after its frames. -/
def Ending.Sounds (notes : ℤ → Prop) : Ending F D → Prop
  | .goesOn voice => Sampler.Sounds notes voice
  | .ended voice => Sampler.Sounds notes voice
  | .faded voice => Sampler.Sounds notes voice ∧ voice.active = true

omit [FloatOps F] [DoubleOps D] in
theorem Sounds.play {α : Type} {frame : α → Voice F D → Frame F D}
    (hframe : ∀ input voice, FrameStep voice (frame input voice)) {inputs : List α}
    (h : Sounds notes voice) (hactive : voice.active = true) :
    (play frame inputs voice).2.Sounds notes := by
  induction inputs generalizing voice with
  | nil => exact h
  | cons input inputs ih =>
    unfold Sampler.play
    have hstep := hframe input voice
    cases hframe : frame input voice with
    | spent voice' =>
      rw [hframe] at hstep
      cases hstep
      exact sounds_of_inactive rfl
    | played value voice' =>
      rw [hframe] at hstep
      cases hstep
      exact ih (h.moved _ _) hactive
    | faded value voice' =>
      rw [hframe] at hstep
      cases hstep
      exact ⟨h.moved _ _, hactive⟩

omit [FloatOps F] [DoubleOps D] in
theorem Ending.Sounds.spentIf {ending : Ending F D} (h : ending.Sounds notes) (spent : Bool) :
    (ending.spentIf spent).Sounds notes := by
  cases ending with
  | goesOn voice =>
    cases spent with
    | false => exact h
    | true => exact sounds_of_inactive rfl
  | ended voice => exact h
  | faded voice => exact h

theorem Ending.Sounds.finish {ending : Ending F D} (h : ending.Sounds notes) :
    Sampler.Sounds notes (ending.finish patch shared).1 := by
  cases ending with
  | goesOn voice => exact h
  | ended voice => exact h
  | faded voice => exact h.1.fadedOut h.2

variable [Narrow F D]

theorem Sounds.playVoice (h : Sounds notes voice) (outChannels numFrames : ℕ)
    (stretch : TimeStretch F D) :
    (playVoice patch outChannels numFrames stretch voice).1.2.Sounds notes := by
  unfold Sampler.playVoice
  cases hactive : voice.active with
  | false => exact h
  | true =>
    dsimp only [Bool.not_true, Bool.false_eq_true, if_false]
    split
    · exact absurd ‹_› (by simp)
    · split
      · exact sounds_of_inactive rfl
      · split
        · unfold renderStretchedVoice
          dsimp only
          split
          · exact h
          · exact (h.play fadeFrame_step hactive).spentIf _
        · exact h.play (fun _ => plainFrame_step _) hactive

theorem sounds_renderVoices {startFrame numFrames : ℕ} {voices : List (Voice F D)}
    {output : AudioBuffer F} (h : ∀ voice ∈ voices, Sounds notes voice) :
    ∀ voice ∈ (renderVoices patch startFrame numFrames voices shared output).1,
      Sounds notes voice := by
  induction voices generalizing shared output with
  | nil => exact fun _ hmem => absurd hmem List.not_mem_nil
  | cons voice voices ih =>
    rw [renderVoices]
    intro voice' hmem
    rcases List.mem_cons.1 hmem with rfl | hmem
    · exact ((h voice List.mem_cons_self).playVoice _ _ _).finish
    · exact ih (fun voice hvoice => h voice (List.mem_cons_of_mem _ hvoice)) voice' hmem

/-! ### Runs -/

/-- The calls between one preparation and the next. -/
inductive Call (F : Type)
  | noteOn (note : ℤ) (velocity : F)
  | noteOff (note : ℤ)
  | allNotesOff
  | render (output : AudioBuffer F) (startFrame numFrames : ℕ)

/-- The call releases the note. -/
def Call.Releases : Call F → ℤ → Prop
  | .noteOff note, released => note = released
  | .allNotesOff, _ => True
  | _, _ => False

def call (s : Sampler F D) : Call F → Sampler F D
  | .noteOn note velocity => s.noteOn note velocity
  | .noteOff note => s.noteOff note
  | .allNotesOff => s.allNotesOff
  | .render output startFrame numFrames => (s.render output startFrame numFrames).1

def run (s : Sampler F D) (calls : List (Call F)) : Sampler F D := calls.foldl call s

/-- Some call releases the note. -/
def Released (calls : List (Call F)) (note : ℤ) : Prop := ∃ c ∈ calls, c.Releases note

/-- Every note that is started is released later. -/
def ReleasesAll (calls : List (Call F)) : Prop :=
  ∀ before note velocity after, calls = before ++ .noteOn note velocity :: after → Released after note

/-- The call does not come as the last release of a note that is queued. -/
def Timely (s : Sampler F D) (c : Call F) (after : List (Call F)) : Prop :=
  ∀ note, 0 ≤ note → c.Releases note → ¬ Released after note →
    ∀ voice ∈ s.voices, voice.active = true → voice.pendingNote ≠ note

/-- What the voices sound is released by the calls to come, and the next call is timely: then it is
released by the calls after it. -/
theorem sounds_call {s : Sampler F D} {c : Call F} {after : List (Call F)}
    (h : ∀ voice ∈ s.voices, Sounds (Released (c :: after)) voice)
    (hon : ∀ note velocity, c = .noteOn note velocity → Released after note)
    (htimely : Timely s c after) :
    ∀ voice ∈ (s.call c).voices, Sounds (Released after) voice := by
  -- what the call does not release is released after it
  have hafter : ∀ note, Released (c :: after) note → ¬ c.Releases note → Released after note := by
    rintro note ⟨c', hc', hreleases⟩ hnot
    rcases List.mem_cons.1 hc' with rfl | hc'
    · exact absurd hreleases hnot
    · exact ⟨c', hc', hreleases⟩
  have hpending : ∀ voice ∈ s.voices, voice.active = true → 0 ≤ voice.pendingNote →
      Released after voice.pendingNote := by
    intro voice hvoice hactive hle
    by_cases hreleases : c.Releases voice.pendingNote
    · by_contra hnot
      exact htimely _ hle hreleases hnot voice hvoice hactive rfl
    · exact hafter _ ((h voice hvoice hactive).2 hle) hreleases
  have hkept : (∀ note, ¬ c.Releases note) → ∀ voice ∈ s.voices, Sounds (Released after) voice := by
    intro hnone voice hvoice hactive
    exact ⟨fun hreleasing => hafter _ ((h voice hvoice hactive).1 hreleasing) (hnone _),
      hpending voice hvoice hactive⟩
  cases c with
  | noteOn note velocity =>
    exact sounds_noteOn (hkept fun _ => id) (hon note velocity rfl)
  | render output startFrame numFrames =>
    exact sounds_renderVoices (hkept fun _ => id)
  | noteOff note =>
    intro voice' hmem
    obtain ⟨voice, hvoice, rfl⟩ := List.mem_map.1 hmem
    split
    · rename_i hnote
      simp only [Bool.and_eq_true, decide_eq_true_eq] at hnote
      exact fun _ => ⟨fun hreleasing => absurd hreleasing (by simp),
        hpending voice hvoice hnote.1.1⟩
    · rename_i hnote
      intro hactive
      refine ⟨?_, hpending voice hvoice hactive⟩
      intro hreleasing
      refine hafter _ ((h voice hvoice hactive).1 hreleasing) ?_
      rintro rfl
      simp [hactive, hreleasing] at hnote
  | allNotesOff =>
    intro voice' hmem
    obtain ⟨voice, hvoice, rfl⟩ := List.mem_map.1 hmem
    split
    · exact fun _ => ⟨fun hreleasing => absurd hreleasing (by simp),
        fun hle => absurd hle (by simp)⟩
    · rename_i hnote
      intro hactive
      refine ⟨?_, hpending voice hvoice hactive⟩
      intro hreleasing
      simp [hactive, hreleasing] at hnote

/-- Every call of the run is timely. -/
def TimelyRun (s : Sampler F D) (calls : List (Call F)) : Prop :=
  ∀ before c after, calls = before ++ c :: after → Timely (s.run before) c after

theorem sounds_run {s : Sampler F D} {calls : List (Call F)} (hall : ReleasesAll calls)
    (htimely : TimelyRun s calls) (h : ∀ voice ∈ s.voices, Sounds (Released calls) voice) :
    ∀ voice ∈ (s.run calls).voices, Sounds (Released ([] : List (Call F))) voice := by
  induction calls generalizing s with
  | nil => exact h
  | cons c calls ih =>
    have hon : ∀ note velocity, c = .noteOn note velocity → Released calls note := by
      rintro note velocity rfl
      exact hall [] note velocity calls rfl
    refine ih ?_ ?_ (sounds_call h hon (htimely [] c calls rfl))
    · intro before note velocity after heq
      exact hall (c :: before) note velocity after (by rw [heq, List.cons_append])
    · intro before c' after heq
      exact htimely (c :: before) c' after (by rw [heq, List.cons_append])

/-- **No note is left hanging**: when every note is released later, and no release comes as the last
one of a note that is queued, in the end every voice that is active is releasing and has nothing
queued. -/
theorem no_hanging_note (s : Sampler F D) (fallback : SampleData F D) (sampleRate : D)
    (maxBlockFrames : ℤ) {calls : List (Call F)} (hall : ReleasesAll calls)
    (htimely : TimelyRun (s.prepare fallback sampleRate maxBlockFrames) calls) :
    ∀ voice ∈ ((s.prepare fallback sampleRate maxBlockFrames).run calls).voices,
      voice.active = true → voice.releasing = true ∧ voice.pendingNote < 0 := by
  have hidle : ∀ voice ∈ (s.prepare fallback sampleRate maxBlockFrames).voices,
      Sounds (Released calls) voice := by
    intro voice hvoice
    obtain rfl := List.eq_of_mem_replicate hvoice
    exact sounds_of_inactive rfl
  intro voice hvoice hactive
  obtain ⟨hnote, hpending⟩ := sounds_run hall htimely hidle voice hvoice hactive
  have hnone : ∀ note, ¬ Released ([] : List (Call F)) note := by
    rintro note ⟨c, hc, _⟩
    exact List.not_mem_nil hc
  constructor
  · by_contra hreleasing
    exact hnone _ (hnote (by simpa using hreleasing))
  · by_contra hle
    exact hnone _ (hpending (by omega))

/-! ### A note that is left hanging -/

omit [FloatOps F] in
theorem releasesAll_nil : ReleasesAll ([] : List (Call F)) := by
  intro before note velocity after heq
  simp at heq

omit [FloatOps F] in
theorem releasesAll_cons {c : Call F} {calls : List (Call F)}
    (h : ∀ note velocity, c = .noteOn note velocity → Released calls note)
    (hcalls : ReleasesAll calls) : ReleasesAll (c :: calls) := by
  intro before note velocity after heq
  cases before with
  | nil =>
    obtain ⟨rfl, rfl⟩ := List.cons.inj heq
    exact h note velocity rfl
  | cons first before => exact hcalls before note velocity after (List.cons.inj heq).2

omit [FloatOps F] in
/-- Notes that are released later, and then other calls. -/
theorem releasesAll_append {calls after : List (Call F)}
    (h : ∀ note velocity, .noteOn note velocity ∈ calls → Released after note)
    (hafter : ReleasesAll after) : ReleasesAll (calls ++ after) := by
  induction calls with
  | nil => exact hafter
  | cons c calls ih =>
    refine releasesAll_cons ?_ (ih fun note velocity hmem =>
      h note velocity (List.mem_cons_of_mem _ hmem))
    rintro note velocity rfl
    obtain ⟨c, hc, hreleases⟩ := h note velocity List.mem_cons_self
    exact ⟨c, List.mem_append_right _ hc, hreleases⟩

/-- Four frames of one channel. -/
def blip : SampleData IeeeFloat IeeeDouble where
  samples := [1, 1, 1, 1]
  channels := 1
  frames := 4
  sampleRate := ofRat 48000

/-- One note, on and off. -/
def oneNote : List (Call IeeeFloat) := [.noteOn 60 1, .noteOff 60]

theorem releasesAll_oneNote : ReleasesAll oneNote := by
  refine releasesAll_cons ?_ (releasesAll_cons (by simp) releasesAll_nil)
  rintro note velocity ⟨⟩
  exact ⟨.noteOff 60, List.mem_singleton_self _, rfl⟩

theorem no_hanging_note_oneNote :
    ReleasesAll oneNote ∧
      ∀ voice ∈ ((unprepared.prepare blip (ofRat 48000) 512).run oneNote).voices,
        voice.active = true → voice.releasing = true ∧ voice.pendingNote < 0 := by
  refine ⟨releasesAll_oneNote,
    no_hanging_note unprepared blip (ofRat 48000) 512 releasesAll_oneNote ?_⟩
  -- nothing is ever queued
  intro before c after heq note hle hreleases _
  have hprefix : before = [] ∨ before = [.noteOn 60 1] := by
    match before, heq with
    | [], _ => exact .inl rfl
    | [_], heq => exact .inr (by rw [(List.cons.inj heq).1])
    | _ :: _ :: before, heq => simp [oneNote] at heq
  have hnone : ∀ voice ∈ ((unprepared.prepare blip (ofRat 48000) 512).run before).voices,
      voice.pendingNote = -1 := by
    rcases hprefix with rfl | rfl <;> decide
  intro voice hvoice _
  rw [hnone voice hvoice]
  omega

/-- As many notes as there are voices and one more, then all of them off. -/
def oneNoteTooMany : List (Call IeeeFloat) :=
  List.replicate maxVoices (.noteOn 60 1) ++ [.noteOn 72 1, .noteOff 60, .noteOff 72]

/-- The note that was queued starts after it has been released. -/
theorem hanging_note :
    ReleasesAll oneNoteTooMany ∧
      ¬ ∀ voice ∈ ((unprepared.prepare blip (ofRat 48000) 512).run oneNoteTooMany).voices,
        voice.active = true → voice.releasing = true ∧ voice.pendingNote < 0 := by
  constructor
  · refine releasesAll_append ?_ (releasesAll_cons ?_
      (releasesAll_cons (by simp) (releasesAll_cons (by simp) releasesAll_nil)))
    · intro note velocity hmem
      obtain ⟨⟩ := List.eq_of_mem_replicate hmem
      exact ⟨.noteOff 60, by simp, rfl⟩
    · rintro note velocity ⟨⟩
      exact ⟨.noteOff 72, by simp, rfl⟩
  · intro hall
    have hfirst := hall (((unprepared.prepare blip (ofRat 48000) 512).run oneNoteTooMany).voices.head
      (by decide)) (List.head_mem _) (by decide)
    revert hfirst
    decide

end OneBeat.Sampler
