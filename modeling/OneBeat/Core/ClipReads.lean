import OneBeat.Core.Sampler

/-!
# Which frames of a file are read

A voice keeps the geometry of its window, and the sample may be replaced under it by a shorter one:
the window is laid over the sample anew in every call of `render`.

A read at a position reads two frames (`SourceWindow.framesAt`).  `Sampler.framesRead` lists the
frames that a call of `render` reads, of the voices that are stretched and of those that are not.

* `frameAt_mem` : a window that lies in its sample is read inside the sample, at any position;
* `windowFor_inside` : the window that is laid over a sample lies in it;
* `reads_inside` : **every frame that is read is one of the sample that is there**, after any calls.
-/

namespace OneBeat

variable {F D : Type} [FloatOps F] [DoubleOps D]

namespace SourceWindow

/-- The frames that a read at a position reads. -/
def framesAt (window : SourceWindow F D) (offset : D) : List ℤ :=
  [window.frameAt (truncate offset), window.frameAt (truncate offset + 1)]

/-- The window lies in its sample. -/
structure Inside (window : SourceWindow F D) (frames : ℤ) : Prop where
  start_nonneg : 0 ≤ window.start
  length_pos : 0 < window.length
  stop_le : window.start + window.length ≤ frames

variable {window : SourceWindow F D} {frames : ℤ}

omit [FloatOps F] [DoubleOps D] in
theorem frameAt_mem (h : window.Inside frames) (offset : ℤ) :
    0 ≤ window.frameAt offset ∧ window.frameAt offset < frames := by
  obtain ⟨hstart, hlength, hstop⟩ := h
  unfold frameAt
  dsimp only
  -- the position is clamped to the window before it is reflected
  have hclamped : ∃ clamped, 0 ≤ clamped ∧ clamped ≤ window.length - 1 ∧
      clamped = if offset < 0 then 0
        else if window.length ≤ offset then window.length - 1 else offset := by
    refine ⟨_, ?_, ?_, rfl⟩ <;> split <;> (try split) <;> omega
  obtain ⟨clamped, hlow, hhigh, heq⟩ := hclamped
  rw [← heq]
  split
  · constructor <;> omega
  · constructor <;> omega

end SourceWindow

/-! ### The positions that the stretcher reads -/

namespace TimeStretch

variable (s : TimeStretch F D) (source : StretchSource F D) (ratio : D)

/-- Of a comparison with the tail. -/
def similarityReads (offset : ℤ) : List D :=
  (List.range' 0 (synthesisHop / 2) 2).map fun i : ℕ => ofInt (offset + i)

/-- Of a search: the nominal position, and those of the others that leave room for a grain. -/
def searchReads (nominal : ℤ) : List D :=
  similarityReads nominal ++
    ((List.range (searchFrames / 2 + 1)).map fun k : ℕ => 4 * (k : ℤ) - searchFrames).flatMap
      fun offset =>
        let candidate := nominal + offset
        if candidate < 0 ∨ source.sourceFrames ≤ candidate + grainFrames then []
        else similarityReads candidate

/-- Of a hop: the search, if there is a tail, and the grain. -/
def hopReads : List D :=
  let nominal := truncate s.readPosition
  let searched := FloatOps.lt 0 s.readPosition
  let best := if searched then s.search source nominal else nominal
  (if searched then searchReads source nominal else []) ++
    (List.range grainFrames).map fun i : ℕ => ofInt (best + i)

def refillReads : List D :=
  if s.readyRead < s.readyFrames then []
  else if s.finished then []
  else { s with readyRead := 0, readyFrames := 0 }.hopReads source

def loopReads : ℕ → ℕ → TimeStretch F D → List D
  | 0, _, _ => []
  | fuel + 1, remaining, s =>
    if remaining = 0 then []
    else
      s.refillReads source ++
        match s.refill source ratio with
        | (_, false) => []
        | (s, true) =>
          let take := min (s.readyFrames - s.readyRead) remaining
          loopReads fuel (remaining - take) (s.skip take)

def renderReads (numFrames : ℕ) : List D :=
  if !s.prepared || FloatOps.le ratio 0 then [] else loopReads source ratio numFrames numFrames s

end TimeStretch

/-! ### The frames that a call of `render` reads -/

namespace Sampler

variable (patch : Patch F D)

/-- The positions of a voice that is not stretched. -/
def plainReads [Narrow F D] (window : SourceWindow F D) : ℕ → Voice F D → List D
  | 0, _ => []
  | n + 1, voice =>
    match plainFrame window voice with
    | .spent _ => []
    | .faded _ _ => [voice.position]
    | .played _ next => voice.position :: plainReads window n next

/-- The positions of a stretched voice. -/
def stretchedReads [Narrow F D] (window : SourceWindow F D) (outChannels numFrames : ℕ)
    (stretch : TimeStretch F D) : List D :=
  let planes := min outChannels TimeStretch.maxChannels
  let frames := min numFrames patch.maxBlockFrames
  if frames = 0 ∨ planes = 0 then [] else stretch.renderReads window.source patch.clip.rate frames

/-- The frames that a voice reads. -/
def voiceReads [Narrow F D] (outChannels numFrames : ℕ) (stretch : TimeStretch F D)
    (voice : Voice F D) : List ℤ :=
  if !voice.active then []
  else
    let window := windowFor voice patch.sample
    if !window.valid then []
    else if voice.stretching then
      (stretchedReads patch window outChannels numFrames stretch).flatMap window.framesAt
    else (plainReads window numFrames voice).flatMap window.framesAt

/-- The voices read one after the other. -/
def readsOf [Narrow F D] (outChannels numFrames : ℕ) : List (Voice F D) → Shared F D → List ℤ
  | [], _ => []
  | voice :: voices, shared =>
    let ((_, ending), stretch) := playVoice patch outChannels numFrames shared.stretch voice
    let (_, next) := ending.finish patch { shared with stretch }
    voiceReads patch outChannels numFrames shared.stretch voice ++
      readsOf outChannels numFrames voices next

def framesRead [Narrow F D] (s : Sampler F D) (outChannels numFrames : ℕ) : List ℤ :=
  readsOf s.patch outChannels numFrames s.voices s.shared

/-- Every frame that is read is one of the sample that is there. -/
def ReadsInside [Narrow F D] (s : Sampler F D) (outChannels numFrames : ℕ) : Prop :=
  ∀ frame ∈ s.framesRead outChannels numFrames,
    ∃ sample, s.patch.sample = some sample ∧ 0 ≤ frame ∧ frame < sample.frames

/-! ### The window that is laid over a sample -/

/-- The window of the voice does not start before its file. -/
def Placed (voice : Voice F D) : Prop := 0 ≤ voice.windowStart

variable {patch} {voice : Voice F D}

omit [FloatOps F] [DoubleOps D] in
theorem windowFor_inside {window : SourceWindow F D} {sample : Option (SampleData F D)}
    (hplaced : Placed voice) (hwindow : windowFor voice sample = window)
    (hvalid : window.valid = true) : ∃ data, sample = some data ∧ window.Inside data.frames := by
  subst hwindow
  cases sample with
  | none => simp [windowFor, SourceWindow.valid] at hvalid
  | some data =>
    refine ⟨data, rfl, ?_⟩
    have hlength : 0 < (windowFor voice (some data)).length := by
      simpa [SourceWindow.valid] using (Bool.and_eq_true_iff.1 hvalid).2
    simp only [windowFor] at hlength ⊢
    split at hlength
    · exact absurd hlength (by simp)
    · rename_i hframes
      rw [if_neg hframes]
      simp only [Placed] at hplaced
      refine ⟨?_, hlength, ?_⟩
      · dsimp only
        split <;> omega
      · dsimp only
        split <;> split <;> omega

theorem startVoice_placed (patch : Patch F D) (shared : Shared F D) (voice : Voice F D) (note : ℤ)
    (velocity : F) : Placed (startVoice patch shared voice note velocity).1 := by
  have hstart : 0 ≤ if patch.clip.startFrame < 0 then 0 else patch.clip.startFrame := by
    split <;> omega
  unfold startVoice Placed
  dsimp only
  split
  · exact Int.le_refl 0
  · split
    · exact hstart
    · exact hstart

/-- Whatever is read through the window, at any position. -/
theorem voiceReads_inside [Narrow F D] (hplaced : Placed voice) (outChannels numFrames : ℕ)
    (stretch : TimeStretch F D) :
    ∀ frame ∈ voiceReads patch outChannels numFrames stretch voice,
      ∃ sample, patch.sample = some sample ∧ 0 ≤ frame ∧ frame < sample.frames := by
  intro frame hmem
  unfold voiceReads at hmem
  dsimp only at hmem
  split at hmem
  · exact absurd hmem List.not_mem_nil
  · split at hmem
    · exact absurd hmem List.not_mem_nil
    · rename_i hvalid
      obtain ⟨data, hdata, hinside⟩ := windowFor_inside hplaced rfl (by simpa using hvalid)
      have hframes : ∀ offsets : List D,
          frame ∈ offsets.flatMap (windowFor voice patch.sample).framesAt →
            0 ≤ frame ∧ frame < data.frames := by
        intro offsets hoffsets
        obtain ⟨offset, _, hoffset⟩ := List.mem_flatMap.1 hoffsets
        simp only [SourceWindow.framesAt, List.mem_cons, List.not_mem_nil, or_false] at hoffset
        rcases hoffset with rfl | rfl
        · exact SourceWindow.frameAt_mem hinside _
        · exact SourceWindow.frameAt_mem hinside _
      split at hmem
      · exact ⟨data, hdata, hframes _ hmem⟩
      · exact ⟨data, hdata, hframes _ hmem⟩

/-! ### What rendering keeps -/

/-- The voice that is left is placed. -/
def Ending.Placed : Ending F D → Prop
  | .goesOn voice | .ended voice | .faded voice => Sampler.Placed voice

omit [FloatOps F] [DoubleOps D] in
theorem play_placed {α : Type} {frame : α → Voice F D → Frame F D}
    (hframe : ∀ x voice, FrameStep voice (frame x voice)) (hplaced : Placed voice) (xs : List α) :
    (play frame xs voice).2.Placed := by
  induction xs generalizing voice with
  | nil => exact hplaced
  | cons x xs ih =>
    have hstep := hframe x voice
    rw [play]
    cases hx : frame x voice with
    | spent next | faded value next =>
      rw [hx] at hstep
      cases hstep
      exact hplaced
    | played value next =>
      rw [hx] at hstep
      cases hstep
      exact ih hplaced

omit [FloatOps F] [DoubleOps D] in
theorem Ending.Placed.spentIf {ending : Ending F D} (h : ending.Placed) (spent : Bool) :
    (ending.spentIf spent).Placed := by
  cases ending with
  | goesOn voice =>
    cases spent with
    | false => exact h
    | true => exact h
  | ended voice => exact h
  | faded voice => exact h

theorem playVoice_placed [Narrow F D] (hplaced : Placed voice) (outChannels numFrames : ℕ)
    (stretch : TimeStretch F D) :
    (playVoice patch outChannels numFrames stretch voice).1.2.Placed := by
  unfold playVoice
  dsimp only
  split
  · exact hplaced
  · split
    · exact hplaced
    · split
      · unfold renderStretchedVoice
        dsimp only
        split
        · exact hplaced
        · exact (play_placed fadeFrame_step hplaced _).spentIf _
      · exact play_placed (fun _ => plainFrame_step _) hplaced _

theorem Ending.Placed.finish {ending : Ending F D} (h : ending.Placed) (shared : Shared F D) :
    Sampler.Placed (ending.finish patch shared).1 := by
  cases ending with
  | goesOn voice => exact h
  | ended voice => exact h
  | faded voice =>
    simp only [Ending.finish, fadedOut]
    split
    · exact startVoice_placed _ _ _ _ _
    · exact h

theorem renderVoices_placed [Narrow F D] (startFrame numFrames : ℕ) {voices : List (Voice F D)}
    (h : ∀ voice ∈ voices, Placed voice) (shared : Shared F D) (output : AudioBuffer F) :
    ∀ voice ∈ (renderVoices patch startFrame numFrames voices shared output).1, Placed voice := by
  induction voices generalizing shared output with
  | nil => exact fun _ hmem => absurd hmem List.not_mem_nil
  | cons voice voices ih =>
    intro next hmem
    rw [renderVoices] at hmem
    rcases List.mem_cons.1 hmem with rfl | hmem
    · exact (playVoice_placed (h voice List.mem_cons_self) _ _ _).finish _
    · exact ih (fun v hv => h v (List.mem_cons_of_mem _ hv)) _ _ next hmem

theorem readsOf_inside [Narrow F D] (outChannels numFrames : ℕ) {voices : List (Voice F D)}
    (h : ∀ voice ∈ voices, Placed voice) (shared : Shared F D) :
    ∀ frame ∈ readsOf patch outChannels numFrames voices shared,
      ∃ sample, patch.sample = some sample ∧ 0 ≤ frame ∧ frame < sample.frames := by
  induction voices generalizing shared with
  | nil => exact fun _ hmem => absurd hmem List.not_mem_nil
  | cons voice voices ih =>
    intro frame hmem
    rw [readsOf] at hmem
    rcases List.mem_append.1 hmem with hmem | hmem
    · exact voiceReads_inside (h voice List.mem_cons_self) _ _ _ frame hmem
    · exact ih (fun v hv => h v (List.mem_cons_of_mem _ hv)) _ frame hmem

/-! ### Any calls -/

/-- A sampler before anything is called. -/
def constructed : Sampler F D where
  patch :=
    { sample := none, clip := { rate := 1 }, maxBlockFrames := 0, sampleRate := ofRat 48000,
      releaseStep := 0, stealStep := 0 }
  shared := { stretch := .unprepared }
  voices := List.replicate maxVoices idleVoice

/-- A null sample is ignored. -/
def setSample (s : Sampler F D) (sample : Option (SampleData F D)) : Sampler F D :=
  match sample with
  | none => s
  | some data => { s with patch.sample := some data }

def setClipPlayback (s : Sampler F D) (playback : ClipPlayback D) : Sampler F D :=
  { s with patch.clip := playback }

def release (s : Sampler F D) : Sampler F D :=
  { s with voices := s.voices.map fun _ => idleVoice }

def reset (s : Sampler F D) : Sampler F D :=
  { s with voices := s.voices.map fun voice =>
      { voice with active := false, releasing := false, pendingNote := -1 } }

/-- What can be called on a sampler. -/
inductive LiveCall (F D : Type)
  | prepare (fallback : SampleData F D) (sampleRate : D) (maxBlockFrames : ℤ)
  | release
  | reset
  | setSample (sample : Option (SampleData F D))
  | setClipPlayback (playback : ClipPlayback D)
  | noteOn (note : ℤ) (velocity : F)
  | noteOff (note : ℤ)
  | allNotesOff
  | render (output : AudioBuffer F) (startFrame numFrames : ℕ)

variable [Narrow F D]

def liveCall (s : Sampler F D) : LiveCall F D → Sampler F D
  | .prepare fallback sampleRate maxBlockFrames => s.prepare fallback sampleRate maxBlockFrames
  | .release => s.release
  | .reset => s.reset
  | .setSample sample => s.setSample sample
  | .setClipPlayback playback => s.setClipPlayback playback
  | .noteOn note velocity => s.noteOn note velocity
  | .noteOff note => s.noteOff note
  | .allNotesOff => s.allNotesOff
  | .render output startFrame numFrames => (s.render output startFrame numFrames).1

/-- After some calls. -/
def after (calls : List (LiveCall F D)) : Sampler F D := calls.foldl liveCall constructed

/-- Every voice is placed. -/
def AllPlaced (s : Sampler F D) : Prop := ∀ voice ∈ s.voices, Placed voice

omit [FloatOps F] [DoubleOps D] [Narrow F D] in
theorem allPlaced_map {s : Sampler F D} (h : s.AllPlaced) {f : Voice F D → Voice F D}
    (hf : ∀ voice, Placed voice → Placed (f voice)) : ∀ voice ∈ s.voices.map f, Placed voice := by
  intro voice hmem
  obtain ⟨before, hbefore, rfl⟩ := List.mem_map.1 hmem
  exact hf before (h before hbefore)

omit [Narrow F D] in
theorem startFree_placed {shared : Shared F D} {note : ℤ} {velocity : F}
    {voices next : List (Voice F D)} {shared' : Shared F D} (h : ∀ voice ∈ voices, Placed voice)
    (hstart : startFree patch shared note velocity voices = some (next, shared')) :
    ∀ voice ∈ next, Placed voice := by
  induction voices generalizing next shared' with
  | nil => simp [startFree] at hstart
  | cons voice voices ih =>
    have hvoices : ∀ v ∈ voices, Placed v := fun v hv => h v (List.mem_cons_of_mem _ hv)
    rw [startFree] at hstart
    split at hstart
    · obtain ⟨rfl, _⟩ := Prod.mk.inj (Option.some.inj hstart)
      rintro v hv
      rcases List.mem_cons.1 hv with rfl | hv
      · exact startVoice_placed _ _ _ _ _
      · exact hvoices v hv
    · split at hstart
      · rename_i started shared'' hrest
        obtain ⟨rfl, _⟩ := Prod.mk.inj (Option.some.inj hstart)
        rintro v hv
        rcases List.mem_cons.1 hv with rfl | hv
        · exact h v List.mem_cons_self
        · exact ih hvoices hrest v hv
      · simp at hstart

omit [Narrow F D] in
theorem noteOn_placed {s : Sampler F D} (h : s.AllPlaced) (note : ℤ) (velocity : F) :
    (s.noteOn note velocity).AllPlaced := by
  unfold noteOn
  split
  · rename_i voices shared hstart
    exact startFree_placed h hstart
  · intro voice hmem
    obtain ⟨i, hi⟩ := List.mem_iff_getElem?.1 hmem
    rw [List.getElem?_modify] at hi
    obtain ⟨before, hbefore, heq⟩ := Option.map_eq_some_iff.1 hi
    have hplaced := h before (List.mem_of_getElem? hbefore)
    subst heq
    split
    · exact hplaced
    · exact hplaced

/-- A call keeps every voice placed. -/
theorem liveCall_placed {s : Sampler F D} (h : s.AllPlaced) (c : LiveCall F D) :
    (s.liveCall c).AllPlaced := by
  cases c with
  | prepare fallback sampleRate maxBlockFrames =>
    intro voice hmem
    obtain rfl := List.eq_of_mem_replicate hmem
    exact Int.le_refl 0
  | release => exact allPlaced_map h fun _ _ => Int.le_refl 0
  | reset => exact allPlaced_map h fun _ hplaced => hplaced
  | setSample sample =>
    cases sample with
    | none => exact h
    | some data => exact h
  | setClipPlayback playback => exact h
  | noteOn note velocity => exact noteOn_placed h note velocity
  | noteOff note | allNotesOff =>
    refine allPlaced_map h fun voice hplaced => ?_
    split
    · exact hplaced
    · exact hplaced
  | render output startFrame numFrames => exact renderVoices_placed _ _ h _ _

theorem after_placed (calls : List (LiveCall F D)) : (after calls).AllPlaced := by
  have hrun : ∀ (calls : List (LiveCall F D)) (s : Sampler F D), s.AllPlaced →
      (calls.foldl liveCall s).AllPlaced := by
    intro calls
    induction calls with
    | nil => exact fun _ h => h
    | cons c calls ih => exact fun s h => ih _ (liveCall_placed h c)
  refine hrun calls _ fun voice hmem => ?_
  obtain rfl := List.eq_of_mem_replicate hmem
  exact Int.le_refl 0

/-- **Every frame that is read is one of the sample that is there**, whatever clips were set, notes
played and samples replaced before. -/
theorem reads_inside (calls : List (LiveCall F D)) (outChannels numFrames : ℕ) :
    (after calls).ReadsInside outChannels numFrames :=
  readsOf_inside outChannels numFrames (after_placed calls) _

end Sampler

end OneBeat
