import OneBeat.Core.SamplerNotes
import OneBeat.Plugin.SamplerPlugin

/-!
# Note-offs of the sampler plug-in

A note-off looks for the note that its key sounds now, under the transpose of the moment; a voice
keeps the note that its key sounded when it was started.

* `Evolves` : what the calls of a sampler with a free voice do to its voices;
* `releases_iff` : **a note-off releases every voice that a note-on of its key has started exactly
  when each of them that still sounds was started under the transpose of the moment**;
* `not_releases_transposed` : a block in which one was not.
-/

namespace OneBeat

namespace Sampler

variable {F D : Type} [FloatOps F] [DoubleOps D]

/-! ### Voices that go on -/

/-- The same start of a voice, later; nothing has been queued. -/
structure Kept (voice voice' : Voice F D) : Prop where
  order : voice'.order = voice.order
  note : voice'.note = voice.note
  pendingNote : voice.pendingNote < 0 → voice'.pendingNote < 0

variable {patch : Patch F D} {shared : Shared F D} {voice voice' : Voice F D}

omit [FloatOps F] [DoubleOps D] in
theorem Kept.refl (voice : Voice F D) : Kept voice voice := ⟨rfl, rfl, id⟩

/-- However it ends, it is the same start of the voice. -/
def Ending.Kept (voice : Voice F D) : Ending F D → Prop
  | .goesOn voice' => Sampler.Kept voice voice'
  | .ended voice' => Sampler.Kept voice voice'
  | .faded voice' => Sampler.Kept voice voice'

omit [FloatOps F] [DoubleOps D] in
theorem kept_play {α : Type} {frame : α → Voice F D → Frame F D}
    (hframe : ∀ input voice, FrameStep voice (frame input voice)) (inputs : List α) :
    (play frame inputs voice).2.Kept voice := by
  induction inputs generalizing voice with
  | nil => exact .refl voice
  | cons input inputs ih =>
    unfold play
    have hstep := hframe input voice
    generalize frame input voice = f at hstep
    cases hstep with
    | spent | faded => exact ⟨rfl, rfl, id⟩
    | played value position fade =>
      have hrest := @ih (moved voice position fade)
      dsimp only
      cases hending : (play frame inputs (moved voice position fade)).2 <;> rw [hending] at hrest
      all_goals exact ⟨hrest.order, hrest.note, hrest.pendingNote⟩

omit [FloatOps F] [DoubleOps D] in
theorem Ending.Kept.spentIf {ending : Ending F D} (h : ending.Kept voice) (spent : Bool) :
    (ending.spentIf spent).Kept voice := by
  cases ending with
  | goesOn voice' =>
    cases spent with
    | false => exact h
    | true => exact ⟨h.order, h.note, h.pendingNote⟩
  | ended voice' => exact h
  | faded voice' => exact h

/-- With nothing queued, a fade ends the voice. -/
theorem Ending.Kept.finish (patch : Patch F D) (shared : Shared F D) {ending : Ending F D}
    (h : ending.Kept voice)
    (hpending : voice.pendingNote < 0) :
    Sampler.Kept voice (ending.finish patch shared).1 ∧ (ending.finish patch shared).2 = shared := by
  cases ending with
  | goesOn voice' => exact ⟨h, rfl⟩
  | ended voice' => exact ⟨h, rfl⟩
  | faded voice' =>
    have hnone : ¬ 0 ≤ voice'.pendingNote := by
      have := h.pendingNote hpending
      omega
    unfold Ending.finish fadedOut
    dsimp only
    rw [if_neg hnone]
    exact ⟨⟨h.order, h.note, h.pendingNote⟩, rfl⟩

variable [Narrow F D]

theorem kept_playVoice (patch : Patch F D) (outChannels numFrames : ℕ) (stretch : TimeStretch F D)
    (voice : Voice F D) :
    (playVoice patch outChannels numFrames stretch voice).1.2.Kept voice := by
  unfold playVoice
  split
  · exact .refl voice
  · dsimp only
    split
    · exact ⟨rfl, rfl, id⟩
    · split
      · unfold renderStretchedVoice
        dsimp only
        split
        · exact .refl voice
        · exact (kept_play fadeFrame_step _).spentIf _
      · exact kept_play (fun _ => plainFrame_step _) _

theorem kept_renderVoices (patch : Patch F D) (shared : Shared F D) (startFrame numFrames : ℕ)
    {voices : List (Voice F D)} (output : AudioBuffer F)
    (hpending : ∀ voice ∈ voices, voice.pendingNote < 0) :
    List.Forall₂ Kept voices (renderVoices patch startFrame numFrames voices shared output).1 ∧
      (renderVoices patch startFrame numFrames voices shared output).2.1.orderCounter =
        shared.orderCounter := by
  induction voices generalizing shared output with
  | nil => exact ⟨.nil, rfl⟩
  | cons voice voices ih =>
    rw [renderVoices]
    dsimp only
    have hvoice := Ending.Kept.finish patch
      { shared with stretch := (playVoice patch output.numChannels numFrames shared.stretch voice).2 }
      (kept_playVoice patch output.numChannels numFrames shared.stretch voice)
      (hpending voice List.mem_cons_self)
    obtain ⟨hrest, hcounter⟩ := ih _ _ fun voice hmem => hpending voice (List.mem_cons_of_mem _ hmem)
    refine ⟨.cons hvoice.1 hrest, hcounter.trans ?_⟩
    rw [hvoice.2]

/-! ### What the calls do to the voices -/

/-- The voices are those of before, or have been started since. -/
structure Evolves (s s' : Sampler F D) : Prop where
  length : s'.voices.length = s.voices.length
  counter : s.shared.orderCounter ≤ s'.shared.orderCounter
  origin : ∀ voice' ∈ s'.voices, (∃ voice ∈ s.voices, Kept voice voice') ∨
    s.shared.orderCounter < voice'.order ∧ voice'.order ≤ s'.shared.orderCounter ∧
      voice'.pendingNote < 0

omit [FloatOps F] [DoubleOps D] [Narrow F D] in
theorem Evolves.refl (s : Sampler F D) : Evolves s s :=
  ⟨rfl, le_rfl, fun voice hvoice => .inl ⟨voice, hvoice, .refl voice⟩⟩

omit [FloatOps F] [DoubleOps D] [Narrow F D] in
/-- Every voice changes on its own, and stays the same start. -/
theorem evolves_of_forall₂ {s s' : Sampler F D} (h : List.Forall₂ Kept s.voices s'.voices)
    (hcounter : s'.shared.orderCounter = s.shared.orderCounter) : Evolves s s' where
  length := h.length_eq.symm
  counter := hcounter.ge
  origin := by
    intro voice' hmem
    obtain ⟨i, hi, rfl⟩ := List.mem_iff_getElem.1 hmem
    have hi' : i < s.voices.length := h.length_eq ▸ hi
    exact .inl ⟨s.voices[i], List.getElem_mem hi', List.forall₂_iff_get.1 h |>.2 i hi' hi⟩

/-- Nothing is queued, and no voice has a number that is still to be given. -/
structure Settled (s : Sampler F D) : Prop where
  length : s.voices.length = maxVoices
  pending : ∀ voice ∈ s.voices, voice.pendingNote < 0
  order : ∀ voice ∈ s.voices, voice.order ≤ s.shared.orderCounter

theorem settled_prepare (s : Sampler F D) (fallback : SampleData F D) (sampleRate : D)
    (maxBlockFrames : ℤ) : Settled (s.prepare fallback sampleRate maxBlockFrames) where
  length := List.length_replicate
  pending := by
    intro voice hvoice
    obtain rfl := List.eq_of_mem_replicate hvoice
    exact Int.negSucc_lt_zero 0
  order := by
    intro voice hvoice
    obtain rfl := List.eq_of_mem_replicate hvoice
    exact Nat.zero_le _

omit [FloatOps F] [DoubleOps D] [Narrow F D] in
theorem Settled.of_evolves {s s' : Sampler F D} (hs : Settled s) (h : Evolves s s') : Settled s' where
  length := h.length.trans hs.length
  pending := by
    intro voice' hmem
    rcases h.origin voice' hmem with ⟨voice, hvoice, hkept⟩ | ⟨_, _, hpending⟩
    · exact hkept.pendingNote (hs.pending voice hvoice)
    · exact hpending
  order := by
    intro voice' hmem
    rcases h.origin voice' hmem with ⟨voice, hvoice, hkept⟩ | ⟨_, hle, _⟩
    · rw [hkept.order]
      exact (hs.order voice hvoice).trans h.counter
    · exact hle

omit [FloatOps F] [DoubleOps D] [Narrow F D] in
/-- A voice keeps its note as long as it has its number. -/
theorem Evolves.note {s s' : Sampler F D} (h : Evolves s s') {order : ℕ} {note : ℤ}
    (horder : order ≤ s.shared.orderCounter)
    (hnote : ∀ voice ∈ s.voices, voice.order = order → voice.note = note) :
    ∀ voice ∈ s'.voices, voice.order = order → voice.note = note := by
  intro voice' hmem heq
  rcases h.origin voice' hmem with ⟨voice, hvoice, hkept⟩ | ⟨hlt, _⟩
  · rw [hkept.note]
    exact hnote voice hvoice (hkept.order ▸ heq)
  · omega

theorem evolves_render {s : Sampler F D} (hs : Settled s) (output : AudioBuffer F)
    (startFrame numFrames : ℕ) : Evolves s (s.render output startFrame numFrames).1 := by
  obtain ⟨hkept, hcounter⟩ := kept_renderVoices s.patch s.shared startFrame numFrames output
    hs.pending
  exact evolves_of_forall₂ hkept hcounter

omit [FloatOps F] [DoubleOps D] [Narrow F D] in
theorem evolves_noteOff (s : Sampler F D) (note : ℤ) : Evolves s (s.noteOff note) := by
  refine evolves_of_forall₂ ?_ rfl
  refine List.forall₂_map_right_iff.2 (List.forall₂_same.2 fun voice _ => ?_)
  split_ifs
  · exact ⟨rfl, rfl, id⟩
  · exact .refl voice

omit [FloatOps F] [DoubleOps D] [Narrow F D] in
theorem evolves_allNotesOff (s : Sampler F D) : Evolves s s.allNotesOff := by
  refine evolves_of_forall₂ ?_ rfl
  refine List.forall₂_map_right_iff.2 (List.forall₂_same.2 fun voice _ => ?_)
  split_ifs
  · exact ⟨rfl, rfl, fun _ => Int.negSucc_lt_zero 0⟩
  · exact .refl voice

/-! ### A note with a free voice -/

omit [Narrow F D] in
theorem startVoice_order (patch : Patch F D) (shared : Shared F D) (voice : Voice F D) (note : ℤ)
    (velocity : F) :
    (startVoice patch shared voice note velocity).1.order = shared.orderCounter + 1 ∧
      (startVoice patch shared voice note velocity).2.orderCounter = shared.orderCounter + 1 := by
  unfold startVoice
  dsimp only
  split_ifs <;> exact ⟨rfl, rfl⟩

/-- A voice is started, with the next number, and the others are as they were. -/
structure Starts (note : ℤ) (s s' : Sampler F D) : Prop where
  length : s'.voices.length = s.voices.length
  counter : s'.shared.orderCounter = s.shared.orderCounter + 1
  others : ∀ voice ∈ s'.voices, voice ∈ s.voices ∨ voice.order = s.shared.orderCounter + 1 ∧
    voice.note = note ∧ voice.pendingNote < 0
  started : ∃ voice ∈ s'.voices, voice.order = s.shared.orderCounter + 1 ∧ voice.note = note ∧
    voice.active = true ∧ voice.releasing = false

omit [Narrow F D] in
theorem startFree_starts (patch : Patch F D) (shared : Shared F D) (note : ℤ) (velocity : F)
    {voices : List (Voice F D)}
    (hfree : ∃ voice ∈ voices, voice.active = false) :
    ∃ voices' shared', startFree patch shared note velocity voices = some (voices', shared') ∧
      Starts note { patch, shared, voices } { patch, shared := shared', voices := voices' } := by
  induction voices with
  | nil => simp at hfree
  | cons voice voices ih =>
    cases hactive : voice.active with
    | false =>
      refine ⟨(startVoice patch shared voice note velocity).1 :: voices,
        (startVoice patch shared voice note velocity).2, by simp [startFree, hactive], ?_⟩
      obtain ⟨hnote, hpending, hactive', hreleasing⟩ :=
        startVoice_eq patch shared voice note velocity
      obtain ⟨horder, hcounter⟩ := startVoice_order patch shared voice note velocity
      refine ⟨by simp, hcounter, ?_, ?_⟩
      · intro voice' hmem
        rcases List.mem_cons.1 hmem with rfl | hmem
        · exact .inr ⟨horder, hnote, hpending ▸ Int.negSucc_lt_zero 0⟩
        · exact .inl (List.mem_cons_of_mem _ hmem)
      · exact ⟨_, List.mem_cons_self, horder, hnote, hactive', hreleasing⟩
    | true =>
      -- this one is in use: the free one comes after it
      have hfree' : ∃ voice ∈ voices, voice.active = false := by
        obtain ⟨voice', hmem, hinactive⟩ := hfree
        rcases List.mem_cons.1 hmem with rfl | hmem
        · simp [hactive] at hinactive
        · exact ⟨voice', hmem, hinactive⟩
      obtain ⟨voices', shared', hstart, hs⟩ := ih hfree'
      refine ⟨voice :: voices', shared', by simp [startFree, hactive, hstart], ?_⟩
      refine ⟨congrArg (· + 1) hs.length, hs.counter, ?_, ?_⟩
      · intro voice' hmem
        rcases List.mem_cons.1 hmem with rfl | hmem
        · exact .inl List.mem_cons_self
        · exact (hs.others voice' hmem).imp_left (List.mem_cons_of_mem _)
      · obtain ⟨started, hmem, hstarted⟩ := hs.started
        exact ⟨started, List.mem_cons_of_mem _ hmem, hstarted⟩

omit [Narrow F D] in
/-- A note-on starts one voice, when one is free. -/
theorem starts_noteOn {s : Sampler F D} (hroom : s.activeVoices < s.voices.length) (note : ℤ)
    (velocity : F) : Starts note s (s.noteOn note velocity) := by
  have hfree : ∃ voice ∈ s.voices, voice.active = false := by
    by_contra hnone
    push Not at hnone
    have hall : s.activeVoices = s.voices.length :=
      List.countP_eq_length.2 fun voice hvoice => by simpa using hnone voice hvoice
    omega
  obtain ⟨voices', shared', hstart, hs⟩ := startFree_starts s.patch s.shared note velocity hfree
  unfold noteOn
  rw [hstart]
  exact hs

omit [FloatOps F] [DoubleOps D] [Narrow F D] in
theorem Starts.evolves {s s' : Sampler F D} {note : ℤ} (h : Starts note s s') : Evolves s s' where
  length := h.length
  counter := h.counter ▸ Nat.le_succ _
  origin := by
    intro voice hmem
    rcases h.others voice hmem with hmem | ⟨horder, _, hpending⟩
    · exact .inl ⟨voice, hmem, .refl voice⟩
    · refine .inr ⟨?_, ?_, hpending⟩
      · omega
      · rw [horder, h.counter]

omit [FloatOps F] [DoubleOps D] [Narrow F D] in
/-- The number is that of the note, from then on. -/
theorem Starts.note {s s' : Sampler F D} {note : ℤ} (h : Starts note s s') (hs : Settled s) :
    ∀ voice ∈ s'.voices, voice.order = s.shared.orderCounter + 1 → voice.note = note := by
  intro voice hmem heq
  rcases h.others voice hmem with hmem | ⟨_, hnote, _⟩
  · have := hs.order voice hmem
    omega
  · exact hnote

end Sampler

/-! ### Blocks with free voices -/

namespace SamplerPlugin

variable {F D : Type} [FloatOps F] [DoubleOps D] [Narrow F D] [Narrow F Double]

/-- When a note comes, a voice is free. -/
def Roomy (s₀ : Rendering F D) (moments : List (Moment F)) : Prop :=
  ∀ before on after, moments = before ++ .apply on :: after → on.type = .noteOn →
    (run s₀ before).1.sampler.activeVoices < Sampler.maxVoices

variable {s s₀ : Rendering F D} {moments before after : List (Moment F)} {on off : PluginEvent}

theorem run_concat (m : Moment F) :
    run s₀ (before ++ [m]) = moment (run s₀ before) m := by
  rw [run_append]
  rfl

omit [Narrow F D] in
theorem evolves_applyEvent {p : SamplerPlugin F D} {event : PluginEvent}
    (hs : p.sampler.Settled)
    (hroom : event.type = .noteOn → p.sampler.activeVoices < Sampler.maxVoices) :
    p.sampler.Evolves (p.applyEvent event).sampler := by
  unfold applyEvent
  split
  · exact (Sampler.starts_noteOn (hs.length ▸ hroom ‹_›) _ _).evolves
  · split_ifs
    · exact Sampler.evolves_allNotesOff _
    · exact Sampler.evolves_noteOff _ _
  · exact Sampler.evolves_allNotesOff _
  · split_ifs <;> exact .refl _
  · split_ifs <;> exact .refl _
  · exact .refl _

theorem evolves_moment {m : Moment F} (hs : s.1.sampler.Settled)
    (hroom : ∀ on, m = .apply on → on.type = .noteOn → s.1.sampler.activeVoices < Sampler.maxVoices) :
    s.1.sampler.Evolves (moment s m).1.sampler := by
  cases m with
  | start output => exact .refl _
  | apply event => exact evolves_applyEvent hs (hroom event rfl)
  | render startFrame numFrames =>
    unfold moment
    dsimp only
    split
    · exact .refl _
    · exact Sampler.evolves_render hs _ _ _

theorem Roomy.prefix (h : Roomy s₀ (before ++ after)) : Roomy s₀ before := by
  intro earlier on between heq
  refine h earlier on (between ++ after) ?_
  rw [heq, List.append_assoc, List.cons_append]

theorem settled_run (hs : s₀.1.sampler.Settled) (hroom : Roomy s₀ moments) :
    (run s₀ moments).1.sampler.Settled := by
  induction moments using List.reverseRecOn with
  | nil => exact hs
  | append_singleton before m ih =>
    have hbefore := ih hroom.prefix
    rw [run_concat]
    refine hbefore.of_evolves (evolves_moment hbefore ?_)
    rintro on rfl
    exact hroom before on [] rfl

/-! ### Note-offs -/

/-- The number of the voice that is started next. -/
def nextOrder (s : Rendering F D) : ℕ := s.1.sampler.shared.orderCounter + 1

/-- Among the moments before the note-off, the ones before a note-on of its key. -/
def Before (before : List (Moment F)) (off : PluginEvent) (earlier : List (Moment F)) : Prop :=
  ∃ on between, before = earlier ++ .apply on :: between ∧ on.type = .noteOn ∧ on.key = off.key

/-- The note-off releases every voice that a note-on of its key has started. -/
def Answers (s₀ : Rendering F D) (before : List (Moment F)) (off : PluginEvent) : Prop :=
  ∀ earlier, Before before off earlier →
    ∀ voice ∈ (run s₀ (before ++ [.apply off])).1.sampler.voices,
      voice.order = nextOrder (run s₀ earlier) → voice.active = true → voice.releasing = true

/-- The notes of the key that still sound were started under the transpose of the moment. -/
def SameTranspose (s₀ : Rendering F D) (before : List (Moment F)) (off : PluginEvent) : Prop :=
  ∀ earlier, Before before off earlier →
    (∃ voice ∈ (run s₀ before).1.sampler.voices, voice.order = nextOrder (run s₀ earlier) ∧
      voice.active = true ∧ voice.releasing = false) →
    (run s₀ earlier).1.semitones = (run s₀ before).1.semitones

/-- A transpose is a number of its range, or none at all. -/
theorem truncate_clamp_mem (value : Double) :
    -24 ≤ (transposeParam.clamp value).truncate ∧ (transposeParam.clamp value).truncate ≤ 24 := by
  have hfinite : ∀ q : ℚ, -24 ≤ q → q ≤ 24 →
      -24 ≤ (Double.finite q).truncate ∧ (Double.finite q).truncate ≤ 24 := by
    intro q hlo hhi
    unfold Double.truncate
    dsimp only
    split_ifs with hq
    · exact ⟨(by norm_num : (-24 : ℤ) ≤ 0).trans (Int.floor_nonneg.2 hq),
        Int.floor_le_iff.2 (by push_cast; linarith)⟩
    · exact ⟨Int.le_ceil_iff.2 (by push_cast; linarith), Int.ceil_le.2 (by exact_mod_cast hhi)⟩
  unfold ParamInfo.clamp transposeParam
  dsimp only
  split_ifs with hlo hhi
  · exact hfinite (-24) le_rfl (by norm_num)
  · exact hfinite 24 (by norm_num) le_rfl
  · cases value with
    | finite q =>
      simp only [Double.lt, decide_eq_true_eq, not_lt] at hlo hhi
      exact hfinite q hlo hhi
    | infinite negative => cases negative <;> simp [Double.lt] at hlo hhi
    | nan => exact ⟨by decide, by decide⟩

omit [Narrow F D] [Narrow F Double] [FloatOps F] [DoubleOps D] in
theorem semitones_mem (p : SamplerPlugin F D) : -24 ≤ p.semitones ∧ p.semitones ≤ 24 := by
  have hmem := truncate_clamp_mem (p.transpose.base.add p.transpose.modulation)
  have heq : p.semitones = (p.transpose.effective transposeParam).truncate := by
    unfold semitones int16 ModulatedValue.effective
    exact Int.bmod_eq_of_le (by norm_num; omega) (by norm_num; omega)
  rw [heq]
  exact hmem

omit [Narrow F D] [Narrow F Double] [FloatOps F] [DoubleOps D] in
/-- Two transposes that sound a key as one note are the same. -/
theorem sounding_eq_iff {p p' : SamplerPlugin F D} {key : ℤ} :
    p.sounding key = p'.sounding key ↔ p.semitones = p'.semitones := by
  constructor
  · intro h
    have hp := p.semitones_mem
    have hp' := p'.semitones_mem
    have hdvd : (2 ^ 16 : ℤ) ∣ p.semitones - p'.semitones := by
      have hmod := (Int.bmod_eq_bmod_iff_bmod_sub_eq_zero ..).1 h
      rw [add_sub_add_left_eq_sub] at hmod
      exact_mod_cast Int.dvd_of_bmod_eq_zero hmod
    obtain ⟨c, hc⟩ := hdvd
    omega
  · intro h
    unfold sounding
    rw [h]

/-- The voices that a note-on has started have its note, ever since. -/
theorem note_of_order {earlier between : List (Moment F)} (hs : s₀.1.sampler.Settled)
    (hroom : Roomy s₀ (earlier ++ .apply on :: between)) (hon : on.type = .noteOn) :
    nextOrder (run s₀ earlier) ≤
        (run s₀ (earlier ++ .apply on :: between)).1.sampler.shared.orderCounter ∧
      ∀ voice ∈ (run s₀ (earlier ++ .apply on :: between)).1.sampler.voices,
        voice.order = nextOrder (run s₀ earlier) →
          voice.note = (run s₀ earlier).1.sounding on.key := by
  induction between using List.reverseRecOn with
  | nil =>
    have hearlier := settled_run hs hroom.prefix
    have hfree := hroom earlier on [] rfl hon
    rw [run_concat, moment, applyEvent, hon]
    have hstarts := Sampler.starts_noteOn (hearlier.length ▸ hfree)
      ((run s₀ earlier).1.sounding on.key)
      (narrow (on.value.mul ((run s₀ earlier).1.gain.effective gainParam)))
    exact ⟨hstarts.counter.ge, hstarts.note hearlier⟩
  | append_singleton between m ih =>
    have hassoc : earlier ++ .apply on :: (between ++ [m]) =
        (earlier ++ .apply on :: between) ++ [m] := by simp
    rw [hassoc] at hroom ⊢
    obtain ⟨hle, hnote⟩ := ih hroom.prefix
    have hbefore := settled_run hs hroom.prefix
    rw [run_concat]
    have hevolves := evolves_moment (s := run s₀ (earlier ++ .apply on :: between)) (m := m) hbefore (by
      rintro on' rfl
      exact hroom _ on' [] rfl)
    exact ⟨hle.trans hevolves.counter, hevolves.note hle hnote⟩

/-- **A note-off releases every voice that a note-on of its key has started**, exactly when the voices
that still sound were started under the transpose of the moment. -/
theorem releases_iff (p : SamplerPlugin F D) (fallback : SampleData F D) (sampleRate : D)
    (maxBlockFrames : ℕ) {blocks : List (ProcessBlock F)}
    (hroom : Roomy (p.configure fallback sampleRate maxBlockFrames, none)
      (blocks.flatMap ProcessBlock.moments))
    (hblocks : blocks.flatMap ProcessBlock.moments = before ++ .apply off :: after)
    (hoff : off.type = .noteOff) :
    Answers (p.configure fallback sampleRate maxBlockFrames, none) before off ↔
      (off.key ≠ wildcard →
        SameTranspose (p.configure fallback sampleRate maxBlockFrames, none) before off) := by
  set s₀ : Rendering F D := (p.configure fallback sampleRate maxBlockFrames, none)
  have hs : s₀.1.sampler.Settled := Sampler.settled_prepare _ _ _ _
  rw [hblocks] at hroom
  have hvoices : (run s₀ (before ++ [.apply off])).1.sampler.voices =
      if off.key = wildcard then (run s₀ before).1.sampler.allNotesOff.voices
      else ((run s₀ before).1.sampler.noteOff ((run s₀ before).1.sounding off.key)).voices := by
    rw [run_concat, moment, applyEvent, hoff]
    dsimp only
    split_ifs <;> rfl
  have hnote : ∀ earlier, Before before off earlier →
      ∀ voice ∈ (run s₀ before).1.sampler.voices, voice.order = nextOrder (run s₀ earlier) →
        voice.note = (run s₀ earlier).1.sounding off.key := by
    rintro earlier ⟨on, between, rfl, hon, hkey⟩
    rw [← hkey]
    exact (note_of_order hs hroom.prefix hon).2
  by_cases hkey : off.key = wildcard
  · refine iff_of_true ?_ fun h => absurd hkey h
    -- every voice is released
    intro earlier _ voice' hmem _ hactive
    rw [hvoices, if_pos hkey] at hmem
    obtain ⟨voice, -, rfl⟩ := List.mem_map.1 hmem
    split_ifs at hactive ⊢ with hsounds
    · rfl
    · simpa [hactive] using hsounds
  rw [if_neg hkey] at hvoices
  rw [forall_prop_of_true hkey]
  constructor
  · rintro hanswers earlier hearlier ⟨voice, hmem, horder, hactive, hreleasing⟩
    by_contra hne
    have hmiss : voice.note ≠ (run s₀ before).1.sounding off.key := by
      rw [hnote earlier hearlier voice hmem horder]
      exact mt sounding_eq_iff.1 hne
    have hmem' : voice ∈ (run s₀ (before ++ [.apply off])).1.sampler.voices := by
      rw [hvoices]
      refine List.mem_map.2 ⟨voice, hmem, if_neg ?_⟩
      simp [hmiss]
    rw [hanswers earlier hearlier voice hmem' horder hactive] at hreleasing
    cases hreleasing
  · intro hsame earlier hearlier voice' hmem horder hactive
    rw [hvoices] at hmem
    obtain ⟨voice, hvoice, rfl⟩ := List.mem_map.1 hmem
    split_ifs at horder hactive ⊢ with hsounds
    · rfl
    · by_contra hreleasing
      have heq := hsame earlier hearlier ⟨voice, hvoice, horder, hactive, by simpa using hreleasing⟩
      refine hsounds ?_
      rw [hnote earlier hearlier voice hvoice horder, sounding_eq_iff.2 heq]
      simpa [hactive] using hreleasing

/-! ### A note that is transposed while it sounds -/

/-- A sampler plug-in with a short sample. -/
def plain : SamplerPlugin IeeeFloat IeeeDouble := { sampler := .unprepared }

/-- One frame, and events at it. -/
def frameOf (events : List PluginEvent) : ProcessBlock IeeeFloat where
  frames := 1
  output := some ⟨1, fun _ _ => 0⟩
  events

/-- A note, on and off, and what comes in between. -/
def noteAround (event : PluginEvent) : List PluginEvent :=
  [.noteOn 0 60 1, event, .noteOff 0 60]

/-- The moments of the frame: the note-on, the event, the note-off and the rest. -/
theorem moments_noteAround {event : PluginEvent} (h : event.time = 0) :
    [frameOf (noteAround event)].flatMap ProcessBlock.moments =
      [.start ⟨1, fun _ _ => 0⟩, .apply (.noteOn 0 60 1), .apply event] ++
        .apply (.noteOff 0 60) :: [.render 0 1] := by
  simp [ProcessBlock.moments, frameOf, noteAround, cut, nextCut, due, h, PluginEvent.noteOn,
    PluginEvent.noteOff]

/-- Before the only note-on, no voice sounds. -/
theorem roomy_noteAround {event : PluginEvent} (h : event.time = 0) (hevent : event.type ≠ .noteOn) :
    Roomy (plain.configure Sampler.blip (ofRat 48000) 512, none)
      ([frameOf (noteAround event)].flatMap ProcessBlock.moments) := by
  rw [moments_noteAround h]
  intro before on after heq hon
  match before, heq with
  | [], heq => simp at heq
  | [m], heq =>
    obtain rfl : Moment.start ⟨1, fun _ _ => 0⟩ = m := (List.cons.inj heq).1
    have hfree : (run (plain.configure Sampler.blip (ofRat 48000) 512, none)
        [.start ⟨1, fun _ _ => 0⟩]).1.sampler.activeVoices = 0 := by decide
    rw [hfree]
    decide
  | [_, _], heq =>
    simp only [List.cons_append, List.nil_append, List.cons.injEq, Moment.apply.injEq] at heq
    exact absurd hon (heq.2.2.1 ▸ hevent)
  | [_, _, _], heq =>
    simp only [List.cons_append, List.nil_append, List.cons.injEq, Moment.apply.injEq] at heq
    rw [← heq.2.2.2.1] at hon
    cases hon
  | [_, _, _, _], heq => simp at heq
  | _ :: _ :: _ :: _ :: _ :: before, heq => simp at heq

theorem releases_volume :
    Answers (plain.configure Sampler.blip (ofRat 48000) 512, none)
        [.start ⟨1, fun _ _ => 0⟩, .apply (.noteOn 0 60 1), .apply (.paramValue 0 1 0)]
        (.noteOff 0 60) ↔
      ((60 : ℤ) ≠ wildcard →
        SameTranspose (plain.configure Sampler.blip (ofRat 48000) 512, none)
          [.start ⟨1, fun _ _ => 0⟩, .apply (.noteOn 0 60 1), .apply (.paramValue 0 1 0)]
          (.noteOff 0 60)) :=
  releases_iff plain Sampler.blip (ofRat 48000) 512 (roomy_noteAround rfl (by decide))
    (moments_noteAround rfl) rfl

/-- The transpose goes up by a tone between the note-on and the note-off. -/
theorem not_releases_transposed :
    Roomy (plain.configure Sampler.blip (ofRat 48000) 512, none)
        ([frameOf (noteAround (.paramValue 0 2 (.finite 2)))].flatMap ProcessBlock.moments) ∧
      [frameOf (noteAround (.paramValue 0 2 (.finite 2)))].flatMap ProcessBlock.moments =
        [.start ⟨1, fun _ _ => 0⟩, .apply (.noteOn 0 60 1),
          .apply (.paramValue 0 2 (.finite 2))] ++ .apply (.noteOff 0 60) :: [.render 0 1] ∧
      ¬ Answers (plain.configure Sampler.blip (ofRat 48000) 512, none)
        [.start ⟨1, fun _ _ => 0⟩, .apply (.noteOn 0 60 1), .apply (.paramValue 0 2 (.finite 2))]
        (.noteOff 0 60) := by
  refine ⟨roomy_noteAround rfl (by decide), moments_noteAround rfl, fun hanswers => ?_⟩
  have hfirst := hanswers [.start ⟨1, fun _ _ => 0⟩] ⟨.noteOn 0 60 1, [_], rfl, rfl, rfl⟩
    ((run (plain.configure Sampler.blip (ofRat 48000) 512, none)
      [.start ⟨1, fun _ _ => 0⟩, .apply (.noteOn 0 60 1), .apply (.paramValue 0 2 (.finite 2)),
        .apply (.noteOff 0 60)]).1.sampler.voices.head (by decide))
    (List.head_mem _) (by decide +kernel) (by decide +kernel)
  revert hfirst
  decide +kernel

end SamplerPlugin

end OneBeat
