import OneBeat.Core.VoiceSplit

/-!
# Rendering in two calls

The voices share a stretcher and the counter of their starts, and they add to one output.

* `Spliced`, `mixAll_spliced` : what is added first and what is added afterwards;
* `Seamless` : nothing happens that tells one call from two;
* `splits_of_cleanly` : **then the split changes neither the output nor the voices**;
* `not_splits_restart` : a stolen voice that starts again in the first of two frames.
-/

namespace OneBeat.Sampler

section Output

variable {F : Type} [FloatOps F]

/-! ### The output -/

/-- Where frames are added. -/
theorem mix_of_lt (output : AudioBuffer F) {start c f : ℕ} (frames : List (ℕ → F))
    (h : f < start) : (mix output start frames).channel c f = output.channel c f :=
  if_neg fun hin => absurd hin.2 (Nat.not_le.2 h)

theorem mix_of_le (output : AudioBuffer F) {start c f : ℕ} (frames : List (ℕ → F))
    (h : start + frames.length ≤ f) : (mix output start frames).channel c f = output.channel c f := by
  have hnone : frames[f - start]? = none := List.getElem?_eq_none (by omega)
  simp [mix, hnone]

omit [FloatOps F] in
theorem buffer_ext {x y : AudioBuffer F} (hchannels : x.numChannels = y.numChannels)
    (h : ∀ c f, x.channel c f = y.channel c f) : x = y := by
  cases x
  cases y
  simp only [AudioBuffer.mk.injEq]
  exact ⟨hchannels, funext fun c => funext (h c)⟩

/-- A frame is added to what is there. -/
theorem mix_congr {x y : AudioBuffer F} (hchannels : x.numChannels = y.numChannels) {start c f : ℕ}
    (h : x.channel c f = y.channel c f) (frames : List (ℕ → F)) :
    (mix x start frames).channel c f = (mix y start frames).channel c f := by
  simp only [mix, hchannels, h]

/-- Frames that are added further on do not matter to those that are added here. -/
theorem mix_comm (output : AudioBuffer F) (start : ℕ) {a : ℕ} {frames : List (ℕ → F)}
    (h : frames.length ≤ a) (more : List (ℕ → F)) :
    mix (mix output (start + a) more) start frames =
      mix (mix output start frames) (start + a) more := by
  refine buffer_ext rfl ?_
  intro c f
  rcases Nat.lt_or_ge f (start + a) with hlt | hle
  · have hmore : (mix output (start + a) more).channel c f = output.channel c f :=
      mix_of_lt output more hlt
    rw [mix_of_lt _ more hlt]
    exact mix_congr (by rfl) hmore frames
  · have hframes : (mix output start frames).channel c f = output.channel c f :=
      mix_of_le output frames (by omega)
    rw [mix_of_le _ frames (by omega)]
    exact mix_congr (by rfl) hframes.symm more

theorem mix_nil (output : AudioBuffer F) (start : ℕ) : mix output start [] = output := by
  simp [mix]

theorem mix_append (output : AudioBuffer F) (start : ℕ) {a : ℕ} {frames more : List (ℕ → F)}
    (h : frames.length = a ∨ more = []) :
    mix output start (frames ++ more) = mix (mix output start frames) (start + a) more := by
  rcases h with rfl | rfl
  · refine buffer_ext rfl ?_
    intro c f
    rcases Nat.lt_or_ge f (start + frames.length) with hlt | hle
    · rw [mix_of_lt _ more hlt]
      simp only [mix]
      by_cases hstart : start ≤ f
      · rw [List.getElem?_append_left (by omega)]
      · simp [hstart]
    · have hindex : f - start - frames.length = f - (start + frames.length) := by omega
      have hsame : (mix output start frames).channel c f = output.channel c f := mix_of_le _ _ hle
      have hstart : start ≤ f := by omega
      have hmore : (mix (mix output start frames) (start + frames.length) more).channel c f =
          (mix output (start + frames.length) more).channel c f := mix_congr (by rfl) hsame more
      rw [hmore]
      simp only [mix, hle, hstart, and_true]
      rw [List.getElem?_append_right (by omega), hindex]
  · refine buffer_ext rfl ?_
    intro c f
    rw [List.append_nil, mix_nil]

/-- Each voice has added some frames in the first call and the rest in the second. -/
inductive Spliced (a : ℕ) : List (List (ℕ → F)) → List (List (ℕ → F)) → List (List (ℕ → F)) → Prop
  | nil : Spliced a [] [] []
  | cons {frames more firsts seconds wholes} (hshort : frames.length ≤ a)
    (hfilled : frames.length = a ∨ more = []) (hrest : Spliced a firsts seconds wholes) :
    Spliced a (frames :: firsts) (more :: seconds) ((frames ++ more) :: wholes)

def mixAll (output : AudioBuffer F) (start : ℕ) (played : List (List (ℕ → F))) : AudioBuffer F :=
  played.foldl (fun output frames => mix output start frames) output

theorem mixAll_mix (output : AudioBuffer F) (start : ℕ) {a : ℕ} {more : List (ℕ → F)}
    {played : List (List (ℕ → F))} (h : ∀ frames ∈ played, frames.length ≤ a) :
    mixAll (mix output (start + a) more) start played =
      mix (mixAll output start played) (start + a) more := by
  induction played generalizing output with
  | nil => rfl
  | cons frames played ih =>
    rw [mixAll, List.foldl_cons, mix_comm _ _ (h frames List.mem_cons_self) more]
    exact ih _ fun frames hmem => h frames (List.mem_cons_of_mem _ hmem)

omit [FloatOps F] in
theorem Spliced.short {a : ℕ} {firsts seconds wholes : List (List (ℕ → F))}
    (h : Spliced a firsts seconds wholes) : ∀ frames ∈ firsts, frames.length ≤ a := by
  induction h with
  | nil => exact fun _ hmem => absurd hmem List.not_mem_nil
  | cons hshort _ _ ih =>
    intro frames hmem
    rcases List.mem_cons.1 hmem with rfl | hmem
    · exact hshort
    · exact ih frames hmem

/-- Adding all the frames of each voice is adding the first frames of all, and then the rest. -/
theorem mixAll_spliced {a : ℕ} {firsts seconds wholes : List (List (ℕ → F))}
    (h : Spliced a firsts seconds wholes) (output : AudioBuffer F) (start : ℕ) :
    mixAll output start wholes = mixAll (mixAll output start firsts) (start + a) seconds := by
  induction h generalizing output with
  | nil => rfl
  | cons hshort hfilled hrest ih =>
    rw [mixAll, List.foldl_cons, mix_append _ _ hfilled]
    refine (ih _).trans ?_
    rw [mixAll_mix _ _ hrest.short]
    rfl

end Output

/-! ### What the voices share -/

variable {F D : Type} [FloatOps F] [DoubleOps D]

/-- A note that starts is stretched. -/
def startsStretched (patch : Patch F D) : Bool := patch.clip.enabled && stretches patch.clip

section Shared

variable {patch : Patch F D} {shared shared' : Shared F D} {ending : Ending F D}

theorem startVoice_shared (patch : Patch F D) (shared : Shared F D) (voice : Voice F D) (note : ℤ)
    (velocity : F) :
    (startVoice patch shared voice note velocity).2 =
        { stretch := if startsStretched patch then shared.stretch.reset else shared.stretch
          orderCounter := shared.orderCounter + 1 } ∧
      (startVoice patch shared voice note velocity).1.stretching = startsStretched patch := by
  unfold startVoice startsStretched
  cases henabled : patch.clip.enabled with
  | false => simp
  | true => cases hstretches : stretches patch.clip <;> simp [hstretches]

/-- Of what is shared a voice that starts takes only its number. -/
theorem startVoice_congr (h : shared.orderCounter = shared'.orderCounter) (voice : Voice F D)
    (note : ℤ) (velocity : F) :
    (startVoice patch shared voice note velocity).1 =
      (startVoice patch shared' voice note velocity).1 := by
  unfold startVoice
  rw [h]
  cases henabled : patch.clip.enabled with
  | false => simp
  | true => cases hstretches : stretches patch.clip <;> simp [hstretches]

theorem finish_congr (ending : Ending F D) (h : shared.orderCounter = shared'.orderCounter) :
    (ending.finish patch shared).1 = (ending.finish patch shared').1 ∧
      (ending.finish patch shared).2.orderCounter = (ending.finish patch shared').2.orderCounter := by
  cases ending with
  | goesOn voice => exact ⟨rfl, h⟩
  | ended voice => exact ⟨rfl, h⟩
  | faded voice =>
    unfold Ending.finish fadedOut
    dsimp only
    split
    · rw [(startVoice_shared ..).1, (startVoice_shared ..).1, h]
      exact ⟨startVoice_congr h _ _ _, rfl⟩
    · exact ⟨rfl, h⟩

/-- The stretcher starts again with a note that is stretched. -/
theorem finish_stretch (patch : Patch F D) (shared : Shared F D) (ending : Ending F D) :
    (ending.finish patch shared).2.stretch =
      if ending.Restarts ∧ startsStretched patch = true then shared.stretch.reset else shared.stretch := by
  cases ending with
  | goesOn voice | ended voice => exact (if_neg fun h => h.1).symm
  | faded voice =>
    unfold Ending.finish fadedOut
    dsimp only
    by_cases hpending : 0 ≤ voice.pendingNote
    · rw [if_pos hpending, (startVoice_shared ..).1]
      have hrestarts : (Ending.faded voice).Restarts := hpending
      by_cases hstretches : startsStretched patch = true <;> simp [hrestarts, hstretches]
    · have hrestarts : ¬ (Ending.faded voice).Restarts := hpending
      rw [if_neg hpending, if_neg fun h => hrestarts h.1]

/-- The voice sounds from the stretcher. -/
def Stretched (voice : Voice F D) : Prop := voice.active = true ∧ voice.stretching = true

theorem stretched_of_restarts (h : ending.Restarts) (hstarts : startsStretched patch = true) :
    Stretched (ending.finish patch shared).1 := by
  cases ending with
  | goesOn voice => exact h.elim
  | ended voice => exact h.elim
  | faded voice =>
    have hpending : 0 ≤ voice.pendingNote := h
    simp only [Ending.finish, fadedOut, if_pos hpending]
    exact ⟨(startVoice_eq _ _ _ _ _).2.2.1, (startVoice_shared ..).2.trans hstarts⟩

theorem finish_alike (patch : Patch F D) (shared : Shared F D) (ending : Ending F D) :
    (ending.finish patch shared).2.stretch.Alike shared.stretch := by
  rw [finish_stretch]
  split
  · exact TimeStretch.reset_alike _
  · exact ⟨rfl, rfl, rfl⟩

end Shared

/-! ### All voices -/

variable [Narrow F D]

/-- A voice plays, and what becomes of it. -/
def playNext (patch : Patch F D) (outChannels n : ℕ) (shared : Shared F D) (voice : Voice F D) :
    (Voice F D × List (ℕ → F)) × Shared F D :=
  let played := playVoice patch outChannels n shared.stretch voice
  let next := played.1.2.finish patch { shared with stretch := played.2 }
  ((next.1, played.1.1), next.2)

/-- The voices play one after the other; the frames of each. -/
def playVoices (patch : Patch F D) (outChannels n : ℕ) :
    List (Voice F D) → Shared F D → (List (Voice F D) × List (List (ℕ → F))) × Shared F D
  | [], shared => (([], []), shared)
  | voice :: voices, shared =>
    let next := playNext patch outChannels n shared voice
    let rest := playVoices patch outChannels n voices next.2
    ((next.1.1 :: rest.1.1, next.1.2 :: rest.1.2), rest.2)

section

variable {patch : Patch F D} {outChannels a b n : ℕ} {voice : Voice F D} {voices : List (Voice F D)}
  {shared : Shared F D}

theorem renderVoices_eq (startFrame : ℕ) (output : AudioBuffer F) :
    renderVoices patch startFrame n voices shared output =
      let played := playVoices patch output.numChannels n voices shared
      (played.1.1, played.2, mixAll output startFrame played.1.2) := by
  induction voices generalizing shared output with
  | nil => rfl
  | cons voice voices ih =>
    rw [renderVoices, playVoices]
    simp only [ih]
    rfl

/-- Without the stretcher a voice does not depend on it. -/
theorem playVoice_of_not_reads (h : ¬ Reads patch voice) (stretch stretch' : TimeStretch F D) :
    playVoice patch outChannels n stretch voice =
      ((playVoice patch outChannels n stretch' voice).1, stretch) := by
  cases hactive : voice.active with
  | false => simp only [playVoice_of_inactive hactive]
  | true =>
    cases hvalid : (windowFor voice patch.sample).valid with
    | false => simp only [playVoice_of_invalid hactive hvalid]
    | true =>
      cases hstretching : voice.stretching with
      | false => simp only [playVoice_of_plain hactive hvalid hstretching]
      | true => exact absurd ⟨hactive, hvalid, hstretching⟩ h

theorem playVoice_alike (patch : Patch F D) (outChannels n : ℕ) (stretch : TimeStretch F D)
    (voice : Voice F D) :
    (playVoice patch outChannels n stretch voice).2.Alike stretch := by
  by_cases h : Reads patch voice
  · rw [playVoice_of_reads h, renderStretchedVoice]
    dsimp only
    split
    · exact ⟨rfl, rfl, rfl⟩
    · exact TimeStretch.render_alike _
  · rw [playVoice_of_not_reads h stretch stretch]
    exact ⟨rfl, rfl, rfl⟩

/-- The voice is served by the stretcher, or starts it again. -/
def Uses (patch : Patch F D) (outChannels n : ℕ) (stretch : TimeStretch F D) (voice : Voice F D) :
    Prop :=
  Reads patch voice ∨
    (playVoice patch outChannels n stretch voice).1.2.Restarts ∧ startsStretched patch = true

/-- A voice that sounds from the stretcher afterwards has used it. -/
theorem uses_of_stretched {stretch : TimeStretch F D}
    (h : Stretched
      ((playVoice patch outChannels n stretch voice).1.2.finish patch shared).1) :
    Uses patch outChannels n stretch voice := by
  by_cases hreads : Reads patch voice
  · exact .inl hreads
  obtain ⟨hactive', hstretching'⟩ := h
  unfold Uses
  cases hactive : voice.active with
  | false =>
    rw [playVoice_of_inactive hactive] at hactive'
    exact absurd (hactive.symm.trans hactive') (by simp)
  | true =>
    cases hvalid : (windowFor voice patch.sample).valid with
    | false =>
      rw [playVoice_of_invalid hactive hvalid] at hactive'
      exact absurd hactive' (by simp [Ending.finish])
    | true =>
      cases hstretching : voice.stretching with
      | true => exact absurd ⟨hactive, hvalid, hstretching⟩ hreads
      | false =>
        rw [playVoice_of_plain hactive hvalid hstretching] at hactive' hstretching' ⊢
        rcases hplay : playPlain (windowFor voice patch.sample) n voice with ⟨frames, ending⟩
        rw [hplay] at hactive' hstretching'
        cases ending with
        | goesOn voice' =>
          obtain ⟨position, fade, rfl⟩ := moved_of_goesOn (fun _ => plainFrame_step _)
            (congrArg Prod.snd hplay)
          exact absurd (hstretching.symm.trans hstretching') (by simp)
        | ended voice' =>
          have hended := inactive_of_ended (fun _ => plainFrame_step _) (congrArg Prod.snd hplay)
          exact absurd (hended.symm.trans hactive') (by simp)
        | faded voice' =>
          -- a queued note has started
          simp only [Ending.finish, fadedOut] at hactive' hstretching'
          split at hactive'
          · rename_i hpending
            rw [if_pos hpending, (startVoice_shared ..).2] at hstretching'
            exact .inr ⟨hpending, hstretching'⟩
          · exact absurd hactive' (by simp)

/-- Nothing happens, while the voices render `a` frames and then `b`, that tells two calls from
one: in the first no queued note starts and no last hop is dropped, and no voice is served by the
stretcher after another has used it. -/
structure Seamless (patch : Patch F D) (outChannels a b : ℕ) (stretch : TimeStretch F D)
    (voices : List (Voice F D)) : Prop where
  restarts : ∀ voice ∈ voices, ¬ (playVoice patch outChannels a stretch voice).1.2.Restarts
  drops : ∀ voice ∈ voices, Reads patch voice → ¬ DropsHop patch outChannels a stretch voice
  alone : voices.Pairwise fun voice later =>
    Uses patch outChannels (a + b) stretch voice → ¬ Reads patch later

/-- Voices that are not stretched. -/
theorem seamless_of_plain {stretch : TimeStretch F D}
    (hplain : ∀ voice ∈ voices, voice.stretching = false)
    (hrestarts : ∀ voice ∈ voices, ¬ (playVoice patch outChannels a stretch voice).1.2.Restarts) :
    Seamless patch outChannels a b stretch voices := by
  have hreads : ∀ voice ∈ voices, ¬ Reads patch voice := by
    rintro voice hvoice ⟨_, _, hstretching⟩
    rw [hplain voice hvoice] at hstretching
    exact absurd hstretching (by simp)
  exact ⟨hrestarts, fun voice hvoice hread => absurd hread (hreads voice hvoice),
    List.pairwise_of_forall_mem_list fun _ _ later hlater _ => hreads later hlater⟩

theorem Seamless.tail {stretch : TimeStretch F D}
    (h : Seamless patch outChannels a b stretch (voice :: voices)) :
    Seamless patch outChannels a b stretch voices where
  restarts v hv := h.restarts v (List.mem_cons_of_mem _ hv)
  drops v hv := h.drops v (List.mem_cons_of_mem _ hv)
  alone := (List.pairwise_cons.1 h.alone).2

/-- When no voice is served by the stretcher and no queued note starts, nothing that is shared
changes. -/
theorem playVoices_shared {stretch : TimeStretch F D} (hreads : ∀ v ∈ voices, ¬ Reads patch v)
    (hrestarts : ∀ v ∈ voices, ¬ (playVoice patch outChannels n stretch v).1.2.Restarts) :
    (playVoices patch outChannels n voices shared).2 = shared := by
  induction voices generalizing shared with
  | nil => rfl
  | cons voice voices ih =>
    have hnot := hrestarts voice List.mem_cons_self
    rw [playVoices, playNext, playVoice_of_not_reads (hreads voice List.mem_cons_self) shared.stretch stretch]
    simp only [Ending.finish_of_not_restarts hnot]
    exact ih (fun v hv => hreads v (List.mem_cons_of_mem _ hv))
      (fun v hv => hrestarts v (List.mem_cons_of_mem _ hv))

/-- When no voice is served by the stretcher and none sounds from it afterwards, it is as before. -/
theorem playVoices_stretch (hreads : ∀ v ∈ voices, ¬ Reads patch v)
    (hnone : ∀ v ∈ (playVoices patch outChannels n voices shared).1.1, ¬ Stretched v) :
    (playVoices patch outChannels n voices shared).2.stretch = shared.stretch := by
  induction voices generalizing shared with
  | nil => rfl
  | cons voice voices ih =>
    rw [playVoices, playNext] at hnone ⊢
    have hself := hreads voice List.mem_cons_self
    refine (ih (fun v hv => hreads v (List.mem_cons_of_mem _ hv))
      (fun v hv => hnone v (List.mem_cons_of_mem _ hv))).trans ?_
    rw [finish_stretch, if_neg]
    · rw [playVoice_of_not_reads hself shared.stretch shared.stretch]
    · rintro ⟨hrestarts, hstarts⟩
      exact hnone _ List.mem_cons_self (stretched_of_restarts hrestarts hstarts)

/-! ### The split -/

/-- What two runs of the same voices have in common: the voices, the counter, and the stretcher if
it is still heard. -/
structure Matches (voices : List (Voice F D)) (shared shared' : Shared F D) : Prop where
  order : shared.orderCounter = shared'.orderCounter
  alike : shared.stretch.Alike shared'.stretch
  visible : (∃ voice ∈ voices, Stretched voice) → shared.stretch.visible = shared'.stretch.visible

/-- The voice that goes on is served by the stretcher only if it was. -/
theorem not_reads_left {stretch : TimeStretch F D} (h : ¬ Reads patch voice)
    (hrestarts : ¬ (playVoice patch outChannels n stretch voice).1.2.Restarts) :
    ¬ Reads patch (playVoice patch outChannels n stretch voice).1.2.left := by
  rintro ⟨hactive, _, hstretching⟩
  have hstretched : Stretched
      ((playVoice patch outChannels n stretch voice).1.2.finish patch ⟨stretch, 0⟩).1 := by
    rw [Ending.finish_of_not_restarts hrestarts]
    exact ⟨hactive, hstretching⟩
  rcases uses_of_stretched hstretched with hreads | ⟨hstarts, _⟩
  · exact h hreads
  · exact hrestarts hstarts

theorem playVoices_not_reads {stretch : TimeStretch F D} (hreads : ∀ v ∈ voices, ¬ Reads patch v)
    (hrestarts : ∀ v ∈ voices, ¬ (playVoice patch outChannels n stretch v).1.2.Restarts) :
    ∀ v ∈ (playVoices patch outChannels n voices shared).1.1, ¬ Reads patch v := by
  induction voices generalizing shared with
  | nil => exact fun _ hv => absurd hv List.not_mem_nil
  | cons voice voices ih =>
    have hself := hreads voice List.mem_cons_self
    have hnot := hrestarts voice List.mem_cons_self
    rw [playVoices, playNext, playVoice_of_not_reads hself shared.stretch stretch]
    simp only [Ending.finish_of_not_restarts hnot]
    intro v hv
    rcases List.mem_cons.1 hv with rfl | hv
    · exact not_reads_left hself hnot
    · exact ih (fun v hv => hreads v (List.mem_cons_of_mem _ hv))
        (fun v hv => hrestarts v (List.mem_cons_of_mem _ hv)) v hv

/-- A voice in one call and in two, each with the stretcher as it comes to it. -/
theorem playVoice_splits (ha : 0 < a) (hb : 0 < b) (hmax : a + b ≤ patch.maxBlockFrames)
    {stretch : TimeStretch F D} (whole first second : TimeStretch F D)
    (hrestarts : ¬ (playVoice patch outChannels a stretch voice).1.2.Restarts)
    (hdrops : Reads patch voice → ¬ DropsHop patch outChannels a stretch voice)
    (hreads : Reads patch voice → whole = stretch ∧ first = stretch ∧
      second = (playVoice patch outChannels a first voice).2) :
    let one := playVoice patch outChannels (a + b) whole voice
    let two := playVoice patch outChannels a first voice
    let three := playVoice patch outChannels b second two.1.2.left
    ¬ two.1.2.Restarts ∧ one.1 = (playVoice patch outChannels (a + b) stretch voice).1 ∧
      (Reads patch voice → Continues patch a two three one) ∧
      (¬ Reads patch voice → Continues patch a (two.1, stretch) (three.1, stretch) (one.1, stretch) ∧
        one.2 = whole ∧ two.2 = first ∧ three.2 = second) := by
  by_cases h : Reads patch voice
  · obtain ⟨rfl, rfl, rfl⟩ := hreads h
    exact ⟨hrestarts, rfl, fun _ => playVoice_add ha hb hmax hdrops hrestarts, fun hnot => absurd h hnot⟩
  · have hleft := not_reads_left h hrestarts
    have hadd := playVoice_add (b := b) ha hb hmax hdrops hrestarts
    have hsame : (playVoice patch outChannels a stretch voice).2 = stretch :=
      congrArg Prod.snd (playVoice_of_not_reads h stretch stretch)
    simp only [hsame] at hadd
    dsimp only
    rw [playVoice_of_not_reads h whole stretch, playVoice_of_not_reads h first stretch]
    rw [playVoice_of_not_reads hleft second stretch]
    exact ⟨hrestarts, rfl, fun hreads => absurd hreads h,
      fun _ => ⟨⟨hadd.frames, hadd.finish, hadd.short, hadd.filled, .inl rfl⟩, rfl, rfl, rfl⟩⟩

/-- What the next voices have to know of a voice in one call and in two. -/
structure NextSplits (patch : Patch F D) (outChannels a b : ℕ) (stretch : TimeStretch F D)
    (voice : Voice F D) (whole first second : Shared F D)
    (one two three : (Voice F D × List (ℕ → F)) × Shared F D) : Prop where
  same : one.1.1 = three.1.1
  frames : one.1.2 = two.1.2 ++ three.1.2
  short : two.1.2.length ≤ a
  filled : two.1.2.length = a ∨ three.1.2 = []
  order : one.2.orderCounter = three.2.orderCounter
  alike : one.2.stretch.Alike three.2.stretch
  apart : ¬ Uses patch outChannels (a + b) stretch voice →
    one.2.stretch = whole.stretch ∧ two.2.stretch = first.stretch ∧ three.2.stretch = second.stretch
  uses : Stretched one.1.1 → Uses patch outChannels (a + b) stretch voice
  visible : Stretched one.1.1 → one.2.stretch.visible = three.2.stretch.visible

theorem playNext_splits (ha : 0 < a) (hb : 0 < b) (hmax : a + b ≤ patch.maxBlockFrames)
    {stretch : TimeStretch F D} {whole first second : Shared F D}
    (horder : whole.orderCounter = second.orderCounter)
    (halike : whole.stretch.Alike second.stretch)
    (hrestarts : ¬ (playVoice patch outChannels a stretch voice).1.2.Restarts)
    (hdrops : Reads patch voice → ¬ DropsHop patch outChannels a stretch voice)
    (hreads : Reads patch voice → whole.stretch = stretch ∧ first.stretch = stretch ∧
      second.stretch = (playVoice patch outChannels a first.stretch voice).2) :
    let two := playNext patch outChannels a first voice
    two.2 = { first with stretch := (playVoice patch outChannels a first.stretch voice).2 } ∧
      NextSplits patch outChannels a b stretch voice whole first second
        (playNext patch outChannels (a + b) whole voice) two
        (playNext patch outChannels b second two.1.1) := by
  obtain ⟨hnot, hone, hcontinues, hapart⟩ := playVoice_splits ha hb hmax whole.stretch
    first.stretch second.stretch hrestarts hdrops hreads
  have htwo : playNext patch outChannels a first voice =
      (((playVoice patch outChannels a first.stretch voice).1.2.left,
          (playVoice patch outChannels a first.stretch voice).1.1),
        { first with stretch := (playVoice patch outChannels a first.stretch voice).2 }) := by
    rw [playNext]
    simp only [Ending.finish_of_not_restarts hnot]
  rw [htwo]
  refine ⟨rfl, ?_⟩
  unfold playNext
  dsimp only at hone hcontinues hapart ⊢
  have hwhole := playVoice_alike patch outChannels (a + b) whole.stretch voice
  have hsecond := playVoice_alike patch outChannels b second.stretch
    (playVoice patch outChannels a first.stretch voice).1.2.left
  generalize playVoice patch outChannels a first.stretch voice = two at *
  generalize playVoice patch outChannels b second.stretch two.1.2.left = three at *
  generalize hplay : playVoice patch outChannels (a + b) whole.stretch voice = one at *
  obtain ⟨hframes, hfinish, hshort, hfilled⟩ : one.1.1 = two.1.1 ++ three.1.1 ∧
      (∀ shared, one.1.2.finish patch shared = three.1.2.finish patch shared) ∧
      two.1.1.length ≤ a ∧ (two.1.1.length = a ∨ three.1.1 = []) := by
    by_cases hvoice : Reads patch voice
    · have h := hcontinues hvoice
      exact ⟨h.frames, h.finish, h.short, h.filled⟩
    · have h := (hapart hvoice).1
      exact ⟨h.frames, h.finish, h.short, h.filled⟩
  have hcongr := @finish_congr _ _ _ _ patch { whole with stretch := one.2 }
    { second with stretch := three.2 } three.1.2 horder
  rw [← hfinish { whole with stretch := one.2 }] at hcongr
  have hone' := finish_stretch patch { whole with stretch := one.2 } one.1.2
  have hthree' := finish_stretch patch { second with stretch := three.2 } one.1.2
  rw [hfinish] at hthree'
  have halike' : (one.1.2.finish patch { whole with stretch := one.2 }).2.stretch.Alike
      (three.1.2.finish patch { second with stretch := three.2 }).2.stretch := by
    have h := finish_alike patch { second with stretch := three.2 } three.1.2
    exact (finish_alike _ _ _).trans (hwhole.trans (halike.trans (hsecond.symm.trans h.symm)))
  have huses : Stretched (one.1.2.finish patch { whole with stretch := one.2 }).1 →
      Uses patch outChannels (a + b) stretch voice := by
    intro hstretched
    rw [hone] at hstretched
    exact uses_of_stretched hstretched
  refine ⟨hcongr.1, hframes, hshort, hfilled, hcongr.2, halike', ?_, huses, ?_⟩
  · intro hnone
    obtain ⟨_, h1, h2, h3⟩ := hapart fun hvoice => hnone (.inl hvoice)
    have hstay : ¬ (one.1.2.Restarts ∧ startsStretched patch = true) := by
      rw [hone]
      exact fun hstarts => hnone (.inr hstarts)
    rw [if_neg hstay] at hone' hthree'
    exact ⟨hone'.trans h1, h2, hthree'.trans h3⟩
  · intro hstretched
    by_cases hstarts : one.1.2.Restarts ∧ startsStretched patch = true
    · rw [if_pos hstarts] at hone' hthree'
      rw [hone', hthree']
      exact (hwhole.trans (halike.trans hsecond.symm)).visible_reset
    · rw [if_neg hstarts] at hone' hthree'
      rw [hone', hthree']
      rcases huses hstretched with hvoice | hstarts'
      · rcases (hcontinues hvoice).stretch with hsame | ⟨hleft, hnot'⟩
        · rw [hsame]
        · -- a voice that has ended does not sound
          rw [Ending.finish_of_not_restarts hnot'] at hstretched
          exact absurd (hleft.symm.trans hstretched.1) (by simp)
      · rw [← hone] at hstarts'
        exact absurd hstarts' hstarts

/-- The voices in one call and in two. -/
theorem playVoices_add (ha : 0 < a) (hb : 0 < b) (hmax : a + b ≤ patch.maxBlockFrames)
    {stretch : TimeStretch F D} (h : Seamless patch outChannels a b stretch voices)
    (whole first second : Shared F D) (horder : whole.orderCounter = second.orderCounter)
    (halike : whole.stretch.Alike second.stretch)
    (hreads : (∃ v ∈ voices, Reads patch v) → whole.stretch = stretch ∧ first.stretch = stretch ∧
      second.stretch = (playVoices patch outChannels a voices first).2.stretch) :
    let one := playVoices patch outChannels (a + b) voices whole
    let two := playVoices patch outChannels a voices first
    let three := playVoices patch outChannels b two.1.1 second
    one.1.1 = three.1.1 ∧ Spliced a two.1.2 three.1.2 one.1.2 ∧ Matches one.1.1 one.2 three.2 := by
  induction voices generalizing whole first second with
  | nil => exact ⟨rfl, .nil, horder, halike, by simp [playVoices]⟩
  | cons voice voices ih =>
    obtain ⟨hlater, _⟩ := List.pairwise_cons.1 h.alone
    have hrestarts := h.restarts voice List.mem_cons_self
    have hrestarts' := fun v hv => h.restarts v (List.mem_cons_of_mem voice hv)
    have hself : Reads patch voice → whole.stretch = stretch ∧ first.stretch = stretch ∧
        second.stretch = (playVoice patch outChannels a first.stretch voice).2 := by
      intro hvoice
      obtain ⟨hwhole, hfirst, hsecond⟩ := hreads ⟨voice, List.mem_cons_self, hvoice⟩
      refine ⟨hwhole, hfirst, hsecond.trans ?_⟩
      rw [playVoices, playNext, hfirst]
      simp only [Ending.finish_of_not_restarts hrestarts]
      rw [playVoices_shared (fun v hv => hlater v hv (.inl hvoice)) hrestarts']
    obtain ⟨htwo, hnext⟩ := playNext_splits ha hb hmax horder halike hrestarts
      (h.drops voice List.mem_cons_self) hself
    -- a later voice is served by the stretcher only if this one has not used it
    have hreads' : (∃ v ∈ voices, Reads patch v) → ¬ Uses patch outChannels (a + b) stretch voice :=
      fun ⟨v, hv, hread⟩ huses => hlater v hv huses hread
    have hshared : (∃ v ∈ voices, Reads patch v) →
        (playNext patch outChannels (a + b) whole voice).2.stretch = stretch ∧
        (playNext patch outChannels a first voice).2.stretch = stretch ∧
        (playNext patch outChannels b second
            (playNext patch outChannels a first voice).1.1).2.stretch =
          (playVoices patch outChannels a voices
            (playNext patch outChannels a first voice).2).2.stretch := by
      intro hread
      obtain ⟨h1, h2, h3⟩ := hnext.apart (hreads' hread)
      obtain ⟨v, hv, hvoice⟩ := hread
      obtain ⟨hwhole, hfirst, hsecond⟩ := hreads ⟨v, List.mem_cons_of_mem _ hv, hvoice⟩
      exact ⟨h1.trans hwhole, h2.trans hfirst, h3.trans hsecond⟩
    obtain ⟨htail, hspliced, hmatches⟩ := ih h.tail _ _ _ hnext.order hnext.alike hshared
    have hcons := Spliced.cons hnext.short hnext.filled hspliced
    rw [← hnext.frames] at hcons
    refine ⟨congrArg₂ List.cons hnext.same htail, hcons, hmatches.order, hmatches.alike, ?_⟩
    intro hstretched
    by_cases hrest : ∃ v ∈ (playVoices patch outChannels (a + b) voices
        (playNext patch outChannels (a + b) whole voice).2).1.1, Stretched v
    · exact hmatches.visible hrest
    · -- only this voice sounds from the stretcher: no later one has touched it
      have hvoice : Stretched (playNext patch outChannels (a + b) whole voice).1.1 := by
        obtain ⟨v, hv, hv'⟩ := hstretched
        rcases List.mem_cons.1 hv with rfl | hv
        · exact hv'
        · exact absurd ⟨v, hv, hv'⟩ hrest
      have hnone : ∀ v ∈ voices, ¬ Reads patch v := fun v hv =>
        hlater v hv (hnext.uses hvoice)
      have hwhole := playVoices_stretch hnone fun v hv hv' => hrest ⟨v, hv, hv'⟩
      have hsecond := playVoices_stretch (playVoices_not_reads hnone hrestarts')
        fun v hv hv' => hrest ⟨v, htail ▸ hv, hv'⟩
      exact (congrArg TimeStretch.visible hwhole).trans
        ((hnext.visible hvoice).trans (congrArg TimeStretch.visible hsecond).symm)

/-- The first call starts no note. -/
theorem playVoices_first {stretch : TimeStretch F D}
    (h : Seamless patch outChannels a b stretch voices) (shared : Shared F D)
    (hreads : (∃ v ∈ voices, Reads patch v) → shared.stretch = stretch) :
    (playVoices patch outChannels a voices shared).2.orderCounter = shared.orderCounter ∧
      (playVoices patch outChannels a voices shared).2.stretch.Alike shared.stretch := by
  induction voices generalizing shared with
  | nil => exact ⟨rfl, rfl, rfl, rfl⟩
  | cons voice voices ih =>
    obtain ⟨hlater, _⟩ := List.pairwise_cons.1 h.alone
    have hnot : ¬ (playVoice patch outChannels a shared.stretch voice).1.2.Restarts := by
      have hrestarts := h.restarts voice List.mem_cons_self
      by_cases hvoice : Reads patch voice
      · rw [hreads ⟨voice, List.mem_cons_self, hvoice⟩]
        exact hrestarts
      · rw [playVoice_of_not_reads hvoice shared.stretch stretch]
        exact hrestarts
    have halike := playVoice_alike patch outChannels a shared.stretch voice
    rw [playVoices, playNext]
    simp only [Ending.finish_of_not_restarts hnot]
    have hrest := ih h.tail
      { shared with stretch := (playVoice patch outChannels a shared.stretch voice).2 } ?_
    · exact ⟨hrest.1, hrest.2.trans halike⟩
    · rintro ⟨v, hv, hread⟩
      have hvoice : ¬ Reads patch voice := fun hvoice => hlater v hv (.inl hvoice) hread
      rw [playVoice_of_not_reads hvoice shared.stretch stretch]
      exact hreads ⟨v, List.mem_cons_of_mem _ hv, hread⟩

/-! ### Calls without frames -/

/-- What a call without frames makes of a voice. -/
def settled (patch : Patch F D) (voice : Voice F D) : Voice F D :=
  if voice.active && !(windowFor voice patch.sample).valid then { voice with active := false }
  else voice

omit [FloatOps F] [DoubleOps D] [Narrow F D] in
theorem settled_of_inactive (h : voice.active = false) : settled patch voice = voice := by
  simp [settled, h]

omit [FloatOps F] [DoubleOps D] [Narrow F D] in
theorem settled_of_valid (h : (windowFor voice patch.sample).valid = true) :
    settled patch voice = voice := by
  simp [settled, h]

theorem playNext_zero : playNext patch outChannels 0 shared voice = ((settled patch voice, []), shared) := by
  unfold playNext
  cases hactive : voice.active with
  | false =>
    rw [playVoice_of_inactive hactive, settled_of_inactive hactive]
    rfl
  | true =>
    cases hvalid : (windowFor voice patch.sample).valid with
    | false =>
      rw [playVoice_of_invalid hactive hvalid]
      simp [settled, hactive, hvalid, Ending.finish]
    | true =>
      rw [settled_of_valid hvalid]
      cases hstretching : voice.stretching with
      | false =>
        rw [playVoice_of_plain hactive hvalid hstretching]
        rfl
      | true =>
        rw [playVoice_of_reads ⟨hactive, hvalid, hstretching⟩]
        simp [renderStretchedVoice, Ending.finish]

theorem playVoices_zero : playVoices patch outChannels 0 voices shared =
    ((voices.map (settled patch), voices.map fun _ => []), shared) := by
  induction voices with
  | nil => rfl
  | cons voice voices ih =>
    rw [playVoices, playNext_zero, ih]
    rfl

theorem playNext_settled :
    playNext patch outChannels n shared (settled patch voice) =
      playNext patch outChannels n shared voice := by
  cases hactive : voice.active with
  | false => rw [settled_of_inactive hactive]
  | true =>
    cases hvalid : (windowFor voice patch.sample).valid with
    | true => rw [settled_of_valid hvalid]
    | false =>
      have hsettled : settled patch voice = { voice with active := false } := by
        simp [settled, hactive, hvalid]
      rw [hsettled, playNext, playNext, playVoice_of_inactive (by rfl),
        playVoice_of_invalid hactive hvalid]
      rfl

theorem playVoices_settled :
    playVoices patch outChannels n (voices.map (settled patch)) shared =
      playVoices patch outChannels n voices shared := by
  induction voices generalizing shared with
  | nil => rfl
  | cons voice voices ih =>
    rw [List.map_cons, playVoices, playNext_settled, ih]
    rfl

omit [DoubleOps D] [Narrow F D] in
theorem mixAll_nil (output : AudioBuffer F) (startFrame : ℕ) :
    mixAll output startFrame (voices.map fun _ => []) = output := by
  induction voices with
  | nil => rfl
  | cons voice voices ih =>
    rw [List.map_cons, mixAll, List.foldl_cons, mix_nil]
    exact ih

/-- A note that starts has frames to play. -/
def startsValid (patch : Patch F D) : Bool :=
  let shared : Shared F D := { stretch := .unprepared }
  (windowFor (startVoice patch shared idleVoice rootNote 0).1 patch.sample).valid

omit [Narrow F D] in
theorem startVoice_window (voice : Voice F D) (note : ℤ) (velocity : F) :
    windowFor (startVoice patch shared voice note velocity).1 patch.sample =
      windowFor (startVoice patch { stretch := .unprepared } idleVoice rootNote 0).1 patch.sample := by
  unfold startVoice
  cases henabled : patch.clip.enabled with
  | false => rfl
  | true => cases hstretches : stretches patch.clip <;> simp [hstretches, windowFor]

omit [DoubleOps D] [Narrow F D] in
/-- What is left of a voice with a valid window has ended, or has moved on in it. -/
theorem settled_left {α : Type} {frame : α → Voice F D → Frame F D} (xs : List α)
    (hframe : ∀ x voice, FrameStep voice (frame x voice))
    (hvalid : (windowFor voice patch.sample).valid = true) (spent : Bool) :
    settled patch ((play frame xs voice).2.spentIf spent).left =
      ((play frame xs voice).2.spentIf spent).left := by
  cases hplay : (play frame xs voice).2 with
  | goesOn voice' =>
    obtain ⟨position, fade, rfl⟩ := moved_of_goesOn hframe hplay
    cases spent with
    | false => exact settled_of_valid hvalid
    | true => exact settled_of_inactive rfl
  | ended voice' => exact settled_of_inactive (inactive_of_ended hframe hplay)
  | faded voice' => exact settled_of_inactive rfl

theorem settled_playVoice (patch : Patch F D) (outChannels n : ℕ) (stretch : TimeStretch F D)
    (voice : Voice F D) :
    settled patch (playVoice patch outChannels n stretch voice).1.2.left =
      (playVoice patch outChannels n stretch voice).1.2.left := by
  cases hactive : voice.active with
  | false =>
    rw [playVoice_of_inactive hactive]
    exact settled_of_inactive hactive
  | true =>
    cases hvalid : (windowFor voice patch.sample).valid with
    | false =>
      rw [playVoice_of_invalid hactive hvalid]
      exact settled_of_inactive rfl
    | true =>
      cases hstretching : voice.stretching with
      | false =>
        rw [playVoice_of_plain hactive hvalid hstretching]
        have hleft := settled_left (List.replicate n ()) (fun _ => plainFrame_step
          (windowFor voice patch.sample)) hvalid false
        unfold playPlain
        cases hplay : (play (fun _ => plainFrame (windowFor voice patch.sample))
          (List.replicate n ()) voice).2 <;> rw [hplay] at hleft <;> exact hleft
      | true =>
        rw [playVoice_of_reads ⟨hactive, hvalid, hstretching⟩, renderStretchedVoice]
        dsimp only
        split
        · exact settled_of_valid hvalid
        · exact settled_left _ fadeFrame_step hvalid _

/-- What a call leaves, a call without frames leaves as it is, unless a note has started that has
nothing to play. -/
theorem settled_next
    (h : (playVoice patch outChannels n shared.stretch voice).1.2.Restarts → startsValid patch = true) :
    settled patch (playNext patch outChannels n shared voice).1.1 =
      (playNext patch outChannels n shared voice).1.1 := by
  have hleft := settled_playVoice patch outChannels n shared.stretch voice
  unfold playNext
  dsimp only
  generalize playVoice patch outChannels n shared.stretch voice = played at *
  by_cases hrestarts : played.1.2.Restarts
  · have hvalid := h hrestarts
    rcases played with ⟨⟨frames, _ | _ | voice'⟩, stretch⟩
    · exact hrestarts.elim
    · exact hrestarts.elim
    · have hpending : 0 ≤ voice'.pendingNote := hrestarts
      simp only [Ending.finish, fadedOut, if_pos hpending]
      exact settled_of_valid ((congrArg SourceWindow.valid (startVoice_window _ _ _)).trans hvalid)
  · rw [Ending.finish_of_not_restarts hrestarts]
    exact hleft

/-- How the frames of the voices end. -/
def endings (patch : Patch F D) (outChannels n : ℕ) :
    List (Voice F D) → Shared F D → List (Ending F D)
  | [], _ => []
  | voice :: voices, shared =>
    (playVoice patch outChannels n shared.stretch voice).1.2 ::
      endings patch outChannels n voices (playNext patch outChannels n shared voice).2

theorem settled_playVoices (h : ∀ ending ∈ endings patch outChannels n voices shared,
    ending.Restarts → startsValid patch = true) :
    (playVoices patch outChannels n voices shared).1.1.map (settled patch) =
      (playVoices patch outChannels n voices shared).1.1 := by
  induction voices generalizing shared with
  | nil => rfl
  | cons voice voices ih =>
    rw [playVoices, List.map_cons, settled_next (h _ List.mem_cons_self),
      ih fun ending hmem => h ending (List.mem_cons_of_mem _ hmem)]

end

/-! ### The sampler -/

/-- A call, and another that goes on in the same output. -/
def renderTwice (s : Sampler F D) (output : AudioBuffer F) (startFrame a b : ℕ) :
    Sampler F D × AudioBuffer F :=
  let first := s.render output startFrame a
  first.1.render first.2 (startFrame + a) b

/-- One call and two give the same frames, and leave the same voices. -/
structure Splits (s : Sampler F D) (output : AudioBuffer F) (startFrame a b : ℕ) : Prop where
  frames : (s.render output startFrame (a + b)).2 = (s.renderTwice output startFrame a b).2
  voices : (s.render output startFrame (a + b)).1.voices =
    (s.renderTwice output startFrame a b).1.voices
  shared : Matches (s.render output startFrame (a + b)).1.voices
    (s.render output startFrame (a + b)).1.shared (s.renderTwice output startFrame a b).1.shared

/-- When two calls are one call: a call is without frames (and after it no note is left that has
nothing to play), or the voices are seamless. -/
def SplitsCleanly (s : Sampler F D) (outChannels a b : ℕ) : Prop :=
  a = 0 ∨
  (b = 0 ∧ ∀ ending ∈ endings s.patch outChannels a s.voices s.shared,
    ending.Restarts → startsValid s.patch = true) ∨
  (0 < b ∧ Seamless s.patch outChannels a b s.shared.stretch s.voices)

theorem render_eq (s : Sampler F D) (output : AudioBuffer F) (startFrame n : ℕ) :
    s.render output startFrame n =
      let played := playVoices s.patch output.numChannels n s.voices s.shared
      ({ s with voices := played.1.1, shared := played.2 }, mixAll output startFrame played.1.2) := by
  rw [render, renderVoices_eq]

omit [DoubleOps D] [Narrow F D] in
theorem numChannels_mixAll (output : AudioBuffer F) (startFrame : ℕ) (played : List (List (ℕ → F))) :
    (mixAll output startFrame played).numChannels = output.numChannels := by
  induction played generalizing output with
  | nil => rfl
  | cons frames played ih => exact ih (mix output startFrame frames)

theorem renderTwice_eq (s : Sampler F D) (output : AudioBuffer F) (startFrame a b : ℕ) :
    s.renderTwice output startFrame a b =
      let first := playVoices s.patch output.numChannels a s.voices s.shared
      let second := playVoices s.patch output.numChannels b first.1.1 first.2
      ({ s with voices := second.1.1, shared := second.2 },
        mixAll (mixAll output startFrame first.1.2) (startFrame + a) second.1.2) := by
  rw [renderTwice, render_eq]
  dsimp only
  rw [render_eq, numChannels_mixAll]

theorem splits_of_eq {s : Sampler F D} {output : AudioBuffer F} {startFrame a b : ℕ}
    (h : s.renderTwice output startFrame a b = s.render output startFrame (a + b)) :
    s.Splits output startFrame a b := by
  refine ⟨by rw [h], by rw [h], ?_⟩
  rw [h]
  exact ⟨rfl, ⟨rfl, rfl, rfl⟩, fun _ => rfl⟩

/-- **Two calls give what one call gives**, when the voices let them: a queued note does not start
in the first call, a last hop is not dropped with it, and the stretcher serves one voice. -/
theorem splits_of_cleanly (s : Sampler F D) (output : AudioBuffer F) (startFrame a b : ℕ)
    (hmax : a + b ≤ s.patch.maxBlockFrames) (h : s.SplitsCleanly output.numChannels a b) :
    s.Splits output startFrame a b := by
  rcases Nat.eq_zero_or_pos a with rfl | ha
  · -- the first call is without frames
    refine splits_of_eq ?_
    rw [renderTwice_eq, render_eq]
    simp only [playVoices_zero, playVoices_settled, mixAll_nil, Nat.zero_add, Nat.add_zero]
  rcases h with ha' | ⟨rfl, hsettled⟩ | ⟨hb, hseamless⟩
  · exact absurd ha' (Nat.ne_of_gt ha)
  · -- the second is
    refine splits_of_eq ?_
    rw [renderTwice_eq, render_eq]
    simp only [playVoices_zero, settled_playVoices hsettled, mixAll_nil, Nat.add_zero]
  · obtain ⟨horder, halike⟩ := playVoices_first hseamless s.shared fun _ => rfl
    obtain ⟨hvoices, hspliced, hmatches⟩ := playVoices_add ha hb hmax hseamless s.shared s.shared
      (playVoices s.patch output.numChannels a s.voices s.shared).2 horder.symm halike.symm
      fun _ => ⟨rfl, rfl, rfl⟩
    have hframes := mixAll_spliced hspliced output startFrame
    constructor <;> rw [render_eq, renderTwice_eq]
    · exact hframes
    · exact hvoices
    · exact hmatches

/-! ### Two frames -/

/-- One channel, silent. -/
def silence : AudioBuffer IeeeFloat where
  numChannels := 1
  channel _ _ := 0

/-- Four frames at a rate at which a stolen voice fades in one frame. -/
def slowBlip : SampleData IeeeFloat IeeeDouble where
  samples := [1, 1, 1, 1]
  channels := 1
  frames := 4
  sampleRate := ofRat 500

/-- Notes on a sampler that has just been made ready. -/
def notesOn (count : ℕ) : Sampler IeeeFloat IeeeDouble :=
  (List.replicate count ()).foldl (fun s _ => s.noteOn rootNote 1)
    (unprepared.prepare slowBlip (ofRat 500) 512)

theorem splits_of_cleanly_oneNote : (notesOn 1).Splits silence 0 1 1 :=
  splits_of_cleanly (notesOn 1) silence 0 1 1 (by decide)
    (.inr (.inr ⟨Nat.one_pos, seamless_of_plain (by decide) (by decide +kernel)⟩))

/-- With one note too many a voice is stolen.  Its fade is over in the first of two frames, and the
queued note sounds in the second only when that is another call. -/
theorem not_splits_restart :
    1 + 1 ≤ (notesOn 33).patch.maxBlockFrames ∧
      ((notesOn 33).render silence 0 (1 + 1)).2 ≠ ((notesOn 33).renderTwice silence 0 1 1).2 ∧
      ((notesOn 33).render silence 0 (1 + 1)).1.voices ≠
        ((notesOn 33).renderTwice silence 0 1 1).1.voices := by
  refine ⟨by decide, ?_, ?_⟩
  · have hone : ((notesOn 33).render silence 0 (1 + 1)).2.channel 0 1 = ofRat 31 := by
      decide +kernel
    have htwo : ((notesOn 33).renderTwice silence 0 1 1).2.channel 0 1 = ofRat 32 := by
      decide +kernel
    intro h
    rw [h, htwo] at hone
    exact absurd hone (by decide +kernel)
  · have hone : ((notesOn 33).render silence 0 (1 + 1)).1.voices.head?.map Voice.position =
        some 0 := by decide +kernel
    have htwo : ((notesOn 33).renderTwice silence 0 1 1).1.voices.head?.map Voice.position =
        some 1 := by decide +kernel
    intro h
    rw [h, htwo] at hone
    exact absurd hone (by decide)

end OneBeat.Sampler
