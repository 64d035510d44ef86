import OneBeat.Core.Sampler

/-!
# A voice rendered in two calls

When are the frames of one call the frames of two calls, one after the other?

* `play_append` : frames after frames;
* `DropsHop` : the stretcher has produced its last hop, and the voice ends with the call;
* `playVoice_add` : a voice goes on where it was, unless it starts again in the first call or drops
  the last hop.
-/

namespace OneBeat.Sampler

variable {F D : Type} [FloatOps F] [DoubleOps D]

/-! ### One voice -/

/-- A queued note starts. -/
def Ending.Restarts : Ending F D → Prop
  | .faded voice => 0 ≤ voice.pendingNote
  | _ => False

instance (ending : Ending F D) : Decidable ending.Restarts :=
  match ending with
  | .goesOn _ => isFalse id
  | .ended _ => isFalse id
  | .faded voice => inferInstanceAs (Decidable (0 ≤ voice.pendingNote))

/-- The voice that is left when no queued note starts. -/
def Ending.left : Ending F D → Voice F D
  | .goesOn voice => voice
  | .ended voice => voice
  | .faded voice => { voice with fade := 0, active := false }

theorem Ending.finish_of_not_restarts {ending : Ending F D} (h : ¬ ending.Restarts)
    (patch : Patch F D) (shared : Shared F D) : ending.finish patch shared = (ending.left, shared) := by
  cases ending with
  | goesOn voice => rfl
  | ended voice => rfl
  | faded voice => exact if_neg h

section Play

variable {α : Type} {frame : α → Voice F D → Frame F D} {xs ys : List α} {voice : Voice F D}

omit [FloatOps F] [DoubleOps D] in
theorem play_append : play frame (xs ++ ys) voice =
    match play frame xs voice with
    | (frames, .goesOn voice) => (frames ++ (play frame ys voice).1, (play frame ys voice).2)
    | ended => ended := by
  induction xs generalizing voice with
  | nil => rfl
  | cons x xs ih =>
    rw [List.cons_append, play, play]
    cases frame x voice with
    | spent voice => rfl
    | faded value voice => rfl
    | played value voice =>
      simp only [ih]
      rcases play frame xs voice with ⟨frames, _ | _ | _⟩ <;> rfl

omit [FloatOps F] [DoubleOps D] in
theorem length_play_le : (play frame xs voice).1.length ≤ xs.length := by
  induction xs generalizing voice with
  | nil => exact Nat.le_refl _
  | cons x xs ih =>
    rw [play]
    cases frame x voice with
    | spent voice => exact Nat.zero_le _
    | faded value voice => exact Nat.succ_le_succ (Nat.zero_le _)
    | played value voice => exact Nat.succ_le_succ ih

omit [FloatOps F] [DoubleOps D] in
theorem length_play_of_goesOn {voice' : Voice F D}
    (h : (play frame xs voice).2 = .goesOn voice') : (play frame xs voice).1.length = xs.length := by
  induction xs generalizing voice with
  | nil => rfl
  | cons x xs ih =>
    rw [play] at h ⊢
    cases hframe : frame x voice with
    | spent voice | faded value voice => simp [hframe] at h
    | played value voice =>
      rw [hframe] at h
      exact congrArg Nat.succ (ih h)

omit [FloatOps F] [DoubleOps D] in
/-- A voice that goes on is as it was but for its position and its fade. -/
theorem moved_of_goesOn (hframe : ∀ x voice, FrameStep voice (frame x voice)) {voice' : Voice F D}
    (h : (play frame xs voice).2 = .goesOn voice') :
    ∃ position fade, voice' = moved voice position fade := by
  induction xs generalizing voice with
  | nil =>
    obtain rfl := Ending.goesOn.inj h
    exact ⟨_, _, rfl⟩
  | cons x xs ih =>
    have hstep := hframe x voice
    rw [play] at h
    cases hx : frame x voice with
    | spent voice => simp [hx] at h
    | faded value voice => simp [hx] at h
    | played value voice =>
      rw [hx] at h hstep
      cases hstep
      obtain ⟨position, fade, rfl⟩ := ih h
      exact ⟨position, fade, rfl⟩

omit [FloatOps F] [DoubleOps D] in
theorem inactive_of_ended (hframe : ∀ x voice, FrameStep voice (frame x voice)) {voice' : Voice F D}
    (h : (play frame xs voice).2 = .ended voice') : voice'.active = false := by
  induction xs generalizing voice with
  | nil => simp [play] at h
  | cons x xs ih =>
    have hstep := hframe x voice
    rw [play] at h
    cases hx : frame x voice with
    | spent voice =>
      rw [hx] at h hstep
      cases hstep
      obtain rfl := Ending.ended.inj h
      rfl
    | faded value voice => simp [hx] at h
    | played value voice =>
      rw [hx] at h
      exact ih h

end Play

variable [Narrow F D] {patch : Patch F D} {outChannels : ℕ} {stretch : TimeStretch F D}
  {voice : Voice F D} {a b n : ℕ}

/-- The voice is served by the stretcher. -/
def Reads (patch : Patch F D) (voice : Voice F D) : Prop :=
  voice.active = true ∧ (windowFor voice patch.sample).valid = true ∧ voice.stretching = true

theorem playVoice_of_inactive (h : voice.active = false) :
    playVoice patch outChannels n stretch voice = (([], .goesOn voice), stretch) := by
  simp [playVoice, h]

theorem playVoice_of_invalid (hactive : voice.active = true)
    (h : (windowFor voice patch.sample).valid = false) :
    playVoice patch outChannels n stretch voice =
      (([], .ended { voice with active := false }), stretch) := by
  simp [playVoice, hactive, h]

theorem playVoice_of_plain (hactive : voice.active = true)
    (hvalid : (windowFor voice patch.sample).valid = true) (h : voice.stretching = false) :
    playVoice patch outChannels n stretch voice =
      (playPlain (windowFor voice patch.sample) n voice, stretch) := by
  simp [playVoice, hactive, hvalid, h]

theorem playVoice_of_reads (h : Reads patch voice) :
    playVoice patch outChannels n stretch voice =
      renderStretchedVoice patch (windowFor voice patch.sample) outChannels n stretch voice := by
  simp [playVoice, h.1, h.2.1, h.2.2]

/-- The stretcher has produced its last hop and not handed it out, while the voice goes on. -/
def DropsHop (patch : Patch F D) (outChannels a : ℕ) (stretch : TimeStretch F D)
    (voice : Voice F D) : Prop :=
  let produced := stretch.render (windowFor voice patch.sample).source patch.clip.rate a
  (∃ voice', (play fadeFrame (produced.1.map (ofPlanes (min outChannels TimeStretch.maxChannels)))
    voice).2 = .goesOn voice') ∧
  produced.2.finished = true ∧ produced.2.readyRead < produced.2.readyFrames

/-- The second call goes on where the first has left the voice, as one call does. -/
structure Continues (patch : Patch F D) (a : ℕ)
    (first second whole : (List (ℕ → F) × Ending F D) × TimeStretch F D) : Prop where
  frames : whole.1.1 = first.1.1 ++ second.1.1
  finish : ∀ shared, whole.1.2.finish patch shared = second.1.2.finish patch shared
  short : first.1.1.length ≤ a
  filled : first.1.1.length = a ∨ second.1.1 = []
  stretch : whole.2 = second.2 ∨ whole.1.2.left.active = false ∧ ¬ whole.1.2.Restarts

/-- The voice has ended in the first call: the second does nothing. -/
theorem continues_of_ended (first : (List (ℕ → F) × Ending F D) × TimeStretch F D)
    (whole : TimeStretch F D) (hrestarts : ¬ first.1.2.Restarts)
    (hleft : first.1.2.left.active = false) (hshort : first.1.1.length ≤ a) :
    Continues patch a first (playVoice patch outChannels b first.2 first.1.2.left)
      (first.1, whole) := by
  rw [playVoice_of_inactive hleft]
  refine ⟨by simp, ?_, hshort, .inr rfl, .inr ⟨hleft, hrestarts⟩⟩
  intro shared
  rw [Ending.finish_of_not_restarts hrestarts]
  rfl

/-- A voice that is not stretched goes on. -/
theorem continues_plain (hactive : voice.active = true)
    (hvalid : (windowFor voice patch.sample).valid = true) (hplain : voice.stretching = false)
    (hrestarts : ¬ (playVoice patch outChannels a stretch voice).1.2.Restarts) :
    let first := playVoice patch outChannels a stretch voice
    Continues patch a first (playVoice patch outChannels b first.2 first.1.2.left)
      (playVoice patch outChannels (a + b) stretch voice) := by
  rw [playVoice_of_plain hactive hvalid hplain] at hrestarts ⊢
  rw [playVoice_of_plain hactive hvalid hplain]
  have hshort : (playPlain (windowFor voice patch.sample) a voice).1.length ≤ a :=
    length_play_le.trans (Nat.le_of_eq List.length_replicate)
  have hwhole : playPlain (windowFor voice patch.sample) (a + b) voice =
      match playPlain (windowFor voice patch.sample) a voice with
      | (frames, .goesOn voice') =>
        (frames ++ (playPlain (windowFor voice patch.sample) b voice').1,
          (playPlain (windowFor voice patch.sample) b voice').2)
      | ended => ended := by
    rw [playPlain, List.replicate_add, play_append]
    rfl
  rw [hwhole]
  rcases hfirst : playPlain (windowFor voice patch.sample) a voice with ⟨frames, ending⟩
  rw [hfirst] at hrestarts hshort
  cases ending with
  | goesOn voice' =>
    obtain ⟨position, fade, rfl⟩ := moved_of_goesOn (fun _ => plainFrame_step _)
      (congrArg Prod.snd hfirst)
    have hlength := length_play_of_goesOn (congrArg Prod.snd hfirst)
    rw [← playPlain, hfirst, List.length_replicate] at hlength
    -- the voice has moved on in the same window
    have hsecond : playVoice patch outChannels b stretch (moved voice position fade) =
        (playPlain (windowFor voice patch.sample) b (moved voice position fade), stretch) :=
      playVoice_of_plain hactive hvalid hplain
    change Continues patch a ((frames, .goesOn _), stretch)
      (playVoice patch outChannels b stretch (moved voice position fade)) _
    rw [hsecond]
    exact ⟨rfl, fun _ => rfl, hshort, .inl hlength, .inl rfl⟩
  | ended voice' =>
    have hleft := inactive_of_ended (fun _ => plainFrame_step _) (congrArg Prod.snd hfirst)
    exact continues_of_ended ((frames, .ended voice'), stretch) stretch hrestarts hleft hshort
  | faded voice' =>
    exact continues_of_ended ((frames, .faded voice'), stretch) stretch hrestarts rfl hshort

/-- What a stretched voice plays of what the stretcher produces. -/
def playProduced (voice : Voice F D) (outChannels n : ℕ)
    (produced : List (ℕ → F) × TimeStretch F D) : (List (ℕ → F) × Ending F D) × TimeStretch F D :=
  let played := play fadeFrame
    (produced.1.map (ofPlanes (min outChannels TimeStretch.maxChannels))) voice
  ((played.1, played.2.spentIf (produced.1.length < n || produced.2.finished)), produced.2)

theorem playVoice_of_planes (h : Reads patch voice) (hn : 0 < n) (hmax : n ≤ patch.maxBlockFrames)
    (hplanes : min outChannels TimeStretch.maxChannels ≠ 0) :
    playVoice patch outChannels n stretch voice = playProduced voice outChannels n
      (stretch.render (windowFor voice patch.sample).source patch.clip.rate n) := by
  have hmin : min n patch.maxBlockFrames = n := Nat.min_eq_left hmax
  rw [playVoice_of_reads h, renderStretchedVoice]
  simp only [hmin, hplanes, Nat.ne_of_gt hn, or_self, if_false]
  rfl

theorem playVoice_of_no_planes (h : Reads patch voice)
    (hplanes : min outChannels TimeStretch.maxChannels = 0) :
    playVoice patch outChannels n stretch voice = (([], .goesOn voice), stretch) := by
  rw [playVoice_of_reads h, renderStretchedVoice]
  simp [hplanes]

omit [DoubleOps D] [Narrow F D] in
/-- When the window is spent the voice has ended. -/
theorem left_spentIf {α : Type} {frame : α → Voice F D → Frame F D} {xs : List α}
    (hframe : ∀ x voice, FrameStep voice (frame x voice)) :
    ((play frame xs voice).2.spentIf true).left.active = false := by
  cases hplay : (play frame xs voice).2 with
  | goesOn voice' => rfl
  | ended voice' => exact inactive_of_ended hframe hplay
  | faded voice' => rfl

/-- The stretcher has not produced what it was asked for: the voice ends in the first call. -/
theorem continues_of_short {produced : List (ℕ → F)} (h : produced.length < a)
    (hrestarts : ¬ (playProduced voice outChannels a (produced, stretch)).1.2.Restarts) :
    let first := playProduced voice outChannels a (produced, stretch)
    Continues patch a first (playVoice patch outChannels b first.2 first.1.2.left)
      (playProduced voice outChannels (a + b) (produced, stretch)) := by
  have hshort : decide (produced.length < a) = true := decide_eq_true h
  have hshort' : decide (produced.length < a + b) = true := decide_eq_true (by omega)
  have hfirst : playProduced voice outChannels (a + b) (produced, stretch) =
      playProduced voice outChannels a (produced, stretch) := by
    simp only [playProduced, hshort, hshort']
  rw [hfirst]
  refine continues_of_ended _ _ hrestarts ?_ ?_
  · simp only [playProduced, hshort, Bool.true_or]
    exact left_spentIf fadeFrame_step
  · refine length_play_le.trans ?_
    rw [List.length_map]
    exact Nat.le_of_lt h

/-- The stretcher has, and goes on with the rest. -/
theorem continues_of_full (h : Reads patch voice) (hb : 0 < b) (hmax : b ≤ patch.maxBlockFrames)
    (hplanes : min outChannels TimeStretch.maxChannels ≠ 0) {produced : List (ℕ → F)}
    (hlength : produced.length = a)
    (hdrops : (∃ voice', (play fadeFrame (produced.map (ofPlanes (min outChannels
      TimeStretch.maxChannels))) voice).2 = .goesOn voice') → stretch.finished = true →
        stretch.readyFrames ≤ stretch.readyRead)
    (hrestarts : ¬ (playProduced voice outChannels a (produced, stretch)).1.2.Restarts) :
    let first := playProduced voice outChannels a (produced, stretch)
    let rest := stretch.render (windowFor voice patch.sample).source patch.clip.rate b
    Continues patch a first (playVoice patch outChannels b first.2 first.1.2.left)
      (playProduced voice outChannels (a + b) (produced ++ rest.1, rest.2)) := by
  have hnotshort : decide (produced.length < a) = false := decide_eq_false (by omega)
  have hle : (play fadeFrame (produced.map (ofPlanes (min outChannels TimeStretch.maxChannels)))
      voice).1.length ≤ a := by
    refine length_play_le.trans (Nat.le_of_eq ?_)
    rw [List.length_map, hlength]
  simp only [playProduced, hnotshort, Bool.false_or, List.map_append, play_append] at hrestarts ⊢
  rcases hplay : play fadeFrame (produced.map (ofPlanes (min outChannels
    TimeStretch.maxChannels))) voice with ⟨frames, ending⟩
  rw [hplay] at hrestarts hle hdrops
  cases ending with
  | goesOn voice' =>
    obtain ⟨position, fade, rfl⟩ := moved_of_goesOn fadeFrame_step (congrArg Prod.snd hplay)
    have hframes : frames.length = a := by
      have hlength' := length_play_of_goesOn (congrArg Prod.snd hplay)
      rw [hplay, List.length_map, hlength] at hlength'
      exact hlength'
    cases hfinished : stretch.finished with
    | false =>
      -- the voice has moved on in the same window, and the stretcher goes on
      have hsecond : playVoice patch outChannels b stretch (moved voice position fade) =
          playProduced (moved voice position fade) outChannels b
            (stretch.render (windowFor voice patch.sample).source patch.clip.rate b) :=
        playVoice_of_planes h hb hmax hplanes
      change Continues patch a ((frames, .goesOn _), stretch)
        (playVoice patch outChannels b stretch (moved voice position fade)) _
      rw [hsecond]
      refine ⟨rfl, ?_, hle, .inl hframes, .inl rfl⟩
      intro shared
      simp only [playProduced, List.length_append, hlength, Nat.add_lt_add_iff_left]
    | true =>
      have hnone := TimeStretch.render_of_finished hfinished (hdrops ⟨_, rfl⟩ hfinished)
        (windowFor voice patch.sample).source patch.clip.rate b
      rcases hrest : stretch.render (windowFor voice patch.sample).source patch.clip.rate b with
        ⟨more, after⟩
      rw [hrest] at hnone
      obtain rfl : more = [] := hnone
      have hspent : decide (produced.length < a + b) = true := decide_eq_true (by omega)
      simp only [List.map_nil, play, List.append_nil, hspent, Bool.true_or]
      exact continues_of_ended ((frames, (Ending.goesOn _).spentIf true), stretch) after
        (fun hnot => hnot) rfl hle
  | ended voice' =>
    exact continues_of_ended ((frames, .ended voice'), stretch) _ hrestarts
      (inactive_of_ended fadeFrame_step (congrArg Prod.snd hplay)) hle
  | faded voice' =>
    exact continues_of_ended ((frames, .faded voice'), stretch) _ hrestarts rfl hle

/-- A stretched voice goes on, unless the last hop is dropped. -/
theorem continues_reads (h : Reads patch voice) (ha : 0 < a) (hb : 0 < b)
    (hmax : a + b ≤ patch.maxBlockFrames) (hdrops : ¬ DropsHop patch outChannels a stretch voice)
    (hrestarts : ¬ (playVoice patch outChannels a stretch voice).1.2.Restarts) :
    let first := playVoice patch outChannels a stretch voice
    Continues patch a first (playVoice patch outChannels b first.2 first.1.2.left)
      (playVoice patch outChannels (a + b) stretch voice) := by
  by_cases hplanes : min outChannels TimeStretch.maxChannels = 0
  · simp only [playVoice_of_no_planes h hplanes, Ending.left]
    exact ⟨rfl, fun _ => rfl, Nat.zero_le _, .inr rfl, .inl rfl⟩
  · rw [playVoice_of_planes h ha (by omega) hplanes] at hrestarts ⊢
    rw [playVoice_of_planes h (by omega) hmax hplanes, TimeStretch.render_add]
    have hle := TimeStretch.length_render_le stretch (windowFor voice patch.sample).source
      patch.clip.rate a
    split
    · rename_i hlength
      refine continues_of_full h hb (by omega) hplanes hlength ?_ hrestarts
      intro hgoes hfinished
      by_contra hready
      exact hdrops ⟨hgoes, hfinished, Nat.lt_of_not_le hready⟩
    · exact continues_of_short (Nat.lt_of_le_of_ne hle ‹_›) hrestarts

/-- **A voice goes on where the first call has left it**, unless a queued note starts in that call
or its last hop is dropped. -/
theorem playVoice_add (ha : 0 < a) (hb : 0 < b) (hmax : a + b ≤ patch.maxBlockFrames)
    (hdrops : Reads patch voice → ¬ DropsHop patch outChannels a stretch voice)
    (hrestarts : ¬ (playVoice patch outChannels a stretch voice).1.2.Restarts) :
    let first := playVoice patch outChannels a stretch voice
    Continues patch a first (playVoice patch outChannels b first.2 first.1.2.left)
      (playVoice patch outChannels (a + b) stretch voice) := by
  cases hactive : voice.active with
  | false =>
    simp only [playVoice_of_inactive hactive, Ending.left]
    exact ⟨rfl, fun _ => rfl, Nat.zero_le _, .inr rfl, .inl rfl⟩
  | true =>
    cases hvalid : (windowFor voice patch.sample).valid with
    | false =>
      rw [playVoice_of_invalid hactive hvalid, playVoice_of_invalid hactive hvalid]
      exact continues_of_ended (([], .ended { voice with active := false }), stretch) stretch
        (fun hnot => hnot) rfl (Nat.zero_le _)
    | true =>
      cases hstretching : voice.stretching with
      | false => exact continues_plain hactive hvalid hstretching hrestarts
      | true =>
        have hreads : Reads patch voice := ⟨hactive, hvalid, hstretching⟩
        exact continues_reads hreads ha hb hmax (hdrops hreads) hrestarts

end OneBeat.Sampler
