import Mathlib.Algebra.Order.Floor.Ring
import Mathlib.Data.Rat.Floor
import Mathlib.Tactic.NormNum
import Mathlib.Tactic.Linarith

/-!
# The reverse effect

`plugin/builtin/effects/reverse_plugin.cpp`: while a window is captured into one buffer, the other
is read from its end to its start.  Where a window ends the buffers change roles, and the length of
the next window is read.  The slot that is read is counted from the length of the window that is
*captured*.

Samples are of a field, parameters are rational.  A call of `processAudio` has one value of every
parameter: the effect is called again where a value changes.

* `Steady` : what is in the buffers as long as the windows have one length;
* `plays_window_before_iff` : **a window plays the window before it, in reverse, for every signal
  exactly when the windows keep the length of the first**.
-/

namespace OneBeat.Builtin

/-- A sample rate at which the shortest window has a frame; the engine is promised 44100 to 96000. -/
structure SampleRate where
  hz : ℚ
  twenty_le : 20 ≤ hz

/-- A value of the window parameter, in seconds. -/
structure WindowLength where
  seconds : ℚ
  least_le : 1 / 20 ≤ seconds
  le_most : seconds ≤ 4

/-- The values of the parameters. -/
structure ReverseSettings where
  window : WindowLength
  crossfade : ℚ
  mix : ℚ
  crossfade_mem : 0 ≤ crossfade ∧ crossfade ≤ 1
  mix_mem : 0 ≤ mix ∧ mix ≤ 1

/-- No crossfade, and only what is played backwards. -/
def ReverseSettings.plain (window : WindowLength) : ReverseSettings where
  window
  crossfade := 0
  mix := 1
  crossfade_mem := by norm_num
  mix_mem := by norm_num

/-- The effect: two buffers, with a plane for each channel. -/
structure ReversePlugin (K : Type) where
  buffers : Bool → ℕ → ℕ → K
  captureBuffer : Bool := false
  position : ℕ := 0
  windowFrames : ℕ
  hasPlayedOnce : Bool := false

namespace ReversePlugin

variable {K : Type} [Field K]

def Channels : ℕ := 2
def MaxWindowSeconds : ℚ := 4
def MaxCrossfadeFraction : ℚ := 1 / 2

/-- The frames of a buffer. -/
def capacity (rate : SampleRate) : ℕ := ⌊MaxWindowSeconds * rate.hz⌋₊ + 2

/-- The frames of a window. -/
def resolved (rate : SampleRate) (window : WindowLength) : ℕ := ⌊window.seconds * rate.hz⌋₊

/-- The effect after `onConfigure`. -/
def configured (rate : SampleRate) (window : WindowLength) : ReversePlugin K where
  buffers _ _ _ := 0
  windowFrames := resolved rate window

/-- What a plane captures of a frame. -/
def captured (channels : ℕ) (frame : ℕ → K) (plane : ℕ) : K :=
  frame (if plane < channels then plane else channels - 1)

/-- The plane that a channel is played from. -/
def planeOf (channel : ℕ) : ℕ := if channel < Channels then channel else Channels - 1

variable (rate : SampleRate) (channels : ℕ) (settings : ReverseSettings) (s : ReversePlugin K)

/-- Both ends of a window are faded. -/
def envelope : K :=
  let fadeFrames := ⌊(s.windowFrames : ℚ) * (settings.crossfade * MaxCrossfadeFraction)⌋₊
  let nearest := min s.position (s.windowFrames - 1 - s.position)
  if 0 < fadeFrames ∧ nearest < fadeFrames then nearest / fadeFrames else 1

/-- The frame is written into the buffer that captures. -/
def capture (frame : ℕ → K) : ReversePlugin K :=
  { s with buffers := fun buffer plane slot =>
      if buffer = s.captureBuffer ∧ plane < Channels ∧ slot = s.position ∧
          s.position < capacity rate then captured channels frame plane
      else s.buffers buffer plane slot }

/-- What a channel becomes. -/
def played (frame : ℕ → K) (channel : ℕ) : K :=
  -- an offset below zero is read as slot zero
  let readSlot := s.windowFrames - 1 - s.position
  let wet :=
    if s.hasPlayedOnce && readSlot < capacity rate then
      s.buffers (!s.captureBuffer) (planeOf channel) readSlot * s.envelope settings
    else 0
  frame channel * (1 - (settings.mix : K)) + wet * settings.mix

/-- The window is over. -/
def WindowEnds : Prop := s.windowFrames ≤ s.position + 1

instance : Decidable s.WindowEnds := inferInstanceAs (Decidable (_ ≤ _))

/-- On to the next frame; where the window ends, to the next window. -/
def advance : ReversePlugin K :=
  if s.WindowEnds then
    let next := resolved rate settings.window
    { s with
      position := 0
      captureBuffer := !s.captureBuffer
      hasPlayedOnce := true
      windowFrames := if 0 < next ∧ next < capacity rate then next else s.windowFrames }
  else { s with position := s.position + 1 }

/-! ### Runs -/

/-- Where the window that is captured begins, and the one before it. -/
structure Windows where
  start : ℕ := 0
  before : Option ℕ := none

/-- The effect in the course of a signal. -/
structure Course (K : Type) where
  plugin : ReversePlugin K
  time : ℕ := 0
  windows : Windows := {}

/-- A frame that was played, and the windows at that time. -/
structure PlayedFrame (K : Type) where
  time : ℕ
  windows : Windows
  output : ℕ → K

variable (signal : ℕ → ℕ → K) (run : Course K)

/-- A frame of the loop of `processAudio`. -/
def frame : PlayedFrame K × Course K :=
  let input := signal run.time
  let plugin := run.plugin.capture rate channels input
  (⟨run.time, run.windows, plugin.played rate settings input⟩,
    { plugin := plugin.advance rate settings
      time := run.time + 1
      windows :=
        if plugin.WindowEnds then { start := run.time + 1, before := some run.windows.start }
        else run.windows })

/-- Frames, each with its settings. -/
def frames : List ReverseSettings → Course K → List (PlayedFrame K) × Course K
  | [], run => ([], run)
  | settings :: rest, run =>
    let head := frame rate channels settings signal run
    let tail := frames rest head.2
    (head.1 :: tail.1, tail.2)

/-- `processAudio`, of so many frames. -/
def processAudio (numFrames : ℕ) : List (PlayedFrame K) × Course K :=
  if channels = 0 ∨ capacity rate = 0 then ([], run)
  else
    let plugin :=
      if run.plugin.windowFrames = 0 then
        { run.plugin with windowFrames := resolved rate settings.window }
      else run.plugin
    frames rate channels signal (List.replicate numFrames settings) { run with plugin }

/-- Calls of `processAudio`. -/
def processAll : List (ReverseSettings × ℕ) → Course K → List (PlayedFrame K) × Course K
  | [], run => ([], run)
  | (settings, numFrames) :: rest, run =>
    let head := processAudio rate channels settings signal run numFrames
    let tail := processAll rest head.2
    (head.1 ++ tail.1, tail.2)

/-- The frame is the one that is as far from the end of the window before as it is from the start of
its own, and silent where that window has no such frame. -/
def PlayedFrame.PlaysWindowBefore (played : PlayedFrame K) : Prop :=
  ∀ before ∈ played.windows.before, ∀ channel < channels,
    let m := played.windows.start - before
    let p := played.time - played.windows.start
    played.output channel =
      if p < m then captured channels (signal (before + (m - 1 - p))) (planeOf channel) else 0

/-- The settings of every frame. -/
def ofCalls (calls : List (WindowLength × ℕ)) : List WindowLength :=
  calls.flatMap fun call => List.replicate call.2 call.1

/-- Every window after the first plays the window before it. -/
def PlaysWindowBefore (first : WindowLength) (calls : List (WindowLength × ℕ)) : Prop :=
  ∀ played ∈ (processAll rate channels signal
      (calls.map fun call => (.plain call.1, call.2)) { plugin := configured rate first }).1,
    played.PlaysWindowBefore channels signal

/-! ### Lengths -/

variable {rate} {channels} {settings} {s} {signal} {run}

theorem resolved_pos (window : WindowLength) : 0 < resolved rate window := by
  refine Nat.floor_pos.2 ?_
  have hrate := rate.twenty_le
  have hwindow := window.least_le
  calc (1 : ℚ) = 1 / 20 * 20 := by norm_num
    _ ≤ window.seconds * rate.hz :=
      mul_le_mul hwindow hrate (by norm_num) (le_trans (by norm_num) hwindow)

theorem resolved_lt_capacity (window : WindowLength) : resolved rate window < capacity rate := by
  have hrate : 0 ≤ rate.hz := le_trans (by norm_num) rate.twenty_le
  have hle : resolved rate window ≤ ⌊MaxWindowSeconds * rate.hz⌋₊ :=
    Nat.floor_mono (mul_le_mul_of_nonneg_right window.le_most hrate)
  unfold capacity
  omega

/-! ### Calls are frames -/

omit [Field K] in
theorem advance_windowFrames_pos (h : 0 < s.windowFrames) :
    0 < (s.advance rate settings).windowFrames := by
  unfold advance
  split
  · dsimp only
    split
    · exact resolved_pos _
    · exact h
  · exact h

theorem frames_windowFrames_pos (list : List ReverseSettings) {run : Course K}
    (h : 0 < run.plugin.windowFrames) :
    0 < (frames rate channels signal list run).2.plugin.windowFrames := by
  induction list generalizing run with
  | nil => exact h
  | cons settings rest ih => exact ih (advance_windowFrames_pos h)

theorem frames_append (front back : List ReverseSettings) (run : Course K) :
    frames rate channels signal (front ++ back) run =
      ((frames rate channels signal front run).1 ++
          (frames rate channels signal back (frames rate channels signal front run).2).1,
        (frames rate channels signal back (frames rate channels signal front run).2).2) := by
  induction front generalizing run with
  | nil => rfl
  | cons settings front ih => simp only [List.cons_append, frames, ih]

theorem processAudio_eq (hchannels : 0 < channels) (h : 0 < run.plugin.windowFrames) (n : ℕ) :
    processAudio rate channels settings signal run n =
      frames rate channels signal (List.replicate n settings) run := by
  have hcapacity : capacity rate ≠ 0 := Nat.succ_ne_zero _
  rw [processAudio, if_neg (by simp [hcapacity, hchannels.ne'])]
  simp only [if_neg h.ne']

/-- However the frames are split into calls. -/
theorem processAll_eq (hchannels : 0 < channels) (calls : List (WindowLength × ℕ))
    {run : Course K} (h : 0 < run.plugin.windowFrames) :
    processAll rate channels signal (calls.map fun call => (.plain call.1, call.2)) run =
      frames rate channels signal ((ofCalls calls).map .plain) run := by
  induction calls generalizing run with
  | nil => rfl
  | cons call calls ih =>
    simp only [List.map_cons, processAll, ofCalls, List.flatMap_cons, List.map_append,
      List.map_replicate, frames_append, processAudio_eq hchannels h]
    rw [ih (frames_windowFrames_pos _ h)]
    rfl

/-! ### Windows of one length -/

/-- All windows until now have been of `L` frames, and the current one is `p` frames old. -/
structure Steady (channels : ℕ) (signal : ℕ → ℕ → K) (L p : ℕ) (run : Course K) : Prop where
  windowFrames : run.plugin.windowFrames = L
  position : run.plugin.position = p
  lt : p < L
  time : run.time = run.windows.start + p
  aligned : L ∣ run.windows.start
  played : run.plugin.hasPlayedOnce = run.windows.before.isSome
  /-- What the window has captured. -/
  now : ∀ plane < Channels, ∀ i < p, run.plugin.buffers run.plugin.captureBuffer plane i =
    captured channels (signal (run.windows.start + i)) plane
  /-- What the window before has captured. -/
  earlier : ∀ before ∈ run.windows.before, before + L = run.windows.start ∧
    ∀ plane < Channels, ∀ i < L, run.plugin.buffers (!run.plugin.captureBuffer) plane i =
      captured channels (signal (before + i)) plane
  silent : ∀ buffer plane slot, L ≤ slot → run.plugin.buffers buffer plane slot = 0

theorem steady_configured (window : WindowLength) :
    Steady channels signal (resolved rate window) 0
      ({ plugin := configured rate window } : Course K) where
  windowFrames := rfl
  position := rfl
  lt := resolved_pos window
  time := rfl
  aligned := dvd_zero _
  played := rfl
  now _ _ _ hi := absurd hi (Nat.not_lt_zero _)
  earlier _ hbefore := absurd hbefore (by simp)
  silent _ _ _ _ := rfl

variable {L p : ℕ} {window : WindowLength}

/-- With plain settings only the buffer is heard. -/
theorem played_plain (input : ℕ → K) (channel : ℕ) :
    s.played rate (.plain window) input channel =
      if s.hasPlayedOnce && s.windowFrames - 1 - s.position < capacity rate then
        s.buffers (!s.captureBuffer) (planeOf channel) (s.windowFrames - 1 - s.position)
      else 0 := by
  have henvelope : s.envelope (.plain window) = 1 := by
    simp [envelope, ReverseSettings.plain]
  simp only [played, henvelope, mul_one]
  simp [ReverseSettings.plain]

omit [Field K] in
/-- The other buffer is not written. -/
theorem capture_other (rate : SampleRate) (channels : ℕ) (input : ℕ → K) (plane slot : ℕ) :
    (s.capture rate channels input).buffers (!s.captureBuffer) plane slot =
      s.buffers (!s.captureBuffer) plane slot := by
  refine if_neg ?_
  rintro ⟨h, _⟩
  cases hbuffer : s.captureBuffer <;> simp [hbuffer] at h

theorem output_plain (channel : ℕ) :
    (frame rate channels (.plain window) signal run).1.output channel =
      if run.plugin.hasPlayedOnce &&
          run.plugin.windowFrames - 1 - run.plugin.position < capacity rate then
        run.plugin.buffers (!run.plugin.captureBuffer) (planeOf channel)
          (run.plugin.windowFrames - 1 - run.plugin.position)
      else 0 := by
  rw [← capture_other rate channels (signal run.time)]
  exact played_plain (s := run.plugin.capture rate channels (signal run.time)) _ _

theorem planeOf_lt (channel : ℕ) : planeOf channel < Channels := by
  unfold planeOf Channels
  split <;> omega

/-- A frame of a steady course plays the window before. -/
theorem Steady.plays (h : Steady channels signal L p run) (hcapacity : L < capacity rate) :
    (frame rate channels (.plain window) signal run).1.PlaysWindowBefore channels signal := by
  intro before hbefore channel _
  have hmem : before ∈ run.windows.before := hbefore
  obtain ⟨hstart, hthen⟩ := h.earlier before hmem
  have hlt := h.lt
  have hfirst : run.windows.start - before = L := by omega
  have hoffset : run.time - run.windows.start = p := by
    rw [h.time]
    omega
  have hplayed : run.plugin.hasPlayedOnce = true := by
    rw [h.played, Option.mem_def.1 hmem]
    rfl
  have hslot : L - 1 - p < capacity rate := by omega
  rw [output_plain]
  simp only [frame, hfirst, hoffset, if_pos hlt, hplayed, h.windowFrames, h.position, hslot,
    decide_true, Bool.and_self, if_true]
  exact hthen _ (planeOf_lt channel) (L - 1 - p) (by omega)

/-- What the frame has written. -/
theorem Steady.now_capture (h : Steady channels signal L p run) (hcapacity : L < capacity rate) :
    ∀ plane < Channels, ∀ i < p + 1,
      (run.plugin.capture rate channels (signal run.time)).buffers run.plugin.captureBuffer plane i =
        captured channels (signal (run.windows.start + i)) plane := by
  intro plane hplane i hi
  have hlt := h.lt
  by_cases heq : i = p
  · subst heq
    simp only [capture, h.position, hplane, true_and]
    rw [if_pos (by omega), h.time]
  · simp only [capture, h.position, heq, false_and, and_false, if_false]
    exact h.now plane hplane i (by omega)

theorem Steady.silent_capture (h : Steady channels signal L p run) (buffer : Bool)
    {plane slot : ℕ} (hslot : L ≤ slot) :
    (run.plugin.capture rate channels (signal run.time)).buffers buffer plane slot = 0 := by
  have hne : slot ≠ p := by
    have hlt := h.lt
    omega
  simp only [capture, h.position, hne, false_and, and_false, if_false]
  exact h.silent buffer plane slot hslot

/-- Within a window. -/
theorem Steady.inside (h : Steady channels signal L p run) (hcapacity : L < capacity rate)
    (hp : p + 1 < L) :
    Steady channels signal L (p + 1) (frame rate channels (.plain window) signal run).2 := by
  have hgoes : ¬ (run.plugin.capture rate channels (signal run.time)).WindowEnds := by
    simp only [WindowEnds, capture, h.windowFrames, h.position]
    omega
  have hplugin : (frame rate channels (.plain window) signal run).2.plugin =
      { run.plugin.capture rate channels (signal run.time) with position := p + 1 } := by
    simp only [frame, advance, if_neg hgoes]
    simp only [capture, h.position]
  have hwindows : (frame rate channels (.plain window) signal run).2.windows = run.windows := by
    simp only [frame, if_neg hgoes]
  refine ⟨?_, ?_, hp, ?_, ?_, ?_, ?_, ?_, ?_⟩
  · rw [hplugin]
    exact h.windowFrames
  · rw [hplugin]
  · rw [hwindows]
    simp only [frame, h.time]
    omega
  · rw [hwindows]
    exact h.aligned
  · rw [hplugin, hwindows]
    exact h.played
  · rw [hplugin, hwindows]
    exact h.now_capture hcapacity
  · rw [hplugin, hwindows]
    intro before hbefore
    obtain ⟨hstart, hthen⟩ := h.earlier before hbefore
    refine ⟨hstart, fun plane hplane i hi => ?_⟩
    rw [← hthen plane hplane i hi]
    exact capture_other (s := run.plugin) _ _ _ _ _
  · rw [hplugin]
    exact fun buffer plane slot hslot => h.silent_capture buffer hslot

/-- Where a window ends: the state of the effect, and what the buffer that is read now holds. -/
structure Turned (channels : ℕ) (signal : ℕ → ℕ → K) (L n start : ℕ) (run : Course K) : Prop where
  windowFrames : run.plugin.windowFrames = n
  position : run.plugin.position = 0
  time : run.time = start + L
  windows : run.windows = { start := start + L, before := some start }
  played : run.plugin.hasPlayedOnce = true
  earlier : ∀ plane < Channels, ∀ i < L, run.plugin.buffers (!run.plugin.captureBuffer) plane i =
    captured channels (signal (start + i)) plane
  silent : ∀ buffer plane slot, L ≤ slot → run.plugin.buffers buffer plane slot = 0

theorem Steady.turns (h : Steady channels signal L p run) (hcapacity : L < capacity rate)
    (hp : p + 1 = L) (window : WindowLength) :
    Turned channels signal L (resolved rate window) run.windows.start
      (frame rate channels (.plain window) signal run).2 := by
  have hends : (run.plugin.capture rate channels (signal run.time)).WindowEnds := by
    simp only [WindowEnds, capture, h.windowFrames, h.position]
    omega
  have hnext : 0 < resolved rate window ∧ resolved rate window < capacity rate :=
    ⟨resolved_pos window, resolved_lt_capacity window⟩
  have htime : run.time + 1 = run.windows.start + L := by
    rw [h.time]
    omega
  have hplugin : (frame rate channels (.plain window) signal run).2.plugin =
      { run.plugin.capture rate channels (signal run.time) with
        position := 0
        captureBuffer := !run.plugin.captureBuffer
        hasPlayedOnce := true
        windowFrames := resolved rate window } := by
    have hcaptured : (run.plugin.capture rate channels (signal run.time)).captureBuffer =
        run.plugin.captureBuffer := rfl
    simp only [frame, advance, if_pos hends, hcaptured]
    exact congrArg (fun n => { run.plugin.capture rate channels (signal run.time) with
      position := 0, captureBuffer := !run.plugin.captureBuffer, hasPlayedOnce := true,
      windowFrames := n }) (if_pos hnext)
  refine ⟨?_, ?_, htime, ?_, ?_, ?_, ?_⟩
  · rw [hplugin]
  · rw [hplugin]
  · simp only [frame, if_pos hends, htime]
  · rw [hplugin]
  · rw [hplugin]
    intro plane hplane i hi
    simp only [Bool.not_not]
    exact h.now_capture hcapacity plane hplane i (by omega)
  · rw [hplugin]
    exact fun buffer plane slot hslot => h.silent_capture buffer hslot

/-- The next window is as long. -/
theorem Turned.steady {start : ℕ} (h : Turned channels signal L L start run) (hpos : 0 < L)
    (haligned : L ∣ start) : Steady channels signal L 0 run where
  windowFrames := h.windowFrames
  position := h.position
  lt := hpos
  time := by
    rw [h.time, h.windows]
    rfl
  aligned := by
    rw [h.windows]
    exact dvd_add haligned (dvd_refl L)
  played := by
    rw [h.played, h.windows]
    rfl
  now _ _ _ hi := absurd hi (Nat.not_lt_zero _)
  earlier := by
    rw [h.windows]
    rintro before hbefore
    obtain rfl := Option.some.inj hbefore
    exact ⟨rfl, h.earlier⟩
  silent := h.silent

/-- One frame that is heard. -/
def impulse (K : Type) [Field K] (heard : ℕ) (time _channel : ℕ) : K := if time = heard then 1 else 0

/-- The next window is not as long: its first frame is not the last of the window before. -/
theorem Turned.not_plays {start n : ℕ} (hchannels : 0 < channels) (hn : 0 < n) (hne : n ≠ L)
    (hL : 0 < L) (h : Turned channels (impulse K (start + (L - 1))) L n start run) :
    ¬ (frame rate channels (.plain window) (impulse K (start + (L - 1))) run).1.PlaysWindowBefore
      channels (impulse K (start + (L - 1))) := by
  intro hplays
  have hplane : planeOf 0 < Channels := planeOf_lt 0
  -- the slot that is read is not the one that was written last
  have hslot : run.plugin.buffers (!run.plugin.captureBuffer) (planeOf 0) (n - 1) = 0 := by
    by_cases hlt : n - 1 < L
    · rw [h.earlier _ hplane _ hlt]
      exact if_neg (by omega)
    · exact h.silent _ _ _ (by omega)
  have hsilent : (frame rate channels (.plain window) (impulse K (start + (L - 1))) run).1.output 0
      = 0 := by
    rw [output_plain, h.windowFrames, h.position, Nat.sub_zero, hslot, ite_self]
  have hbefore : start ∈ run.windows.before := by
    rw [h.windows]
    rfl
  have hheard := hplays start hbefore 0 hchannels
  rw [hsilent] at hheard
  simp only [frame, h.windows, h.time, Nat.sub_self, Nat.sub_zero, Nat.add_sub_cancel_left,
    if_pos hL, captured, impulse, if_true] at hheard
  exact zero_ne_one hheard

/-! ### Runs of frames -/

/-- A frame that keeps the length, if it ends a window. -/
theorem Steady.next (h : Steady channels signal L p run) (hcapacity : L < capacity rate)
    (hkeeps : L ∣ run.time + 1 → resolved rate window = L) :
    ∃ q, Steady channels signal L q (frame rate channels (.plain window) signal run).2 := by
  have hlt := h.lt
  by_cases hp : p + 1 < L
  · exact ⟨_, h.inside hcapacity hp⟩
  · have hends : p + 1 = L := by omega
    have hturn : resolved rate window = L := by
      refine hkeeps ?_
      rw [h.time, Nat.add_assoc, hends]
      exact dvd_add h.aligned (dvd_refl L)
    have hturned := h.turns hcapacity hends window
    rw [hturn] at hturned
    exact ⟨0, hturned.steady (by omega) h.aligned⟩

theorem frame_time : (frame rate channels settings signal run).2.time = run.time + 1 := rfl

/-- Frames of which every one that ends a window keeps the length. -/
theorem Steady.frames {list : List WindowLength} (h : Steady channels signal L p run)
    (hcapacity : L < capacity rate)
    (hkeeps : ∀ j (hj : j < list.length), L ∣ run.time + j + 1 → resolved rate list[j] = L) :
    ∃ q, Steady channels signal L q
        (ReversePlugin.frames rate channels signal (list.map .plain) run).2 ∧
      (ReversePlugin.frames rate channels signal (list.map .plain) run).2.time =
        run.time + list.length := by
  induction list generalizing run p with
  | nil => exact ⟨p, h, rfl⟩
  | cons window rest ih =>
    obtain ⟨q, hnext⟩ := h.next hcapacity (hkeeps 0 (Nat.succ_pos _))
    obtain ⟨q', hsteady, htime⟩ := ih hnext fun j hj hdvd => by
      refine hkeeps (j + 1) (Nat.succ_lt_succ hj) ?_
      rw [frame_time] at hdvd
      rwa [show run.time + (j + 1) + 1 = run.time + 1 + j + 1 by omega]
    refine ⟨q', hsteady, htime.trans ?_⟩
    rw [frame_time, List.length_cons]
    omega

/-- The last frame may ask for another length. -/
theorem Steady.frames_play {list : List WindowLength} (h : Steady channels signal L p run)
    (hcapacity : L < capacity rate)
    (hkeeps : ∀ j (hj : j + 1 < list.length), L ∣ run.time + j + 1 → resolved rate list[j] = L) :
    ∀ played ∈ (ReversePlugin.frames rate channels signal (list.map .plain) run).1,
      played.PlaysWindowBefore channels signal := by
  induction list generalizing run p with
  | nil => exact fun _ hmem => absurd hmem List.not_mem_nil
  | cons window rest ih =>
    rw [List.map_cons, ReversePlugin.frames]
    intro played hmem
    rcases List.mem_cons.1 hmem with rfl | hmem
    · exact h.plays hcapacity
    · have hrest : 0 < rest.length := by
        refine Nat.pos_of_ne_zero fun hnil => ?_
        obtain rfl := List.eq_nil_of_length_eq_zero hnil
        exact List.not_mem_nil hmem
      obtain ⟨q, hnext⟩ := h.next hcapacity (hkeeps 0 (Nat.succ_lt_succ hrest))
      refine ih hnext (fun j hj hdvd => hkeeps (j + 1) (Nat.succ_lt_succ hj) ?_) played hmem
      rw [frame_time] at hdvd
      rwa [show run.time + (j + 1) + 1 = run.time + 1 + j + 1 by omega]

/-- The first frame that ends a window and asks for another length. -/
theorem not_plays_of_change (front : List WindowLength) (changed window : WindowLength)
    (rest : List WindowLength) (hchannels : 0 < channels)
    (h : Steady channels (impulse K front.length) L 0 run) (htime : run.time = 0)
    (hcapacity : L < capacity rate)
    (hkeeps : ∀ j (hj : j < front.length), L ∣ j + 1 → resolved rate front[j] = L)
    (hends : L ∣ front.length + 1) (hchanged : resolved rate changed ≠ L) :
    ¬ ∀ played ∈ (frames rate channels (impulse K front.length)
        ((front ++ changed :: window :: rest).map .plain) run).1,
      played.PlaysWindowBefore channels (impulse K front.length) := by
  intro hplays
  obtain ⟨q, hsteady, htime'⟩ := h.frames hcapacity fun j hj hdvd =>
    hkeeps j hj (by rwa [htime, Nat.zero_add] at hdvd)
  rw [htime, Nat.zero_add] at htime'
  have hlt := hsteady.lt
  have htime'' := hsteady.time
  -- the frame is the last of its window
  have hlast : q + 1 = L := by
    obtain ⟨k, hk⟩ := hsteady.aligned
    have hdvd : L ∣ q + 1 := by
      rw [← Nat.dvd_add_right hsteady.aligned, ← Nat.add_assoc, ← htime'', htime']
      exact hends
    exact Nat.le_antisymm hlt (Nat.le_of_dvd (Nat.succ_pos q) hdvd)
  have hturned := hsteady.turns hcapacity hlast changed
  have hat : front.length = (frames rate channels (impulse K front.length)
      (front.map .plain) run).2.windows.start + (L - 1) := by omega
  rw [List.map_append, List.map_cons, List.map_cons, frames_append] at hplays
  have hframe := hplays _ (List.mem_append_right _ (List.mem_cons_of_mem _ List.mem_cons_self))
  revert hframe hturned
  generalize (frames rate channels (impulse K front.length) (front.map .plain) run).2 = course at *
  rw [hat]
  exact fun hturned hframe => hturned.not_plays hchannels (resolved_pos changed) hchanged
    (by omega) hframe

/-- The windows keep the length of the first: no frame at its end but the last asks for another. -/
def KeepsLength (rate : SampleRate) (first : WindowLength) (windows : List WindowLength) : Prop :=
  ∀ f (hf : f + 1 < windows.length), resolved rate first ∣ f + 1 →
    resolved rate windows[f] = resolved rate first

/-- **A window plays the window before it, in reverse, for every signal exactly when the windows
keep the length of the first**, however the frames are split into calls. -/
theorem plays_window_before_iff (rate : SampleRate) {channels : ℕ} (hchannels : 0 < channels)
    (first : WindowLength) (calls : List (WindowLength × ℕ)) :
    (∀ signal : ℕ → ℕ → K, PlaysWindowBefore rate channels signal first calls) ↔
      KeepsLength rate first (ofCalls calls) := by
  have hcapacity : resolved rate first < capacity rate := resolved_lt_capacity first
  have hframes : ∀ signal : ℕ → ℕ → K, PlaysWindowBefore rate channels signal first calls ↔
      ∀ played ∈ (frames rate channels signal ((ofCalls calls).map .plain)
        { plugin := configured rate first }).1, played.PlaysWindowBefore channels signal := by
    intro signal
    rw [PlaysWindowBefore, processAll_eq hchannels calls (resolved_pos first)]
  rw [forall_congr' hframes]
  constructor
  · intro hplays
    by_contra hkeeps
    simp only [KeepsLength, not_forall] at hkeeps
    have hfirst := Nat.find_spec hkeeps
    have hmin := fun m => Nat.find_min hkeeps (m := m)
    generalize Nat.find hkeeps = f at hfirst hmin
    obtain ⟨hf, hdvd, hne⟩ := hfirst
    obtain ⟨front, changed, window, rest, hlist, hlength⟩ :
        ∃ front changed window rest, ofCalls calls = front ++ changed :: window :: rest ∧
          front.length = f := by
      refine ⟨(ofCalls calls).take f, (ofCalls calls)[f], (ofCalls calls)[f + 1],
        (ofCalls calls).drop (f + 2), ?_, List.length_take_of_le (by omega)⟩
      rw [← List.drop_eq_getElem_cons, ← List.drop_eq_getElem_cons, List.take_append_drop]
    subst hlength
    simp only [hlist] at hplays hmin hne hf
    refine not_plays_of_change front changed window rest hchannels (steady_configured first) rfl hcapacity ?_ hdvd ?_
      (hplays (impulse K front.length))
    · intro j hj hdvd
      have hkept := hmin j hj
      simp only [not_exists, not_not] at hkept
      have hkept := hkept (by simp; omega) hdvd
      rwa [List.getElem_append_left hj] at hkept
    · simpa using hne
  · intro hkeeps signal
    refine (steady_configured first).frames_play hcapacity fun j hj hdvd => ?_
    rw [Nat.zero_add] at hdvd
    exact hkeeps j hj hdvd

/-! ### A window that is made shorter -/

def twentyHertz : SampleRate := ⟨20, le_refl 20⟩

/-- Two frames. -/
def tenth : WindowLength := ⟨1 / 10, by norm_num, by norm_num⟩

/-- One frame. -/
def twentieth : WindowLength := ⟨1 / 20, by norm_num, by norm_num⟩

theorem resolved_tenth : resolved twentyHertz tenth = 2 := by
  norm_num [resolved, twentyHertz, tenth]

theorem resolved_twentieth : resolved twentyHertz twentieth = 1 := by
  norm_num [resolved, twentyHertz, twentieth]

theorem keepsLength_tenth :
    KeepsLength twentyHertz tenth (ofCalls [(tenth, 3), (tenth, 2)]) := by
  intro f hf _
  simp only [ofCalls, List.flatMap_cons, List.flatMap_nil, List.append_nil,
    List.replicate_append_replicate, List.getElem_replicate]

theorem plays_window_before_constant :
    PlaysWindowBefore twentyHertz 2 (impulse ℚ 1) tenth [(tenth, 3), (tenth, 2)] :=
  (plays_window_before_iff twentyHertz (by decide) tenth _).2 keepsLength_tenth _

/-- The window of two frames is followed by one of one frame. -/
theorem not_plays_window_before_shorter :
    ¬ ∀ signal : ℕ → ℕ → ℚ,
      PlaysWindowBefore twentyHertz 2 signal tenth [(tenth, 1), (twentieth, 2)] := by
  intro h
  have hplays := h (impulse ℚ 1)
  rw [PlaysWindowBefore, processAll_eq (by decide) _ (resolved_pos tenth)] at hplays
  refine not_plays_of_change [tenth] twentieth twentieth [] (by decide) (steady_configured tenth)
    rfl (resolved_lt_capacity tenth) ?_ ?_ ?_ hplays
  · intro j hj hdvd
    obtain rfl : j = 0 := by simpa using hj
    rfl
  · rw [resolved_tenth]
    exact dvd_refl 2
  · rw [resolved_tenth, resolved_twentieth]
    decide

end ReversePlugin

end OneBeat.Builtin
