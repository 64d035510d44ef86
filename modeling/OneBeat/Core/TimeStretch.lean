import OneBeat.Core.AudioArithmetic

/-!
# Time stretching

`core/time_stretch.h` and `core/time_stretch.cpp`: grains of the source are slid to where they match
what has been written, and cross-faded.

The buffers are functions of channel and index.  What `render` writes is a list of frames, a frame
being a value for every channel.

* `render_eq_frames` : the loop hands the frames out one after the other;
* `render_add` : **frames that are asked for in two calls are the same frames**.
-/

namespace OneBeat

/-- The frames of a decoded file, interleaved. -/
structure SampleData (F D : Type) where
  samples : List F
  channels : ℤ
  frames : ℤ
  sampleRate : D

variable {F D : Type} [FloatOps F] [DoubleOps D]

def SampleData.sampleAt (sample : SampleData F D) (frame channel : ℤ) : F :=
  sample.samples.getD (frame * sample.channels + channel).toNat 0

/-- What the stretcher needs of what it reads. -/
structure StretchSource (F D : Type) where
  read : D → ℕ → F
  sourceFrames : ℤ

/-- Which part of a file is read, and in which direction. -/
structure SourceWindow (F D : Type) where
  sample : Option (SampleData F D) := none
  start : ℤ := 0
  length : ℤ := 0
  reversed : Bool := false

namespace SourceWindow

variable (window : SourceWindow F D)

def valid : Bool := window.sample.isSome && 0 < window.length

/-- The frame of the file at a position in the window. -/
def frameAt (offset : ℤ) : ℤ :=
  let clamped :=
    if offset < 0 then 0 else if window.length ≤ offset then window.length - 1 else offset
  if window.reversed then window.start + (window.length - 1 - clamped) else window.start + clamped

/-- A linearly interpolated read. -/
def read [Narrow F D] (offset : D) (channel : ℕ) : F :=
  match window.sample with
  | none => 0
  | some sample =>
    let index := truncate offset
    let fraction : F := narrow (offset - ofInt index)
    let sourceChannel := if (channel : ℤ) < sample.channels then (channel : ℤ) else sample.channels - 1
    let a := sample.sampleAt (window.frameAt index) sourceChannel
    let b := sample.sampleAt (window.frameAt (index + 1)) sourceChannel
    a + (b - a) * fraction

def source [Narrow F D] : StretchSource F D := ⟨window.read, window.length⟩

end SourceWindow

/-! ### The stretcher -/

structure TimeStretch (F D : Type) where
  channels : ℕ
  prepared : Bool
  finished : Bool
  readPosition : D
  tail : ℕ → ℕ → F
  ready : ℕ → ℕ → F
  readyFrames : ℕ
  readyRead : ℕ
  windowShape : ℕ → F

namespace TimeStretch

def synthesisHop : ℕ := 256
def grainFrames : ℕ := 512
def searchFrames : ℕ := 128
def maxChannels : ℕ := 2

/-- Before `prepare`. -/
def unprepared : TimeStretch F D where
  channels := 0
  prepared := false
  finished := false
  readPosition := 0
  tail _ _ := 0
  ready _ _ := 0
  readyFrames := 0
  readyRead := 0
  windowShape _ := 0

variable (s : TimeStretch F D)

/-- Back to the start. -/
def reset : TimeStretch F D :=
  { s with readPosition := 0, readyFrames := 0, readyRead := 0, finished := false,
           tail := fun _ _ => 0 }

def pi : D := ofRat (314159265358979323846 / 100000000000000000000)

/-- The Hann window. -/
def hann [Narrow F D] (i : ℕ) : F :=
  let phase : D := ofRat 2 * pi * ofInt i / ofInt (grainFrames - 1 : ℕ)
  narrow (ofRat (1 / 2) - ofRat (1 / 2) * DoubleOps.cos phase)

def prepare [Narrow F D] (channels : ℕ) : TimeStretch F D :=
  reset { s with
    channels := max 1 (min channels maxChannels)
    ready := fun _ _ => 0
    windowShape := hann (D := D)
    prepared := true }

variable (source : StretchSource F D) (ratio : D)

/-- How well the grain at `offset` continues the tail. -/
def similarity (offset : ℤ) : F :=
  (List.range' 0 (synthesisHop / 2) 2).foldl
    (fun score i => score + s.tail 0 i * source.read (ofInt (offset + i)) 0) 0

/-- The grain that matches best, near the nominal position. -/
def search (nominal : ℤ) : ℤ :=
  let offsets := (List.range (searchFrames / 2 + 1)).map fun k : ℕ => 4 * (k : ℤ) - searchFrames
  (offsets.foldl (fun (best : F × ℤ) offset =>
    let candidate := nominal + offset
    if candidate < 0 ∨ source.sourceFrames ≤ candidate + grainFrames then best
    else
      let score := s.similarity source candidate
      if FloatOps.lt best.1 score then (score, candidate) else best)
    (s.similarity source nominal, nominal)).2

/-- Append one hop. -/
def produceHop : TimeStretch F D :=
  let nominal := truncate s.readPosition
  let frames := source.sourceFrames
  let best := if FloatOps.lt 0 s.readPosition then s.search source nominal else nominal
  let grain (channel i : ℕ) : F := source.read (ofInt (best + i)) channel
  let readPosition := s.readPosition + ofInt synthesisHop * ratio
  { s with
    ready := fun channel j =>
      if channel < s.channels ∧ s.readyFrames ≤ j ∧ j < s.readyFrames + synthesisHop then
        let i := j - s.readyFrames
        s.tail channel i + grain channel i * s.windowShape i
      else s.ready channel j
    tail := fun channel i =>
      if channel < s.channels ∧ i < synthesisHop then
        grain channel (i + synthesisHop) * s.windowShape (i + synthesisHop)
      else s.tail channel i
    readyFrames := s.readyFrames + synthesisHop
    readPosition
    finished := s.finished ||
      (0 < frames && FloatOps.le (ofInt frames) (readPosition + ofInt grainFrames)) }

/-- Some frames are ready, or one more hop is produced; `false` when there is nothing left. -/
def refill : TimeStretch F D × Bool :=
  if s.readyRead < s.readyFrames then (s, true)
  else
    let emptied := { s with readyRead := 0, readyFrames := 0 }
    if s.finished then (emptied, false)
    else
      let filled := emptied.produceHop source ratio
      (filled, filled.readyFrames ≠ 0)

/-- The frame that is `i` frames ahead. -/
def readyFrame (i channel : ℕ) : F :=
  s.ready (if channel < s.channels then channel else s.channels - 1) (s.readyRead + i)

/-- Frames have been handed out. -/
def skip (k : ℕ) : TimeStretch F D := { s with readyRead := s.readyRead + k }

/-- The loop of `render`: as many of the ready frames as are asked for, and again. -/
def renderLoop : ℕ → ℕ → TimeStretch F D → List (ℕ → F) × TimeStretch F D
  | 0, _, s => ([], s)
  | fuel + 1, remaining, s =>
    if remaining = 0 then ([], s)
    else
      match s.refill source ratio with
      | (s, false) => ([], s)
      | (s, true) =>
        let take := min (s.readyFrames - s.readyRead) remaining
        let rest := renderLoop fuel (remaining - take) (s.skip take)
        ((List.range take).map s.readyFrame ++ rest.1, rest.2)

/-- Up to as many frames as asked for; a round of the loop hands out one at least. -/
def render (numFrames : ℕ) : List (ℕ → F) × TimeStretch F D :=
  if !s.prepared || FloatOps.le ratio 0 then ([], s)
  else renderLoop source ratio numFrames numFrames s

/-! ### Frame by frame -/

/-- The frames one at a time. -/
def frames : ℕ → TimeStretch F D → List (ℕ → F) × TimeStretch F D
  | 0, s => ([], s)
  | n + 1, s =>
    match s.refill source ratio with
    | (s, false) => ([], s)
    | (s, true) =>
      let rest := frames n (s.skip 1)
      (s.readyFrame 0 :: rest.1, rest.2)

variable {s} {source} {ratio}

theorem refill_of_lt (h : s.readyRead < s.readyFrames) : s.refill source ratio = (s, true) := by
  rw [refill, if_pos h]

/-- After a refill frames are ready. -/
theorem lt_of_refill {s' : TimeStretch F D} (h : s.refill source ratio = (s', true)) :
    s'.readyRead < s'.readyFrames := by
  unfold refill at h
  split at h
  · obtain ⟨rfl, _⟩ := Prod.mk.inj h
    assumption
  · split at h
    · simp at h
    · obtain ⟨rfl, hne⟩ := Prod.mk.inj h
      exact Nat.pos_of_ne_zero (by simpa using hne)

/-- Ready frames are handed out one after the other. -/
theorem frames_of_ready {k : ℕ} (h : s.readyRead + k ≤ s.readyFrames) (n : ℕ) :
    frames source ratio (k + n) s =
      ((List.range k).map s.readyFrame ++ (frames source ratio n (s.skip k)).1,
        (frames source ratio n (s.skip k)).2) := by
  induction k generalizing s with
  | zero => simp [skip]
  | succ k ih =>
    have hnext : (s.skip 1).readyRead + k ≤ (s.skip 1).readyFrames := by
      simp only [skip]
      omega
    have hframe : ∀ i, (s.skip 1).readyFrame i = s.readyFrame (i + 1) := by
      intro i
      funext channel
      simp only [readyFrame, skip]
      congr 1
      omega
    have hskip : (s.skip 1).skip k = s.skip (k + 1) := by
      simp only [skip]
      congr 1
      omega
    rw [Nat.add_right_comm, frames, refill_of_lt (by omega)]
    simp only [ih hnext, hskip, List.range_succ_eq_map, List.map_cons, List.map_map,
      List.cons_append]
    rw [List.map_congr_left (g := s.readyFrame ∘ Nat.succ) fun i _ => hframe i]

theorem renderLoop_eq_frames {fuel remaining : ℕ} (h : remaining ≤ fuel) :
    renderLoop source ratio fuel remaining s = frames source ratio remaining s := by
  induction fuel generalizing remaining s with
  | zero =>
    obtain rfl : remaining = 0 := by omega
    rfl
  | succ fuel ih =>
    cases remaining with
    | zero => rfl
    | succ n =>
      rw [renderLoop, if_neg (Nat.succ_ne_zero n)]
      rcases hrefill : s.refill source ratio with ⟨s', _ | _⟩
      · simp only [frames, hrefill]
      · have hlt := lt_of_refill hrefill
        have hframes : frames source ratio (n + 1) s = frames source ratio (n + 1) s' := by
          rw [frames, frames, hrefill, refill_of_lt hlt]
        obtain ⟨take, htake⟩ : ∃ take, take = min (s'.readyFrames - s'.readyRead) (n + 1) := ⟨_, rfl⟩
        have hsplit : n + 1 = take + (n + 1 - take) := by omega
        rw [hframes, hsplit, frames_of_ready (by omega), ← hsplit, ← ih (by omega)]
        simp only [htake]

theorem frames_add (a b : ℕ) :
    frames source ratio (a + b) s =
      if (frames source ratio a s).1.length = a then
        ((frames source ratio a s).1 ++ (frames source ratio b (frames source ratio a s).2).1,
          (frames source ratio b (frames source ratio a s).2).2)
      else frames source ratio a s := by
  induction a generalizing s with
  | zero => simp [frames]
  | succ a ih =>
    rw [Nat.add_right_comm, frames]
    rcases hrefill : s.refill source ratio with ⟨s', _ | _⟩
    · simp [frames, hrefill]
    · simp only [frames, hrefill, ih, List.length_cons, Nat.add_right_cancel_iff]
      split <;> rfl

theorem length_frames_le (n : ℕ) : (frames source ratio n s).1.length ≤ n := by
  induction n generalizing s with
  | zero => simp [frames]
  | succ n ih =>
    rw [frames]
    rcases s.refill source ratio with ⟨s', _ | _⟩
    · simp
    · simpa using ih

theorem render_eq_frames (n : ℕ) :
    s.render source ratio n =
      if !s.prepared || FloatOps.le ratio 0 then ([], s) else frames source ratio n s := by
  rw [render, renderLoop_eq_frames (Nat.le_refl n)]

/-- What only `prepare` sets. -/
structure Alike (s t : TimeStretch F D) : Prop where
  channels : s.channels = t.channels
  prepared : s.prepared = t.prepared
  windowShape : s.windowShape = t.windowShape

omit [FloatOps F] [DoubleOps D] in
theorem Alike.symm {t : TimeStretch F D} (h : Alike s t) : Alike t s :=
  ⟨h.channels.symm, h.prepared.symm, h.windowShape.symm⟩

omit [FloatOps F] [DoubleOps D] in
theorem Alike.trans {t u : TimeStretch F D} (h : Alike s t) (h' : Alike t u) : Alike s u :=
  ⟨h.channels.trans h'.channels, h.prepared.trans h'.prepared, h.windowShape.trans h'.windowShape⟩

theorem reset_alike (s : TimeStretch F D) : Alike s.reset s := ⟨rfl, rfl, rfl⟩

/-- Without the frames that will not be handed out. -/
def visible (s : TimeStretch F D) : TimeStretch F D :=
  { s with ready := fun channel i => if i < s.readyFrames then s.ready channel i else 0 }

theorem Alike.visible_reset {t : TimeStretch F D} (h : Alike s t) :
    s.reset.visible = t.reset.visible := by
  obtain ⟨hchannels, hprepared, hshape⟩ := h
  simp [visible, reset, hchannels, hprepared, hshape]

theorem refill_alike (s : TimeStretch F D) (source : StretchSource F D) (ratio : D) :
    Alike (s.refill source ratio).1 s := by
  unfold refill
  split
  · exact ⟨rfl, rfl, rfl⟩
  · dsimp only
    split <;> exact ⟨rfl, rfl, rfl⟩

theorem frames_alike (s : TimeStretch F D) (source : StretchSource F D) (ratio : D) (n : ℕ) :
    Alike (frames source ratio n s).2 s := by
  induction n generalizing s with
  | zero => exact ⟨rfl, rfl, rfl⟩
  | succ n ih =>
    have hrefill := refill_alike s source ratio
    rw [frames]
    rcases hs : s.refill source ratio with ⟨s', _ | _⟩
    · rw [hs] at hrefill
      exact hrefill
    · rw [hs] at hrefill
      have hrest := ih (s'.skip 1)
      exact ⟨hrest.channels.trans hrefill.channels, hrest.prepared.trans hrefill.prepared,
        hrest.windowShape.trans hrefill.windowShape⟩

theorem render_alike (n : ℕ) : Alike (s.render source ratio n).2 s := by
  rw [render_eq_frames]
  split
  · exact ⟨rfl, rfl, rfl⟩
  · exact frames_alike s source ratio n

theorem length_render_le (s : TimeStretch F D) (source : StretchSource F D) (ratio : D) (n : ℕ) :
    (s.render source ratio n).1.length ≤ n := by
  rw [render_eq_frames]
  split
  · exact Nat.zero_le _
  · exact length_frames_le n

/-- **Frames that are asked for in two calls are the same frames**: when the first call gives all
it is asked for, the second goes on. -/
theorem render_add (a b : ℕ) :
    s.render source ratio (a + b) =
      if (s.render source ratio a).1.length = a then
        let rest := (s.render source ratio a).2.render source ratio b
        ((s.render source ratio a).1 ++ rest.1, rest.2)
      else s.render source ratio a := by
  rw [render_eq_frames, render_eq_frames (n := a)]
  split
  · rename_i hnone
    rw [render_eq_frames, if_pos hnone]
    simp
  · rename_i hready
    have hprepared := (frames_alike s source ratio a).prepared
    rw [frames_add, render_eq_frames, hprepared, if_neg hready]

/-- Nothing is left. -/
theorem render_of_finished (h : s.finished = true) (hready : s.readyFrames ≤ s.readyRead)
    (source : StretchSource F D) (ratio : D) (n : ℕ) : (s.render source ratio n).1 = [] := by
  rw [render_eq_frames]
  split
  · rfl
  · cases n with
    | zero => rfl
    | succ n => simp [frames, refill, h, Nat.not_lt.2 hready]

end TimeStretch

end OneBeat
