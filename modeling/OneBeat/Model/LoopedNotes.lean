import OneBeat.Model.FlattenedVoices
import Mathlib.Data.Int.ModEq

/-!
# Looped notes

What a looping clip plays of a note of its pattern: the note once in each pass, at the tick where
the pass comes to it, and no longer than the pass.

* `collectOccurrences_looped` : the occurrences of a note in a clip that loops.
* `resolveNote_looped` : of a note as the flattener asks for it, swung, shifted and gated.
-/

namespace OneBeat

/-- The C++ remainder, brought into range, is the remainder of the division with floor. -/
theorem tmod_add_tmod (a : ℤ) {b : ℤ} (hb : 0 < b) : (a.tmod b + b).tmod b = a % b := by
  have hlow : -b < a.tmod b := Int.lt_tmod_of_pos a hb
  rw [Int.tmod_eq_emod_of_nonneg (by omega), Int.add_emod_right]
  have hsub : a = a.tmod b + b * a.tdiv b := (Int.tmod_add_mul_tdiv a b).symm
  calc a.tmod b % b = (a.tmod b + b * a.tdiv b) % b := (Int.add_mul_emod_self_left _ _ _).symm
    _ = a % b := by rw [← hsub]

/-! ### Notes as they sound -/

/-- A note of an instrument as a clip sounds it: the key transposed, the start swung and shifted,
the length gated. -/
structure SoundingNote where
  index : ℕ
  key : ℤ
  velocity : Double
  note : Note

/-- The instrument, the key and the velocity. -/
def SoundingNote.voice (s : SoundingNote) : ℕ × ℤ × Double := (s.index, s.key, s.velocity)

/-- A note of a pattern as a clip sounds it, if the instrument plays its key. -/
def soundNote (pattern : Pattern) (transforms : ClipTransforms) (settings : ChannelSettings)
    (index : ℕ) (note : Note) : Option SoundingNote :=
  let key := note.key + transforms.transpose
  if key < 0 ∨ 127 < key then none
  else if key < settings.keyLow ∨ settings.keyHigh < key then none
  else some
    { index, key
      velocity := clampUnit ((velocityToUnit note.velocity).mul settings.velocityTracking).toFloat
      note := { note with
        start := swungPosition note.start pattern.swing + settings.shiftTicks
        length := max 1 (((Double.ofInt note.length).mul (Double.ofInt settings.gatePercent)).div
          (.finite 100)).llround } }

theorem note_soundNote {pattern : Pattern} {transforms : ClipTransforms}
    {settings : ChannelSettings} {index : ℕ} {note : Note} {s : SoundingNote}
    (h : soundNote pattern transforms settings index note = some s) :
    s.note.start = swungPosition note.start pattern.swing + settings.shiftTicks ∧
      0 < s.note.length := by
  rw [soundNote] at h
  split_ifs at h
  rw [← Option.some.inj h]
  exact ⟨rfl, lt_of_lt_of_le one_pos (le_max_left _ _)⟩

/-- An occurrence of a note, on the timeline. -/
def SoundingNote.occurring (s : SoundingNote) (clipStart : ℤ) (occurrence : ℤ × ℤ) :
    ResolvedNote :=
  { start := clipStart + occurrence.1, stop := clipStart + occurrence.2,
    instrument := s.index, key := s.key, velocity := s.velocity }

theorem resolveNote_eq (pattern : Pattern) (patternLength : ℤ) (clip : Clip)
    (settings : ChannelSettings) (index : ℕ) (note : Note) :
    resolveNote pattern patternLength clip settings index note =
      (soundNote pattern clip.transforms settings index note).map fun s =>
        (collectOccurrences s.note clip patternLength).map (s.occurring clip.start) := by
  rw [resolveNote, soundNote]
  split_ifs <;> rfl

/-! ### Occurrences -/

/-- The pattern begins again at a tick of the clip. -/
def Restarts (clip : Clip) (patternLength tick : ℤ) : Prop :=
  tick + clip.transforms.windowStart ≡ 0 [ZMOD patternLength]

/-- The occurrences of a note in a clip that loops a pattern: one in each pass, which ends with the
note, with the pass or with the clip. -/
structure LoopedOccurrences (note : Note) (clip : Clip) (patternLength : ℤ)
    (occurrences : List (ℤ × ℤ)) : Prop where
  increasing : occurrences.Pairwise fun a b => a.1 < b.1
  positions : ∀ p, (∃ stop, (p, stop) ∈ occurrences) ↔
    (0 ≤ p ∧ p < clip.length) ∧
      p + clip.transforms.windowStart ≡ note.start [ZMOD patternLength]
  ends : ∀ o ∈ occurrences, o.1 < o.2 ∧ ∃ restart,
    IsLeast {tick | o.1 < tick ∧ Restarts clip patternLength tick} restart ∧
      o.2 = min (o.1 + note.length) (min restart clip.length)

theorem pairwise_positionsFrom {step : ℤ} (hstep : 0 < step) (bound : ℤ) (fuel : ℕ)
    (position : ℤ) :
    (positionsFrom step bound fuel position).Pairwise (· < ·) ∧
      ∀ p ∈ positionsFrom step bound fuel position, position ≤ p := by
  induction fuel generalizing position with
  | zero => exact ⟨List.Pairwise.nil, List.forall_mem_nil _⟩
  | succ fuel ih =>
    rw [positionsFrom]
    split_ifs with hbound
    · obtain ⟨hincreasing, hleast⟩ := ih (position + step)
      refine ⟨List.pairwise_cons.2 ⟨fun p hp => ?_, hincreasing⟩,
        List.forall_mem_cons.2 ⟨le_rfl, fun p hp => ?_⟩⟩
      · have := hleast p hp
        omega
      · have := hleast p hp
        omega
    · exact ⟨List.Pairwise.nil, List.forall_mem_nil _⟩

variable {note : Note} {clip : Clip} {patternLength : ℤ}

/-- In a clip that loops a note is cut where its pass ends. -/
theorem collectOccurrences_of_loop (hloop : clip.transforms.loop = true)
    (hlength : 0 < note.length) (hpattern : 0 < patternLength) (hinside : note.start < patternLength) :
    collectOccurrences note clip patternLength =
      (positionsFrom patternLength clip.length clip.length.toNat
        ((note.start - clip.transforms.windowStart) % patternLength)).map fun position =>
          (position, min (position + note.length)
            (min (position + (patternLength - note.start)) clip.length)) := by
  rw [collectOccurrences]
  split_ifs with hempty hnoloop
  · have hclip : clip.length.toNat = 0 := by omega
    rw [hclip]
    rfl
  · rw [hloop] at hnoloop
    cases hnoloop
  · dsimp only
    rw [tmod_add_tmod _ hpattern, ← List.filterMap_eq_map]
    refine List.filterMap_congr fun position hposition => ?_
    have hbound : position < clip.length := by
      refine ((mem_positionsFrom_iff hpattern ?_).1 hposition).1
      have := Int.emod_nonneg (note.start - clip.transforms.windowStart) hpattern.ne'
      omega
    rw [if_pos (by omega)]
    rfl

/-- **What a looping clip plays of a note.** -/
theorem collectOccurrences_looped (hloop : clip.transforms.loop = true)
    (hlength : 0 < note.length) (hpattern : 0 < patternLength) (hstart : 0 ≤ note.start)
    (hinside : note.start < patternLength) :
    LoopedOccurrences note clip patternLength (collectOccurrences note clip patternLength) := by
  rw [collectOccurrences_of_loop hloop hlength hpattern hinside]
  set window := clip.transforms.windowStart with hwindow
  set first := (note.start - window) % patternLength with hfirst
  have hnonneg : 0 ≤ first := Int.emod_nonneg _ hpattern.ne'
  have hlt : first < patternLength := Int.emod_lt_of_pos _ hpattern
  -- the positions walked are one residue of the pattern's length, from the clip's start to its end
  have hmem : ∀ {p}, p ∈ positionsFrom patternLength clip.length clip.length.toNat first ↔
      (0 ≤ p ∧ p < clip.length) ∧ p + window ≡ note.start [ZMOD patternLength] := by
    intro p
    rw [mem_positionsFrom_iff hpattern (by omega), Int.modEq_iff_dvd]
    constructor
    · rintro ⟨hp, i, rfl⟩
      have hpasses : 0 ≤ (i : ℤ) * patternLength := by positivity
      refine ⟨⟨by omega, hp⟩, ?_⟩
      have hsplit := Int.emod_add_mul_ediv (note.start - window) patternLength
      exact ⟨(note.start - window) / patternLength - i, by rw [mul_sub]; linarith⟩
    · rintro ⟨⟨hp, hp'⟩, hdvd⟩
      have hphase : first = p % patternLength :=
        Int.emod_eq_emod_iff_emod_sub_eq_zero.2 (Int.emod_eq_zero_of_dvd (by
          rwa [← sub_sub, sub_right_comm] at hdvd))
      have hpasses := Int.ediv_nonneg hp hpattern.le
      refine ⟨hp', (p / patternLength).toNat, ?_⟩
      have hsplit := Int.emod_add_mul_ediv p patternLength
      rw [hphase, Int.toNat_of_nonneg hpasses, mul_comm]
      exact hsplit.symm
  refine ⟨?_, ?_, ?_⟩
  · rw [List.pairwise_map]
    exact (pairwise_positionsFrom hpattern _ _ _).1
  · intro p
    rw [← hmem]
    simp
  · rw [List.forall_mem_map]
    intro p hp
    obtain ⟨⟨hp, hp'⟩, hat⟩ := hmem.1 hp
    refine ⟨by dsimp only; omega, p + (patternLength - note.start), ⟨⟨by dsimp only; omega, ?_⟩, ?_⟩,
      rfl⟩
    · rw [Restarts, Int.modEq_zero_iff_dvd]
      obtain ⟨passes, hpasses⟩ := Int.modEq_iff_dvd.1 hat
      exact ⟨1 - passes, by rw [mul_sub, ← hpasses]; ring⟩
    · -- the ticks from the start of the pass to a later one are a multiple of its length
      rintro tick ⟨hlater, hrestarts⟩
      dsimp only at hlater
      have hdvd : patternLength ∣ tick - p + note.start := by
        obtain ⟨passes, hpasses⟩ := Int.modEq_iff_dvd.1 hat
        obtain ⟨passes', hpasses'⟩ := Int.modEq_zero_iff_dvd.1 hrestarts
        exact ⟨passes' + passes, by rw [mul_add, ← hpasses, ← hpasses']; ring⟩
      have := Int.le_of_dvd (by omega) hdvd
      omega

/-- **A note of a pattern is played once in each pass of a clip that loops it**, at the tick that
the swing and the shift of its channel put it on, until the pass, the clip or the note ends. -/
theorem resolveNote_looped {pattern : Pattern} {settings : ChannelSettings} {index : ℕ}
    {s : SoundingNote} (hsounds : soundNote pattern clip.transforms settings index note = some s)
    (hloop : clip.transforms.loop = true) (hpattern : 0 < patternLength)
    (hstart : 0 ≤ s.note.start) (hinside : s.note.start < patternLength) :
    resolveNote pattern patternLength clip settings index note =
        some ((collectOccurrences s.note clip patternLength).map (s.occurring clip.start)) ∧
      s.note.start = swungPosition note.start pattern.swing + settings.shiftTicks ∧
      LoopedOccurrences s.note clip patternLength
        (collectOccurrences s.note clip patternLength) := by
  obtain ⟨hstart', hlength⟩ := note_soundNote hsounds
  exact ⟨by rw [resolveNote_eq, hsounds, Option.map_some], hstart',
    collectOccurrences_looped hloop hlength hpattern hstart hinside⟩

/-- A clip that begins within a pass and stops within one. -/
def loopedClip : Clip :=
  { lane := ⟨4⟩, length := 2000, source := .pattern ⟨3⟩
    transforms := { windowStart := -100, loop := true } }

/-- A note of half a pass. -/
theorem resolveNote_looped_half :
    ∃ s, soundNote {} loopedClip.transforms {} 0 ⟨240, 480, 60, 100⟩ = some s ∧
      LoopedOccurrences s.note loopedClip 960 (collectOccurrences s.note loopedClip 960) := by
  have hsounds : ∃ s, soundNote {} loopedClip.transforms {} 0 ⟨240, 480, 60, 100⟩ = some s ∧
      s.note.start = 240 := ⟨_, rfl, by decide +kernel⟩
  obtain ⟨s, hsounds, hstart⟩ := hsounds
  exact ⟨s, hsounds, (resolveNote_looped hsounds rfl (by decide) (by omega) (by omega)).2.2⟩

end OneBeat
