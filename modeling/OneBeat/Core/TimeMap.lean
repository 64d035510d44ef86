import OneBeat.Lib.RoundingError
import OneBeat.Model.NoteSequence

/-!
# Musical time and frames

`core/time_map.h`: one segment of constant tempo.  A tick becomes a frame in double precision: the
tick is divided by the ticks of a beat, multiplied by the frames of a beat, and rounded.

* `TimeMap.ResolvesTicks` : at least one frame per tick, with room for the rounding of the two
  operations;
* `TimeMap.toFrames_lt` : then later ticks are later frames.
-/

namespace OneBeat

def minTempoBpm : Double := .finite 20

def maxTempoBpm : Double := .finite 999

/-- A constant tempo at a sample rate. -/
structure TimeMap where
  sampleRate : Double := .finite 48000
  tempoBpm : Double := .finite 120

namespace TimeMap

/-- Everything lands inside 20..999, a NaN too. -/
def clampTempo (bpm : Double) : Double :=
  if !minTempoBpm.lt bpm then minTempoBpm else if maxTempoBpm.lt bpm then maxTempoBpm else bpm

/-- The map a tempo of the project gives. -/
def ofTempo (sampleRate tempo : Double) : TimeMap := ⟨sampleRate, clampTempo tempo⟩

variable (timeMap : TimeMap)

def framesPerBeat : Double := (timeMap.sampleRate.mul (.finite 60)).div timeMap.tempoBpm

def beatsToFrames (beats : Double) : ℤ := (beats.mul timeMap.framesPerBeat).llround

/-- The frame of a tick. -/
def toFrames (ticks : ℤ) : ℤ :=
  timeMap.beatsToFrames ((Double.ofInt ticks).div (Double.ofInt ticksPerQuarter))

/-- Up to tick `last` there is at least one frame per tick, and frames have 64 bits.  Where the
arrangement is long, one frame per tick has to leave room for rounding. -/
def ResolvesTicks (last : ℤ) : Prop :=
  ∃ frames : ℚ, timeMap.framesPerBeat = .finite frames ∧ frames * last ≤ 960 * 2 ^ 62 ∧
    ((960 ≤ frames ∧ last ≤ 2 ^ 24) ∨ (960 * (1 + last / 2 ^ 50) ≤ frames ∧ last ≤ 2 ^ 49))

theorem lt_double_overflow : (2 : ℚ) ^ 70 < BinaryFormat.double.overflow := by decide +kernel

/-- One operation in double precision, on numbers that are neither tiny nor huge. -/
theorem double_ofRat {q : ℚ} (hlow : 1 / 2 ^ 20 ≤ q) (hhigh : q ≤ 2 ^ 70) :
    ∃ r : ℚ, BinaryFormat.double.ofRat q = .finite r ∧ q * (1 - 1 / 2 ^ 53) ≤ r ∧
      r ≤ q * (1 + 1 / 2 ^ 53) := by
  have hpos : 0 < q := lt_of_lt_of_le (by norm_num) hlow
  have habs : |q| = q := abs_of_pos hpos
  have hnormal : (2 : ℚ) ^ (BinaryFormat.double.minExponent + BinaryFormat.double.precision) ≤
      |q| := by
    rw [habs]
    refine le_trans ?_ hlow
    rw [one_div, ← zpow_natCast, ← zpow_neg]
    exact zpow_le_zpow_right₀ one_le_two (by decide)
  have herror := BinaryFormat.abs_round_sub_le hnormal
  rw [habs, show BinaryFormat.double.precision = 53 from rfl, zpow_neg, zpow_natCast,
    abs_le] at herror
  refine ⟨BinaryFormat.double.round q, BinaryFormat.ofRat_eq_finite ?_, ?_, ?_⟩
  · rw [habs]
    exact hhigh.trans_lt lt_double_overflow
  · rw [one_div]
    linarith [herror.1]
  · rw [one_div]
    linarith [herror.2]

/-- An integer of at most 53 bits is a double. -/
theorem ofInt_eq {n : ℤ} (hlow : 0 ≤ n) (hhigh : n < 2 ^ 53) : Double.ofInt n = .finite n := by
  have hbits : |(n : ℚ)| < 2 ^ 53 := by
    rw [abs_of_nonneg (by exact_mod_cast hlow)]
    exact_mod_cast hhigh
  rw [Double.ofInt, BinaryFormat.ofRat_eq_finite, BinaryFormat.round_intCast (by decide) hbits]
  exact hbits.trans ((by norm_num : (2 : ℚ) ^ 53 < 2 ^ 70).trans lt_double_overflow)

variable {timeMap}

/-- The frame of a tick, before it is rounded to an integer. -/
theorem toFrames_eq {frames : ℚ} (hframes : timeMap.framesPerBeat = .finite frames)
    (hone : 960 ≤ frames) {tick : ℤ} (hlow : 0 ≤ tick) (hhigh : tick < 2 ^ 53)
    (hfits : frames * tick ≤ 960 * 2 ^ 62) :
    ∃ c : ℚ, timeMap.toFrames tick = roundHalfAway c ∧
      tick * (frames / 960) * (1 - 2 / 2 ^ 53) ≤ c ∧
      c ≤ tick * (frames / 960) * (1 + 3 / 2 ^ 53) := by
  have hquarter : Double.ofInt ticksPerQuarter = .finite 960 := by
    rw [ticksPerQuarter, ofInt_eq (by decide) (by decide)]; norm_num
  unfold toFrames beatsToFrames
  rw [ofInt_eq hlow hhigh, hquarter, hframes]
  simp only [Double.div, if_neg (show (960 : ℚ) ≠ 0 by norm_num)]
  rcases hlow.eq_or_lt with rfl | hpos
  · refine ⟨0, ?_, by simp, by simp⟩
    have hzero : BinaryFormat.double.ofRat 0 = .finite 0 := by decide +kernel
    simp [Double.mul, hzero, Double.llround]
  have htick : (1 : ℚ) ≤ tick := by exact_mod_cast hpos
  have htick' : (tick : ℚ) ≤ 2 ^ 53 := by exact_mod_cast hhigh.le
  obtain ⟨q, hq, hql, hqu⟩ := double_ofRat (q := (tick : ℚ) / 960) (by linarith) (by linarith)
  rw [hq]
  simp only [Double.mul]
  have hql' : (tick : ℚ) / 960 * (1 - 1 / 2 ^ 53) ≤ q := hql
  have hqf : (tick : ℚ) * (frames / 960) * (1 - 1 / 2 ^ 53) ≤ q * frames := by
    have := mul_le_mul_of_nonneg_right hql' (show (0 : ℚ) ≤ frames by linarith)
    linarith
  have hqf' : q * frames ≤ (tick : ℚ) * (frames / 960) * (1 + 1 / 2 ^ 53) := by
    have := mul_le_mul_of_nonneg_right hqu (show (0 : ℚ) ≤ frames by linarith)
    linarith
  have hexact : (1 : ℚ) ≤ tick * (frames / 960) := by
    have : (1 : ℚ) ≤ frames / 960 := by linarith
    nlinarith
  obtain ⟨c, hc, hcl, hcu⟩ := double_ofRat (q := q * frames)
    (by linarith) (by linarith)
  rw [hc]
  refine ⟨c, rfl, ?_, ?_⟩
  · nlinarith
  · nlinarith

/-- A number between `tick - 1 / 2` and `tick + 1 / 2` rounds to `tick`. -/
theorem roundHalfAway_eq {c : ℚ} {tick : ℤ} (hc : 0 ≤ c) (hlow : (tick : ℚ) - 1 / 2 ≤ c)
    (hhigh : c < tick + 1 / 2) : roundHalfAway c = tick := by
  rw [roundHalfAway, if_pos hc, Int.floor_eq_iff]
  constructor <;> linarith

/-- With more than one frame per tick, one tick is worth one frame after rounding too. -/
theorem add_one_le_of_resolved {x φ t t' c c' : ℚ} (hx : 0 ≤ x) (hx' : x ≤ 1 / 2)
    (hφ : 1 + x ≤ φ) (ht : 0 ≤ t) (htt' : t + 1 ≤ t') (ht' : t' ≤ 2 ^ 50 * x)
    (hc : c ≤ t * φ * (1 + 3 / 2 ^ 53)) (hc' : t' * φ * (1 - 2 / 2 ^ 53) ≤ c') : c + 1 ≤ c' := by
  have hticks : 1 - 5 / 8 * x ≤ t' * (1 - 2 / 2 ^ 53) - t * (1 + 3 / 2 ^ 53) := by linarith
  have hframes : φ * (1 - 5 / 8 * x) ≤
      φ * (t' * (1 - 2 / 2 ^ 53) - t * (1 + 3 / 2 ^ 53)) :=
    mul_le_mul_of_nonneg_left hticks (by linarith)
  have hone : (1 + x) * (1 - 5 / 8 * x) ≤ φ * (1 - 5 / 8 * x) :=
    mul_le_mul_of_nonneg_right hφ (by linarith)
  have hsquare : x * x ≤ 1 / 2 * x := mul_le_mul_of_nonneg_right hx' hx
  have hge : 1 ≤ (1 + x) * (1 - 5 / 8 * x) := by
    have : (1 + x) * (1 - 5 / 8 * x) = 1 + 3 / 8 * x - 5 / 8 * (x * x) := by ring
    rw [this]
    linarith
  calc c + 1 ≤ t * φ * (1 + 3 / 2 ^ 53) + φ * (t' * (1 - 2 / 2 ^ 53) - t * (1 + 3 / 2 ^ 53)) := by
        linarith
    _ = t' * φ * (1 - 2 / 2 ^ 53) := by ring
    _ ≤ c' := hc'

/-- **Later ticks are later frames.** -/
theorem toFrames_lt {last tick tick' : ℤ} (h : timeMap.ResolvesTicks last) (hlow : 0 ≤ tick)
    (hlt : tick < tick') (hlast : tick' ≤ last) :
    timeMap.toFrames tick < timeMap.toFrames tick' := by
  obtain ⟨frames, hframes, hfits, hroom⟩ := h
  have hlastq : (tick' : ℚ) ≤ last := by exact_mod_cast hlast
  have hltq : (tick : ℚ) + 1 ≤ tick' := by exact_mod_cast hlt
  have hlowq : (0 : ℚ) ≤ tick := by exact_mod_cast hlow
  have hlast0 : (0 : ℚ) ≤ last := by linarith
  have hbound : last ≤ 2 ^ 49 := by rcases hroom with ⟨-, h⟩ | ⟨-, h⟩ <;> omega
  have hone : 960 ≤ frames := by
    rcases hroom with ⟨h, -⟩ | ⟨h, -⟩
    · exact h
    · have : (0 : ℚ) ≤ last / 2 ^ 50 := by positivity
      linarith
  have hfits' : ∀ t : ℚ, t ≤ last → frames * t ≤ 960 * 2 ^ 62 := fun t ht =>
    (mul_le_mul_of_nonneg_left ht (by linarith)).trans hfits
  obtain ⟨c, heq, hcl, hcu⟩ := toFrames_eq hframes hone hlow (by omega)
    (hfits' tick (by linarith))
  obtain ⟨c', heq', hcl', hcu'⟩ := toFrames_eq hframes hone (hlow.trans hlt.le) (by omega)
    (hfits' tick' hlastq)
  have hc : 0 ≤ c := le_trans (by positivity) hcl
  rw [heq, heq']
  by_cases hmore : 1 + (last : ℚ) / 2 ^ 50 ≤ frames / 960
  · -- more than one frame per tick: the room makes up for what rounding takes
    have hboundq : (last : ℚ) ≤ 2 ^ 49 := by exact_mod_cast hbound
    have hstep : c + 1 ≤ c' := add_one_le_of_resolved (x := (last : ℚ) / 2 ^ 50) (by positivity)
      (by linarith) hmore hlowq hltq (by linarith) hcu hcl'
    exact Int.lt_of_add_one_le (roundHalfAway_add_one_le hc hstep)
  · -- one frame per tick, all but exactly: the frame of a tick is the tick
    have hshort : last ≤ 2 ^ 24 := by
      rcases hroom with ⟨-, h⟩ | ⟨h, -⟩
      · exact h
      · exact absurd (by linarith) hmore
    have hshortq : (last : ℚ) ≤ 2 ^ 24 := by exact_mod_cast hshort
    have hφ : 1 ≤ frames / 960 := by linarith
    have hround : ∀ {t : ℤ} {c : ℚ}, (0 : ℚ) ≤ t → (t : ℚ) ≤ last →
        t * (frames / 960) * (1 - 2 / 2 ^ 53) ≤ c →
        c ≤ t * (frames / 960) * (1 + 3 / 2 ^ 53) → roundHalfAway c = t := by
      intro t c ht htl hcl hcu
      have htφ : (t : ℚ) ≤ t * (frames / 960) := le_mul_of_one_le_right ht hφ
      have htφ' : t * (frames / 960) ≤ t + 1 / 4 := by
        have hsq : (t : ℚ) * (last / 2 ^ 50) ≤ 2 ^ 24 * (2 ^ 24 / 2 ^ 50) :=
          mul_le_mul (htl.trans hshortq) (by linarith) (by positivity) (by norm_num)
        have hle : (t : ℚ) * (frames / 960) ≤ t * (1 + last / 2 ^ 50) :=
          mul_le_mul_of_nonneg_left (not_le.1 hmore).le ht
        linarith
      refine roundHalfAway_eq ?_ ?_ ?_ <;> linarith
    rw [hround hlowq (by linarith) hcl hcu, hround (by linarith) hlastq hcl' hcu']
    exact hlt

end TimeMap

end OneBeat
