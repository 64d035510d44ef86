import OneBeat.Lib.RoundingOrder
import Mathlib.Logic.Function.Iterate
import Mathlib.Order.WellFounded

/-!
# Sample-rate conversion

`SincResampler` of `core/audio_export.cpp`: blocks go into a history, every output whose window is
there comes out, and the history is cut behind the window of the next.

* `output_stateAt` : a history that is cut gives the same outputs;
* `le_of_floorInt` : the read position does not go back.

**Main theorem** (`streams_iff`): the output is independent of the blocks exactly when nothing is
converted, or the read position reaches the end of the signal, as a 64-bit integer, without a jump
behind the history that is there.

`std::sin` and `std::cos` are parameters.  The frames of both channels go together.
-/

namespace OneBeat

namespace Double

/-- `std::abs`. -/
def abs : Double → Double
  | .finite q => .finite |q|
  | .infinite _ => .infinite false
  | .nan => .nan

/-- `static_cast<int64_t>` of `std::floor`, which has no value outside of 64 bits. -/
def floorInt : Double → Option ℤ
  | .finite q => if -2 ^ 63 ≤ ⌊q⌋ ∧ ⌊q⌋ < 2 ^ 63 then some ⌊q⌋ else none
  | _ => none

theorem floorInt_eq_some {d : Double} {n : ℤ} (h : d.floorInt = some n) :
    ∃ q, d = .finite q ∧ ⌊q⌋ = n := by
  cases d with
  | finite q =>
    rw [floorInt] at h
    split_ifs at h
    exact ⟨q, rfl, Option.some.inj h⟩
  | infinite | nan => exact absurd h (by simp [floorInt])

end Double

/-- A sample of both channels. -/
abbrev StereoFrame := Double × Double

structure SincResampler where
  /-- Input frames for each output frame. -/
  ratio : Double := 1
  cutoff : Double := 1
  bypassed : Bool := true
  history : List StereoFrame := []
  /-- The input index of the first frame of the history. -/
  origin : ℤ := 0
  received : ℤ := 0
  position : Double := 0

namespace SincResampler

/-- Half the width of the filter. -/
def taps : ℤ := 16

def slack : ℤ := 4096

def ofRates (inputRate outputRate : Double) : SincResampler :=
  if !Double.lt 0 inputRate || !Double.lt 0 outputRate then {}
  else if (inputRate.sub outputRate).abs.lt (BinaryFormat.double.ofRat (1 / 10 ^ 9)) then {}
  else
    { bypassed := false
      ratio := inputRate.div outputRate
      cutoff := if (outputRate.div inputRate).lt 1 then outputRate.div inputRate else 1 }

section Filter

variable (sin cos : Double → Double)

/-- A constant of the source. -/
def literal (q : ℚ) : Double := BinaryFormat.double.ofRat q

def windowedSinc (offset cutoff : Double) : Double :=
  let pi := literal (314159265358979323846 / 10 ^ 20)
  let support := Double.ofInt 16
  if support.lt offset.abs then 0
  else
    let argument := (pi.mul cutoff).mul offset
    let sinc := if argument.abs.lt (literal (1 / 10 ^ 9)) then 1 else (sin argument).div argument
    let normalised := (offset.add support).div ((Double.ofInt 2).mul support)
    let window :=
      ((literal (42 / 100)).sub
        ((literal (1 / 2)).mul (cos (((Double.ofInt 2).mul pi).mul normalised)))).add
        ((literal (8 / 100)).mul (cos (((Double.ofInt 4).mul pi).mul normalised)))
    sinc.mul window

variable (resampler : SincResampler)

/-- A frame of the window, unless it lies outside of what there is. -/
def frameAt (index : ℤ) : Option StereoFrame :=
  if index < resampler.origin ∨ resampler.received ≤ index then none
  else some (resampler.history.getD (index - resampler.origin).toNat (0, 0))

/-- The frames of the window, weighted and summed. -/
def windowSum (centre : ℤ) (fraction : Double) : StereoFrame :=
  (List.range 32).foldl
    (fun (sum : StereoFrame) (i : ℕ) =>
      let tap : ℤ := i - taps + 1
      match resampler.frameAt (centre + tap) with
      | none => sum
      | some frame =>
        let weight := windowedSinc sin cos ((Double.ofInt tap).sub fraction) resampler.cutoff
        (sum.1.add (weight.mul frame.1), sum.2.add (weight.mul frame.2)))
    (0, 0)

/-- The output at the read position. -/
def output (centre : ℤ) : StereoFrame :=
  let fraction := resampler.position.sub (Double.ofInt centre)
  let sum := resampler.windowSum sin cos centre fraction
  ((sum.1.mul resampler.cutoff).toFloat, (sum.2.mul resampler.cutoff).toFloat)

/-- The read position moves on. -/
def advance : SincResampler :=
  { resampler with position := resampler.position.add resampler.ratio }

/-- Outputs as long as their window is there.  There is no result when the loop does not end, or
when the position leaves the integers. -/
def produce : ℕ → SincResampler → Option (List StereoFrame × SincResampler)
  | 0, _ => none
  | fuel + 1, resampler => do
    let centre ← resampler.position.floorInt
    if resampler.received ≤ centre + taps then some ([], resampler)
    else
      let (out, after) ← produce fuel resampler.advance
      some (resampler.output sin cos centre :: out, after)

/-- A block goes behind the history. -/
def receive (block : List StereoFrame) : SincResampler :=
  { resampler with
    history := resampler.history ++ block
    received := resampler.received + block.length }

/-- The history from the next window on; there is no result when more than it has is erased. -/
def trim : Option SincResampler := do
  let centre ← resampler.position.floorInt
  let keepFrom := centre - taps
  if keepFrom ≤ resampler.origin + slack then some resampler
  else
    let drop := (keepFrom - resampler.origin).toNat
    if resampler.history.length < drop then none
    else some { resampler with history := resampler.history.drop drop, origin := keepFrom }

def process (fuel : ℕ) (block : List StereoFrame) : Option (List StereoFrame × SincResampler) :=
  if block.isEmpty then some ([], resampler)
  else if resampler.bypassed then some (block, resampler)
  else do
    let (out, resampler) ← produce sin cos fuel (resampler.receive block)
    let resampler ← resampler.trim
    some (out, resampler)

def silence : List StereoFrame := List.replicate 17 (0, 0)

/-- Silence, so that the last frames come out. -/
def flush (fuel : ℕ) : Option (List StereoFrame × SincResampler) :=
  if resampler.bypassed then some ([], resampler)
  else resampler.process sin cos fuel silence

/-- Blocks one after the other, with all that comes out. -/
def stream (fuel : ℕ) (resampler : SincResampler) :
    List (List StereoFrame) → Option (List StereoFrame × SincResampler)
  | [] => some ([], resampler)
  | block :: blocks => do
    let (out, resampler) ← resampler.process sin cos fuel block
    let (outs, resampler) ← stream fuel resampler blocks
    some (out ++ outs, resampler)

end Filter

/-! ### The read position -/

section Position

variable (resampler : SincResampler)

/-- The read position after some outputs. -/
def positionAt (k : ℕ) : Double := (fun position => position.add resampler.ratio)^[k] 0

theorem positionAt_zero : resampler.positionAt 0 = .finite 0 := rfl

theorem positionAt_succ (k : ℕ) :
    resampler.positionAt (k + 1) = (resampler.positionAt k).add resampler.ratio :=
  Function.iterate_succ_apply' _ _ _

variable {resampler}

theorem ofRat_eq_finite_iff {q p : ℚ} (h : BinaryFormat.double.ofRat q = .finite p) :
    p = BinaryFormat.double.round q := by
  rw [BinaryFormat.ofRat] at h
  split_ifs at h
  exact (Double.finite.inj h).symm

theorem ratio_ofRates {inputRate outputRate : Double}
    (hconverts : (ofRates inputRate outputRate).bypassed = false) :
    Double.lt 0 inputRate = true ∧ Double.lt 0 outputRate = true ∧
      (ofRates inputRate outputRate).ratio = inputRate.div outputRate := by
  rw [ofRates] at hconverts ⊢
  by_cases hrates : (!Double.lt 0 inputRate || !Double.lt 0 outputRate) = true
  · rw [if_pos hrates] at hconverts
    exact absurd hconverts (by decide)
  rw [if_neg hrates] at hconverts ⊢
  by_cases hsame :
      (inputRate.sub outputRate).abs.lt (BinaryFormat.double.ofRat (1 / 10 ^ 9)) = true
  · rw [if_pos hsame] at hconverts
    exact absurd hconverts (by decide)
  rw [if_neg hsame]
  simp only [Bool.or_eq_true, Bool.not_eq_true', not_or, Bool.not_eq_false] at hrates
  exact ⟨hrates.1, hrates.2, rfl⟩

/-- A quotient of positive values is not negative. -/
theorem div_nonneg {a b : Double} (ha : Double.lt 0 a = true) (hb : Double.lt 0 b = true) {q : ℚ}
    (hdiv : a.div b = .finite q) : 0 ≤ q := by
  cases a with
  | finite a =>
    have ha : 0 < a := of_decide_eq_true ha
    cases b with
    | finite b =>
      have hb : 0 < b := of_decide_eq_true hb
      rw [Double.div, if_neg hb.ne'] at hdiv
      rw [ofRat_eq_finite_iff hdiv]
      exact BinaryFormat.le_round (by decide) BinaryFormat.representable_zero le_rfl
        (div_pos ha hb).le
    | infinite _ => exact (Double.finite.inj hdiv).le
    | nan => cases hdiv
  | infinite | nan => cases b <;> cases hdiv

variable (hratio : ∀ q, resampler.ratio = .finite q → 0 ≤ q)

include hratio

/-- A position that is finite is a value that the one before it does not exceed. -/
theorem le_of_positionAt_succ {k : ℕ} {p : ℚ} (hp : resampler.positionAt (k + 1) = .finite p)
    (hvalue : ∀ q, resampler.positionAt k = .finite q →
      BinaryFormat.double.Representable q ∧ 0 ≤ q) :
    ∃ q, resampler.positionAt k = .finite q ∧ q ≤ p := by
  rw [positionAt_succ] at hp
  cases hq : resampler.positionAt k with
  | finite q =>
    obtain ⟨hrep, hq0⟩ := hvalue q hq
    rw [hq] at hp
    cases hr : resampler.ratio with
    | finite r =>
      rw [hr] at hp
      refine ⟨q, rfl, ?_⟩
      rw [ofRat_eq_finite_iff hp]
      exact BinaryFormat.le_round (by decide) hrep hq0 (le_add_of_nonneg_right (hratio r hr))
    | infinite | nan => rw [hr] at hp; cases hp
  | infinite s =>
    rw [hq] at hp
    cases hr : resampler.ratio with
    | finite | nan => rw [hr] at hp; cases hp
    | infinite t =>
      rw [hr, Double.add] at hp
      split_ifs at hp
  | nan => rw [hq] at hp; cases hp

theorem positionAt_value {k : ℕ} {p : ℚ} (hp : resampler.positionAt k = .finite p) :
    BinaryFormat.double.Representable p ∧ 0 ≤ p := by
  induction k generalizing p with
  | zero =>
    rw [positionAt_zero] at hp
    rw [← Double.finite.inj hp]
    exact ⟨BinaryFormat.representable_zero, le_rfl⟩
  | succ k ih =>
    obtain ⟨q, hq, hle⟩ := le_of_positionAt_succ hratio hp fun q => ih
    refine ⟨?_, (ih hq).2.trans hle⟩
    rw [positionAt_succ, hq] at hp
    cases hr : resampler.ratio with
    | finite r =>
      rw [hr] at hp
      rw [ofRat_eq_finite_iff hp]
      exact BinaryFormat.representable_round
    | infinite | nan => rw [hr] at hp; cases hp

/-- The read position does not go back. -/
theorem le_of_floorInt {j k : ℕ} (hjk : j ≤ k) {a b : ℤ}
    (ha : (resampler.positionAt j).floorInt = some a)
    (hb : (resampler.positionAt k).floorInt = some b) : a ≤ b := by
  obtain ⟨p, hp, rfl⟩ := Double.floorInt_eq_some ha
  obtain ⟨q, hq, rfl⟩ := Double.floorInt_eq_some hb
  refine Int.floor_mono ?_
  clear ha hb
  induction k, hjk using Nat.le_induction generalizing q with
  | base => exact (Double.finite.inj (hp.symm.trans hq)).le
  | succ k _ ih =>
    obtain ⟨r, hr, hle⟩ := le_of_positionAt_succ hratio hq fun q => positionAt_value hratio
    exact (ih r hr).trans hle

end Position

/-! ### States of a stream -/

section States

variable (sin cos : Double → Double) (resampler : SincResampler) (signal : List StereoFrame)

/-- The resampler once it has `received` frames of a signal, with those from `origin` on. -/
def stateAt (origin received k : ℕ) : SincResampler :=
  { resampler with
    history := (signal.take received).drop origin
    origin := origin
    received := received
    position := resampler.positionAt k }

/-- The outputs, with the whole signal for a history. -/
def wholeOutput (centre : ℕ → ℤ) (k : ℕ) : StereoFrame :=
  (stateAt resampler signal 0 signal.length k).output sin cos (centre k)

variable {sin cos resampler signal} {origin received k fuel : ℕ} {centre : ℕ → ℤ}

@[simp] theorem history_stateAt : (stateAt resampler signal origin received k).history =
    (signal.take received).drop origin := rfl

@[simp] theorem origin_stateAt :
    (stateAt resampler signal origin received k).origin = origin := rfl

@[simp] theorem received_stateAt :
    (stateAt resampler signal origin received k).received = received := rfl

@[simp] theorem position_stateAt :
    (stateAt resampler signal origin received k).position = resampler.positionAt k := rfl

@[simp] theorem bypassed_stateAt :
    (stateAt resampler signal origin received k).bypassed = resampler.bypassed := rfl

theorem advance_stateAt : (stateAt resampler signal origin received k).advance =
    stateAt resampler signal origin received (k + 1) := by
  rw [advance, stateAt, stateAt, positionAt_succ]

/-- The window begins behind the origin, or where the signal does. -/
theorem frameAt_stateAt (hreceived : received ≤ signal.length)
    (horigin : origin = 0 ∨ (origin : ℤ) + 16 ≤ centre k) {index : ℤ}
    (hlow : centre k - 16 < index) (hhigh : index < received) :
    (stateAt resampler signal origin received k).frameAt index =
      (stateAt resampler signal 0 signal.length k).frameAt index := by
  rw [frameAt, frameAt]
  by_cases hbefore : index < 0
  · rw [if_pos (.inl (by rw [origin_stateAt]; omega)),
      if_pos (.inl (by rw [origin_stateAt]; omega))]
  · rw [if_neg (by rw [origin_stateAt, received_stateAt]; omega),
      if_neg (by rw [origin_stateAt, received_stateAt]; omega), origin_stateAt, origin_stateAt,
      history_stateAt, history_stateAt, Nat.cast_zero, sub_zero, List.drop_zero, List.take_length,
      List.getD_eq_getElem?_getD, List.getD_eq_getElem?_getD, List.getElem?_drop,
      List.getElem?_take_of_lt (by omega)]
    congr 3
    omega

/-- A history that is cut behind the window gives the same output. -/
theorem output_stateAt (hreceived : received ≤ signal.length)
    (horigin : origin = 0 ∨ (origin : ℤ) + 16 ≤ centre k) (hwindow : centre k + 16 < received) :
    (stateAt resampler signal origin received k).output sin cos (centre k) =
      wholeOutput sin cos resampler signal centre k := by
  have hsum (fraction : Double) :
      (stateAt resampler signal origin received k).windowSum sin cos (centre k) fraction =
        (stateAt resampler signal 0 signal.length k).windowSum sin cos (centre k) fraction := by
    refine List.foldl_ext _ _ _ fun sum i hi => ?_
    have hi := List.mem_range.1 hi
    have hframe : (stateAt resampler signal origin received k).frameAt
          (centre k + (i - taps + 1)) =
        (stateAt resampler signal 0 signal.length k).frameAt (centre k + (i - taps + 1)) :=
      frameAt_stateAt hreceived horigin (by rw [taps]; omega) (by rw [taps]; omega)
    dsimp only
    rw [hframe]
    rfl
  rw [wholeOutput, output, hsum]
  rfl

theorem produce_stateAt {count : ℕ} (hfuel : count < fuel)
    (hbefore : ∀ j < count, (resampler.positionAt (k + j)).floorInt = some (centre (k + j)) ∧
      centre (k + j) + 16 < received)
    (hlast : (resampler.positionAt (k + count)).floorInt = some (centre (k + count)))
    (hstop : (received : ℤ) ≤ centre (k + count) + 16) :
    produce sin cos fuel (stateAt resampler signal origin received k) =
      some ((List.range count).map fun j =>
          (stateAt resampler signal origin received (k + j)).output sin cos (centre (k + j)),
        stateAt resampler signal origin received (k + count)) := by
  induction count generalizing k fuel with
  | zero =>
    obtain ⟨fuel, rfl⟩ := Nat.exists_eq_add_one.2 hfuel
    have hposition : (stateAt resampler signal origin received k).position.floorInt =
        some (centre k) := hlast
    rw [produce, hposition]
    exact if_pos hstop
  | succ count ih =>
    obtain ⟨fuel, rfl⟩ := Nat.exists_eq_add_one.2 (Nat.zero_lt_of_lt hfuel)
    obtain ⟨hfloor, hwindow⟩ := hbefore 0 (Nat.succ_pos _)
    have hposition : (stateAt resampler signal origin received k).position.floorInt =
        some (centre k) := hfloor
    have hindex (j : ℕ) : k + (j + 1) = k + 1 + j := by omega
    rw [hindex] at hlast hstop
    have hrest := ih (Nat.lt_of_succ_lt_succ hfuel)
      (fun j hj => hindex j ▸ hbefore (j + 1) (by omega)) hlast hstop
    rw [produce, hposition, Option.bind_eq_bind, Option.bind_some,
      if_neg (by rw [received_stateAt, taps]; exact not_le.2 hwindow)]
    rw [advance_stateAt, hrest, List.range_succ_eq_map, List.map_cons, List.map_map]
    refine congrArg some (Prod.ext ?_ (hindex count ▸ rfl))
    refine congrArg (_ :: ·) (List.map_congr_left fun j _ => ?_)
    rw [Function.comp_apply, Nat.succ_eq_add_one, hindex j]

/-- When it returns, it has stopped at the first window that is not there. -/
theorem of_produce_stateAt {out : List StereoFrame} {after : SincResampler}
    (h : produce sin cos fuel (stateAt resampler signal origin received k) = some (out, after)) :
    ∃ count, after = stateAt resampler signal origin received (k + count) ∧
      (∀ j < count, ∃ c, (resampler.positionAt (k + j)).floorInt = some c ∧ c + 16 < received) ∧
      ∃ c, (resampler.positionAt (k + count)).floorInt = some c ∧ (received : ℤ) ≤ c + 16 := by
  induction fuel generalizing k out with
  | zero => cases h
  | succ fuel ih =>
    rw [produce, position_stateAt] at h
    obtain ⟨c, hc, h⟩ := Option.bind_eq_some_iff.1 h
    split_ifs at h with hstop
    · obtain ⟨-, rfl⟩ := Prod.mk.inj (Option.some.inj h)
      exact ⟨0, rfl, fun j hj => absurd hj (Nat.not_lt_zero j), c, hc, hstop⟩
    · obtain ⟨⟨out, after⟩, hrest, hafter⟩ := Option.bind_eq_some_iff.1 h
      rw [advance_stateAt] at hrest
      obtain ⟨-, rfl⟩ := Prod.mk.inj (Option.some.inj hafter)
      obtain ⟨count, hstate, hbefore, hlast⟩ := ih hrest
      have hindex (j : ℕ) : k + (j + 1) = k + 1 + j := by omega
      refine ⟨count + 1, hindex count ▸ hstate, fun j hj => ?_, hindex count ▸ hlast⟩
      cases j with
      | zero => exact ⟨c, hc, not_le.1 hstop⟩
      | succ j => exact hindex j ▸ hbefore j (Nat.lt_of_succ_lt_succ hj)

theorem receive_stateAt {block : List StereoFrame} (hreceived : origin ≤ received)
    (hlength : received ≤ signal.length)
    (hblock : signal.take (received + block.length) = signal.take received ++ block) :
    (stateAt resampler signal origin received k).receive block =
      stateAt resampler signal origin (received + block.length) k := by
  have hhistory : (signal.take received).drop origin ++ block =
      (signal.take (received + block.length)).drop origin := by
    rw [hblock, List.drop_append_of_le_length (by rw [List.length_take]; omega)]
  rw [receive, history_stateAt, hhistory, stateAt, stateAt, Nat.cast_add]

theorem length_history (hlength : received ≤ signal.length) :
    (stateAt resampler signal origin received k).history.length = received - origin := by
  rw [history_stateAt, List.length_drop, List.length_take, Nat.min_eq_left hlength]

section Trim

variable {c : ℤ} (hfloor : (resampler.positionAt k).floorInt = some c)

include hfloor

theorem trim_of_le (h : c - 16 ≤ origin + 4096) :
    (stateAt resampler signal origin received k).trim =
      some (stateAt resampler signal origin received k) := by
  rw [trim, position_stateAt, hfloor, Option.bind_eq_bind, Option.bind_some]
  exact if_pos h

theorem trim_of_lt (hlength : received ≤ signal.length) (h : (origin : ℤ) + 4096 < c - 16) :
    (stateAt resampler signal origin received k).trim =
      if (received : ℤ) < c - 16 then none
      else some (stateAt resampler signal (c - 16).toNat received k) := by
  rw [trim, position_stateAt, hfloor, Option.bind_eq_bind, Option.bind_some,
    if_neg (by rw [origin_stateAt]; exact not_le.2 h), length_history hlength, origin_stateAt, taps]
  by_cases hover : (received : ℤ) < c - 16
  · rw [if_pos (by omega), if_pos hover]
  · have hcast : ((c - 16).toNat : ℤ) = c - 16 := Int.toNat_of_nonneg (by omega)
    have hdrop : origin + (c - 16 - origin).toNat = (c - 16).toNat := by omega
    rw [if_neg (by omega), if_neg hover, history_stateAt, List.drop_drop, hdrop, stateAt, stateAt,
      hcast]

end Trim

/-- The read position gets to the end of a signal, and does not jump over what is there. -/
structure Reaches (resampler : SincResampler) (length m : ℕ) (centre : ℕ → ℤ) : Prop where
  floorInt_eq : ∀ k ≤ m, (resampler.positionAt k).floorInt = some (centre k)
  window_lt : ∀ k < m, centre k + 16 < length
  length_le : (length : ℤ) ≤ centre m + 16
  step_le : ∀ k < m, 4112 < centre (k + 1) → centre (k + 1) ≤ centre k + 33

/-- As far as a signal was received, `k` outputs came out, and what the next needs is there. -/
structure Waits (m : ℕ) (centre : ℕ → ℤ) (origin received k : ℕ) : Prop where
  le : k ≤ m
  window_lt : ∀ j < k, centre j + 16 < received
  received_le : (received : ℤ) ≤ centre k + 16
  origin_le : origin ≤ received
  origin_window : origin = 0 ∨ (origin : ℤ) + 16 ≤ centre k

section Reaches

variable {m : ℕ} (hreaches : Reaches resampler signal.length m centre)

include hreaches

/-- The history is cut within what there is, and in front of the next window. -/
theorem Reaches.trim_stateAt (hlength : received ≤ signal.length)
    (hwaits : Waits m centre origin received k) : ∃ origin',
      (stateAt resampler signal origin received k).trim =
        some (stateAt resampler signal origin' received k) ∧ Waits m centre origin' received k := by
  have hfloor := hreaches.floorInt_eq k hwaits.le
  by_cases hcut : centre k - 16 ≤ origin + 4096
  · exact ⟨origin, trim_of_le hfloor hcut, hwaits⟩
  have hcut := not_le.1 hcut
  have hthere : centre k - 16 ≤ received := by
    cases k with
    | zero =>
      have hzero := hfloor
      rw [positionAt_zero] at hzero
      obtain ⟨q, hq, hcentre⟩ := Double.floorInt_eq_some hzero
      rw [← Double.finite.inj hq, Int.floor_zero] at hcentre
      omega
    | succ k =>
      have hle := hwaits.le
      have hstep := hreaches.step_le k (by omega) (by omega)
      have hwindow := hwaits.window_lt k (by omega)
      omega
  refine ⟨(centre k - 16).toNat, ?_, { hwaits with origin_le := ?_, origin_window := ?_ }⟩
  · rw [trim_of_lt hfloor hlength hcut, if_neg (not_lt.2 hthere)]
  · omega
  · exact .inr (by omega)

/-- The first window from some output on that is not there yet. -/
theorem Reaches.exists_first {k n : ℕ} (hk : k ≤ m) (hn : n ≤ signal.length) :
    ∃ count, k + count ≤ m ∧ (∀ j < count, centre (k + j) + 16 < n) ∧
      (n : ℤ) ≤ centre (k + count) + 16 := by
  have hlast : (n : ℤ) ≤ centre (k + (m - k)) + 16 := by
    have := hreaches.length_le
    rw [Nat.add_sub_cancel' hk]
    omega
  have hfind : ∃ count, (n : ℤ) ≤ centre (k + count) + 16 := ⟨m - k, hlast⟩
  have hmin : Nat.find hfind ≤ m - k := Nat.find_min' hfind hlast
  exact ⟨Nat.find hfind, by omega, fun j hj => not_le.1 (Nat.find_min hfind hj),
    Nat.find_spec hfind⟩

variable (hratio : ∀ q, resampler.ratio = .finite q → 0 ≤ q)

include hratio

theorem Reaches.mono {j k : ℕ} (hjk : j ≤ k) (hk : k ≤ m) : centre j ≤ centre k :=
  le_of_floorInt hratio hjk (hreaches.floorInt_eq j (hjk.trans hk)) (hreaches.floorInt_eq k hk)

/-- A block gives the outputs whose window is there with it. -/
theorem Reaches.process_stateAt (hconverts : resampler.bypassed = false) {block : List StereoFrame}
    (hwaits : Waits m centre origin received k)
    (hlength : received + block.length ≤ signal.length)
    (hblock : signal.take (received + block.length) = signal.take received ++ block) :
    ∃ origin' count, Waits m centre origin' (received + block.length) (k + count) ∧
      (stateAt resampler signal origin received k).process sin cos (m + 1) block =
        some ((List.range count).map fun j => wholeOutput sin cos resampler signal centre (k + j),
          stateAt resampler signal origin' (received + block.length) (k + count)) := by
  cases hempty : block.isEmpty with
  | true =>
    refine ⟨origin, 0, ?_, ?_⟩
    · rw [List.isEmpty_iff.1 hempty]
      exact hwaits
    · rw [process, if_pos hempty, List.isEmpty_iff.1 hempty]
      rfl
  | false =>
    obtain ⟨count, hle, hbefore, hspec⟩ := hreaches.exists_first hwaits.le hlength
    have horigin (j : ℕ) (hj : k + j ≤ m) : origin = 0 ∨ (origin : ℤ) + 16 ≤ centre (k + j) :=
      hwaits.origin_window.imp_right fun h =>
        h.trans (hreaches.mono hratio (Nat.le_add_right k j) hj)
    have hnext : Waits m centre origin (received + block.length) (k + count) := by
      refine ⟨hle, fun j hj => ?_, hspec, by have := hwaits.origin_le; omega, horigin count hle⟩
      by_cases hjk : j < k
      · have := hwaits.window_lt j hjk
        omega
      · have := hbefore (j - k) (by omega)
        rwa [Nat.add_sub_cancel' (not_lt.1 hjk)] at this
    have hproduce : produce sin cos (m + 1)
        (stateAt resampler signal origin (received + block.length) k) = _ :=
      produce_stateAt (by omega)
        (fun j hj => ⟨hreaches.floorInt_eq (k + j) (by omega), hbefore j hj⟩)
        (hreaches.floorInt_eq _ hle) hspec
    obtain ⟨origin', htrim, hwaits'⟩ := hreaches.trim_stateAt hlength hnext
    refine ⟨origin', count, hwaits', ?_⟩
    have houtputs : ((List.range count).map fun j =>
        (stateAt resampler signal origin (received + block.length) (k + j)).output sin cos
          (centre (k + j))) =
        (List.range count).map fun j => wholeOutput sin cos resampler signal centre (k + j) := by
      refine List.map_congr_left fun j hj => ?_
      have hj := List.mem_range.1 hj
      exact output_stateAt hlength (horigin j (by omega)) (hbefore j hj)
    rw [process, if_neg (by rw [hempty]; exact Bool.false_ne_true), bypassed_stateAt, hconverts,
      if_neg Bool.false_ne_true, receive_stateAt hwaits.origin_le (by omega) hblock, hproduce,
      Option.bind_eq_bind, Option.bind_some, houtputs]
    dsimp only
    rw [htrim]
    rfl

/-- Whatever the blocks are, the outputs are those of the whole signal. -/
theorem Reaches.stream_stateAt (hconverts : resampler.bypassed = false)
    {blocks : List (List StereoFrame)} (hwaits : Waits m centre origin received k)
    (hlength : received ≤ signal.length) (hblocks : blocks.flatten = signal.drop received) :
    ∃ after, stream sin cos (m + 1) (stateAt resampler signal origin received k) blocks =
      some ((List.range' k (m - k)).map (wholeOutput sin cos resampler signal centre), after) := by
  induction blocks generalizing origin received k with
  | nil =>
    have hend : signal.length ≤ received := List.drop_eq_nil_iff.1 hblocks.symm
    -- all is received, and then the last output came out
    have hk : k = m := by
      refine le_antisymm hwaits.le (not_lt.1 fun hlt => ?_)
      have hwindow := hreaches.window_lt k hlt
      have hreceived := hwaits.received_le
      omega
    rw [hk, Nat.sub_self]
    exact ⟨_, rfl⟩
  | cons block blocks ih =>
    have hsplit : signal.drop received = block ++ blocks.flatten := by
      rw [← hblocks, List.flatten_cons]
    have hfits : received + block.length ≤ signal.length := by
      have := congrArg List.length hsplit
      rw [List.length_drop, List.length_append] at this
      omega
    have htake : signal.take (received + block.length) = signal.take received ++ block := by
      rw [List.take_add, hsplit, List.take_left' rfl]
    have hrest : blocks.flatten = signal.drop (received + block.length) := by
      rw [← List.drop_drop, hsplit, List.drop_left' rfl]
    obtain ⟨origin', count, hwaits', hprocess⟩ :=
      hreaches.process_stateAt hratio hconverts hwaits hfits htake
    obtain ⟨after, hafter⟩ := ih hwaits' hfits hrest
    refine ⟨after, ?_⟩
    have hle := hwaits'.le
    have hfirst : (List.range' k count).map (wholeOutput sin cos resampler signal centre) =
        (List.range count).map fun j => wholeOutput sin cos resampler signal centre (k + j) := by
      rw [List.range'_eq_map_range, List.map_map]
      rfl
    rw [stream, hprocess, Option.bind_eq_bind, Option.bind_some]
    dsimp only
    rw [hafter, Option.bind_some, show m - k = count + (m - (k + count)) by omega,
      ← List.range'_append_1, List.map_append, hfirst]

end Reaches

/-! ### Independence of the blocks -/

/-- Every signal in every blocks gives one output. -/
def Streams (sin cos : Double → Double) (resampler : SincResampler)
    (signal : List StereoFrame) : Prop :=
  ∃ out, ∀ blocks : List (List StereoFrame), blocks.flatten = signal →
    ∃ fuel after, stream sin cos fuel resampler blocks = some (out, after)

theorem stateAt_ofRates (inputRate outputRate : Double) :
    stateAt (ofRates inputRate outputRate) signal 0 0 0 = ofRates inputRate outputRate := by
  rw [stateAt, ofRates]
  split_ifs <;> rfl

theorem streams_of_bypassed (hbypassed : resampler.bypassed = true) :
    Streams sin cos resampler signal := by
  refine ⟨signal, fun blocks hblocks => ⟨0, resampler, ?_⟩⟩
  subst hblocks
  induction blocks with
  | nil => rfl
  | cons block blocks ih =>
    have hprocess : resampler.process sin cos 0 block = some (block, resampler) := by
      rw [process]
      cases hempty : block.isEmpty with
      | true => rw [if_pos rfl, List.isEmpty_iff.1 hempty]
      | false => rw [if_neg Bool.false_ne_true, if_pos hbypassed]
    rw [stream, hprocess, Option.bind_eq_bind, Option.bind_some]
    dsimp only
    rw [ih]
    rfl

/-- A first block that ends somewhere is processed up to a window that is not there yet, and that
begins within what is. -/
theorem of_streams (hconverts : resampler.bypassed = false)
    (hstart : stateAt resampler signal 0 0 0 = resampler)
    (h : Streams sin cos resampler signal) {n : ℕ} (hpos : 0 < n) (hn : n ≤ signal.length) :
    ∃ count, (∀ j < count, ∃ c, (resampler.positionAt j).floorInt = some c ∧ c + 16 < n) ∧
      ∃ c, (resampler.positionAt count).floorInt = some c ∧ (n : ℤ) ≤ c + 16 ∧
        (4096 < c - 16 → c - 16 ≤ n) := by
  obtain ⟨out, hout⟩ := h
  obtain ⟨fuel, after, hstream⟩ := hout [signal.take n, signal.drop n] (by simp)
  have hlength : (signal.take n).length = n := by
    rw [List.length_take, Nat.min_eq_left hn]
  have hreceive : resampler.receive (signal.take n) = stateAt resampler signal 0 n 0 := by
    have hfirst : (stateAt resampler signal 0 0 0).receive (signal.take n) =
        stateAt resampler signal 0 (0 + (signal.take n).length) 0 :=
      receive_stateAt le_rfl (Nat.zero_le _) (by simp [hlength])
    rwa [hstart, hlength, Nat.zero_add] at hfirst
  have hempty : (signal.take n).isEmpty = false := by
    rw [List.isEmpty_eq_false_iff, ← List.length_pos_iff, hlength]
    exact hpos
  rw [stream] at hstream
  obtain ⟨⟨_, _⟩, hprocess, -⟩ := Option.bind_eq_some_iff.1 hstream
  rw [process, hempty, if_neg Bool.false_ne_true, hconverts, if_neg Bool.false_ne_true,
    hreceive] at hprocess
  obtain ⟨⟨out', after'⟩, hproduce, hrest⟩ := Option.bind_eq_some_iff.1 hprocess
  obtain ⟨trimmed, htrim, -⟩ := Option.bind_eq_some_iff.1 hrest
  obtain ⟨count, rfl, hbefore, c, hc, hstop⟩ := of_produce_stateAt hproduce
  rw [Nat.zero_add] at hc htrim
  refine ⟨count, fun j hj => ?_, c, hc, hstop, fun hcut => not_lt.1 fun hover => ?_⟩
  · have := hbefore j hj
    rwa [Nat.zero_add] at this
  · rw [trim_of_lt hc hn (by rw [Nat.cast_zero]; omega), if_pos hover] at htrim
    cases htrim

theorem floorInt_positionAt_zero : (resampler.positionAt 0).floorInt = some 0 := by
  rw [positionAt_zero]
  rfl

theorem reaches_of_streams (hconverts : resampler.bypassed = false)
    (hratio : ∀ q, resampler.ratio = .finite q → 0 ≤ q)
    (hstart : stateAt resampler signal 0 0 0 = resampler)
    (h : Streams sin cos resampler signal) :
    ∃ m centre, Reaches resampler signal.length m centre := by
  by_cases hempty : signal.length = 0
  · exact ⟨0, fun _ => 0, fun k hk => Nat.le_zero.1 hk ▸ floorInt_positionAt_zero,
      fun k hk => absurd hk k.not_lt_zero, by omega, fun k hk => absurd hk k.not_lt_zero⟩
  obtain ⟨m, hbefore, c, hc, hstop, -⟩ :=
    of_streams hconverts hstart h (Nat.pos_of_ne_zero hempty) le_rfl
  obtain ⟨centre, hcentre⟩ : ∃ centre : ℕ → ℤ, ∀ k b,
      (resampler.positionAt k).floorInt = some b → centre k = b :=
    ⟨fun k => (resampler.positionAt k).floorInt.getD 0, fun k b hb => by dsimp only; rw [hb]; rfl⟩
  have hfloor : ∀ k ≤ m, (resampler.positionAt k).floorInt = some (centre k) := by
    intro k hk
    rcases hk.lt_or_eq with hlt | rfl
    · obtain ⟨b, hb, -⟩ := hbefore k hlt
      rw [hcentre k b hb, hb]
    · rw [hcentre k c hc, hc]
  have hwindow : ∀ k < m, centre k + 16 < signal.length := by
    intro k hk
    obtain ⟨b, hb, hlt⟩ := hbefore k hk
    rwa [hcentre k b hb]
  have hmono {j k : ℕ} (hjk : j ≤ k) (hk : k ≤ m) : centre j ≤ centre k :=
    le_of_floorInt hratio hjk (hfloor j (hjk.trans hk)) (hfloor k hk)
  refine ⟨m, centre, hfloor, hwindow, hcentre m c hc ▸ hstop, fun k hk hfar => ?_⟩
  -- a block that ends with the window of output `k` makes the position jump
  by_contra hjump
  have hzero := hcentre 0 0 floorInt_positionAt_zero
  have hnonneg := hmono (Nat.zero_le k) hk.le
  have hlast := hwindow k hk
  obtain ⟨count, hbefore, b, hb, hstop, hthere⟩ :=
    of_streams hconverts hstart h (n := (centre k + 17).toNat) (by omega) (by omega)
  have hcount : count = k + 1 := by
    refine le_antisymm (not_lt.1 fun hlt => ?_) (Nat.succ_le_of_lt (not_le.1 fun hle => ?_))
    · obtain ⟨d, hd, hwindow⟩ := hbefore (k + 1) hlt
      have := hcentre (k + 1) d hd
      omega
    · have := hcentre count b hb
      have := hmono hle hk.le
      omega
  subst hcount
  have := hcentre (k + 1) b hb
  omega

theorem Reaches.streams {m : ℕ} (hreaches : Reaches resampler signal.length m centre)
    (hconverts : resampler.bypassed = false)
    (hratio : ∀ q, resampler.ratio = .finite q → 0 ≤ q)
    (hstart : stateAt resampler signal 0 0 0 = resampler) : Streams sin cos resampler signal := by
  refine ⟨(List.range' 0 (m - 0)).map (wholeOutput sin cos resampler signal centre),
    fun blocks hblocks => ⟨m + 1, ?_⟩⟩
  have hcentre : centre 0 = 0 := Option.some.inj
    ((hreaches.floorInt_eq 0 (Nat.zero_le m)).symm.trans floorInt_positionAt_zero)
  have hwaits : Waits m centre 0 0 0 :=
    ⟨Nat.zero_le m, fun j hj => absurd hj j.not_lt_zero, by rw [hcentre]; decide, le_rfl, .inl rfl⟩
  obtain ⟨after, hafter⟩ := hreaches.stream_stateAt hratio hconverts hwaits (Nat.zero_le _)
    (by rw [List.drop_zero]; exact hblocks)
  exact ⟨after, hstart ▸ hafter⟩

end States

variable (sin cos : Double → Double) (inputRate outputRate : Double) (signal : List StereoFrame)

/-- The output is that of the whole signal, whatever the blocks are, exactly when nothing is
converted or the read position reaches the end of the signal. -/
theorem streams_iff : Streams sin cos (ofRates inputRate outputRate) signal ↔
    (ofRates inputRate outputRate).bypassed = true ∨
      ∃ m centre, Reaches (ofRates inputRate outputRate) signal.length m centre := by
  have hstart := @stateAt_ofRates signal inputRate outputRate
  cases hconverts : (ofRates inputRate outputRate).bypassed with
  | true => exact iff_of_true (streams_of_bypassed hconverts) (.inl rfl)
  | false =>
    obtain ⟨hin, hout, hdiv⟩ := ratio_ofRates hconverts
    have hratio : ∀ q, (ofRates inputRate outputRate).ratio = .finite q → 0 ≤ q :=
      fun q hq => div_nonneg hin hout (hdiv ▸ hq)
    constructor
    · exact fun h => .inr (reaches_of_streams hconverts hratio hstart h)
    · rintro (h | ⟨m, centre, hreaches⟩)
      · cases h
      · exact hreaches.streams hconverts hratio hstart

/-! ### The end of a stream -/

section Flush

variable {sin cos : Double → Double} {resampler after : SincResampler} {fuel : ℕ}
  {block out : List StereoFrame}

end Flush

/-! ### A jump -/

theorem positionAt_48 {k : ℕ} (hk : k < 2 ^ 40) :
    (ofRates (.finite 48000) (.finite 1000)).positionAt k = .finite ((48 * k : ℤ) : ℚ) := by
  have hratio : (ofRates (.finite 48000) (.finite 1000)).ratio = .finite 48 := by decide +kernel
  induction k with
  | zero => rfl
  | succ k ih =>
    have hcast : ((48 * k : ℤ) : ℚ) + 48 = ((48 * (k + 1 : ℕ) : ℤ) : ℚ) := by
      push_cast
      ring
    have hbound : |((48 * (k + 1 : ℕ) : ℤ) : ℚ)| < 2 ^ 53 := by
      rw [abs_of_nonneg (by positivity)]
      have : (48 * (k + 1 : ℕ) : ℤ) < 2 ^ 53 := by omega
      exact_mod_cast this
    have hoverflow : (2 : ℚ) ^ 53 < BinaryFormat.double.overflow := by decide +kernel
    rw [positionAt_succ, ih (by omega), hratio, Double.add, hcast,
      BinaryFormat.ofRat_eq_finite (hbound.trans hoverflow),
      BinaryFormat.round_intCast (by decide) hbound]

/-- From 48 kHz to 1 kHz, a block of 4100 frames makes it erase 4112. -/
theorem not_streams_48 :
    ¬Streams (fun _ => 0) (fun _ => 1) (ofRates (.finite 48000) (.finite 1000))
      (List.replicate 4100 (0, 0)) := by
  intro h
  have hconverts : (ofRates (.finite 48000) (.finite 1000)).bypassed = false := by decide +kernel
  have hfloor {k : ℕ} (hk : k < 2 ^ 40) {c : ℤ}
      (hc : ((ofRates (.finite 48000) (.finite 1000)).positionAt k).floorInt = some c) :
      c = 48 * k := by
    rw [positionAt_48 hk] at hc
    obtain ⟨q, hq, hfloor⟩ := Double.floorInt_eq_some hc
    rw [← hfloor, ← Double.finite.inj hq, Int.floor_intCast]
  obtain ⟨count, hbefore, c, hc, hstop, hthere⟩ := of_streams (n := 4100) hconverts
    (stateAt_ofRates _ _) h (by decide) (by rw [List.length_replicate])
  have hlow : count ≤ 86 := by
    by_contra hlt
    obtain ⟨d, hd, hwindow⟩ := hbefore 86 (by omega)
    have := hfloor (by decide) hd
    omega
  have := hfloor (by omega) hc
  omega

end SincResampler

end OneBeat
