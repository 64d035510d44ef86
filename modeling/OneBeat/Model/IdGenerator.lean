import OneBeat.Model.Ids
import Mathlib.Algebra.Order.Ring.Nat
import Mathlib.Data.List.Pairwise
import Mathlib.Order.Fin.Basic
import Mathlib.Tactic.Ring

/-!
# Generating ids

`IdGenerator` of `model/ids.cpp`: 48 bits of time, then 80 random bits that are drawn once for each
millisecond and counted up within it.

* `lastId_lt_nextRaw` : an id comes after the one before it.

**Main theorem** (`generate_increasing`): ids increase strictly as long as the clock does not go back
and the random bits do not run over.
-/

namespace OneBeat

/-- `splitmix64`, from its state. -/
def splitMix (state : BitVec 64) : BitVec 64 :=
  let z := (state ^^^ (state >>> 30)) * 0xBF58476D1CE4E5B9
  let z := (z ^^^ (z >>> 27)) * 0x94D049BB133111EB
  z ^^^ (z >>> 31)

/-- A generator; what was read of the clock last is a time, and a fixed clock does not move. -/
structure IdGenerator where
  rngState : BitVec 64
  fixedNowMs : ℕ := 0
  deterministic : Bool := false
  lastMs : ℕ := 0
  lastRandomHigh : BitVec 16 := 0
  lastRandomLow : BitVec 64 := 0
  hasLast : Bool := false
  lastMs_lt : deterministic = false → lastMs < 2 ^ 48
  lastMs_eq : deterministic = true → hasLast = true → lastMs = fixedNowMs

namespace IdGenerator

/-- A generator on the clock of the system, or on one that stands still. -/
def fresh (seed : BitVec 64) (startUnixMs : ℕ) (deterministic : Bool) : IdGenerator where
  rngState := seed ||| 1
  fixedNowMs := startUnixMs
  deterministic := deterministic
  lastMs_lt := fun _ => by decide
  lastMs_eq := fun _ h => absurd h Bool.false_ne_true

variable (g : IdGenerator)

/-- The clock of the system has counted `count` milliseconds. -/
def nowMilliseconds (count : ℕ) : ℕ := if g.deterministic then g.fixedNowMs else count % 2 ^ 48

/-- The state after one draw. -/
def drawn (state : BitVec 64) : BitVec 64 := state + 0x9E3779B97F4A7C15

/-- The 48 low bits of the time, then the random bits. -/
def packed (ms : ℕ) (high : BitVec 16) (low : BitVec 64) : ℕ :=
  (ms % 2 ^ 48 * 2 ^ 16 + high.toNat) * 2 ^ 64 + low.toNat

theorem packed_lt (ms : ℕ) (high : BitVec 16) (low : BitVec 64) :
    packed ms high low < 2 ^ 128 := by
  have := Nat.mod_lt ms (Nat.two_pow_pos 48)
  have := high.isLt
  have := low.isLt
  rw [packed]
  omega

def pack (ms : ℕ) (high : BitVec 16) (low : BitVec 64) : RawId :=
  ⟨packed ms high low, packed_lt ms high low⟩

theorem pack_lt_iff {ms ms' : ℕ} {high high' : BitVec 16} {low low' : BitVec 64} :
    pack ms high low < pack ms' high' low' ↔ packed ms high low < packed ms' high' low' := Iff.rfl

/-- The next id falls into the millisecond of the last one. -/
def sameMs (count : ℕ) : Bool := g.hasLast && g.nowMilliseconds count = g.lastMs

/-- The generator once it has an id for the time that it reads. -/
def advance (count : ℕ) : IdGenerator :=
  if g.sameMs count then
    { g with
      lastRandomLow := g.lastRandomLow + 1
      lastRandomHigh :=
        if g.lastRandomLow + 1 = 0 then g.lastRandomHigh + 1 else g.lastRandomHigh }
  else
    { g with
      lastMs := g.nowMilliseconds count
      rngState := drawn (drawn g.rngState)
      lastRandomHigh := (splitMix (drawn g.rngState)).setWidth 16
      lastRandomLow := splitMix (drawn (drawn g.rngState))
      hasLast := true
      lastMs_lt := fun h => by
        rw [nowMilliseconds, h]
        exact Nat.mod_lt _ (Nat.two_pow_pos 48)
      lastMs_eq := fun h _ => by rw [nowMilliseconds, if_pos h] }

/-- The id that was returned last. -/
def lastId : RawId := pack g.lastMs g.lastRandomHigh g.lastRandomLow

def nextRaw (count : ℕ) : RawId × IdGenerator :=
  (pack (g.nowMilliseconds count) (g.advance count).lastRandomHigh (g.advance count).lastRandomLow,
    g.advance count)

/-- Ids for what the clock counts, one after the other. -/
def generate (g : IdGenerator) : List ℕ → List RawId
  | [] => []
  | count :: counts => (g.nextRaw count).1 :: (g.nextRaw count).2.generate counts

/-- All 80 random bits are set, and another id of the same millisecond is asked for. -/
def Overflows (count : ℕ) : Prop :=
  g.sameMs count = true ∧ g.lastRandomHigh.toNat = 2 ^ 16 - 1 ∧ g.lastRandomLow.toNat = 2 ^ 64 - 1

/-- The random bits never run over. -/
def Fits (g : IdGenerator) : List ℕ → Prop
  | [] => True
  | count :: counts => ¬g.Overflows count ∧ (g.advance count).Fits counts

/-- The times that are read, after the last one there was. -/
def times (counts : List ℕ) : List ℕ :=
  (if g.hasLast then [g.lastMs] else []) ++ counts.map g.nowMilliseconds

/-- The ids that are returned, after the last one there was. -/
def ids (counts : List ℕ) : List RawId :=
  (if g.hasLast then [g.lastId] else []) ++ g.generate counts

/-! ### One id -/

variable {g} {count : ℕ}

theorem sameMs_iff : g.sameMs count = true ↔
    g.hasLast = true ∧ g.nowMilliseconds count = g.lastMs := by
  rw [sameMs, Bool.and_eq_true, decide_eq_true_eq]

@[simp] theorem hasLast_advance : (g.advance count).hasLast = true := by
  by_cases hsame : g.sameMs count = true
  · rw [advance, if_pos hsame]
    exact (sameMs_iff.1 hsame).1
  · rw [advance, if_neg hsame]

@[simp] theorem lastMs_advance : (g.advance count).lastMs = g.nowMilliseconds count := by
  by_cases hsame : g.sameMs count = true
  · rw [advance, if_pos hsame]
    exact (sameMs_iff.1 hsame).2.symm
  · rw [advance, if_neg hsame]

@[simp] theorem nowMilliseconds_advance (later : ℕ) :
    (g.advance count).nowMilliseconds later = g.nowMilliseconds later := by
  by_cases hsame : g.sameMs count = true
  · simp only [advance, if_pos hsame, nowMilliseconds]
  · simp only [advance, if_neg hsame, nowMilliseconds]

theorem nextRaw_eq : g.nextRaw count = ((g.advance count).lastId, g.advance count) := by
  rw [nextRaw, lastId, lastMs_advance]

theorem packed_eq (ms : ℕ) (high : BitVec 16) (low : BitVec 64) : packed ms high low =
    ms % 2 ^ 48 * 2 ^ 80 + (high.toNat * 2 ^ 64 + low.toNat) := by
  rw [packed]
  ring

theorem pack_lt_pack_of_ms {ms ms' : ℕ} (h : ms % 2 ^ 48 < ms' % 2 ^ 48)
    (high high' : BitVec 16) (low low' : BitVec 64) : pack ms high low < pack ms' high' low' := by
  have hhigh := high.isLt
  have hlow := low.isLt
  have hwords : high.toNat * 2 ^ 64 + low.toNat < 2 ^ 80 := by omega
  rw [pack_lt_iff]
  calc packed ms high low
      = ms % 2 ^ 48 * 2 ^ 80 + (high.toNat * 2 ^ 64 + low.toNat) := packed_eq ms high low
    _ < ms % 2 ^ 48 * 2 ^ 80 + 2 ^ 80 := Nat.add_lt_add_left hwords _
    _ = (ms % 2 ^ 48 + 1) * 2 ^ 80 := by ring
    _ ≤ ms' % 2 ^ 48 * 2 ^ 80 := Nat.mul_le_mul_right _ h
    _ ≤ ms' % 2 ^ 48 * 2 ^ 80 + (high'.toNat * 2 ^ 64 + low'.toNat) := Nat.le_add_right _ _
    _ = packed ms' high' low' := (packed_eq ms' high' low').symm

/-- The random bits are one number, and that is counted up. -/
theorem pack_lt_pack_of_random (ms : ℕ) {high high' : BitVec 16} {low low' : BitVec 64}
    (h : high.toNat * 2 ^ 64 + low.toNat < high'.toNat * 2 ^ 64 + low'.toNat) :
    pack ms high low < pack ms high' low' := by
  rw [pack_lt_iff, packed_eq, packed_eq]
  exact Nat.add_lt_add_left h _

theorem random_lt_advance (hsame : g.sameMs count = true) (hfits : ¬g.Overflows count) :
    g.lastRandomHigh.toNat * 2 ^ 64 + g.lastRandomLow.toNat <
      (g.advance count).lastRandomHigh.toNat * 2 ^ 64 + (g.advance count).lastRandomLow.toNat := by
  have hhigh := g.lastRandomHigh.isLt
  have hlow := g.lastRandomLow.isLt
  have hfull : ¬(g.lastRandomHigh.toNat = 2 ^ 16 - 1 ∧ g.lastRandomLow.toNat = 2 ^ 64 - 1) :=
    fun h => hfits ⟨hsame, h⟩
  have hadd : (g.lastRandomLow + 1).toNat = (g.lastRandomLow.toNat + 1) % 2 ^ 64 :=
    BitVec.toNat_add _ _
  have hadd' : (g.lastRandomHigh + 1).toNat = (g.lastRandomHigh.toNat + 1) % 2 ^ 16 :=
    BitVec.toNat_add _ _
  rw [advance, if_pos hsame]
  dsimp only
  by_cases hcarry : g.lastRandomLow + 1 = 0
  · -- the low word runs over into the high one
    have hzero : (g.lastRandomLow + 1).toNat = 0 := congrArg BitVec.toNat hcarry
    rw [if_pos hcarry]
    omega
  · have hne : (g.lastRandomLow + 1).toNat ≠ 0 := fun h => hcarry (BitVec.eq_of_toNat_eq h)
    rw [if_neg hcarry]
    omega

/-- **An id comes after the one before it**, when the clock has not gone back. -/
theorem lastId_lt_nextRaw (hlast : g.hasLast = true) (hclock : g.lastMs ≤ g.nowMilliseconds count)
    (hfits : ¬g.Overflows count) : g.lastId < (g.nextRaw count).1 := by
  rw [nextRaw_eq, lastId, lastId, lastMs_advance]
  rcases hclock.eq_or_lt with heq | hlt
  · have hsame : g.sameMs count = true := by simp [sameMs, hlast, heq]
    rw [← heq]
    exact pack_lt_pack_of_random _ (random_lt_advance hsame hfits)
  · refine pack_lt_pack_of_ms ?_ _ _ _ _
    cases hfixed : g.deterministic with
    | true =>
      -- a clock that stands still has not moved on
      rw [g.lastMs_eq hfixed hlast, nowMilliseconds, if_pos hfixed] at hlt
      exact absurd hlt (lt_irrefl _)
    | false =>
      rw [nowMilliseconds, hfixed] at hlt ⊢
      rw [Nat.mod_eq_of_lt (g.lastMs_lt hfixed), if_neg Bool.false_ne_true, Nat.mod_mod]
      exact hlt

/-! ### A run -/

theorem times_advance (counts : List ℕ) : (g.advance count).times counts =
    g.nowMilliseconds count :: counts.map g.nowMilliseconds := by
  simp [times]

theorem ids_cons (counts : List ℕ) : g.ids (count :: counts) =
    (if g.hasLast then [g.lastId] else []) ++ (g.advance count).ids counts := by
  simp [ids, generate, nextRaw_eq]

theorem ids_increasing (g : IdGenerator) (counts : List ℕ)
    (hclock : (g.times counts).Pairwise (· ≤ ·)) (hfits : g.Fits counts) :
    (g.ids counts).Pairwise (· < ·) := by
  induction counts generalizing g with
  | nil =>
    rw [ids]
    split_ifs <;> simp [generate]
  | cons count counts ih =>
    have hlater : ((g.advance count).times counts).Pairwise (· ≤ ·) := by
      rw [times_advance]
      exact hclock.sublist (List.sublist_append_right _ _)
    have hincreasing := ih (g.advance count) hlater hfits.2
    rw [ids_cons]
    by_cases hlast : g.hasLast = true
    · rw [if_pos hlast, List.singleton_append, List.pairwise_cons]
      refine ⟨fun id hid => ?_, hincreasing⟩
      have hhead : g.lastId < (g.advance count).lastId := by
        have hnext : g.lastMs ≤ g.nowMilliseconds count := by
          rw [times, if_pos hlast] at hclock
          exact (List.pairwise_cons.1 hclock).1 _ List.mem_cons_self
        have := lastId_lt_nextRaw hlast hnext hfits.1
        rwa [nextRaw_eq] at this
      rw [ids, if_pos hasLast_advance, List.singleton_append] at hid hincreasing
      rcases List.mem_cons.1 hid with rfl | hid
      · exact hhead
      · exact hhead.trans ((List.pairwise_cons.1 hincreasing).1 id hid)
    · rw [if_neg hlast, List.nil_append]
      exact hincreasing

/-- **Ids increase strictly**: those of a run among themselves, and after the last one before it, as
long as the times that are read never decrease and the random bits do not run over. -/
theorem generate_increasing (g : IdGenerator) (counts : List ℕ)
    (hclock : (g.times counts).Pairwise (· ≤ ·)) (hfits : g.Fits counts) :
    (g.ids counts).Pairwise (· < ·) ∧ ∀ first rest id, g.generate counts = first ++ id :: rest →
      (g.hasLast = true → g.lastId < id) ∧ ∀ earlier ∈ first, earlier < id := by
  have hincreasing := ids_increasing g counts hclock hfits
  refine ⟨hincreasing, fun first rest id heq => ?_⟩
  rw [ids, heq, ← List.append_assoc] at hincreasing
  have hall := (List.pairwise_append.1 hincreasing).2.2
  refine ⟨fun hlast => hall _ ?_ id List.mem_cons_self, fun earlier hearlier =>
    hall earlier (List.mem_append_right _ hearlier) id List.mem_cons_self⟩
  rw [if_pos hlast]
  exact List.mem_append_left _ (List.mem_singleton.2 rfl)

/-- Two ids of one millisecond, and one of a later one. -/
theorem generate_increasing_three :
    ((fresh 7 0 false).ids [1000, 1000, 1001]).Pairwise (· < ·) := by
  refine (generate_increasing (fresh 7 0 false) [1000, 1000, 1001] (by decide) ?_).1
  refine ⟨fun h => ?_, fun h => ?_, fun h => ?_, trivial⟩
  all_goals exact absurd h.2.2 (by decide +kernel)

end IdGenerator

end OneBeat
