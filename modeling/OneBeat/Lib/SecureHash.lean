import OneBeat.Lib.ByteOrder
import OneBeat.Lib.ListParts
import Mathlib.Data.List.Induction
import Mathlib.Data.Nat.NthRoot.Defs
import Mathlib.Tactic.Ring

/-!
# The secure hash standard

SHA-256 as FIPS 180-4 defines it, on a message of bits.

* `numberOf_slice_bits`, `flatMap_bigEndian` : the bits of a word, in parts and in bytes;
* `compress_congr` : a block counts with its sixteen words.
-/

namespace OneBeat.SecureHash

open ByteOrder ListParts

abbrev Word := BitVec 32

/-- The bits of a word, the most significant first. -/
def bits {w : ℕ} (x : BitVec w) : List Bool :=
  (List.range w).map fun i => x.toNat.testBit (w - 1 - i)

/-- The number that bits make up. -/
def numberOf (bits : List Bool) : ℕ := bits.foldl (fun n bit => 2 * n + bit.toNat) 0

def wordOf (bits : List Bool) : Word := BitVec.ofNat 32 (numberOf bits)

/-! ### Functions and constants -/

def ch (x y z : Word) : Word := (x &&& y) ^^^ (~~~x &&& z)

def maj (x y z : Word) : Word := (x &&& y) ^^^ (x &&& z) ^^^ (y &&& z)

def bigSigma0 (x : Word) : Word := x.rotateRight 2 ^^^ x.rotateRight 13 ^^^ x.rotateRight 22

def bigSigma1 (x : Word) : Word := x.rotateRight 6 ^^^ x.rotateRight 11 ^^^ x.rotateRight 25

def smallSigma0 (x : Word) : Word := x.rotateRight 7 ^^^ x.rotateRight 18 ^^^ (x >>> 3)

def smallSigma1 (x : Word) : Word := x.rotateRight 17 ^^^ x.rotateRight 19 ^^^ (x >>> 10)

/-- The first 64 primes. -/
def primes : List ℕ :=
  [2, 3, 5, 7, 11, 13, 17, 19, 23, 29, 31, 37, 41, 43, 47, 53, 59, 61, 67, 71, 73, 79, 83, 89, 97,
    101, 103, 107, 109, 113, 127, 131, 137, 139, 149, 151, 157, 163, 167, 173, 179, 181, 191, 193,
    197, 199, 211, 223, 227, 229, 233, 239, 241, 251, 257, 263, 269, 271, 277, 281, 283, 293, 307,
    311]

/-- The first 32 bits of the fractional part of a root. -/
def fraction (degree n : ℕ) : Word := BitVec.ofNat 32 (Nat.nthRoot degree (n * 2 ^ (32 * degree)))

/-- The fractional parts of the cube roots of the primes. -/
def constant (t : ℕ) : Word := (primes.map (fraction 3)).getD t 0

/-- The fractional parts of the square roots of the first eight primes. -/
def initial : Vector Word 8 := Vector.ofFn fun i => (primes.map (fraction 2)).getD i 0

/-! ### Computation -/

/-- The least number of zeros that makes the length, with the bit before them, 448 modulo 512. -/
def zeros (length : ℕ) : ℕ := (447 + 512 - length % 512) % 512

def pad (message : List Bool) : List Bool :=
  message ++ [true] ++ List.replicate (zeros message.length) false ++
    bits (BitVec.ofNat 64 message.length)

/-- The message schedule of a block. -/
def schedule (block : ℕ → Word) (t : ℕ) : Word :=
  if t < 16 then block t
  else
    smallSigma1 (schedule block (t - 2)) + schedule block (t - 7) +
      smallSigma0 (schedule block (t - 15)) + schedule block (t - 16)

theorem schedule_of_lt {block : ℕ → Word} {t : ℕ} (h : t < 16) : schedule block t = block t := by
  rw [schedule, if_pos h]

theorem schedule_of_ge {block : ℕ → Word} {t : ℕ} (h : 16 ≤ t) : schedule block t =
    smallSigma1 (schedule block (t - 2)) + schedule block (t - 7) +
      smallSigma0 (schedule block (t - 15)) + schedule block (t - 16) := by
  rw [schedule, if_neg (not_lt.2 h)]

/-- One round on the eight working variables. -/
def round (k w : Word) (v : Vector Word 8) : Vector Word 8 :=
  let t1 := v.get 7 + bigSigma1 (v.get 4) + ch (v.get 4) (v.get 5) (v.get 6) + k + w
  let t2 := bigSigma0 (v.get 0) + maj (v.get 0) (v.get 1) (v.get 2)
  #v[t1 + t2, v.get 0, v.get 1, v.get 2, v.get 3 + t1, v.get 4, v.get 5, v.get 6]

/-- The hash value after another block. -/
def compress (block : ℕ → Word) (hash : Vector Word 8) : Vector Word 8 :=
  let v := (List.range 64).foldl (fun v t => round (constant t) (schedule block t) v) hash
  Vector.zipWith (· + ·) hash v

/-- The words of a block. -/
def words (block : List Bool) (j : ℕ) : Word := wordOf (slice block (32 * j) 32)

def hashValue (message : List Bool) : Vector Word 8 :=
  (chunks 512 (pad message)).foldl (fun hash block => compress (words block) hash) initial

/-- The message digest, of 256 bits. -/
def digest (message : List Bool) : List Bool := (hashValue message).toList.flatMap bits

/-- Bits in hexadecimal, with lowercase letters. -/
def hex (bits : List Bool) : String :=
  String.ofList ((chunks 4 bits).map fun digit => (numberOf digit).digitChar)

/-! ### Bits and padding -/

@[simp] theorem length_bits {w : ℕ} (x : BitVec w) : (bits x).length = w := by
  simp [bits]

theorem numberOf_append (bits bits' : List Bool) :
    numberOf (bits ++ bits') = numberOf bits * 2 ^ bits'.length + numberOf bits' := by
  induction bits' using List.reverseRecOn with
  | nil => simp [numberOf]
  | append_singleton bits' bit ih =>
    have hlast (bits : List Bool) : numberOf (bits ++ [bit]) = 2 * numberOf bits + bit.toNat := by
      simp [numberOf]
    rw [← List.append_assoc, hlast, hlast, ih, List.length_append, List.length_singleton]
    ring

/-- A part of the bits of a word reads as the part of its number. -/
theorem numberOf_slice_bits {w : ℕ} (x : BitVec w) {start width : ℕ} (h : start + width ≤ w) :
    numberOf (slice (bits x) start width) = x.toNat / 2 ^ (w - start - width) % 2 ^ width := by
  induction width with
  | zero => simp [slice, numberOf, Nat.mod_one]
  | succ width ih =>
    have hsucc : slice (bits x) start (width + 1) =
        slice (bits x) start width ++ [x.toNat.testBit (w - start - (width + 1))] := by
      have hindex : w - 1 - (start + width) = w - start - (width + 1) := by omega
      rw [slice, List.take_add_one, List.getElem?_drop, bits, List.getElem?_map,
        List.getElem?_range (by omega), Option.map_some, hindex, slice, Option.toList_some]
    have hhalf : x.toNat / 2 ^ (w - start - width) =
        x.toNat / 2 ^ (w - start - (width + 1)) / 2 := by
      rw [Nat.div_div_eq_div_mul, ← pow_succ]
      congr 2
      omega
    have hbit : numberOf [x.toNat.testBit (w - start - (width + 1))] =
        x.toNat / 2 ^ (w - start - (width + 1)) % 2 := by
      rw [Nat.testBit_eq_decide_div_mod_eq, numberOf]
      rcases Nat.mod_two_eq_zero_or_one (x.toNat / 2 ^ (w - start - (width + 1))) with h | h <;>
        simp [h]
    rw [hsucc, numberOf_append, ih (by omega), hbit, hhalf, List.length_singleton, pow_one,
      pow_succ', Nat.mod_mul]
    ring

theorem numberOf_bits {w : ℕ} (x : BitVec w) : numberOf (bits x) = x.toNat := by
  have h := @numberOf_slice_bits w x 0 w (by omega)
  rwa [slice, List.drop_zero, List.take_of_length_le (length_bits x).le, Nat.sub_zero, Nat.sub_self,
    pow_zero, Nat.div_one, Nat.mod_eq_of_lt x.isLt] at h

/-- The bits of a word are those of its bytes. -/
theorem flatMap_bigEndian {w : ℕ} (hwidth : 8 ≤ w) (x : BitVec w) (count : ℕ) :
    (bigEndian x count).flatMap bits =
      (List.range (8 * count)).map fun i => x.toNat.testBit (8 * count - 1 - i) := by
  induction count with
  | zero => rfl
  | succ count ih =>
    rw [bigEndian_succ, List.flatMap_cons, ih, show 8 * (count + 1) = 8 + 8 * count by ring,
      List.range_add, List.map_append, List.map_map, bits, toNat_byte hwidth]
    congr 1
    · refine List.map_congr_left fun i hi => ?_
      have hi := List.mem_range.1 hi
      rw [show 256 ^ count = 2 ^ (8 * count) by rw [pow_mul]; norm_num,
        show 256 = 2 ^ 8 by norm_num, Nat.testBit_mod_two_pow, Nat.testBit_div_two_pow, decide_eq_true (by omega), Bool.true_and]
      congr 1
      omega
    · refine List.map_congr_left fun i _ => ?_
      rw [Function.comp_apply]
      congr 1
      omega

/-! ### Blocks -/

theorem schedule_congr {block block' : ℕ → Word} (h : ∀ t < 16, block t = block' t) (t : ℕ) :
    schedule block t = schedule block' t := by
  induction t using Nat.strong_induction_on with
  | _ t ih =>
    by_cases ht : t < 16
    · rw [schedule_of_lt ht, schedule_of_lt ht, h t ht]
    · have ht := not_lt.1 ht
      rw [schedule_of_ge ht, schedule_of_ge ht, ih (t - 2) (by omega), ih (t - 7) (by omega),
        ih (t - 15) (by omega), ih (t - 16) (by omega)]

theorem compress_congr {block block' : ℕ → Word} (h : ∀ t < 16, block t = block' t)
    (hash : Vector Word 8) : compress block hash = compress block' hash := by
  rw [compress, compress, funext (schedule_congr h)]

/-- The words of a block of bytes. -/
theorem words_flatMap (block : List (BitVec 8)) (j : ℕ) :
    words (block.flatMap bits) j = wordOf ((slice block (4 * j) 4).flatMap bits) := by
  rw [words, ← slice_flatMap length_bits, ← Nat.mul_assoc]

end OneBeat.SecureHash
