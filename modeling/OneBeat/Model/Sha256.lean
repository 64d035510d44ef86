import OneBeat.Lib.ByteOrder
import OneBeat.Lib.SecureHash
import Mathlib.Tactic.IntervalCases

/-!
# SHA-256

`sha256Hex` of `model/project_io.cpp`, by which the state of a plug-in is recognised.

* `sha256Block_eq` : a block is compressed as the standard says;
* `take_append_tail` : what is left behind the whole blocks is padded as it says.

**Main theorem** (`sha256Hex_eq`): the result is the digest of the message in hexadecimal.
-/

namespace OneBeat

open ByteOrder ListParts SecureHash

def sha256K : Vector (BitVec 32) 64 := #v[
  0x428a2f98, 0x71374491, 0xb5c0fbcf, 0xe9b5dba5, 0x3956c25b, 0x59f111f1, 0x923f82a4, 0xab1c5ed5,
  0xd807aa98, 0x12835b01, 0x243185be, 0x550c7dc3, 0x72be5d74, 0x80deb1fe, 0x9bdc06a7, 0xc19bf174,
  0xe49b69c1, 0xefbe4786, 0x0fc19dc6, 0x240ca1cc, 0x2de92c6f, 0x4a7484aa, 0x5cb0a9dc, 0x76f988da,
  0x983e5152, 0xa831c66d, 0xb00327c8, 0xbf597fc7, 0xc6e00bf3, 0xd5a79147, 0x06ca6351, 0x14292967,
  0x27b70a85, 0x2e1b2138, 0x4d2c6dfc, 0x53380d13, 0x650a7354, 0x766a0abb, 0x81c2c92e, 0x92722c85,
  0xa2bfe8a1, 0xa81a664b, 0xc24b8b70, 0xc76c51a3, 0xd192e819, 0xd6990624, 0xf40e3585, 0x106aa070,
  0x19a4c116, 0x1e376c08, 0x2748774c, 0x34b0bcb5, 0x391c0cb3, 0x4ed8aa4a, 0x5b9cca4f, 0x682e6ff3,
  0x748f82ee, 0x78a5636f, 0x84c87814, 0x8cc70208, 0x90befffa, 0xa4506ceb, 0xbef9a3f7, 0xc67178f2]

def rotr (value : BitVec 32) (bits : ℕ) : BitVec 32 :=
  (value >>> bits) ||| (value <<< (32 - bits))

/-- Four bytes of a block. -/
def sha256Word (block : List (BitVec 8)) (i : ℕ) : BitVec 32 :=
  ((block.getD (i * 4) 0).setWidth 32 <<< 24) |||
    ((block.getD (i * 4 + 1) 0).setWidth 32 <<< 16) |||
    ((block.getD (i * 4 + 2) 0).setWidth 32 <<< 8) |||
    (block.getD (i * 4 + 3) 0).setWidth 32

/-- Another word of the schedule, from those before it. -/
def sha256Extend (w : Vector (BitVec 32) 64) (i : ℕ) : Vector (BitVec 32) 64 :=
  let s0 := rotr w[i - 15]! 7 ^^^ rotr w[i - 15]! 18 ^^^ (w[i - 15]! >>> 3)
  let s1 := rotr w[i - 2]! 17 ^^^ rotr w[i - 2]! 19 ^^^ (w[i - 2]! >>> 10)
  w.setIfInBounds i (w[i - 16]! + s0 + w[i - 7]! + s1)

def sha256Schedule (block : List (BitVec 8)) : Vector (BitVec 32) 64 :=
  let w := (List.range 16).foldl (fun w i => w.setIfInBounds i (sha256Word block i))
    (Vector.replicate 64 0)
  (List.range' 16 48).foldl sha256Extend w

def sha256Round (k w : BitVec 32) (v : Vector (BitVec 32) 8) : Vector (BitVec 32) 8 :=
  let s1 := rotr v[4] 6 ^^^ rotr v[4] 11 ^^^ rotr v[4] 25
  let ch := (v[4] &&& v[5]) ^^^ (~~~v[4] &&& v[6])
  let temp1 := v[7] + s1 + ch + k + w
  let s0 := rotr v[0] 2 ^^^ rotr v[0] 13 ^^^ rotr v[0] 22
  let maj := (v[0] &&& v[1]) ^^^ (v[0] &&& v[2]) ^^^ (v[1] &&& v[2])
  let temp2 := s0 + maj
  let v := v.set 7 v[6]
  let v := v.set 6 v[5]
  let v := v.set 5 v[4]
  let v := v.set 4 (v[3] + temp1)
  let v := v.set 3 v[2]
  let v := v.set 2 v[1]
  let v := v.set 1 v[0]
  v.set 0 (temp1 + temp2)

/-- The first 64 bytes of what `block` points to go into the state. -/
def sha256Block (block : List (BitVec 8)) (state : Vector (BitVec 32) 8) : Vector (BitVec 32) 8 :=
  let w := sha256Schedule block
  let v := (List.range 64).foldl (fun v i => sha256Round sha256K[i]! w[i]! v) state
  (List.range 8).foldl (fun state i => state.setIfInBounds i (state[i]! + v[i]!)) state

def sha256Initial : Vector (BitVec 32) 8 :=
  #v[0x6a09e667, 0xbb67ae85, 0x3c6ef372, 0xa54ff53a, 0x510e527f, 0x9b05688c, 0x1f83d9ab, 0x5be0cd19]

/-- The blocks at the offsets 0, 64 and so on, as long as one fits into `size`. -/
def sha256Blocks (bytes : List (BitVec 8)) (size : ℕ) (state : Vector (BitVec 32) 8) :
    Vector (BitVec 32) 8 :=
  ((List.range (size / 64)).map (64 * ·)).foldl
    (fun state offset => sha256Block (bytes.drop offset) state) state

/-- The tail with the length of the message in its last bytes. -/
def sha256Length (tailSize : ℕ) (bits : BitVec 64) (tail : List (BitVec 8)) : List (BitVec 8) :=
  (List.range 8).foldl
    (fun tail i => tail.set (tailSize - 1 - i) (((bits >>> (8 * i)) &&& 0xFF).setWidth 8)) tail

/-- What is behind the whole blocks, with its padding, in a buffer of two blocks. -/
def sha256Tail (data : List (BitVec 8)) : ℕ × List (BitVec 8) :=
  let offset := 64 * (data.length / 64)
  let remainder := data.length - offset
  let tail := overwrite (List.replicate 128 0) 0 (data.drop offset)
  let tail := tail.set remainder 0x80
  let tailSize := if remainder < 56 then 64 else 128
  let bits : BitVec 64 := BitVec.ofNat 64 data.length * 8
  (tailSize, sha256Length tailSize bits tail)

def sha256Hex (data : List (BitVec 8)) : String :=
  let state := sha256Blocks data data.length sha256Initial
  let tail := sha256Tail data
  let state := sha256Blocks tail.2 tail.1 state
  let digits := "0123456789abcdef".toList
  String.ofList (state.toList.flatMap fun (word : BitVec 32) =>
    (List.range 8).map fun i => digits.getD ((word >>> (28 - 4 * i)) &&& 0xF).toNat '0')

/-! ### One block -/

theorem rotr_eq {bits : ℕ} (h : bits < 32) (value : BitVec 32) :
    rotr value bits = value.rotateRight bits := by
  rw [BitVec.rotateRight_def, Nat.mod_eq_of_lt h, rotr]

theorem toList_sha256K : sha256K.toList = primes.map (fraction 3) := by
  decide +kernel

theorem sha256K_eq {t : ℕ} (ht : t < 64) : sha256K[t]! = constant t := by
  rw [constant, ← toList_sha256K, getElem!_pos sha256K t ht, List.getD_eq_getElem?_getD,
    List.getElem?_eq_getElem (by simpa using ht), Option.getD_some, Vector.getElem_toList]

theorem sha256Initial_eq : sha256Initial = initial := by
  decide +kernel

/-- The assignments of a round are made from the last variable on, so that each is still there. -/
theorem sha256Round_eq (k w : BitVec 32) (v : Vector (BitVec 32) 8) :
    sha256Round k w v = round k w v := by
  have hassign (temp1 temp2 : BitVec 32) :
      (let v := v.set 7 v[6]
        let v := v.set 6 v[5]
        let v := v.set 5 v[4]
        let v := v.set 4 (v[3] + temp1)
        let v := v.set 3 v[2]
        let v := v.set 2 v[1]
        let v := v.set 1 v[0]
        v.set 0 (temp1 + temp2)) =
      #v[temp1 + temp2, v[0], v[1], v[2], v[3] + temp1, v[4], v[5], v[6]] := by
    ext i hi
    interval_cases i <;> simp
  refine (hassign _ _).trans ?_
  simp only [rotr_eq (show 2 < 32 by decide), rotr_eq (show 6 < 32 by decide),
    rotr_eq (show 11 < 32 by decide), rotr_eq (show 13 < 32 by decide),
    rotr_eq (show 22 < 32 by decide), rotr_eq (show 25 < 32 by decide), SecureHash.round,
    bigSigma0, bigSigma1, ch, maj]
  rfl

/-- Four bytes, shifted into their places. -/
theorem or_bytes_eq (b0 b1 b2 b3 : BitVec 8) :
    (b0.setWidth 32 <<< 24) ||| (b1.setWidth 32 <<< 16) ||| (b2.setWidth 32 <<< 8) |||
      b3.setWidth 32 = wordOf ([b0, b1, b2, b3].flatMap bits) := by
  have h0 := b0.isLt
  have h1 := b1.isLt
  have h2 := b2.isLt
  have h3 := b3.isLt
  have hnumber : numberOf ([b0, b1, b2, b3].flatMap bits) =
      b0.toNat * 2 ^ 24 + (b1.toNat * 2 ^ 16 + (b2.toNat * 2 ^ 8 + b3.toNat)) := by
    simp only [List.flatMap_cons, List.flatMap_nil, List.append_nil, numberOf_append,
      numberOf_bits, List.length_append, length_bits]
  have hor2 : b2.toNat * 2 ^ 8 ||| b3.toNat = b2.toNat * 2 ^ 8 + b3.toNat := by
    rw [← Nat.shiftLeft_eq, Nat.shiftLeft_add_eq_or_of_lt h3]
  have hor1 : b1.toNat * 2 ^ 16 ||| (b2.toNat * 2 ^ 8 + b3.toNat) =
      b1.toNat * 2 ^ 16 + (b2.toNat * 2 ^ 8 + b3.toNat) := by
    rw [← Nat.shiftLeft_eq b1.toNat 16, Nat.shiftLeft_add_eq_or_of_lt (by omega)]
  have hor0 : b0.toNat * 2 ^ 24 ||| (b1.toNat * 2 ^ 16 + (b2.toNat * 2 ^ 8 + b3.toNat)) =
      b0.toNat * 2 ^ 24 + (b1.toNat * 2 ^ 16 + (b2.toNat * 2 ^ 8 + b3.toNat)) := by
    rw [← Nat.shiftLeft_eq b0.toNat 24, Nat.shiftLeft_add_eq_or_of_lt (by omega)]
  have hshift {b : BitVec 8} {k : ℕ} (hb : b.toNat * 2 ^ k < 2 ^ 32) :
      (b.setWidth 32 <<< k).toNat = b.toNat * 2 ^ k := by
    rw [BitVec.toNat_shiftLeft, BitVec.toNat_setWidth, Nat.shiftLeft_eq,
      Nat.mod_eq_of_lt (by omega : b.toNat < 2 ^ 32), Nat.mod_eq_of_lt hb]
  refine BitVec.eq_of_toNat_eq ?_
  rw [wordOf, hnumber, BitVec.toNat_ofNat, BitVec.toNat_or, BitVec.toNat_or, BitVec.toNat_or,
    hshift (by omega), hshift (by omega), hshift (by omega), BitVec.toNat_setWidth, Nat.or_assoc,
    Nat.or_assoc, Nat.mod_eq_of_lt (by omega : b3.toNat < 2 ^ 32), hor2, hor1, hor0]
  omega

theorem sha256Word_eq {block : List (BitVec 8)} {i : ℕ} (h : 4 * i + 4 ≤ block.length) :
    sha256Word block i = words (block.flatMap bits) i := by
  have hslice : slice block (4 * i) 4 =
      [block.getD (i * 4) 0, block.getD (i * 4 + 1) 0, block.getD (i * 4 + 2) 0,
        block.getD (i * 4 + 3) 0] := by
    refine List.ext_getElem (by rw [length_slice h]; rfl) fun k hk _ => ?_
    rw [length_slice h] at hk
    interval_cases k <;> simp [slice, mul_comm] <;> grind
  rw [words_flatMap, hslice, sha256Word, or_bytes_eq]

theorem getElem!_setIfInBounds {n i t : ℕ} (ht : t < n) (w : Vector (BitVec 32) n)
    (value : BitVec 32) : (w.setIfInBounds i value)[t]! = if t = i then value else w[t]! := by
  rw [getElem!_pos _ t ht, getElem!_pos _ t ht, Vector.getElem_setIfInBounds ht]
  simp only [eq_comm]

/-- A loop that sets each entry once, from what it was. -/
theorem getElem!_foldl_set {n : ℕ} (f : ℕ → BitVec 32 → BitVec 32) (w : Vector (BitVec 32) n)
    (count : ℕ) {t : ℕ} (ht : t < n) :
    ((List.range count).foldl (fun w i => w.setIfInBounds i (f i w[i]!)) w)[t]! =
      if t < count then f t w[t]! else w[t]! := by
  induction count with
  | zero => simp
  | succ count ih =>
    rw [List.range_succ, List.foldl_append, List.foldl_cons, List.foldl_nil,
      getElem!_setIfInBounds ht]
    rcases Nat.lt_trichotomy t count with hlt | rfl | hgt
    · rw [if_neg hlt.ne, ih, if_pos hlt, if_pos (by omega)]
    · rw [if_pos rfl, ih, if_neg (by omega), if_pos (by omega)]
    · rw [if_neg hgt.ne', ih, if_neg (by omega), if_neg (by omega)]

theorem getElem!_foldl_extend {block : ℕ → BitVec 32} {w : Vector (BitVec 32) 64}
    (hw : ∀ t < 16, w[t]! = block t) (count : ℕ) :
    count ≤ 48 →
      ∀ t < 16 + count, ((List.range' 16 count).foldl sha256Extend w)[t]! = schedule block t := by
  induction count with
  | zero =>
    intro _ t ht
    rw [List.range'_zero, List.foldl_nil, hw t ht, schedule_of_lt ht]
  | succ count ih =>
    intro hcount t ht
    have ih := ih (by omega)
    rw [List.range'_concat, List.foldl_append, List.foldl_cons, List.foldl_nil, Nat.one_mul,
      sha256Extend, getElem!_setIfInBounds (by omega)]
    by_cases hlast : t = 16 + count
    · subst hlast
      rw [if_pos rfl, ih (16 + count - 15) (by omega), ih (16 + count - 2) (by omega),
        ih (16 + count - 16) (by omega), ih (16 + count - 7) (by omega),
        schedule_of_ge (Nat.le_add_right 16 count), smallSigma0, smallSigma1,
        rotr_eq (show 7 < 32 by decide), rotr_eq (show 18 < 32 by decide), rotr_eq (show 17 < 32 by decide),
        rotr_eq (show 19 < 32 by decide)]
      ac_rfl
    · rw [if_neg hlast, ih t (by omega)]

theorem sha256Schedule_eq {block : List (BitVec 8)} (h : 64 ≤ block.length) {t : ℕ} (ht : t < 64) :
    (sha256Schedule block)[t]! = schedule (words (block.flatMap bits)) t := by
  rw [sha256Schedule]
  refine getElem!_foldl_extend (fun t ht => ?_) 48 le_rfl t ht
  rw [getElem!_foldl_set (fun i _ => sha256Word block i) _ 16 (by omega), if_pos ht,
    sha256Word_eq (by omega)]

/-- A block is compressed as the standard says. -/
theorem sha256Block_eq {block : List (BitVec 8)} (h : 64 ≤ block.length)
    (state : Vector (BitVec 32) 8) :
    sha256Block block state = compress (words (block.flatMap bits)) state := by
  have hrounds : (List.range 64).foldl
        (fun v i => sha256Round sha256K[i]! (sha256Schedule block)[i]! v) state =
      (List.range 64).foldl
        (fun v t => SecureHash.round (constant t) (schedule (words (block.flatMap bits)) t) v)
        state := by
    refine List.foldl_ext _ _ _ fun v t ht => ?_
    have ht := List.mem_range.1 ht
    rw [sha256Round_eq, sha256K_eq ht, sha256Schedule_eq h ht]
  rw [sha256Block, compress, hrounds]
  ext i hi
  rw [← getElem!_pos _ i hi, getElem!_foldl_set (fun i value => value + _) _ 8 hi, if_pos hi,
    Vector.getElem_zipWith, getElem!_pos _ i hi, getElem!_pos _ i hi]

/-! ### The message -/

/-- The hash value after the blocks of some bytes. -/
def hashBlocks (bytes : List (BitVec 8)) (state : Vector (BitVec 32) 8) : Vector (BitVec 32) 8 :=
  (chunks 64 bytes).foldl (fun hash block => compress (words (block.flatMap bits)) hash) state

theorem sha256Blocks_eq {bytes : List (BitVec 8)} {size : ℕ} (hsize : size ≤ bytes.length)
    (state : Vector (BitVec 32) 8) :
    sha256Blocks bytes size state = hashBlocks (bytes.take (64 * (size / 64))) state := by
  have hcount : (bytes.take (64 * (size / 64))).length / 64 = size / 64 := by
    rw [List.length_take]
    omega
  rw [sha256Blocks, hashBlocks, chunks, hcount, List.foldl_map, List.foldl_map]
  refine List.foldl_ext _ _ _ fun state index hindex => ?_
  have hindex := List.mem_range.1 hindex
  have hfit : 64 * index + 64 ≤ 64 * (size / 64) := by omega
  rw [sha256Block_eq (by rw [List.length_drop]; omega)]
  refine compress_congr (fun t ht => ?_) state
  rw [words_flatMap, words_flatMap, slice_slice (by omega), slice, slice, List.drop_drop,
    List.drop_take, List.take_take, Nat.min_eq_left (by omega)]

/-- The length is written into the last bytes, the most significant first. -/
theorem sha256Length_eq {tail : List (BitVec 8)} {tailSize : ℕ} (hsize : 8 ≤ tailSize)
    (htail : tailSize ≤ tail.length) (value : BitVec 64) :
    sha256Length tailSize value tail = overwrite tail (tailSize - 8) (bigEndian value 8) := by
  have hloop (count : ℕ) (hcount : count ≤ 8) : (List.range count).foldl
        (fun tail i => tail.set (tailSize - 1 - i) (((value >>> (8 * i)) &&& 0xFF).setWidth 8))
        tail = overwrite tail (tailSize - count) (bigEndian value count) := by
    induction count with
    | zero => simp [overwrite, bigEndian]
    | succ count ih =>
      have hfit : tailSize - count + (bigEndian value count).length ≤ tail.length := by
        rw [length_bigEndian]
        omega
      have hfit' : tailSize - (count + 1) + (bigEndian value (count + 1)).length ≤ tail.length := by
        rw [length_bigEndian]
        omega
      rw [List.range_succ, List.foldl_append, List.foldl_cons, List.foldl_nil, ih (by omega)]
      refine List.ext_getElem? fun j => ?_
      rw [List.getElem?_set, getElem?_overwrite hfit, getElem?_overwrite hfit',
        length_overwrite hfit, length_bigEndian, length_bigEndian, bigEndian_succ]
      by_cases hfirst : tailSize - 1 - count = j
      · rw [if_pos hfirst, if_pos (by omega), if_pos (by omega),
          show j - (tailSize - (count + 1)) = 0 by omega, List.getElem?_cons_zero]
      · rw [if_neg hfirst]
        by_cases hwithin : tailSize - count ≤ j ∧ j < tailSize - count + count
        · rw [if_pos hwithin, if_pos (by omega),
            show j - (tailSize - (count + 1)) = j - (tailSize - count) + 1 by omega,
            List.getElem?_cons_succ]
        · rw [if_neg hwithin, if_neg (by omega)]
  exact hloop 8 le_rfl

/-- A message with its padding. -/
def padBytes (data : List (BitVec 8)) : List (BitVec 8) :=
  data ++ [0x80] ++ List.replicate ((119 - data.length % 64) % 64) 0 ++
    bigEndian (BitVec.ofNat 64 data.length * 8) 8

theorem hashBlocks_append {bytes : List (BitVec 8)} {count : ℕ} (h : bytes.length = 64 * count)
    (others : List (BitVec 8)) (state : Vector (BitVec 32) 8) :
    hashBlocks (bytes ++ others) state = hashBlocks others (hashBlocks bytes state) := by
  rw [hashBlocks, chunks_append (by decide) h, List.foldl_append, hashBlocks, hashBlocks]

theorem pad_flatMap (data : List (BitVec 8)) :
    pad (data.flatMap bits) = (padBytes data).flatMap bits := by
  have hzeros : zeros (8 * data.length) = 7 + 8 * ((119 - data.length % 64) % 64) := by
    rw [zeros]
    omega
  have hbytes (count : ℕ) : (List.replicate count (0 : BitVec 8)).flatMap bits =
      List.replicate (8 * count) false := by
    induction count with
    | zero => rfl
    | succ count ih =>
      rw [List.replicate_succ, List.flatMap_cons, ih, Nat.mul_succ, Nat.add_comm,
        List.replicate_add]
      rfl
  have hlength : BitVec.ofNat 64 data.length * 8 = BitVec.ofNat 64 (8 * data.length) := by
    rw [Nat.mul_comm, BitVec.ofNat_mul]
    rfl
  have hmarker : [(0x80 : BitVec 8)].flatMap bits = [true] ++ List.replicate 7 false := by decide
  rw [pad, length_flatMap length_bits, hzeros, List.replicate_add, padBytes, List.flatMap_append,
    List.flatMap_append, List.flatMap_append, hbytes, hlength, flatMap_bigEndian (by decide),
    hmarker]
  simp only [List.append_assoc]
  rfl

section Tail

variable (data : List (BitVec 8))

theorem sha256Tail_size : (sha256Tail data).1 = 64 ∨ (sha256Tail data).1 = 128 := by
  simp only [sha256Tail]
  split_ifs
  · exact .inl rfl
  · exact .inr rfl

/-- What is left of the message, the marker, and zeros. -/
theorem marked_eq : (overwrite (List.replicate 128 0) 0 (data.drop (64 * (data.length / 64)))).set
      (data.length - 64 * (data.length / 64)) 0x80 =
    data.drop (64 * (data.length / 64)) ++ [0x80] ++
      List.replicate (127 - data.length % 64) (0 : BitVec 8) := by
  have hrest : (data.drop (64 * (data.length / 64))).length = data.length % 64 := by
    rw [List.length_drop]
    omega
  rw [overwrite, List.take_zero, List.nil_append, Nat.zero_add, hrest, List.drop_replicate,
    show data.length - 64 * (data.length / 64) = data.length % 64 by omega,
    List.set_append_right _ _ hrest.le, hrest, Nat.sub_self,
    show 128 - data.length % 64 = 127 - data.length % 64 + 1 by omega, List.replicate_succ,
    List.set_cons_zero, List.append_assoc, List.singleton_append]

theorem length_marked : (data.drop (64 * (data.length / 64)) ++ [0x80] ++
    List.replicate (127 - data.length % 64) (0 : BitVec 8)).length = 128 := by
  rw [List.length_append, List.length_append, List.length_drop, List.length_replicate,
    List.length_singleton]
  omega

theorem sha256Tail_eq : (sha256Tail data).2 =
    overwrite (data.drop (64 * (data.length / 64)) ++ [0x80] ++
      List.replicate (127 - data.length % 64) (0 : BitVec 8)) ((sha256Tail data).1 - 8)
        (bigEndian (BitVec.ofNat 64 data.length * 8) 8) := by
  have hsize := sha256Tail_size data
  have htail : (sha256Tail data).2 = sha256Length (sha256Tail data).1
      (BitVec.ofNat 64 data.length * 8)
      ((overwrite (List.replicate 128 0) 0 (data.drop (64 * (data.length / 64)))).set
        (data.length - 64 * (data.length / 64)) 0x80) := by
    simp only [sha256Tail]
  rw [htail, marked_eq, sha256Length_eq (by omega) (by rw [length_marked]; omega)]

theorem length_sha256Tail : (sha256Tail data).2.length = 128 := by
  have hsize := sha256Tail_size data
  rw [sha256Tail_eq, length_overwrite, length_marked]
  rw [length_marked, length_bigEndian]
  omega

/-- The whole blocks and the tail, as far as it is used, are the message with its padding. -/
theorem take_append_tail : data.take (64 * (data.length / 64)) ++
    (sha256Tail data).2.take (sha256Tail data).1 = padBytes data := by
  have hsize := sha256Tail_size data
  have hrest : (data.drop (64 * (data.length / 64)) ++ [(0x80 : BitVec 8)]).length =
      data.length % 64 + 1 := by
    rw [List.length_append, List.length_drop, List.length_singleton]
    omega
  have hzeros : (sha256Tail data).1 - 8 =
      data.length % 64 + 1 + (119 - data.length % 64) % 64 := by
    simp only [sha256Tail]
    split_ifs <;> omega
  have hlast : ((data.drop (64 * (data.length / 64)) ++ [0x80] ++
      List.replicate (127 - data.length % 64) (0 : BitVec 8)).take ((sha256Tail data).1 - 8) ++
        bigEndian (BitVec.ofNat 64 data.length * 8) 8).length = (sha256Tail data).1 := by
    rw [List.length_append, List.length_take, length_bigEndian, length_marked]
    omega
  rw [sha256Tail_eq, overwrite, List.take_left' hlast, hzeros, ← hrest,
    List.take_length_add_append, List.take_replicate, Nat.min_eq_left (by omega), padBytes,
    ← List.append_assoc, ← List.append_assoc, ← List.append_assoc, List.take_append_drop]

end Tail

/-! ### The digest -/

theorem digit_eq {d : ℕ} (h : d < 2 ^ 4) :
    "0123456789abcdef".toList.getD d '0' = d.digitChar := by
  interval_cases d <;> rfl

/-- A word in hexadecimal. -/
theorem hexDigits_eq (word : BitVec 32) :
    ((List.range 8).map fun i =>
      "0123456789abcdef".toList.getD ((word >>> (28 - 4 * i)) &&& 0xF).toNat '0') =
      (chunks 4 (bits word)).map fun digit => (numberOf digit).digitChar := by
  rw [chunks, length_bits, List.map_map]
  refine List.map_congr_left fun i hi => ?_
  have hi := List.mem_range.1 hi
  have hdigit : ((word >>> (28 - 4 * i)) &&& 0xF).toNat =
      word.toNat / 2 ^ (28 - 4 * i) % 2 ^ 4 := by
    rw [BitVec.toNat_and, BitVec.toNat_ushiftRight, Nat.shiftRight_eq_div_pow]
    exact Nat.and_two_pow_sub_one_eq_mod _ 4
  rw [Function.comp_apply, numberOf_slice_bits word (by omega), hdigit,
    digit_eq (Nat.mod_lt _ (Nat.two_pow_pos 4)), show 32 - 4 * i - 4 = 28 - 4 * i by omega]

theorem hashValue_flatMap (data : List (BitVec 8)) :
    hashValue (data.flatMap bits) = hashBlocks (padBytes data) initial := by
  rw [hashValue, pad_flatMap, show 512 = 8 * 64 from rfl, chunks_flatMap length_bits (by decide),
    List.foldl_map, hashBlocks]

/-- The result is the digest of the bits of the message, on which the standard puts the bound of
`2 ^ 64` bits. -/
theorem sha256Hex_eq (data : List (BitVec 8)) :
    sha256Hex data = hex (digest (data.flatMap bits)) := by
  have hsize := sha256Tail_size data
  have hstate : sha256Blocks (sha256Tail data).2 (sha256Tail data).1
      (sha256Blocks data data.length sha256Initial) = hashValue (data.flatMap bits) := by
    have hwhole : (data.take (64 * (data.length / 64))).length = 64 * (data.length / 64) := by
      rw [List.length_take]
      omega
    rw [sha256Blocks_eq le_rfl, sha256Blocks_eq (by rw [length_sha256Tail]; omega),
      show 64 * ((sha256Tail data).1 / 64) = (sha256Tail data).1 by omega,
      ← hashBlocks_append hwhole, take_append_tail, sha256Initial_eq, hashValue_flatMap]
  have hword (word : BitVec 32) : (bits word).length = 4 * 8 := length_bits word
  rw [sha256Hex, hex, digest, flatMap_chunks (by decide) hword, List.map_flatMap, ← hstate]
  exact congrArg String.ofList (List.flatMap_congr fun word _ => hexDigits_eq word)

end OneBeat
