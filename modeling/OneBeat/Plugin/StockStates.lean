import OneBeat.Plugin.EffectPlugin

/-!
# The states of the stock instruments

`stateSave` and `stateLoad` of `stock_plugins/piano`, `guitar`, `lowkey` and `synth`: a header and
the parameters, over a CLAP stream that may move fewer bytes than it is asked for.

How many bytes a call may move is open; it is at least one.  A double is its bits.

* `StockCodec.survives_iff` : the piano's state survives every such stream; the others' exactly when
  every call moves a whole word, and a load that fails had read nothing that was not there already.
-/

namespace OneBeat

open ByteOrder Builtin Builtin.EffectState

/-! ### Streams -/

/-- How many bytes each call may move. -/
abbrev Grants := ℕ → ℕ

structure OutStream where
  written : Bytes := []
  call : ℕ := 0

structure InStream where
  left : Bytes
  call : ℕ := 0

def OutStream.write (grants : Grants) (s : OutStream) (data : Bytes) : ℕ × OutStream :=
  let moved := min data.length (grants s.call)
  (moved, ⟨s.written ++ data.take moved, s.call + 1⟩)

def InStream.read (grants : Grants) (s : InStream) (size : ℕ) : Bytes × InStream :=
  let moved := min size (min (grants s.call) s.left.length)
  (s.left.take moved, ⟨s.left.drop moved, s.call + 1⟩)

/-! ### The parameters -/

/-- `clampParameter` -/
def clampParameter (value : BitVec 64) : BitVec 64 :=
  if DoubleOrder.lt value 0 then 0
  else if DoubleOrder.lt (0x3FF0000000000000 : BitVec 64) value then 0x3FF0000000000000 else value

/-- Each is in [0, 1], as the parameters are kept; a NaN is not clamped. -/
def InUnit (values : List (BitVec 64)) : Prop := ∀ value ∈ values, clampParameter value = value

def headerBytes (magic version : BitVec 32) : Bytes :=
  littleEndian magic 4 ++ littleEndian version 4

def valueBytes (value : BitVec 64) : Bytes := littleEndian value 8

/-- The word that bytes stand for. -/
def wordOf (w : ℕ) (bytes : Bytes) : BitVec w := .ofNat w (readLittle bytes)

/-- The words at the front of bytes. -/
def frontWords : ℕ → Bytes → List (BitVec 64)
  | 0, _ => []
  | count + 1, bytes => wordOf 64 (bytes.take 8) :: frontWords count (bytes.drop 8)

/-! ### One call a word -/

/-- What is different between the guitar, the lowkey and the synth. -/
structure WordCodec where
  magic : BitVec 32
  checksVersion : Bool

namespace WordCodec

def guitar : WordCodec := ⟨0x4f424754, false⟩

def lowkey : WordCodec := ⟨0x4f424c4b, false⟩

def synth : WordCodec := ⟨0x4f425359, true⟩

/-- A write that moves less than the word ends the save. -/
def saveEach (grants : Grants) : List (BitVec 64) → OutStream → Bool × OutStream
  | [], s => (true, s)
  | value :: values, s =>
    let (moved, s) := s.write grants (valueBytes value)
    if moved ≠ 8 then (false, s) else saveEach grants values s

def stateSave (codec : WordCodec) (grants : Grants) (values : List (BitVec 64)) :
    Bool × OutStream :=
  let (moved, s) := OutStream.write grants {} (headerBytes codec.magic 1)
  if moved ≠ 8 then (false, s) else saveEach grants values s

/-- A value is set as it is read. -/
def loadEach (grants : Grants) : List (BitVec 64) → InStream → Bool × List (BitVec 64)
  | [], _ => (true, [])
  | value :: values, s =>
    let (bytes, s) := s.read grants 8
    if bytes.length ≠ 8 then (false, value :: values)
    else
      let later := loadEach grants values s
      (later.1, clampParameter (wordOf 64 bytes) :: later.2)

def refuses (codec : WordCodec) (header : Bytes) : Bool :=
  header.length ≠ 8 || wordOf 32 (header.take 4) ≠ codec.magic ||
    codec.checksVersion && wordOf 32 (header.drop 4) ≠ 1

def stateLoad (codec : WordCodec) (grants : Grants) (values : List (BitVec 64)) (bytes : Bytes) :
    Bool × List (BitVec 64) :=
  let (header, s) := InStream.read grants ⟨bytes, 0⟩ 8
  if codec.refuses header then (false, values) else loadEach grants values s

end WordCodec

/-! ### Every byte -/

namespace PianoState

def magic : BitVec 32 := 0x4f42504e

/-- `writeAll`, with a round for each byte. -/
def writeAll (grants : Grants) : ℕ → Bytes → OutStream → Bool × OutStream
  | 0, data, s => (data.isEmpty, s)
  | fuel + 1, data, s =>
    if data.isEmpty then (true, s)
    else
      let (moved, s) := s.write grants data
      if moved = 0 then (false, s) else writeAll grants fuel (data.drop moved) s

/-- `readAll`, with a round for each byte. -/
def readAll (grants : Grants) : ℕ → ℕ → InStream → Option Bytes × InStream
  | 0, size, s => (if size = 0 then some [] else none, s)
  | fuel + 1, size, s =>
    if size = 0 then (some [], s)
    else
      let (bytes, s) := s.read grants size
      if bytes.length = 0 then (none, s)
      else
        let later := readAll grants fuel (size - bytes.length) s
        (later.1.map (bytes ++ ·), later.2)

def stateSave (grants : Grants) (values : List (BitVec 64)) : Bool × OutStream :=
  let state := headerBytes magic 2 ++ values.flatMap valueBytes
  writeAll grants state.length state {}

/-- The first parameters are set to the values of an array. -/
def setFirst (values : List (BitVec 64)) (read : List (BitVec 64)) : List (BitVec 64) :=
  read.map clampParameter ++ values.drop read.length

/-- The values of an older state are seven. -/
def stateLoad (grants : Grants) (values : List (BitVec 64)) (bytes : Bytes) :
    Bool × List (BitVec 64) :=
  let (header, s) := readAll grants 8 8 ⟨bytes, 0⟩
  match header with
  | none => (false, values)
  | some header =>
    if wordOf 32 (header.take 4) ≠ magic then (false, values)
    else
      let version := wordOf 32 (header.drop 4)
      let count := if version = 1 then 7 else values.length
      if version ≠ 1 ∧ version ≠ 2 then (false, values)
      else
        match (readAll grants (8 * count) (8 * count) s).1 with
        | none => (false, values)
        | some bytes => (true, setFirst values (frontWords count bytes))

end PianoState

/-! ### The four codecs -/

inductive StockCodec
  | piano
  | guitar
  | lowkey
  | synth
  deriving DecidableEq

namespace StockCodec

/-- The codec that moves a word a call. -/
def words : StockCodec → Option WordCodec
  | piano => none
  | guitar => some .guitar
  | lowkey => some .lowkey
  | synth => some .synth

/-- How many parameters the instrument has. -/
def parameters : StockCodec → ℕ
  | piano => 19
  | guitar | lowkey => 18
  | synth => 20

def stateSave (codec : StockCodec) (grants : Grants) (values : List (BitVec 64)) :
    Bool × OutStream :=
  match codec.words with
  | none => PianoState.stateSave grants values
  | some words => words.stateSave grants values

def stateLoad (codec : StockCodec) (grants : Grants) (values : List (BitVec 64)) (bytes : Bytes) :
    Bool × List (BitVec 64) :=
  match codec.words with
  | none => PianoState.stateLoad grants values bytes
  | some words => words.stateLoad grants values bytes

end StockCodec

/-- A stream that moves at least one byte a call. -/
structure ClapStream where
  grants : Grants
  positive : ∀ call, 0 < grants call

/-- The parameters of an instrument, in the order of their specs. -/
structure StockParameters (codec : StockCodec) where
  values : List (BitVec 64)
  length_eq : values.length = codec.parameters
  inUnit : InUnit values

/-! ### What words come to -/

theorem wordOf_littleEndian {w width : ℕ} (hwidth : 8 ≤ w) (hbits : 256 ^ width = 2 ^ w)
    (word : BitVec w) : wordOf w (littleEndian word width) = word := by
  rw [wordOf, readLittle_littleEndian hwidth, hbits, Nat.mod_eq_of_lt word.isLt,
    BitVec.ofNat_toNat, BitVec.setWidth_eq]

@[simp] theorem length_valueBytes (value : BitVec 64) : (valueBytes value).length = 8 :=
  length_littleEndian value 8

@[simp] theorem length_headerBytes (magic version : BitVec 32) :
    (headerBytes magic version).length = 8 := by
  simp [headerBytes]

theorem length_flatMap_valueBytes (values : List (BitVec 64)) :
    (values.flatMap valueBytes).length = 8 * values.length := by
  induction values with
  | nil => rfl
  | cons value values ih =>
    rw [List.flatMap_cons, List.length_append, ih, length_valueBytes, List.length_cons]
    omega

theorem frontWords_flatMap (values : List (BitVec 64)) (rest : Bytes) :
    frontWords values.length (values.flatMap valueBytes ++ rest) = values := by
  induction values with
  | nil => rfl
  | cons value values ih =>
    rw [List.flatMap_cons, List.append_assoc, List.length_cons, frontWords,
      List.take_left' (length_valueBytes value), List.drop_left' (length_valueBytes value), ih,
      valueBytes, wordOf_littleEndian (by decide) (by decide)]

theorem map_clampParameter {values : List (BitVec 64)} (h : InUnit values) :
    values.map clampParameter = values :=
  (List.map_congr_left h).trans (List.map_id' values)

theorem magic_headerBytes (magic version : BitVec 32) :
    wordOf 32 ((headerBytes magic version).take 4) = magic := by
  rw [headerBytes, List.take_left' (length_littleEndian magic 4),
    wordOf_littleEndian (by decide) (by decide)]

theorem version_headerBytes (magic version : BitVec 32) :
    wordOf 32 ((headerBytes magic version).drop 4) = version := by
  rw [headerBytes, List.drop_left' (length_littleEndian magic 4),
    wordOf_littleEndian (by decide) (by decide)]

/-! ### A word a call -/

variable {grants : Grants} {call : ℕ}

/-- The first calls move whole words, and the bytes are there. -/
def Whole (grants : Grants) (call count : ℕ) (left : Bytes) : Prop :=
  (∀ k < count, 8 ≤ grants (call + k)) ∧ 8 * count ≤ left.length

theorem whole_zero (grants : Grants) (call : ℕ) (left : Bytes) : Whole grants call 0 left :=
  ⟨nofun, Nat.zero_le _⟩

theorem whole_succ {count : ℕ} {left : Bytes} : Whole grants call (count + 1) left ↔
    (8 ≤ grants call ∧ 8 ≤ left.length) ∧ Whole grants (call + 1) count (left.drop 8) := by
  constructor
  · rintro ⟨hgrants, hlength⟩
    refine ⟨⟨hgrants 0 (by omega), by omega⟩, fun k hk => ?_, ?_⟩
    · have := hgrants (k + 1) (by omega)
      rwa [show call + 1 + k = call + (k + 1) by omega]
    · rw [List.length_drop]
      omega
  · rintro ⟨⟨hfirst, henough⟩, hgrants, hlength⟩
    rw [List.length_drop] at hlength
    refine ⟨fun k hk => ?_, by omega⟩
    cases k with
    | zero => exact hfirst
    | succ k =>
      have := hgrants k (by omega)
      rwa [show call + (k + 1) = call + 1 + k by omega]

theorem OutStream.write_eq {s : OutStream} {data : Bytes} (h : data.length ≤ grants s.call) :
    s.write grants data = (data.length, ⟨s.written ++ data, s.call + 1⟩) := by
  rw [OutStream.write, Nat.min_eq_left h, List.take_length]

theorem InStream.read_eq {s : InStream} {size : ℕ} (hgrants : size ≤ grants s.call)
    (hleft : size ≤ s.left.length) :
    s.read grants size = (s.left.take size, ⟨s.left.drop size, s.call + 1⟩) := by
  rw [InStream.read, Nat.min_eq_left (by omega)]

theorem InStream.length_read (s : InStream) (grants : Grants) (size : ℕ) :
    (s.read grants size).1.length = min size (min (grants s.call) s.left.length) := by
  rw [InStream.read, List.length_take]
  omega

namespace WordCodec

variable {codec : WordCodec} {values previous : List (BitVec 64)} {bytes : Bytes}

theorem saveEach_iff (values : List (BitVec 64)) (s : OutStream) :
    (saveEach grants values s).1 = true ↔ ∀ k < values.length, 8 ≤ grants (s.call + k) := by
  induction values generalizing s with
  | nil => exact iff_of_true rfl nofun
  | cons value values ih =>
    by_cases hfirst : 8 ≤ grants s.call
    · rw [saveEach, OutStream.write_eq (by simpa using hfirst)]
      dsimp only
      rw [if_neg (by simp), ih]
      constructor
      · intro h k hk
        cases k with
        | zero => exact hfirst
        | succ k =>
          have := h k (by simpa using hk)
          rwa [show s.call + (k + 1) = s.call + 1 + k by omega]
      · intro h k hk
        have := h (k + 1) (by simpa using hk)
        rwa [show s.call + 1 + k = s.call + (k + 1) by omega]
    · refine iff_of_false ?_ fun h => hfirst (h 0 (by simp))
      rw [saveEach, OutStream.write]
      dsimp only
      rw [if_pos (by rw [length_valueBytes]; omega)]
      exact Bool.false_ne_true

theorem saveEach_written (values : List (BitVec 64)) (s : OutStream)
    (h : ∀ k < values.length, 8 ≤ grants (s.call + k)) :
    (saveEach grants values s).2.written = s.written ++ values.flatMap valueBytes := by
  induction values generalizing s with
  | nil => exact (List.append_nil _).symm
  | cons value values ih =>
    rw [saveEach, OutStream.write_eq (by simpa using h 0 (by simp))]
    dsimp only
    rw [if_neg (by simp), ih, List.flatMap_cons, List.append_assoc]
    intro k hk
    have := h (k + 1) (by simpa using hk)
    rwa [show s.call + 1 + k = s.call + (k + 1) by omega]

theorem stateSave_iff (codec : WordCodec) (values : List (BitVec 64)) :
    (codec.stateSave grants values).1 = true ↔ ∀ k ≤ values.length, 8 ≤ grants k := by
  by_cases hfirst : 8 ≤ grants 0
  · rw [stateSave, OutStream.write_eq (by simpa using hfirst)]
    dsimp only
    rw [if_neg (by simp), saveEach_iff]
    constructor
    · intro h k hk
      cases k with
      | zero => exact hfirst
      | succ k =>
        have := h k (by omega)
        rwa [show k + 1 = 0 + 1 + k by omega]
    · intro h k hk
      exact h (0 + 1 + k) (by omega)
  · refine iff_of_false ?_ fun h => hfirst (h 0 (Nat.zero_le _))
    rw [stateSave, OutStream.write]
    dsimp only
    rw [if_pos (by rw [length_headerBytes]; omega)]
    exact Bool.false_ne_true

theorem stateSave_written (h : ∀ k ≤ values.length, 8 ≤ grants k) :
    (codec.stateSave grants values).2.written =
      headerBytes codec.magic 1 ++ values.flatMap valueBytes := by
  rw [stateSave, OutStream.write_eq (by simpa using h 0 (Nat.zero_le _))]
  dsimp only
  rw [if_neg (by simp), saveEach_written]
  · rfl
  · intro k hk
    exact h (0 + 1 + k) (by omega)

/-- A turn that reads a whole word, and one that does not. -/
theorem loadEach_cons (value : BitVec 64) (previous : List (BitVec 64)) (s : InStream) :
    loadEach grants (value :: previous) s =
      if 8 ≤ grants s.call ∧ 8 ≤ s.left.length then
        let later := loadEach grants previous ⟨s.left.drop 8, s.call + 1⟩
        (later.1, clampParameter (wordOf 64 (s.left.take 8)) :: later.2)
      else (false, value :: previous) := by
  rw [loadEach]
  by_cases h : 8 ≤ grants s.call ∧ 8 ≤ s.left.length
  · rw [if_pos h, InStream.read_eq h.1 h.2]
    dsimp only
    rw [if_neg (by rw [List.length_take]; omega)]
  · rw [if_neg h]
    have hshort := s.length_read grants 8
    dsimp only
    rw [if_pos (by omega)]

theorem loadEach_fst (previous : List (BitVec 64)) (s : InStream) :
    (loadEach grants previous s).1 = true ↔ Whole grants s.call previous.length s.left := by
  induction previous generalizing s with
  | nil => exact iff_of_true rfl (whole_zero ..)
  | cons value previous ih =>
    rw [loadEach_cons, List.length_cons, whole_succ]
    by_cases h : 8 ≤ grants s.call ∧ 8 ≤ s.left.length
    · rw [if_pos h]
      dsimp only
      rw [ih]
      exact (and_iff_right h).symm
    · rw [if_neg h]
      exact iff_of_false Bool.false_ne_true fun hwhole => h hwhole.1

theorem loadEach_snd (previous : List (BitVec 64)) (s : InStream)
    (h : Whole grants s.call previous.length s.left) : (loadEach grants previous s).2 =
      (frontWords previous.length s.left).map clampParameter := by
  induction previous generalizing s with
  | nil => rfl
  | cons value previous ih =>
    rw [List.length_cons, whole_succ] at h
    rw [loadEach_cons, if_pos h.1, List.length_cons, frontWords, List.map_cons]
    dsimp only
    rw [ih _ h.2]

/-- **What was read is set**: nothing is lost where it was there already. -/
theorem loadEach_same (previous : List (BitVec 64)) (s : InStream) :
    (loadEach grants previous s).2 = previous ↔
      ∀ j value, previous[j]? = some value → Whole grants s.call (j + 1) s.left →
        clampParameter (wordOf 64 ((s.left.drop (8 * j)).take 8)) = value := by
  induction previous generalizing s with
  | nil => exact iff_of_true rfl nofun
  | cons first previous ih =>
    rw [loadEach_cons]
    by_cases h : 8 ≤ grants s.call ∧ 8 ≤ s.left.length
    · rw [if_pos h]
      dsimp only
      rw [List.cons.injEq, ih]
      constructor
      · rintro ⟨hfirst, hlater⟩ j value hvalue hwhole
        cases j with
        | zero =>
          obtain rfl := Option.some_inj.1 hvalue
          exact hfirst
        | succ j =>
          have := hlater j value hvalue (whole_succ.1 hwhole).2
          rwa [List.drop_drop, show 8 + 8 * j = 8 * (j + 1) by omega] at this
      · intro hall
        refine ⟨hall 0 first rfl (whole_succ.2 ⟨h, whole_zero ..⟩), fun j value hvalue hwhole => ?_⟩
        have := hall (j + 1) value hvalue (whole_succ.2 ⟨h, hwhole⟩)
        rwa [List.drop_drop, show 8 + 8 * j = 8 * (j + 1) by omega]
    · rw [if_neg h]
      exact iff_of_true rfl fun j value _ hwhole => absurd (whole_succ.1 hwhole).1 h

theorem refuses_of_length {header : Bytes} (h : header.length ≠ 8) :
    codec.refuses header = true := by
  simp [refuses, h]

/-- What a load comes to: the header decides, and then the words. -/
theorem stateLoad_eq (codec : WordCodec) (grants : Grants) (previous : List (BitVec 64))
    (bytes : Bytes) : codec.stateLoad grants previous bytes =
      if codec.refuses (bytes.take 8) = true ∨ ¬8 ≤ grants 0 then (false, previous)
      else loadEach grants previous ⟨bytes.drop 8, 1⟩ := by
  rw [stateLoad]
  by_cases hwhole : 8 ≤ grants 0 ∧ 8 ≤ bytes.length
  · rw [InStream.read_eq (s := ⟨bytes, 0⟩) hwhole.1 hwhole.2]
    simp [hwhole.1]
  · have hshort : (InStream.read grants ⟨bytes, 0⟩ 8).1.length ≠ 8 := by
      rw [InStream.length_read]
      dsimp only
      omega
    dsimp only
    rw [if_pos (refuses_of_length hshort), if_pos]
    by_cases hgrants : 8 ≤ grants 0
    · refine .inl (refuses_of_length ?_)
      rw [List.length_take]
      omega
    · exact .inr hgrants

/-- A failed load leaves the parameters: the header is refused, or the values read before the first
that was cut were there already. -/
def Keeps (codec : WordCodec) (previous : List (BitVec 64)) (bytes : Bytes) : Prop :=
  codec.refuses (bytes.take 8) = true ∨ 8 * (previous.length + 1) ≤ bytes.length ∨
    ∀ j value, previous[j]? = some value → 8 * (j + 2) ≤ bytes.length →
      clampParameter (wordOf 64 ((bytes.drop (8 * (j + 1))).take 8)) = value

/-- With whole words, a load fails where the bytes are refused or end too early. -/
theorem keeps_iff (hgrants : ∀ k ≤ previous.length, 8 ≤ grants k) :
    ((codec.stateLoad grants previous bytes).1 = false →
      (codec.stateLoad grants previous bytes).2 = previous) ↔ codec.Keeps previous bytes := by
  have hwhole {count : ℕ} (hcount : count ≤ previous.length) :
      Whole grants 1 count (bytes.drop 8) ↔ 8 * (count + 1) ≤ bytes.length ∨ count = 0 := by
    rw [Whole, List.length_drop]
    constructor
    · rintro ⟨-, hlength⟩
      omega
    · intro h
      exact ⟨fun k hk => hgrants (1 + k) (by omega), by omega⟩
  rw [stateLoad_eq, Keeps]
  by_cases hrefuses : codec.refuses (bytes.take 8) = true
  · rw [if_pos (.inl hrefuses)]
    exact iff_of_true (fun _ => rfl) (.inl hrefuses)
  rw [if_neg (by simpa [hrefuses] using hgrants 0 (Nat.zero_le _)), or_iff_right hrefuses,
    loadEach_same, Bool.eq_false_iff, Ne, loadEach_fst]
  dsimp only
  rw [hwhole le_rfl]
  -- bytes that are not refused have a whole header
  have henough : 8 ≤ bytes.length := by
    by_contra hshort
    exact hrefuses (refuses_of_length (by rw [List.length_take]; omega))
  have hvalues : (∀ j value, previous[j]? = some value → Whole grants 1 (j + 1) (bytes.drop 8) →
        clampParameter (wordOf 64 (((bytes.drop 8).drop (8 * j)).take 8)) = value) ↔
      ∀ j value, previous[j]? = some value → 8 * (j + 2) ≤ bytes.length →
        clampParameter (wordOf 64 ((bytes.drop (8 * (j + 1))).take 8)) = value := by
    refine forall_congr' fun j => forall_congr' fun value => forall_congr' fun hvalue => ?_
    have hj : j < previous.length := (List.getElem?_eq_some_iff.1 hvalue).1
    rw [hwhole hj, List.drop_drop, show 8 + 8 * j = 8 * (j + 1) by omega]
    exact imp_congr_left (by omega)
  rw [hvalues]
  have hsize : 8 * (previous.length + 1) ≤ bytes.length ∨ previous.length = 0 ↔
      8 * (previous.length + 1) ≤ bytes.length := by
    omega
  rw [hsize]
  exact or_iff_not_imp_left.symm

/-- **The words come back** when every call moves a whole one, and only then. -/
theorem comesBack_iff (codec : WordCodec) (grants into : Grants) (hvalues : InUnit values)
    (hlength : previous.length = values.length) :
    ((codec.stateSave grants values).1 = true ∧
      codec.stateLoad into previous (codec.stateSave grants values).2.written = (true, values)) ↔
      ∀ k ≤ values.length, 8 ≤ grants k ∧ 8 ≤ into k := by
  have hrefuses (rest : Bytes) :
      codec.refuses ((headerBytes codec.magic 1 ++ rest).take 8) = false := by
    rw [List.take_left' (length_headerBytes ..), refuses, magic_headerBytes, version_headerBytes]
    simp
  constructor
  · rintro ⟨hsaved, hrestored⟩ k hk
    have hgrants := (stateSave_iff codec values).1 hsaved
    refine ⟨hgrants k hk, ?_⟩
    rw [stateSave_written hgrants, stateLoad_eq] at hrestored
    split_ifs at hrestored with hrefused
    · cases hrestored
    · rw [not_or, not_not] at hrefused
      -- the header is the first call of the stream, and the values are those behind it
      have hwhole := (loadEach_fst previous _).1 (congrArg Prod.fst hrestored)
      cases k with
      | zero => exact hrefused.2
      | succ k =>
        have := hwhole.1 k (by omega)
        rwa [show k + 1 = 1 + k by omega]
  · intro hall
    have hgrants : ∀ k ≤ values.length, 8 ≤ grants k := fun k hk => (hall k hk).1
    refine ⟨(stateSave_iff codec values).2 hgrants, ?_⟩
    have hwhole : Whole into 1 previous.length (values.flatMap valueBytes) := by
      rw [Whole, length_flatMap_valueBytes, hlength]
      exact ⟨fun k hk => (hall (1 + k) (by omega)).2, le_rfl⟩
    rw [stateSave_written hgrants, stateLoad_eq, hrefuses,
      if_neg (by simpa using (hall 0 (Nat.zero_le _)).2),
      List.drop_left' (length_headerBytes ..)]
    refine Prod.ext ((loadEach_fst previous _).2 hwhole) ?_
    have hwords := frontWords_flatMap values []
    rw [List.append_nil] at hwords
    rw [loadEach_snd previous _ hwhole, hlength, hwords, map_clampParameter hvalues]

end WordCodec

namespace PianoState

variable {values previous : List (BitVec 64)} {bytes : Bytes}

/-- **Every byte is written**, a round at a time. -/
theorem writeAll_eq (hgrants : ∀ k, 0 < grants k) (fuel : ℕ) (data : Bytes) (s : OutStream)
    (hfuel : data.length ≤ fuel) : (writeAll grants fuel data s).1 = true ∧
      (writeAll grants fuel data s).2.written = s.written ++ data := by
  induction fuel generalizing data s with
  | zero =>
    obtain rfl := List.length_eq_zero_iff.1 (Nat.le_zero.1 hfuel)
    exact ⟨rfl, (List.append_nil _).symm⟩
  | succ fuel ih =>
    rw [writeAll]
    by_cases hempty : data.isEmpty = true
    · rw [if_pos hempty, List.isEmpty_iff.1 hempty, List.append_nil]
      exact ⟨rfl, rfl⟩
    have hmore : 0 < data.length := by
      rw [List.isEmpty_iff] at hempty
      exact List.length_pos_iff.2 hempty
    -- a call moves at least a byte, so there is less to write in the rounds that are left
    have hmoved := hgrants s.call
    rw [if_neg hempty, OutStream.write]
    dsimp only
    rw [if_neg (by omega)]
    obtain ⟨hdone, hwritten⟩ := ih (data.drop (min data.length (grants s.call)))
      ⟨s.written ++ data.take (min data.length (grants s.call)), s.call + 1⟩
      (by rw [List.length_drop]; omega)
    refine ⟨hdone, hwritten.trans ?_⟩
    rw [List.append_assoc, List.take_append_drop]

/-- **Every byte is read** that is asked for, where they are there. -/
theorem readAll_eq (hgrants : ∀ k, 0 < grants k) (fuel size : ℕ) (s : InStream)
    (hfuel : size ≤ fuel) (hleft : size ≤ s.left.length) :
    (readAll grants fuel size s).1 = some (s.left.take size) ∧
      (readAll grants fuel size s).2.left = s.left.drop size := by
  induction fuel generalizing size s with
  | zero =>
    obtain rfl := Nat.le_zero.1 hfuel
    exact ⟨rfl, rfl⟩
  | succ fuel ih =>
    rw [readAll]
    by_cases hnone : size = 0
    · subst hnone
      exact ⟨rfl, rfl⟩
    have hmoved := hgrants s.call
    rw [if_neg hnone, InStream.read]
    dsimp only
    set moved := min size (min (grants s.call) s.left.length) with hmovedEq
    have hlength : (s.left.take moved).length = moved := by
      rw [List.length_take]
      omega
    rw [hlength, if_neg (by omega)]
    obtain ⟨hread, hrest⟩ := ih (size - moved) ⟨s.left.drop moved, s.call + 1⟩ (by omega)
      (by rw [List.length_drop]; omega)
    rw [hread, hrest, Option.map_some]
    refine ⟨congrArg some ?_, ?_⟩
    · rw [← List.take_add, Nat.add_sub_cancel' (by omega)]
    · rw [List.drop_drop, Nat.add_sub_cancel' (by omega)]

theorem stateSave_eq (hgrants : ∀ k, 0 < grants k) (values : List (BitVec 64)) :
    (stateSave grants values).1 = true ∧ (stateSave grants values).2.written =
      headerBytes magic 2 ++ values.flatMap valueBytes :=
  writeAll_eq hgrants _ _ {} le_rfl

/-- **What was written is read back**, however few bytes a call moves. -/
theorem stateLoad_written (hgrants : ∀ k, 0 < grants k) (hvalues : InUnit values)
    (hlength : previous.length = values.length) :
    stateLoad grants previous (headerBytes magic 2 ++ values.flatMap valueBytes) =
      (true, values) := by
  have hheader := length_headerBytes magic 2
  have hbody := length_flatMap_valueBytes values
  set bytes := headerBytes magic 2 ++ values.flatMap valueBytes with hbytes
  obtain ⟨hread, hrest⟩ := readAll_eq hgrants 8 8 ⟨bytes, 0⟩ le_rfl
    (by rw [hbytes, List.length_append]; omega)
  rw [hbytes, List.take_left' hheader] at hread
  rw [hbytes, List.drop_left' hheader] at hrest
  obtain ⟨hwords, -⟩ := readAll_eq hgrants (8 * previous.length) (8 * previous.length)
    (readAll grants 8 8 ⟨bytes, 0⟩).2 le_rfl (by rw [hrest]; omega)
  rw [hrest, List.take_of_length_le (by omega)] at hwords
  rw [stateLoad]
  dsimp only
  rw [hread]
  dsimp only
  rw [magic_headerBytes, version_headerBytes, if_neg (by simp), if_neg (by simp),
    if_neg (by decide), hwords]
  have hfront := frontWords_flatMap values []
  rw [List.append_nil] at hfront
  dsimp only
  rw [hlength, hfront, setFirst, map_clampParameter hvalues, List.drop_of_length_le (by omega),
    List.append_nil]

/-- **A failed load sets nothing**: the values are set after all of them were read. -/
theorem stateLoad_fails (h : (stateLoad grants previous bytes).1 = false) :
    (stateLoad grants previous bytes).2 = previous := by
  rw [stateLoad] at h ⊢
  dsimp only at h ⊢
  cases hheader : (readAll grants 8 8 ⟨bytes, 0⟩).1 with
  | none => rfl
  | some header =>
    rw [hheader] at h
    dsimp only at h ⊢
    split_ifs at h ⊢
    · rfl
    · rfl
    · -- the values of the first version, then of the second
      split at h
      · rfl
      · cases h
    · split at h
      · rfl
      · cases h

end PianoState

/-! ### What is asked of a state -/

namespace StockCodec

/-- What is asked of a state: it comes back whole, and a load that fails changes nothing. -/
structure Survives (codec : StockCodec) (out into : ClapStream)
    (values previous : StockParameters codec) (bytes : Bytes) : Prop where
  saved : (codec.stateSave out.grants values.values).1 = true
  restored : codec.stateLoad into.grants previous.values
    (codec.stateSave out.grants values.values).2.written = (true, values.values)
  kept : (codec.stateLoad into.grants previous.values bytes).1 = false →
    (codec.stateLoad into.grants previous.values bytes).2 = previous.values

/-- Every call moves a whole word, and what is read before a cut was there already; nothing is
asked of the piano's streams. -/
def WholeWords (codec : StockCodec) (out into : ClapStream) (previous : StockParameters codec)
    (bytes : Bytes) : Prop :=
  match codec.words with
  | none => True
  | some words => (∀ call ≤ codec.parameters, 8 ≤ out.grants call ∧ 8 ≤ into.grants call) ∧
      words.Keeps previous.values bytes

theorem survives_words {codec : StockCodec} {words : WordCodec} (hwords : codec.words = some words)
    (out into : ClapStream) (values previous : StockParameters codec) (bytes : Bytes) :
    codec.Survives out into values previous bytes ↔
      (∀ call ≤ codec.parameters, 8 ≤ out.grants call ∧ 8 ≤ into.grants call) ∧
        words.Keeps previous.values bytes := by
  have hsave : codec.stateSave = words.stateSave := by
    funext grants values
    rw [stateSave, hwords]
  have hload : codec.stateLoad = words.stateLoad := by
    funext grants values bytes
    rw [stateLoad, hwords]
  have hrestored := words.comesBack_iff out.grants into.grants values.inUnit
    (previous.length_eq.trans values.length_eq.symm)
  rw [values.length_eq] at hrestored
  constructor
  · rintro ⟨hsaved, hback, hkept⟩
    rw [hsave] at hsaved hback
    rw [hload] at hback hkept
    have hgrants := hrestored.1 ⟨hsaved, hback⟩
    refine ⟨hgrants, (WordCodec.keeps_iff fun k hk => ?_).1 hkept⟩
    exact (hgrants k (hk.trans previous.length_eq.le)).2
  · rintro ⟨hgrants, hkeeps⟩
    obtain ⟨hsaved, hback⟩ := hrestored.2 hgrants
    refine ⟨by rwa [hsave], by rwa [hsave, hload], ?_⟩
    rw [hload]
    refine (WordCodec.keeps_iff fun k hk => ?_).2 hkeeps
    exact (hgrants k (hk.trans previous.length_eq.le)).2

/-- **A state survives its stream** where the instrument is the piano, or every call moves a whole
word and the parameters that a failed load had read were there already; and only then. -/
theorem survives_iff (codec : StockCodec) (out into : ClapStream)
    (values previous : StockParameters codec) (bytes : Bytes) :
    codec.Survives out into values previous bytes ↔
      codec.WholeWords out into previous bytes := by
  cases codec with
  | piano =>
    refine iff_of_true ?_ trivial
    obtain ⟨hsaved, hwritten⟩ := PianoState.stateSave_eq out.positive values.values
    refine ⟨hsaved, ?_, PianoState.stateLoad_fails⟩
    change PianoState.stateLoad _ _ (PianoState.stateSave _ _).2.written = _
    rw [hwritten]
    exact PianoState.stateLoad_written into.positive values.inUnit
      (previous.length_eq.trans values.length_eq.symm)
  | guitar => exact survives_words rfl out into values previous bytes
  | lowkey => exact survives_words rfl out into values previous bytes
  | synth => exact survives_words rfl out into values previous bytes

/-- A stream that moves a byte a call. -/
def byteByByte : ClapStream := ⟨fun _ => 1, fun _ => one_pos⟩

/-- A stream that moves all it is asked for, up to 64 bytes. -/
def generous : ClapStream := ⟨fun _ => 64, fun _ => by decide⟩

/-- Every parameter at the same end of its range. -/
def uniform (codec : StockCodec) (one : Bool) : StockParameters codec where
  values := .replicate codec.parameters (if one then 0x3FF0000000000000 else 0)
  length_eq := List.length_replicate ..
  inUnit value hvalue := by
    obtain rfl := (List.mem_replicate.1 hvalue).2
    cases one <;> decide +kernel

/-- **A guitar's state is lost** over a stream that moves a byte a call; and one that is cut after
its first value fails to load and sets that value. -/
theorem not_survives :
    ¬guitar.Survives byteByByte byteByByte (guitar.uniform true) (guitar.uniform false) [] ∧
    ¬guitar.Survives generous generous (guitar.uniform true) (guitar.uniform false)
      (headerBytes WordCodec.guitar.magic 1 ++ valueBytes 0x3FF0000000000000) := by
  constructor
  · intro h
    exact absurd h.saved (by decide)
  · intro h
    have hkept := congrArg List.head? (h.kept (by decide +kernel))
    exact absurd hkept (by decide +kernel)

end StockCodec

end OneBeat
