import OneBeat.Lib.ByteOrder
import OneBeat.Plugin.SamplerPlugin

/-!
# The built-in effects

`plugin/builtin/effects/effect_plugin.cpp`: what the built-in effects share, with the modulation and
the state that the mixer does not look at.  The processing of an effect is a parameter; of a double
the code compares, adds and copies the bits.

* `EffectPlugin.loadState_eq` : what a load does with the entries it finds.
* `EffectPlugin.allOrNothing_iff` : a load is all or nothing exactly when the bytes are not cut
  behind an entry that changed something.
-/

namespace OneBeat

/-! ### Doubles -/

/-- A double as the code compares it. -/
class DoubleOrder (V : Type) where
  lt : V → V → Bool
  lt_irrefl (v : V) : lt v v = false

/-- A double as the code adds modulation to it. -/
class DoubleSum (V : Type) where
  add : V → V → V
  /-- `value >= 0.5`. -/
  atLeastHalf : V → Bool

/-- A double as it is copied into bytes and out of them. -/
class DoubleBits (V : Type) where
  bits : V ≃ BitVec 64

namespace Double

/-- The value that a pattern of 64 bits stands for. -/
def ofBits (bits : BitVec 64) : Double :=
  let negative := bits.msb
  let exponent := (bits >>> 52 &&& 0x7FF).toNat
  let fraction := (bits &&& 0xFFFFFFFFFFFFF).toNat
  if exponent = 0x7FF then if fraction = 0 then .infinite negative else .nan
  else
    let magnitude : ℚ :=
      if exponent = 0 then fraction * twoPow (-1074)
      else (2 ^ 52 + fraction : ℕ) * twoPow (exponent - 1075)
    .finite (if negative then -magnitude else magnitude)

theorem lt_irrefl (v : Double) : v.lt v = false := by
  rcases v with q | (_ | _) | _ <;> simp [lt]

end Double

/-- Patterns of bits, compared as the doubles they are. -/
instance : DoubleOrder (BitVec 64) where
  lt v w := (Double.ofBits v).lt (.ofBits w)
  lt_irrefl _ := Double.lt_irrefl _

instance : DoubleBits (BitVec 64) where
  bits := .refl _

instance : DoubleOrder Double where
  lt := Double.lt
  lt_irrefl := Double.lt_irrefl

instance : DoubleSum Double where
  add := Double.add
  atLeastHalf v := Double.le (.finite (1 / 2)) v

instance : Narrow Double Double where
  narrow value := value

namespace Builtin

/-! ### Parameters -/

/-- What the code reads of the description of a parameter. -/
structure EffectParam (V : Type) where
  id : BitVec 32
  minValue : V
  maxValue : V
  defaultValue : V
  deriving DecidableEq

variable {V S F : Type}

def EffectParam.clamp [DoubleOrder V] (info : EffectParam V) (value : V) : V :=
  if DoubleOrder.lt value info.minValue then info.minValue
  else if DoubleOrder.lt info.maxValue value then info.maxValue else value

/-- A parameter and its value: what the user has set, and an offset that is never written back. -/
structure ParamSlot (V : Type) where
  info : EffectParam V
  base : V
  modulation : V
  deriving DecidableEq

/-- The range is one, and the value is in it. -/
structure ParamSlot.Settled [DoubleOrder V] (slot : ParamSlot V) : Prop where
  ordered : DoubleOrder.lt slot.info.maxValue slot.info.minValue = false
  clamped : slot.info.clamp slot.base = slot.base

def MaxEffectParams : ℕ := 12

def EffectParamBypass : BitVec 32 := 1

/-- An effect: its parameters, the first of them the bypass, and what its processing keeps. -/
@[ext] structure EffectPlugin (V S : Type) [DoubleOrder V] where
  slots : List (ParamSlot V)
  audio : S
  few : slots.length ≤ MaxEffectParams
  distinct : (slots.map fun slot => slot.info.id).Nodup
  settled : ∀ slot ∈ slots, slot.Settled

section

variable [DoubleOrder V]

theorem EffectParam.clamp_clamp {info : EffectParam V}
    (hordered : DoubleOrder.lt info.maxValue info.minValue = false) (value : V) :
    info.clamp (info.clamp value) = info.clamp value := by
  unfold EffectParam.clamp
  split_ifs with hmin hmax hmax' hmin' <;>
    simp_all [DoubleOrder.lt_irrefl]

/-- A value that was set is in the range. -/
theorem ParamSlot.Settled.set {slot : ParamSlot V} (h : slot.Settled) (value : V) :
    ParamSlot.Settled { slot with base := slot.info.clamp value } where
  ordered := h.ordered
  clamped := EffectParam.clamp_clamp h.ordered value

namespace EffectPlugin

/-- Change values; what a parameter is stays. -/
def mapSlots (p : EffectPlugin V S) (f : ParamSlot V → ParamSlot V)
    (hinfo : ∀ slot, (f slot).info = slot.info)
    (hsettled : ∀ slot : ParamSlot V, slot.Settled → (f slot).Settled) : EffectPlugin V S where
  slots := p.slots.map f
  audio := p.audio
  few := by
    rw [List.length_map]
    exact p.few
  distinct := by
    rw [List.map_map]
    exact (List.map_congr_left fun slot _ => congrArg EffectParam.id (hinfo slot)) ▸ p.distinct
  settled slot hslot := by
    obtain ⟨slot, hmem, rfl⟩ := List.mem_map.1 hslot
    exact hsettled slot (p.settled slot hmem)

/-- `values_[indexOf(id)].base = params_[indexOf(id)].clamp(value)`, where there is such a
parameter: no two have one id. -/
def setBase (p : EffectPlugin V S) (id : BitVec 32) (value : V) : EffectPlugin V S :=
  p.mapSlots (fun slot =>
      if slot.info.id = id then { slot with base := slot.info.clamp value } else slot)
    (fun slot => by split_ifs <;> rfl)
    (fun slot h => by
      split_ifs
      · exact h.set value
      · exact h)

def setModulation (p : EffectPlugin V S) (id : BitVec 32) (amount : V) : EffectPlugin V S :=
  p.mapSlots (fun slot => if slot.info.id = id then { slot with modulation := amount } else slot)
    (fun slot => by split_ifs <;> rfl)
    (fun slot h => by
      split_ifs
      · exact ⟨h.ordered, h.clamped⟩
      · exact h)

/-! ### Blocks -/

def applyEvent [Narrow V Double] (p : EffectPlugin V S) (event : PluginEvent) :
    EffectPlugin V S :=
  match event.type with
  | .paramValue => p.setBase (.ofNat 32 event.id) (narrow event.value)
  | .paramModulation => p.setModulation (.ofNat 32 event.id) (narrow event.value)
  | _ => p

/-- The value of the first parameter is at least a half. -/
def bypassed [DoubleSum V] (p : EffectPlugin V S) : Bool :=
  match p.slots.head? with
  | none => false
  | some slot =>
    DoubleSum.atLeastHalf (slot.info.clamp (DoubleSum.add slot.base slot.modulation))

/-- The processing of an effect: the output, the first frame and how many. -/
abbrev Dsp (V S F : Type) [DoubleOrder V] : Type :=
  EffectPlugin V S → AudioBuffer F → ℕ → ℕ → S × AudioBuffer F

/-- A round of the loop of `process`; bypassed frames stay as they came. -/
def moment [Narrow V Double] [DoubleSum V] (processAudio : Dsp V S F)
    (s : EffectPlugin V S × Option (AudioBuffer F)) : SamplerPlugin.Moment F →
    EffectPlugin V S × Option (AudioBuffer F)
  | .start io => (s.1, some io)
  | .render startFrame numFrames =>
    match s.2 with
    | none => s
    | some io =>
      if s.1.bypassed then s
      else
        let (audio, io) := processAudio s.1 io startFrame numFrames
        ({ s.1 with audio }, some io)
  | .apply event => (s.1.applyEvent event, s.2)

/-- The loop is the one of the sampler. -/
def process [Narrow V Double] [DoubleSum V] (processAudio : Dsp V S F) (p : EffectPlugin V S)
    (block : ProcessBlock F) :
    SamplerPlugin.ProcessStatus × EffectPlugin V S × Option (AudioBuffer F) :=
  (if block.output.isNone then .error else .continue,
    block.moments.foldl (moment processAudio) (p, none))

end EffectPlugin

end

/-! ### State -/

namespace EffectState

open ByteOrder

def StateMagic : BitVec 32 := 0x4F424658

def StateVersion : BitVec 32 := 1

abbrev Bytes := List (BitVec 8)

/-- `reader.read(&word, width)`: the word and the rest, if there are so many bytes. -/
def readWord (w width : ℕ) (bytes : Bytes) : Option (BitVec w × Bytes) :=
  if bytes.length < width then none
  else some (.ofNat w (readLittle (bytes.take width)), bytes.drop width)

theorem readWord_append {w width : ℕ} (hwidth : 8 ≤ w) (hbits : 256 ^ width = 2 ^ w)
    (word : BitVec w) (rest : Bytes) :
    readWord w width (littleEndian word width ++ rest) = some (word, rest) := by
  have hlength := length_littleEndian word width
  rw [readWord, if_neg (by rw [List.length_append]; omega), List.take_left' hlength,
    List.drop_left' hlength, readLittle_littleEndian hwidth, hbits,
    Nat.mod_eq_of_lt word.isLt, BitVec.ofNat_toNat, BitVec.setWidth_eq]

end EffectState

namespace EffectPlugin

open ByteOrder EffectState

variable [DoubleOrder V] [DoubleBits V]

/-- The bytes of an entry. -/
def entryBytes (entry : BitVec 32 × V) : Bytes :=
  littleEndian entry.1 4 ++ littleEndian (DoubleBits.bits entry.2) 8

/-- The bytes of a state with the entries. -/
def stateBytes (entries : List (BitVec 32 × V)) : Bytes :=
  littleEndian StateMagic 4 ++ littleEndian StateVersion 4 ++
    littleEndian (BitVec.ofNat 32 entries.length) 4 ++ entries.flatMap entryBytes

def entries (p : EffectPlugin V S) : List (BitVec 32 × V) :=
  p.slots.map fun slot => (slot.info.id, slot.base)

def saveState (p : EffectPlugin V S) : Bytes := stateBytes p.entries

/-- The loop of `loadState`: each entry is applied as it is read. -/
def loadEntries : ℕ → Bytes → EffectPlugin V S → Bool × EffectPlugin V S
  | 0, _, p => (true, p)
  | count + 1, bytes, p =>
    match readWord 32 4 bytes with
    | none => (false, p)
    | some (id, bytes) =>
      match readWord 64 8 bytes with
      | none => (false, p)
      | some (bits, bytes) =>
        loadEntries count bytes (p.setBase id (DoubleBits.bits.symm bits))

def loadState (p : EffectPlugin V S) (bytes : Bytes) : Bool × EffectPlugin V S :=
  match readWord 32 4 bytes with
  | none => (false, p)
  | some (magic, bytes) =>
    match readWord 32 4 bytes with
    | none => (false, p)
    | some (version, bytes) =>
      match readWord 32 4 bytes with
      | none => (false, p)
      | some (count, bytes) =>
        if magic ≠ StateMagic ∨ version ≠ StateVersion then (false, p)
        else loadEntries count.toNat bytes p

/-! ### What a load does -/

variable (V) in
/-- The whole entries at the front, up to a count, and whether they are that many. -/
def wholeEntries : ℕ → Bytes → List (BitVec 32 × V) × Bool
  | 0, _ => ([], true)
  | count + 1, bytes =>
    match readWord 32 4 bytes with
    | none => ([], false)
    | some (id, bytes) =>
      match readWord 64 8 bytes with
      | none => ([], false)
      | some (bits, bytes) =>
        let later := wholeEntries count bytes
        ((id, DoubleBits.bits.symm bits) :: later.1, later.2)

variable (V) in
/-- The entries that the bytes of a state hold and whether all are there; none for other bytes. -/
def parseState (bytes : Bytes) : Option (List (BitVec 32 × V) × Bool) :=
  match readWord 32 4 bytes with
  | none => none
  | some (magic, bytes) =>
    match readWord 32 4 bytes with
    | none => none
    | some (version, bytes) =>
      match readWord 32 4 bytes with
      | none => none
      | some (count, bytes) =>
        if magic ≠ StateMagic ∨ version ≠ StateVersion then none
        else some (wholeEntries V count.toNat bytes)

/-- What entries make of a value: the last one for the parameter counts. -/
def encodedBase (entries : List (BitVec 32 × V)) (slot : ParamSlot V) : V :=
  match (entries.filter fun entry => entry.1 = slot.info.id).getLast? with
  | none => slot.base
  | some entry => slot.info.clamp entry.2

/-- The values that entries make of those that are there. -/
def encoded (entries : List (BitVec 32 × V)) (slots : List (ParamSlot V)) : List (ParamSlot V) :=
  slots.map fun slot => { slot with base := encodedBase entries slot }

variable {p q : EffectPlugin V S} {entries : List (BitVec 32 × V)} {bytes : Bytes}

omit [DoubleBits V] in
theorem slots_setBase (p : EffectPlugin V S) (id : BitVec 32) (value : V) :
    (p.setBase id value).slots = p.slots.map fun slot =>
      if slot.info.id = id then { slot with base := slot.info.clamp value } else slot := rfl

omit [DoubleBits V] in
/-- An entry in front counts where no other one does. -/
theorem encodedBase_cons (id : BitVec 32) (value : V) (entries : List (BitVec 32 × V))
    (slot : ParamSlot V) : encodedBase ((id, value) :: entries) slot =
      encodedBase entries
        (if slot.info.id = id then { slot with base := slot.info.clamp value } else slot) := by
  by_cases hid : slot.info.id = id
  · rw [encodedBase, encodedBase, if_pos hid, List.filter_cons_of_pos (by simp [hid]),
      List.getLast?_cons]
    cases (entries.filter fun entry => entry.1 = slot.info.id).getLast? <;> rfl
  · rw [encodedBase, encodedBase, if_neg hid, List.filter_cons_of_neg (by simpa using Ne.symm hid)]

omit [DoubleBits V] in
theorem slots_foldl_setBase (entries : List (BitVec 32 × V)) (p : EffectPlugin V S) :
    (entries.foldl (fun p entry => p.setBase entry.1 entry.2) p).slots =
      encoded entries p.slots := by
  induction entries generalizing p with
  | nil =>
    have hsame (slot : ParamSlot V) : { slot with base := encodedBase [] slot } = slot := rfl
    rw [encoded, List.map_congr_left fun slot _ => hsame slot, List.map_id']
    rfl
  | cons entry entries ih =>
    rw [List.foldl_cons, ih, encoded, slots_setBase, List.map_map]
    refine List.map_congr_left fun slot _ => ?_
    rw [Function.comp_apply, encodedBase_cons]
    split_ifs <;> rfl

omit [DoubleBits V] in
theorem audio_foldl_setBase (entries : List (BitVec 32 × V)) (p : EffectPlugin V S) :
    (entries.foldl (fun p entry => p.setBase entry.1 entry.2) p).audio = p.audio := by
  induction entries generalizing p with
  | nil => rfl
  | cons entry entries ih => exact ih _

theorem loadEntries_eq (count : ℕ) (bytes : Bytes) (p : EffectPlugin V S) :
    loadEntries count bytes p = ((wholeEntries V count bytes).2,
      (wholeEntries V count bytes).1.foldl (fun p entry => p.setBase entry.1 entry.2) p) := by
  induction count generalizing bytes p with
  | zero => rfl
  | succ count ih =>
    rw [loadEntries, wholeEntries]
    split
    · rfl
    split
    · rfl
    · exact ih _ _

/-- **A load applies the whole entries it finds**, and succeeds when all are there. -/
theorem loadState_eq (p : EffectPlugin V S) (bytes : Bytes) : p.loadState bytes =
    match parseState V bytes with
    | none => (false, p)
    | some (entries, whole) =>
      (whole, entries.foldl (fun p entry => p.setBase entry.1 entry.2) p) := by
  rw [loadState, parseState]
  split
  · rfl
  split
  · rfl
  split
  · rfl
  split_ifs
  · rfl
  · exact loadEntries_eq _ _ _

/-! ### What a save writes -/

omit [DoubleOrder V] in
theorem wholeEntries_flatMap (entries : List (BitVec 32 × V)) (rest : Bytes) :
    wholeEntries V entries.length (entries.flatMap entryBytes ++ rest) = (entries, true) := by
  induction entries with
  | nil => rfl
  | cons entry entries ih =>
    rw [List.length_cons, List.flatMap_cons, entryBytes, List.append_assoc, List.append_assoc,
      wholeEntries, readWord_append (by decide) (by decide)]
    dsimp only
    rw [readWord_append (by decide) (by decide)]
    dsimp only
    rw [ih, Equiv.symm_apply_apply]

omit [DoubleOrder V] in
/-- **The entries of a state are read back.** -/
theorem parseState_stateBytes (hlength : entries.length < 2 ^ 32) :
    parseState V (stateBytes entries) = some (entries, true) := by
  have hcount : (BitVec.ofNat 32 entries.length).toNat = entries.length := by
    rw [BitVec.toNat_ofNat, Nat.mod_eq_of_lt hlength]
  rw [stateBytes, List.append_assoc, List.append_assoc, parseState,
    readWord_append (by decide) (by decide)]
  dsimp only
  rw [readWord_append (by decide) (by decide)]
  dsimp only
  rw [readWord_append (by decide) (by decide)]
  dsimp only
  rw [if_neg (by simp), hcount, ← List.append_nil (entries.flatMap entryBytes),
    wholeEntries_flatMap]

/-- What the parameters are, without their values. -/
def infos (p : EffectPlugin V S) : List (EffectParam V) := p.slots.map ParamSlot.info

def bases (p : EffectPlugin V S) : List V := p.slots.map ParamSlot.base

omit [DoubleOrder V] [DoubleBits V] in
theorem filter_entries {slots : List (ParamSlot V)} {slot : ParamSlot V}
    (hdistinct : (slots.map fun slot => slot.info.id).Nodup) (hslot : slot ∈ slots) :
    ((slots.map fun slot => (slot.info.id, slot.base)).filter fun entry =>
      entry.1 = slot.info.id) = [(slot.info.id, slot.base)] := by
  induction slots with
  | nil => cases hslot
  | cons first slots ih =>
    rw [List.map_cons, List.nodup_cons] at hdistinct
    rw [List.map_cons]
    rcases List.mem_cons.1 hslot with rfl | hslot
    · rw [List.filter_cons_of_pos (by simp), List.filter_eq_nil_iff.2]
      intro entry hentry hid
      obtain ⟨other, hother, rfl⟩ := List.mem_map.1 hentry
      exact hdistinct.1 (List.mem_map.2 ⟨other, hother, of_decide_eq_true hid⟩)
    · have hid : first.info.id ≠ slot.info.id := fun hid =>
        hdistinct.1 (List.mem_map.2 ⟨slot, hslot, hid.symm⟩)
      rw [List.filter_cons_of_neg (by simpa using hid), ih hdistinct.2 hslot]

omit [DoubleBits V] in
/-- The entry of a parameter gives its value. -/
theorem encodedBase_of_mem {slot slot' : ParamSlot V} (hslot : slot ∈ p.slots)
    (hinfo : slot'.info = slot.info) : encodedBase p.entries slot' = slot.base := by
  rw [encodedBase, hinfo, entries, filter_entries p.distinct hslot]
  exact (p.settled slot hslot).clamped

omit [DoubleBits V] in
theorem encodedBase_entries (hinfos : q.infos = p.infos) :
    (encoded p.entries q.slots).map ParamSlot.base = p.bases := by
  have hlength : q.slots.length = p.slots.length := by
    have := congrArg List.length hinfos
    rwa [infos, infos, List.length_map, List.length_map] at this
  refine List.ext_getElem (by simpa [encoded, bases] using hlength) fun i hi hi' => ?_
  have hp : i < p.slots.length := by simpa [bases] using hi'
  have hq : i < q.slots.length := hlength ▸ hp
  have hinfo : q.slots[i].info = p.slots[i].info := by
    have hi : i < q.infos.length := by rwa [infos, List.length_map]
    have hsame := List.getElem_of_eq hinfos hi
    simpa only [infos, List.getElem_map] using hsame
  simp only [encoded, bases, List.getElem_map]
  exact encodedBase_of_mem (List.getElem_mem hp) hinfo

/-- **What was saved gives the values back** to an effect of the same kind. -/
theorem loadState_saveState (hinfos : q.infos = p.infos) :
    (q.loadState p.saveState).1 = true ∧ (q.loadState p.saveState).2.bases = p.bases := by
  have hlength : p.entries.length < 2 ^ 32 := by
    have := p.few
    rw [entries, List.length_map]
    rw [MaxEffectParams] at this
    omega
  rw [loadState_eq, saveState, parseState_stateBytes hlength]
  refine ⟨rfl, ?_⟩
  dsimp only
  rw [bases, slots_foldl_setBase]
  exact encodedBase_entries hinfos

/-! ### All or nothing -/

/-- Either the load succeeds, and the parameters are what the bytes encode and what a save gives
back, or it fails and they are what they were. -/
structure AllOrNothing (p : EffectPlugin V S) (bytes : Bytes) : Prop where
  loaded : (p.loadState bytes).1 = true → ∃ entries, parseState V bytes = some (entries, true) ∧
    (p.loadState bytes).2.slots = encoded entries p.slots ∧
    ∀ q : EffectPlugin V S, q.infos = p.infos →
      (q.loadState (p.loadState bytes).2.saveState).1 = true ∧
        (q.loadState (p.loadState bytes).2.saveState).2.bases = (p.loadState bytes).2.bases
  failed : (p.loadState bytes).1 = false → (p.loadState bytes).2 = p

/-- The bytes are not cut behind an entry that says something else than the parameters do. -/
def CutSpares (p : EffectPlugin V S) (bytes : Bytes) : Prop :=
  ∀ entries, parseState V bytes = some (entries, false) →
    ∀ slot ∈ p.slots, encodedBase entries slot = slot.base

omit [DoubleBits V] in
theorem infos_foldl_setBase (entries : List (BitVec 32 × V)) (p : EffectPlugin V S) :
    (entries.foldl (fun p entry => p.setBase entry.1 entry.2) p).infos = p.infos := by
  rw [infos, slots_foldl_setBase, encoded, List.map_map]
  rfl

omit [DoubleBits V] in
/-- Entries that say what is there change nothing, and others do. -/
theorem foldl_setBase_eq_self_iff :
    entries.foldl (fun p entry => p.setBase entry.1 entry.2) p = p ↔
      ∀ slot ∈ p.slots, encodedBase entries slot = slot.base := by
  constructor
  · intro h slot hslot
    have hslots := slots_foldl_setBase entries p
    rw [h, encoded] at hslots
    have hsame := List.map_inj_left.1 (hslots.symm.trans (List.map_id' p.slots).symm) slot hslot
    exact congrArg ParamSlot.base hsame
  · intro h
    refine EffectPlugin.ext ?_ (audio_foldl_setBase entries p)
    rw [slots_foldl_setBase, encoded]
    refine (List.map_congr_left fun slot hslot => ?_).trans (List.map_id' p.slots)
    rw [h slot hslot]

/-- **A load is all or nothing** exactly when the bytes are not cut behind an entry that changed
something. -/
theorem allOrNothing_iff (p : EffectPlugin V S) (bytes : Bytes) :
    p.AllOrNothing bytes ↔ p.CutSpares bytes := by
  have hload := loadState_eq p bytes
  rcases hparse : parseState V bytes with _ | ⟨entries, whole⟩
  · rw [hparse] at hload
    refine iff_of_true ⟨fun h => ?_, fun _ => ?_⟩ fun entries hcut => ?_
    · rw [hload] at h
      cases h
    · rw [hload]
    · rw [hparse] at hcut
      cases hcut
  rw [hparse] at hload
  cases whole with
  | true =>
    refine iff_of_true ⟨fun _ => ⟨entries, hparse, ?_, fun q hq => ?_⟩, fun h => ?_⟩
      fun _ hcut => ?_
    · rw [hload]
      exact slots_foldl_setBase entries p
    · refine loadState_saveState (hq.trans ?_)
      rw [hload]
      exact (infos_foldl_setBase entries p).symm
    · rw [hload] at h
      cases h
    · rw [hparse] at hcut
      cases hcut
  | false =>
    have hfailed : (p.loadState bytes).1 = false := by rw [hload]
    constructor
    · intro h entries' hcut
      rw [hparse] at hcut
      cases hcut
      have hsame := h.failed hfailed
      rw [hload] at hsame
      exact foldl_setBase_eq_self_iff.1 hsame
    · intro h
      refine ⟨fun hok => ?_, fun _ => ?_⟩
      · rw [hfailed] at hok
        cases hok
      · rw [hload]
        exact foldl_setBase_eq_self_iff.2 (h entries hparse)

end EffectPlugin

/-! ### A state that is cut short -/

instance [DoubleOrder V] [DecidableEq V] (slot : ParamSlot V) : Decidable slot.Settled :=
  decidable_of_iff (DoubleOrder.lt slot.info.maxValue slot.info.minValue = false ∧
      slot.info.clamp slot.base = slot.base)
    ⟨fun h => ⟨h.1, h.2⟩, fun h => ⟨h.ordered, h.clamped⟩⟩

/-- The bypass, off. -/
def bypassParam : EffectParam (BitVec 64) := ⟨EffectParamBypass, 0, 0x3FF0000000000000, 0⟩

/-- The bypass and the parameters of an effect, at their defaults. -/
def declareParams (params : List (EffectParam (BitVec 64))) : List (ParamSlot (BitVec 64)) :=
  ((bypassParam :: params).take MaxEffectParams).map fun info => ⟨info, info.defaultValue, 0⟩

/-- The window from 0.05 to 4, the crossfade and the mix from 0 to 1. -/
def reverseParams : List (EffectParam (BitVec 64)) :=
  [⟨2, 0x3FA999999999999A, 0x4010000000000000, 0x3FE0000000000000⟩,
    ⟨3, 0, 0x3FF0000000000000, 0x3FC3333333333333⟩,
    ⟨4, 0, 0x3FF0000000000000, 0x3FF0000000000000⟩]

def reversePlugin : EffectPlugin (BitVec 64) Unit where
  slots := declareParams reverseParams
  audio := ()
  few := by decide
  distinct := by decide
  settled := by decide +kernel

/-- A state with the bypass on and another window, without its last byte. -/
def cutState : EffectState.Bytes :=
  (EffectPlugin.stateBytes
    [(1, (0x3FF0000000000000 : BitVec 64)), (2, 0x4010000000000000)]).dropLast

/-- **The load fails, and the effect is bypassed.** -/
theorem not_allOrNothing_cutState :
    (reversePlugin.loadState cutState).1 = false ∧
      (reversePlugin.loadState cutState).2.bases ≠ reversePlugin.bases ∧
      ¬reversePlugin.AllOrNothing cutState := by
  have hfailed : (reversePlugin.loadState cutState).1 = false := by decide +kernel
  have hchanged : (reversePlugin.loadState cutState).2.bases ≠ reversePlugin.bases := by
    decide +kernel
  exact ⟨hfailed, hchanged, fun h => hchanged (congrArg EffectPlugin.bases (h.failed hfailed))⟩

end Builtin

end OneBeat
