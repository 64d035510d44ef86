import OneBeat.Lib.ByteOrder
import OneBeat.Lib.ListParts
import OneBeat.Lib.RecordStream

/-!
# What the helper says

`plugin/scan/subprocess_probe.cpp`: the helper writes records into a pipe, and the scanner takes
them out of whatever the reads bring.

A descriptor crosses as raw bytes and is one here.  How the process ends, and what `probe` makes of
it, is not modelled: a run of the read loop is the chunks that were read and why the reading
stopped.  A read that is interrupted is made again, and is none.

* `parses_consumeRecords` : a call takes the whole records at the front.
* `readLoop_spec` : the read loop reads the bytes that came.
* `runHelper_of_flatten_eq` : so within the ceiling it does not matter how they were cut, and every
  record that was written whole is taken once.
* `runHelper_cut_shows` : what does depend on the cut.
-/

namespace OneBeat.Scan

open ByteOrder ListParts

/-! ### Records -/

inductive ScanPhase
  | none
  | spawn
  | load
  | enumerate
  | instantiate
  | done
  deriving DecidableEq

namespace ScanPhase

def all : List ScanPhase := [none, spawn, load, enumerate, instantiate, done]

def value (phase : ScanPhase) : ℕ := all.idxOf phase

/-- The phase of a value that is not beyond `Done`. -/
def ofValue (value : ℕ) : Option ScanPhase := all[value]?

theorem ofValue_value (phase : ScanPhase) : ofValue phase.value = some phase := by
  cases phase <;> rfl

theorem value_lt (phase : ScanPhase) : phase.value < 6 := by
  cases phase <;> decide

end ScanPhase

def ScanRecordMagic : BitVec 32 := 0x4E534250

/-- `sizeof(PluginDescriptor)`. -/
def ScanDescriptorSize : ℕ := 1256

/-- `sizeof(ScanRecordHeader)`. -/
def ScanHeaderSize : ℕ := 16

def MaxStreamBytes : ℕ := 4 * 1024 * 1024

structure ScanRecordHeader where
  magic : BitVec 32
  tag : BitVec 32
  size : BitVec 32
  reserved : BitVec 32 := 0

namespace ScanRecordHeader

def bytes (header : ScanRecordHeader) : List (BitVec 8) :=
  littleEndian header.magic 4 ++ littleEndian header.tag 4 ++ littleEndian header.size 4 ++
    littleEndian header.reserved 4

/-- The word at an offset. -/
def word (bytes : List (BitVec 8)) (offset : ℕ) : BitVec 32 :=
  .ofNat 32 (readLittle (slice bytes offset 4))

def read (bytes : List (BitVec 8)) : ScanRecordHeader where
  magic := word bytes 0
  tag := word bytes 4
  size := word bytes 8
  reserved := word bytes 12

end ScanRecordHeader

/-- A descriptor, as the bytes that cross. -/
def DescriptorBytes : Type := { bytes : List (BitVec 8) // bytes.length = ScanDescriptorSize }
  deriving DecidableEq

inductive ScanRecord
  | phase (phase : ScanPhase)
  | descriptor (descriptor : DescriptorBytes)
  | done
  deriving DecidableEq

/-- The descriptor of a record that has one. -/
def ScanRecord.descriptor? : ScanRecord → Option DescriptorBytes
  | .descriptor found => some found
  | _ => none

/-- What a header and its payload say; a descriptor of another size, a phase of another size or
beyond the last, and another tag say nothing. -/
def ScanRecordHeader.record? (header : ScanRecordHeader) (payload : List (BitVec 8)) :
    Option ScanRecord :=
  if header.tag = 1 then
    if header.size ≠ 4 then none
    else (ScanPhase.ofValue (ScanRecordHeader.word payload 0).toNat).map .phase
  else if header.tag = 2 then
    if h : payload.length = ScanDescriptorSize then some (.descriptor ⟨payload, h⟩) else none
  else if header.tag = 3 then some .done
  else none

/-- `writeRecord`, on the other side. -/
def writeRecord (tag : BitVec 32) (payload : List (BitVec 8)) : List (BitVec 8) :=
  ScanRecordHeader.bytes { magic := ScanRecordMagic, tag, size := .ofNat 32 payload.length } ++
    payload

def ScanRecord.write : ScanRecord → List (BitVec 8)
  | .phase entered => writeRecord 1 (littleEndian (BitVec.ofNat 32 entered.value) 4)
  | .descriptor found => writeRecord 2 found.1
  | .done => writeRecord 3 []

/-! ### The reader -/

/-- What one run of the helper taught. -/
structure HelperResult where
  descriptors : List DescriptorBytes := []
  phase : ScanPhase := .spawn
  sawDone : Bool := false
  streamOk : Bool := true
  timedOut : Bool := false
  deriving DecidableEq

def HelperResult.take (result : HelperResult) : ScanRecord → HelperResult
  | .phase phase => { result with phase }
  | .descriptor descriptor => { result with descriptors := result.descriptors ++ [descriptor] }
  | .done => { result with sawDone := true }

/-- The stream made no sense, or there was too much of it. -/
def HelperResult.refused (result : HelperResult) : HelperResult := { result with streamOk := false }

/-- What `consumeRecords` returns and what it did to its arguments. -/
structure Consumed where
  ok : Bool
  buffer : List (BitVec 8)
  result : HelperResult
  deriving DecidableEq

/-- The loop of `consumeRecords`: whether the stream makes sense, the offset and the result. -/
def consumeFrom (buffer : List (BitVec 8)) : ℕ → ℕ → HelperResult → Bool × ℕ × HelperResult
  | 0, offset, result => (true, offset, result)
  | fuel + 1, offset, result =>
    if buffer.length - offset < ScanHeaderSize then (true, offset, result)
    else
      let header := ScanRecordHeader.read (buffer.drop offset)
      if header.magic ≠ ScanRecordMagic then (false, offset, result)
      else if ScanDescriptorSize < header.size.toNat then (false, offset, result)
      else
        let total := ScanHeaderSize + header.size.toNat
        if buffer.length - offset < total then (true, offset, result)
        else
          match header.record? (slice buffer (offset + ScanHeaderSize) header.size.toNat) with
          | none => (false, offset, result)
          | some record => consumeFrom buffer fuel (offset + total) (result.take record)

/-- Where the stream makes no sense the buffer stays as it is. -/
def consumeRecords (buffer : List (BitVec 8)) (result : HelperResult) : Consumed :=
  let consumed := consumeFrom buffer buffer.length 0 result
  if consumed.1 then ⟨true, buffer.drop consumed.2.1, consumed.2.2⟩
  else ⟨false, buffer, consumed.2.2⟩

/-- Why the reading stopped: the helper closed the pipe, the time was up, or a call failed. -/
inductive Ending
  | closed
  | deadline
  | failed
  deriving DecidableEq

def HelperResult.ended (result : HelperResult) : Ending → HelperResult
  | .closed => result
  | .deadline => { result with timedOut := true }
  | .failed => result.refused

/-- The read loop of `runHelper`, and what is left in its buffer. -/
def readLoop (ending : Ending) : List (List (BitVec 8)) → ℕ → List (BitVec 8) → HelperResult →
    HelperResult × List (BitVec 8)
  | [], _, buffer, result => (result.ended ending, buffer)
  | chunk :: chunks, totalRead, buffer, result =>
    if MaxStreamBytes < totalRead + chunk.length then (result.refused, buffer)
    else
      let consumed := consumeRecords (buffer ++ chunk) result
      if !consumed.ok then (consumed.result.refused, consumed.buffer)
      else readLoop ending chunks (totalRead + chunk.length) consumed.buffer consumed.result

def runHelper (ending : Ending) (chunks : List (List (BitVec 8))) :
    HelperResult × List (BitVec 8) :=
  readLoop ending chunks 0 [] {}

/-! ### The stream -/

/-- What stands at the front, as the loop sees it. -/
def front (bytes : List (BitVec 8)) : StreamFront ScanRecord :=
  let header := ScanRecordHeader.read bytes
  if bytes.length < ScanHeaderSize then .short
  else if header.magic ≠ ScanRecordMagic ∨ ScanDescriptorSize < header.size.toNat then .broken
  else if bytes.length < ScanHeaderSize + header.size.toNat then .short
  else
    match header.record? (slice bytes ScanHeaderSize header.size.toNat) with
    | none => .broken
    | some record => .record record (ScanHeaderSize + header.size.toNat)

variable {bytes later buffer rest : List (BitVec 8)} {chunks chunks' : List (List (BitVec 8))}
  {result : HelperResult} {ending : Ending}

theorem read_append (h : ScanHeaderSize ≤ bytes.length) :
    ScanRecordHeader.read (bytes ++ later) = .read bytes := by
  rw [ScanHeaderSize] at h
  simp only [ScanRecordHeader.read, ScanRecordHeader.word]
  rw [slice_append_left (by omega), slice_append_left (by omega), slice_append_left (by omega),
    slice_append_left (by omega)]

/-- What comes later changes the answer only where it was too little. -/
theorem front_append (h : front bytes ≠ .short) (later : List (BitVec 8)) :
    front (bytes ++ later) = front bytes := by
  have hlength : bytes.length ≤ (bytes ++ later).length :=
    List.length_append ▸ Nat.le_add_right _ _
  unfold front at h ⊢
  by_cases hheader : bytes.length < ScanHeaderSize
  · exact absurd (if_pos hheader) h
  rw [if_neg hheader] at h ⊢
  rw [if_neg (fun hlt => hheader (hlength.trans_lt hlt)), read_append (not_lt.1 hheader)]
  split_ifs at h ⊢ with hbroken hlater hshort hshort
  · rfl
  · exact absurd rfl h
  · exact absurd (hlength.trans_lt hlater) hshort
  · exact absurd rfl h
  · rw [slice_append_left (not_lt.1 hshort)]

/-- The records of the pipe. -/
def stream : RecordStream (BitVec 8) ScanRecord where
  front := front
  size_le {bytes record size} h := by
    unfold front at h
    dsimp only at h
    split_ifs at h with hheader hbroken hshort
    split at h
    · cases h
    · obtain ⟨-, rfl⟩ := StreamFront.record.inj h
      exact ⟨Nat.add_pos_left (by decide) _, not_lt.1 hshort⟩
  broken_append {bytes} later h := by
    rw [front_append (by rw [h]; exact nofun), h]
  record_append {bytes record size} later h := by
    rw [front_append (by rw [h]; exact nofun), h]

/-! ### One call -/

/-- A round of the loop looks at the front. -/
theorem consumeFrom_succ (buffer : List (BitVec 8)) (fuel offset : ℕ) (result : HelperResult) :
    consumeFrom buffer (fuel + 1) offset result =
      match front (buffer.drop offset) with
      | .short => (true, offset, result)
      | .broken => (false, offset, result)
      | .record record size => consumeFrom buffer fuel (offset + size) (result.take record) := by
  have hslice (width : ℕ) : slice (buffer.drop offset) ScanHeaderSize width =
      slice buffer (offset + ScanHeaderSize) width := by
    rw [slice, slice, List.drop_drop]
  rw [consumeFrom, front, List.length_drop, hslice]
  dsimp only
  by_cases hheader : buffer.length - offset < ScanHeaderSize
  · rw [if_pos hheader, if_pos hheader]
  rw [if_neg hheader, if_neg hheader]
  by_cases hmagic : (ScanRecordHeader.read (buffer.drop offset)).magic ≠ ScanRecordMagic
  · rw [if_pos hmagic, if_pos (.inl hmagic)]
  by_cases hsize : ScanDescriptorSize < (ScanRecordHeader.read (buffer.drop offset)).size.toNat
  · rw [if_neg hmagic, if_pos hsize, if_pos (.inr hsize)]
  rw [if_neg hmagic, if_neg hsize, if_neg (not_or.2 ⟨hmagic, hsize⟩)]
  split_ifs
  · rfl
  · cases ScanRecordHeader.record? _ _ <;> rfl

/-- With fuel for the bytes that are there the loop ends where no whole record is left, or where
the stream makes no sense. -/
theorem parses_consumeFrom (buffer : List (BitVec 8)) (fuel offset : ℕ) (result : HelperResult)
    (hfuel : buffer.length - offset ≤ fuel) :
    ∃ records, stream.Parses (buffer.drop offset) records
        (if (consumeFrom buffer fuel offset result).1 then
          some (buffer.drop (consumeFrom buffer fuel offset result).2.1) else none) ∧
      (consumeFrom buffer fuel offset result).2.2 = records.foldl .take result := by
  induction fuel generalizing offset result with
  | zero =>
    refine ⟨[], .short ?_, rfl⟩
    change front _ = _
    rw [front, if_pos]
    rw [List.length_drop, Nat.le_zero.1 hfuel]
    decide
  | succ fuel ih =>
    rw [consumeFrom_succ]
    cases hfront : front (buffer.drop offset) with
    | short => exact ⟨[], .short hfront, rfl⟩
    | broken => exact ⟨[], .broken hfront, rfl⟩
    | record record size =>
      have hsize := stream.size_le hfront
      rw [List.length_drop] at hsize
      obtain ⟨records, hparses, hresult⟩ := ih (offset + size) (result.take record)
        (by omega)
      refine ⟨record :: records, .record hfront ?_, hresult⟩
      rw [List.drop_drop]
      exact hparses

/-- **A call takes the whole records at the front**, and leaves what is not whole. -/
theorem parses_consumeRecords (buffer : List (BitVec 8)) (result : HelperResult) :
    ∃ records, stream.Parses buffer records
        (if (consumeRecords buffer result).ok then some (consumeRecords buffer result).buffer
          else none) ∧
      (consumeRecords buffer result).result = records.foldl .take result := by
  obtain ⟨records, hparses, hresult⟩ := parses_consumeFrom buffer buffer.length 0 result
    (Nat.sub_le _ _)
  refine ⟨records, ?_⟩
  by_cases hok : (consumeFrom buffer buffer.length 0 result).1 = true
  · have hconsumed : consumeRecords buffer result = ⟨true,
        buffer.drop (consumeFrom buffer buffer.length 0 result).2.1,
        (consumeFrom buffer buffer.length 0 result).2.2⟩ := if_pos hok
    rw [if_pos hok] at hparses
    rw [hconsumed]
    exact ⟨hparses, hresult⟩
  · have hconsumed : consumeRecords buffer result = ⟨false, buffer,
        (consumeFrom buffer buffer.length 0 result).2.2⟩ := if_neg hok
    rw [if_neg hok] at hparses
    rw [hconsumed]
    exact ⟨hparses, hresult⟩

/-! ### The read loop -/

/-- Each descriptor is reported once, in order. -/
theorem descriptors_foldl_take (records : List ScanRecord) (result : HelperResult) :
    (records.foldl HelperResult.take result).descriptors =
      result.descriptors ++ records.filterMap ScanRecord.descriptor? := by
  induction records generalizing result with
  | nil => rw [List.filterMap_nil, List.append_nil, List.foldl_nil]
  | cons record records ih =>
    rw [List.foldl_cons, ih]
    cases record with
    | phase | done =>
      rw [List.filterMap_cons_none (by rfl)]
      rfl
    | descriptor found =>
      have hfound : ScanRecord.descriptor? (.descriptor found) = some found := rfl
      rw [List.filterMap_cons_some hfound, HelperResult.take, List.append_assoc,
        List.singleton_append]

theorem readLoop_over (ending : Ending) {chunk : List (BitVec 8)}
    (chunks : List (List (BitVec 8))) {totalRead : ℕ} (buffer : List (BitVec 8))
    (result : HelperResult) (h : MaxStreamBytes < totalRead + chunk.length) :
    readLoop ending (chunk :: chunks) totalRead buffer result = (result.refused, buffer) :=
  if_pos h

theorem readLoop_taken (ending : Ending) {chunk left : List (BitVec 8)}
    (chunks : List (List (BitVec 8))) {totalRead : ℕ} {next : HelperResult}
    (h : ¬MaxStreamBytes < totalRead + chunk.length)
    (hconsumed : consumeRecords (buffer ++ chunk) result = ⟨true, left, next⟩) :
    readLoop ending (chunk :: chunks) totalRead buffer result =
      readLoop ending chunks (totalRead + chunk.length) left next := by
  rw [readLoop, if_neg h, hconsumed]
  rfl

/-- **The loop reads the bytes that came**, however they were cut. -/
theorem readLoop_spec (ending : Ending) (chunks : List (List (BitVec 8))) (totalRead : ℕ)
    (buffer : List (BitVec 8)) (result : HelperResult) (hfront : front buffer = .short)
    (hmax : totalRead + chunks.flatten.length ≤ MaxStreamBytes) :
    ∃ records, (stream.Parses (buffer ++ chunks.flatten) records none ∧
        (readLoop ending chunks totalRead buffer result).1 =
          (records.foldl HelperResult.take result).refused) ∨
      ∃ rest, stream.Parses (buffer ++ chunks.flatten) records (some rest) ∧
        readLoop ending chunks totalRead buffer result =
          ((records.foldl HelperResult.take result).ended ending, rest) := by
  induction chunks generalizing totalRead buffer result with
  | nil =>
    refine ⟨[], .inr ⟨buffer, ?_, rfl⟩⟩
    rw [List.flatten_nil, List.append_nil]
    exact .short hfront
  | cons chunk chunks ih =>
    rw [List.flatten_cons, List.length_append] at hmax
    obtain ⟨records, hparses, hresult⟩ := parses_consumeRecords (buffer ++ chunk) result
    rw [List.flatten_cons, ← List.append_assoc, readLoop, if_neg (by omega)]
    dsimp only
    cases hok : (consumeRecords (buffer ++ chunk) result).ok with
    | false =>
      rw [hok] at hparses
      refine ⟨records, .inl ⟨hparses.append_broken _, ?_⟩⟩
      rw [hresult]
      rfl
    | true =>
      rw [hok, if_pos rfl] at hparses
      rw [hresult, Bool.not_true, if_neg Bool.false_ne_true]
      obtain ⟨records', hbroken | ⟨rest, hrest, hloop⟩⟩ := ih
        (totalRead + chunk.length) _ (records.foldl .take result) hparses.front_left (by omega)
      · refine ⟨records ++ records', .inl ⟨hparses.append hbroken.1, ?_⟩⟩
        rw [List.foldl_append, hbroken.2]
      · refine ⟨records ++ records', .inr ⟨rest, hparses.append hrest, ?_⟩⟩
        rw [List.foldl_append, hloop]

/-- Beyond the ceiling the stream is refused. -/
theorem streamOk_readLoop_of_lt {chunks : List (List (BitVec 8))} {totalRead : ℕ}
    {buffer : List (BitVec 8)} {result : HelperResult} (htotal : totalRead ≤ MaxStreamBytes)
    (hmax : MaxStreamBytes < totalRead + chunks.flatten.length) :
    (readLoop ending chunks totalRead buffer result).1.streamOk = false := by
  induction chunks generalizing totalRead buffer result with
  | nil =>
    rw [List.flatten_nil, List.length_nil] at hmax
    omega
  | cons chunk chunks ih =>
    rw [List.flatten_cons, List.length_append] at hmax
    rw [readLoop]
    dsimp only
    split_ifs with hover hbroken
    · rfl
    · rfl
    · exact ih (by omega) (by omega)

/-! ### Writing and reading -/

theorem word_littleEndian (value : BitVec 32) (later : List (BitVec 8)) :
    ScanRecordHeader.word (littleEndian value 4 ++ later) 0 = value := by
  rw [ScanRecordHeader.word, slice, List.drop_zero, List.take_left' (length_littleEndian value 4),
    readLittle_littleEndian (by decide)]
  refine BitVec.eq_of_toNat_eq ?_
  rw [BitVec.toNat_ofNat]
  have := value.isLt
  omega

theorem word_append {before : List (BitVec 8)} {offset : ℕ} (h : before.length = offset)
    (later : List (BitVec 8)) (start : ℕ) :
    ScanRecordHeader.word (before ++ later) (offset + start) =
      ScanRecordHeader.word later start := by
  subst h
  rw [ScanRecordHeader.word, ScanRecordHeader.word, slice_append_right]

theorem read_bytes (header : ScanRecordHeader) (later : List (BitVec 8)) :
    ScanRecordHeader.read (header.bytes ++ later) = header := by
  obtain ⟨magic, tag, size, reserved⟩ := header
  have hlength (value : BitVec 32) : (littleEndian value 4).length = 4 :=
    length_littleEndian value 4
  simp only [ScanRecordHeader.read, ScanRecordHeader.bytes, List.append_assoc,
    ScanRecordHeader.mk.injEq]
  refine ⟨word_littleEndian _ _, ?_, ?_, ?_⟩
  · exact (word_append (hlength _) _ 0).trans (word_littleEndian _ _)
  · exact (word_append (hlength _) _ 4).trans
      ((word_append (hlength _) _ 0).trans (word_littleEndian _ _))
  · exact (word_append (hlength _) _ 8).trans ((word_append (hlength _) _ 4).trans
      ((word_append (hlength _) _ 0).trans (word_littleEndian _ _)))

theorem length_bytes (header : ScanRecordHeader) : header.bytes.length = ScanHeaderSize := by
  simp [ScanRecordHeader.bytes, ScanHeaderSize]

theorem record?_phase {header : ScanRecordHeader} {payload : List (BitVec 8)}
    (htag : header.tag = 1) (hsize : header.size = 4) : header.record? payload =
      (ScanPhase.ofValue (ScanRecordHeader.word payload 0).toNat).map .phase := by
  rw [ScanRecordHeader.record?, if_pos htag, if_neg (not_not.2 hsize)]

theorem record?_descriptor (header : ScanRecordHeader) (htag : header.tag = 2)
    (found : DescriptorBytes) : header.record? found.1 = some (.descriptor found) := by
  have hphase : ¬header.tag = 1 := by
    rw [htag]
    decide
  rw [ScanRecordHeader.record?, if_neg hphase, if_pos htag, dif_pos found.2]
  rfl

theorem record?_done (header : ScanRecordHeader) (htag : header.tag = 3)
    (payload : List (BitVec 8)) : header.record? payload = some .done := by
  have hphase : ¬header.tag = 1 := by
    rw [htag]
    decide
  have hdescriptor : ¬header.tag = 2 := by
    rw [htag]
    decide
  rw [ScanRecordHeader.record?, if_neg hphase, if_neg hdescriptor, if_pos htag]

/-- A header is found with its payload. -/
theorem front_writeRecord {tag : BitVec 32} {payload : List (BitVec 8)} {record : ScanRecord}
    (hpayload : payload.length ≤ ScanDescriptorSize)
    (hrecord : ScanRecordHeader.record? { magic := ScanRecordMagic, tag
                                          size := .ofNat 32 payload.length } payload =
      some record) :
    front (writeRecord tag payload) = .record record (writeRecord tag payload).length := by
  have hsize : (BitVec.ofNat 32 payload.length).toNat = payload.length := by
    rw [BitVec.toNat_ofNat, Nat.mod_eq_of_lt]
    rw [ScanDescriptorSize] at hpayload
    omega
  have hslice : slice (writeRecord tag payload) ScanHeaderSize payload.length = payload := by
    rw [slice, writeRecord, List.drop_left' (length_bytes _), List.take_length]
  have hlength : (writeRecord tag payload).length = ScanHeaderSize + payload.length := by
    rw [writeRecord, List.length_append, length_bytes]
  rw [front, hlength, if_neg (by omega)]
  rw [writeRecord, read_bytes] at *
  dsimp only
  rw [hsize, if_neg (by simp [hpayload]), if_neg (lt_irrefl _), hslice, hrecord]

theorem front_phase (entered : ScanPhase) :
    front (writeRecord 1 (littleEndian (BitVec.ofNat 32 entered.value) 4)) = .record
      (.phase entered) (writeRecord 1 (littleEndian (BitVec.ofNat 32 entered.value) 4)).length := by
  have hword := word_littleEndian (BitVec.ofNat 32 entered.value) []
  have hvalue : (BitVec.ofNat 32 entered.value).toNat = entered.value := by
    rw [BitVec.toNat_ofNat, Nat.mod_eq_of_lt]
    have := entered.value_lt
    omega
  have hlength := length_littleEndian (BitVec.ofNat 32 entered.value) 4
  have hsmall : (littleEndian (BitVec.ofNat 32 entered.value) 4).length ≤ ScanDescriptorSize := by
    rw [hlength]
    decide
  rw [List.append_nil] at hword
  refine front_writeRecord hsmall ?_
  rw [record?_phase rfl (by rw [hlength]; rfl), hword, hvalue, ScanPhase.ofValue_value,
    Option.map_some]

theorem front_descriptor (found : DescriptorBytes) : front (writeRecord 2 found.1) =
    .record (.descriptor found) (writeRecord 2 found.1).length := by
  have hrecord := record?_descriptor ⟨ScanRecordMagic, 2, .ofNat 32 found.1.length, 0⟩ rfl found
  exact front_writeRecord found.2.le hrecord

theorem front_done : front (writeRecord 3 []) = .record .done (writeRecord 3 []).length := by
  have hrecord := record?_done ⟨ScanRecordMagic, 3, .ofNat 32 ([] : List (BitVec 8)).length, 0⟩
    rfl []
  exact front_writeRecord (Nat.zero_le _) hrecord

theorem writes_of {record : ScanRecord} (hwrite : record.write = bytes)
    (hfront : front bytes = .record record bytes.length) :
    stream.Writes ScanRecord.write record := by
  rw [RecordStream.Writes, hwrite]
  exact hfront

theorem writes (record : ScanRecord) : stream.Writes ScanRecord.write record := by
  cases record with
  | phase entered => exact writes_of rfl (front_phase entered)
  | descriptor found => exact writes_of rfl (front_descriptor found)
  | done => exact writes_of rfl front_done

/-- What was written whole, and part of another record behind it. -/
theorem parses_write (records : List ScanRecord) {next : ScanRecord}
    (hpart : rest <+: next.write) (hlength : rest.length < next.write.length) :
    stream.Parses (records.flatMap ScanRecord.write ++ rest) records (some rest) :=
  RecordStream.parses_flatMap (fun record _ => writes record)
    ((writes next).front_part hpart hlength)

/-! ### However it is cut -/

theorem front_nil : front [] = .short := by
  rw [front, if_pos (by decide)]

/-- **Within the ceiling the result is the same however the bytes were cut**, and so is what is left
where the stream makes sense; beyond it the stream is refused however it was cut; and every record
that was written whole is taken exactly once. -/
theorem runHelper_of_flatten_eq (ending : Ending) (chunks chunks' : List (List (BitVec 8)))
    (hsame : chunks.flatten = chunks'.flatten) :
    (chunks.flatten.length ≤ MaxStreamBytes →
      (runHelper ending chunks).1 = (runHelper ending chunks').1 ∧
      ((runHelper .closed chunks).1.streamOk = true →
        (runHelper ending chunks).2 = (runHelper ending chunks').2) ∧
      ∀ (records : List ScanRecord) (rest : List (BitVec 8)) (next : ScanRecord),
        chunks.flatten = records.flatMap ScanRecord.write ++ rest → rest <+: next.write →
        rest.length < next.write.length →
        runHelper ending chunks = ((records.foldl HelperResult.take {}).ended ending, rest) ∧
        (runHelper ending chunks).1.descriptors = records.filterMap ScanRecord.descriptor?) ∧
    (MaxStreamBytes < chunks.flatten.length →
      (runHelper ending chunks).1.streamOk = false ∧
        (runHelper ending chunks').1.streamOk = false) := by
  have hspec (ending : Ending) {chunks : List (List (BitVec 8))}
      (hmax : chunks.flatten.length ≤ MaxStreamBytes) :=
    readLoop_spec ending chunks 0 [] {} front_nil (by rwa [Nat.zero_add])
  refine ⟨fun hmax => ⟨?_, fun hok => ?_, fun records rest next hflatten hpart hlength => ?_⟩,
    fun hmax => ⟨?_, ?_⟩⟩
  · -- one stream is read, and it reads as one list of records
    obtain ⟨records, ⟨hparses, hloop⟩ | ⟨rest, hparses, hloop⟩⟩ := hspec ending hmax
    · obtain ⟨records', ⟨hparses', hloop'⟩ | ⟨rest', hparses', -⟩⟩ := hspec ending (hsame ▸ hmax)
      · rw [← hsame] at hparses'
        obtain ⟨rfl, -⟩ := hparses.unique hparses'
        exact hloop.trans hloop'.symm
      · rw [← hsame] at hparses'
        cases (hparses.unique hparses').2
    · obtain ⟨records', ⟨hparses', -⟩ | ⟨rest', hparses', hloop'⟩⟩ := hspec ending (hsame ▸ hmax)
      · rw [← hsame] at hparses'
        cases (hparses.unique hparses').2
      · rw [← hsame] at hparses'
        obtain ⟨rfl, -⟩ := hparses.unique hparses'
        rw [runHelper, runHelper, hloop, hloop']
  · obtain ⟨records, ⟨-, hloop⟩ | ⟨rest, hparses, -⟩⟩ := hspec .closed hmax
    · rw [runHelper, hloop] at hok
      cases hok
    obtain ⟨_, ⟨hbroken, -⟩ | ⟨_, hrest, hloop⟩⟩ := hspec ending hmax
    · cases (hparses.unique hbroken).2
    obtain ⟨_, ⟨hbroken, -⟩ | ⟨_, hrest', hloop'⟩⟩ := hspec ending (hsame ▸ hmax)
    · rw [← hsame] at hbroken
      cases (hparses.unique hbroken).2
    rw [← hsame] at hrest'
    obtain ⟨-, hleft⟩ := hrest.unique hrest'
    rw [runHelper, runHelper, hloop, hloop']
    exact Option.some_inj.1 hleft
  · have hwritten := parses_write records hpart hlength
    rw [← hflatten] at hwritten
    obtain ⟨records', ⟨hbroken, -⟩ | ⟨rest', hparses, hloop⟩⟩ := hspec ending hmax
    · cases (hwritten.unique hbroken).2
    obtain ⟨rfl, hleft⟩ := hwritten.unique hparses
    obtain rfl := Option.some_inj.1 hleft
    have hrun : runHelper ending chunks =
        ((records.foldl HelperResult.take {}).ended ending, rest) := hloop
    refine ⟨hrun, ?_⟩
    rw [hrun]
    have hended : ((records.foldl HelperResult.take {}).ended ending).descriptors =
        (records.foldl HelperResult.take {}).descriptors := by
      cases ending <;> rfl
    exact hended.trans (descriptors_foldl_take records {})
  · exact streamOk_readLoop_of_lt (Nat.zero_le _) (by rwa [Nat.zero_add])
  · exact streamOk_readLoop_of_lt (Nat.zero_le _) (by rwa [Nat.zero_add, ← hsame])

/-- A phase, cut behind its first byte. -/
theorem runHelper_of_flatten_eq_phase :
    (runHelper .closed [[0x50], (ScanRecord.phase .load).write.tail]).1.descriptors = [] := by
  have hlength : [ScanRecord.phase .load].flatMap ScanRecord.write ++ [] =
      (ScanRecord.phase .load).write := by decide
  exact (((runHelper_of_flatten_eq .closed [[0x50], (ScanRecord.phase .load).write.tail]
    [(ScanRecord.phase .load).write] (by decide)).1 (by decide)).2.2 [.phase .load] [] .done
    (by decide) List.nil_prefix (by decide)).2

/-! ### Where the cut shows -/

/-- What was written whole is consumed. -/
theorem consumeRecords_write (records : List ScanRecord) (next : ScanRecord)
    (hpart : rest <+: next.write) (hlength : rest.length < next.write.length) :
    consumeRecords (records.flatMap ScanRecord.write ++ rest) result =
      ⟨true, rest, records.foldl .take result⟩ := by
  obtain ⟨records', hparses, hresult⟩ :=
    parses_consumeRecords (records.flatMap ScanRecord.write ++ rest) result
  obtain ⟨rfl, hleft⟩ := (parses_write records hpart hlength).unique hparses
  rcases hconsumed : consumeRecords (records.flatMap ScanRecord.write ++ rest) result with
    ⟨ok, buffer, result'⟩
  rw [hconsumed] at hleft hresult
  cases ok with
  | false => cases hleft
  | true =>
    obtain rfl := Option.some_inj.1 hleft
    exact congrArg (Consumed.mk true rest) hresult

/-- 4096 bytes that say that the probing is done, again and again. -/
@[irreducible] def doneChunk : List (BitVec 8) :=
  (List.replicate 256 ScanRecord.done).flatMap ScanRecord.write

theorem length_doneChunk : doneChunk.length = 4096 := by decide +kernel

theorem phase_foldl_done (count : ℕ) (result : HelperResult) :
    ((List.replicate count ScanRecord.done).foldl .take result).phase = result.phase := by
  induction count generalizing result with
  | zero => rfl
  | succ count ih => rw [List.replicate_succ, List.foldl_cons, ih, HelperResult.take]

/-- Such chunks leave the phase and the buffer as they are. -/
theorem readLoop_replicate (ending : Ending) (chunks : List (List (BitVec 8)))
    (result : HelperResult) (count totalRead : ℕ)
    (hmax : totalRead + count * 4096 ≤ MaxStreamBytes) : ∃ result', result'.phase = result.phase ∧
      readLoop ending (List.replicate count doneChunk ++ chunks) totalRead [] result =
        readLoop ending chunks (totalRead + count * 4096) [] result' := by
  induction count generalizing totalRead result with
  | zero => exact ⟨result, rfl, by rw [Nat.zero_mul]; rfl⟩
  | succ count ih =>
    obtain ⟨result', hphase, hloop⟩ := ih
      ((List.replicate 256 ScanRecord.done).foldl .take result) (totalRead + 4096) (by omega)
    have hconsumed : consumeRecords ([] ++ doneChunk) result =
        ⟨true, [], (List.replicate 256 ScanRecord.done).foldl .take result⟩ := by
      rw [List.nil_append, doneChunk, ← List.append_nil (List.flatMap _ _)]
      exact consumeRecords_write _ .done List.nil_prefix (by decide)
    have hnext := phase_foldl_done 256 result
    generalize (List.replicate 256 ScanRecord.done).foldl HelperResult.take result = next at *
    refine ⟨result', hphase.trans hnext, ?_⟩
    rw [List.replicate_succ, List.cons_append, readLoop, length_doneChunk, if_neg (by omega),
      hconsumed]
    refine hloop.trans ?_
    rw [show totalRead + 4096 + count * 4096 = totalRead + (count + 1) * 4096 by ring]

/-- The last chunk below the ceiling: a phase, then what ends inside a record. -/
@[irreducible] def lastChunk : List (BitVec 8) :=
  (.phase .load :: List.replicate 254 ScanRecord.done).flatMap ScanRecord.write ++
    ScanRecord.done.write.take 12

theorem length_lastChunk : lastChunk.length = 4096 := by decide +kernel

/-- The cut before the last 4096 bytes, and the cut one byte later. -/
def earlyCut : List (List (BitVec 8)) := List.replicate 1023 doneChunk ++ [lastChunk, [0]]

def lateCut : List (List (BitVec 8)) :=
  List.replicate 1023 doneChunk ++ [[0x50], lastChunk.tail ++ [0]]

theorem head_lastChunk : lastChunk.head? = some 0x50 := by decide +kernel

theorem length_tail_lastChunk : (lastChunk.tail ++ [0]).length = 4096 := by
  rw [List.length_append, List.length_tail, length_lastChunk, List.length_singleton]

theorem flatten_earlyCut : earlyCut.flatten = lateCut.flatten := by
  have hhead := head_lastChunk
  rw [earlyCut, lateCut, List.flatten_append, List.flatten_append]
  refine congrArg _ ?_
  cases hlast : lastChunk with
  | nil =>
    rw [hlast] at hhead
    cases hhead
  | cons byte bytes =>
    rw [hlast, List.head?_cons, Option.some_inj] at hhead
    rw [hhead]
    simp

theorem length_of_mem_cut {chunk : List (BitVec 8)} (h : chunk ∈ earlyCut ++ lateCut) :
    0 < chunk.length ∧ chunk.length ≤ 4096 := by
  simp only [earlyCut, lateCut, List.mem_append, List.mem_replicate, List.mem_cons,
    List.not_mem_nil, or_false] at h
  rcases h with (⟨-, rfl⟩ | rfl | rfl) | ⟨-, rfl⟩ | rfl | rfl
  · rw [length_doneChunk]; decide
  · rw [length_lastChunk]; decide
  · decide
  · rw [length_doneChunk]; decide
  · decide
  · rw [length_tail_lastChunk]; decide

/-- The last chunk is below the ceiling. -/
theorem phase_earlyCut : (runHelper .closed earlyCut).1.phase = .load := by
  obtain ⟨result, -, hloop⟩ := readLoop_replicate .closed [lastChunk, [0]] {} 1023 0 (by decide)
  have hlast : consumeRecords ([] ++ lastChunk) result = ⟨true, ScanRecord.done.write.take 12,
      (.phase .load :: List.replicate 254 ScanRecord.done).foldl .take result⟩ := by
    rw [List.nil_append, lastChunk]
    exact consumeRecords_write _ .done (List.take_prefix _ _) (by decide)
  have hnext : ((.phase .load :: List.replicate 254 ScanRecord.done).foldl HelperResult.take
      result).phase = .load := by
    rw [List.foldl_cons]
    exact phase_foldl_done 254 _
  generalize (.phase .load :: List.replicate 254 ScanRecord.done).foldl HelperResult.take
    result = next at *
  have hbelow : ¬MaxStreamBytes < 0 + 1023 * 4096 + lastChunk.length := by
    rw [length_lastChunk]
    decide
  have hover : MaxStreamBytes < 0 + 1023 * 4096 + lastChunk.length + 1 := by
    rw [length_lastChunk]
    decide
  rw [runHelper, earlyCut, hloop, readLoop_taken .closed [[0]] hbelow hlast,
    readLoop_over .closed [] _ _ hover]
  exact hnext

/-- The last chunk passes the ceiling. -/
theorem phase_lateCut : (runHelper .closed lateCut).1.phase = .spawn := by
  obtain ⟨result, hphase, hloop⟩ := readLoop_replicate .closed
    [[0x50], lastChunk.tail ++ [0]] {} 1023 0 (by decide)
  have hfirst : consumeRecords ([] ++ [0x50]) result = ⟨true, [0x50], result⟩ :=
    consumeRecords_write [] .done (by decide) (by decide)
  have hbelow : ¬MaxStreamBytes < 0 + 1023 * 4096 + 1 := by decide
  have hover : MaxStreamBytes < 0 + 1023 * 4096 + 1 + (lastChunk.tail ++ [0]).length := by
    rw [length_tail_lastChunk]
    decide
  have htaken := readLoop_taken .closed [lastChunk.tail ++ [0]] hbelow hfirst
  rw [runHelper, lateCut, hloop, htaken, List.length_singleton, readLoop_over .closed [] _ _ hover]
  exact hphase

/-- **The cut shows** in what is left of a stream that makes no sense, and in the phase of a stream
beyond the ceiling. -/
theorem runHelper_cut_shows :
    (∃ chunks chunks', chunks.flatten = chunks'.flatten ∧
      (∀ chunk ∈ chunks ++ chunks', 0 < chunk.length ∧ chunk.length ≤ 4096) ∧
      (runHelper .closed chunks).2 ≠ (runHelper .closed chunks').2) ∧
    ∃ chunks chunks', chunks.flatten = chunks'.flatten ∧
      (∀ chunk ∈ chunks ++ chunks', 0 < chunk.length ∧ chunk.length ≤ 4096) ∧
      (runHelper .closed chunks).1.phase ≠ (runHelper .closed chunks').1.phase := by
  refine ⟨⟨[ScanRecord.done.write, List.replicate 16 0],
    [ScanRecord.done.write ++ List.replicate 16 0], by decide, by decide, by decide +kernel⟩,
    earlyCut, lateCut, flatten_earlyCut, fun chunk => length_of_mem_cut, ?_⟩
  rw [phase_earlyCut, phase_lateCut]
  decide

end OneBeat.Scan
