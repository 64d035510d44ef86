import OneBeat.Lib.BinaryFloat
import OneBeat.Lib.ByteOrder
import OneBeat.Lib.ListParts

/-!
# Audio files

`AudioFileWriter` of `core/audio_export.cpp`: a header with empty sizes, frames of 24-bit samples
behind it, and the sizes when the file is closed.

* `AudioFileWriter.holds_writeAll` : what a file is as long as it is open.

**Main theorem** (`AudioFileWriter.header_matches_iff`): the sizes in the header are those of the
file exactly when they fit in 32 bits, or when the file could not be closed.

What the C library does with a file is a parameter.
-/

namespace OneBeat

open ByteOrder ListParts

/-- What the calls of the C library return: how many bytes it takes of the `n`-th that is written,
and whether the `n`-th seek succeeds. -/
structure Stdio where
  creates : Bool := true
  accepts : ℕ → ℕ
  seeks : ℕ → Bool := fun _ => true
  closes : Bool := true

/-- A `std::FILE` that is open for writing, with the calls there have been. -/
structure OpenFile where
  bytes : List (BitVec 8) := []
  position : ℕ := 0
  writes : ℕ := 0
  seeks : ℕ := 0

namespace OpenFile

variable (io : Stdio) (file : OpenFile)

/-- The number of bytes that were written. -/
def fwrite (data : List (BitVec 8)) : ℕ × OpenFile :=
  let taken := min (io.accepts file.writes) data.length
  (taken,
    { file with
      bytes := overwrite file.bytes file.position (data.take taken)
      position := file.position + taken
      writes := file.writes + 1 })

/-- `fseek` from the start of the file. -/
def fseek (position : ℕ) : Bool × OpenFile :=
  (io.seeks file.seeks,
    { file with
      position := if io.seeks file.seeks then position else file.position
      seeks := file.seeks + 1 })

variable {io} {file} {data : List (BitVec 8)}

theorem fwrite_end (hend : file.position = file.bytes.length)
    (htaken : (file.fwrite io data).1 = data.length) :
    (file.fwrite io data).2 =
      { file with
        bytes := file.bytes ++ data
        position := (file.bytes ++ data).length
        writes := file.writes + 1 } := by
  have htaken : min (io.accepts file.writes) data.length = data.length := htaken
  simp only [fwrite, htaken, List.take_length, hend, overwrite_end, List.length_append]

end OpenFile

/-! ### The parts of a header -/

def appendLittle {w : ℕ} (bytes : List (BitVec 8)) (value : BitVec w) (width : ℕ) :
    List (BitVec 8) :=
  bytes ++ littleEndian value width

def appendBig {w : ℕ} (bytes : List (BitVec 8)) (value : BitVec w) (width : ℕ) :
    List (BitVec 8) :=
  bytes ++ bigEndian value width

def appendTag (bytes : List (BitVec 8)) (tag : String) : List (BitVec 8) :=
  bytes ++ (tag.toList.take 4).map fun c => BitVec.ofNat 8 c.toNat

/-- `std::frexp` of a positive value: a mantissa in [0.5, 1), and the exponent. -/
def frexp (value : ℚ) : ℚ × ℤ :=
  let exponent := leadingExponent value + 1
  (value / twoPow exponent, exponent)

/-- An 80-bit extended float. -/
def appendExtended80 (bytes : List (BitVec 8)) (value : ℚ) : List (BitVec 8) :=
  let (mantissa, exponent) := frexp value
  let biased := BitVec.ofInt 16 (exponent - 1 + 16383)
  let fraction := BitVec.ofInt 64 ⌊mantissa * twoPow 64⌋
  bytes ++ bigEndian biased 2 ++ bigEndian fraction 8

def fullScale24 : ℤ := 8388607

/-- A sample is clipped, not wrapped. -/
def toPcm24 (sample : Double) : ℤ :=
  let clamped :=
    if sample.lt (.finite (-1)) then .finite (-1)
    else if (Double.finite 1).lt sample then .finite 1
    else sample
  (clamped.mul (.ofInt fullScale24)).llround

inductive ExportFormat
  | wav | aiff
  deriving DecidableEq

/-- A writer, with the file while one is open. -/
structure AudioFileWriter where
  file : Option OpenFile := none
  path : String := ""
  format : ExportFormat := .wav
  sampleRate : ℤ := 48000
  framesWritten : BitVec 64 := 0

/-- Stereo samples to write. -/
structure AudioBlock where
  left : ℕ → Double
  right : ℕ → Double
  frames : ℤ

namespace AudioFileWriter

/-- The header while the length is not known. -/
def header : ExportFormat → ℤ → List (BitVec 8)
  | .wav, sampleRate =>
    let byteRate : BitVec 32 := BitVec.ofInt 32 sampleRate * 2 * 3
    let header := appendTag [] "RIFF"
    let header := appendLittle header (0 : BitVec 32) 4
    let header := appendTag header "WAVE"
    let header := appendTag header "fmt "
    let header := appendLittle header (16 : BitVec 32) 4
    let header := appendLittle header (1 : BitVec 32) 2
    let header := appendLittle header (2 : BitVec 32) 2
    let header := appendLittle header (BitVec.ofInt 32 sampleRate) 4
    let header := appendLittle header byteRate 4
    let header := appendLittle header (6 : BitVec 32) 2
    let header := appendLittle header (24 : BitVec 32) 2
    let header := appendTag header "data"
    appendLittle header (0 : BitVec 32) 4
  | .aiff, sampleRate =>
    let header := appendTag [] "FORM"
    let header := appendBig header (0 : BitVec 32) 4
    let header := appendTag header "AIFF"
    let header := appendTag header "COMM"
    let header := appendBig header (18 : BitVec 32) 4
    let header := appendBig header (2 : BitVec 32) 2
    let header := appendBig header (0 : BitVec 32) 4
    let header := appendBig header (24 : BitVec 32) 2
    let header := appendExtended80 header sampleRate
    let header := appendTag header "SSND"
    let header := appendBig header (8 : BitVec 32) 4
    let header := appendBig header (0 : BitVec 32) 4
    appendBig header (0 : BitVec 32) 4

def headerLength : ExportFormat → ℕ
  | .wav => 44
  | .aiff => 54

variable (io : Stdio) (writer : AudioFileWriter)

/-- The partial file is closed, and deleted. -/
def abandon : AudioFileWriter :=
  if writer.path.isEmpty then { writer with file := none }
  else { writer with file := none, path := "", framesWritten := 0 }

def openPath (path : String) (format : ExportFormat) (sampleRate : ℤ) :
    Except String Unit × AudioFileWriter :=
  if writer.file.isSome then (.error "a file is already open", writer)
  else if sampleRate ≤ 0 then (.error "invalid sample rate", writer)
  else if !io.creates then (.error ("could not create " ++ path), writer)
  else
    let bytes := header format sampleRate
    let (taken, file) := ({} : OpenFile).fwrite io bytes
    let opened := { writer with file := some file, path, format, sampleRate, framesWritten := 0 }
    if taken ≠ bytes.length then (.error ("could not write the header of " ++ path), opened.abandon)
    else (.ok (), opened)

/-- The bytes of a sample. -/
def sampleBytes (format : ExportFormat) (sample : Double) : List (BitVec 8) :=
  let bits := BitVec.ofInt 32 (toPcm24 sample)
  match format with
  | .wav => appendLittle [] bits 3
  | .aiff => appendBig [] bits 3

/-- The samples of a block, left and right in turn. -/
def blockBytes (format : ExportFormat) (block : AudioBlock) : List (BitVec 8) :=
  (List.range block.frames.toNat).flatMap fun frame =>
    sampleBytes format (block.left frame) ++ sampleBytes format (block.right frame)

def write (block : AudioBlock) : Except String Unit × AudioFileWriter :=
  match writer.file with
  | none => (.error "no file is open", writer)
  | some file =>
    if block.frames ≤ 0 then (.ok (), writer)
    else
      let bytes := blockBytes writer.format block
      let (taken, file) := file.fwrite io bytes
      if taken ≠ bytes.length then
        (.error ("could not write audio to " ++ writer.path), { writer with file := some file })
      else
        (.ok (),
          { writer with
            file := some file
            framesWritten := writer.framesWritten + BitVec.ofInt 64 block.frames })

/-- Blocks one after the other, up to the first that fails. -/
def writeAll (writer : AudioFileWriter) : List AudioBlock → Except String Unit × AudioFileWriter
  | [] => (.ok (), writer)
  | block :: blocks =>
    match writer.write io block with
    | (.ok (), written) => writeAll written blocks
    | (.error error, written) => (.error error, written)

/-- Bytes are written at a place as long as nothing has failed. -/
def patch (place : ℕ) (bytes : List (BitVec 8)) : Bool × OpenFile → Bool × OpenFile
  | (false, file) => (false, file)
  | (true, file) =>
    match file.fseek io place with
    | (false, file) => (false, file)
    | (true, file) => ((file.fwrite io bytes).1 = bytes.length, (file.fwrite io bytes).2)

/-- The sizes, and what is left of the file once they are written. -/
def patched (file : OpenFile) : Bool × OpenFile :=
  let dataBytes : BitVec 32 := (writer.framesWritten * 6).setWidth 32
  match writer.format with
  | .wav => patch io 40 (appendLittle [] dataBytes 4)
      (patch io 4 (appendLittle [] (36 + dataBytes) 4) (true, file))
  | .aiff => patch io 42 (appendBig [] (8 + dataBytes) 4)
      (patch io 22 (appendBig [] (writer.framesWritten.setWidth 32) 4)
        (patch io 4 (appendBig [] (46 + dataBytes) 4) (true, file)))

/-- The file as it is finished. -/
def close : Except String (List (BitVec 8)) × AudioFileWriter :=
  match writer.file with
  | none => (.error "no file is open", writer)
  | some file =>
    let (ok, file) := writer.patched io file
    if !ok || !io.closes then
      (.error ("could not finalise " ++ writer.path), { writer with file := none })
    else (.ok file.bytes, { writer with file := none })

/-! ### A file that is open -/

theorem length_header (format : ExportFormat) (sampleRate : ℤ) :
    (header format sampleRate).length = headerLength format := by
  have htag (bytes : List (BitVec 8)) (tag : String) (hlength : tag.toList.length = 4) :
      (appendTag bytes tag).length = bytes.length + 4 := by
    rw [appendTag, List.length_append, List.length_map, List.length_take, hlength, Nat.min_self]
  cases format <;>
    simp [header, headerLength, appendLittle, appendBig, appendExtended80, htag]

theorem length_blockBytes (format : ExportFormat) (block : AudioBlock) :
    (blockBytes format block).length = 6 * block.frames.toNat := by
  have hsample (sample : Double) : (sampleBytes format sample).length = 3 := by
    cases format <;> simp [sampleBytes, appendLittle, appendBig]
  simp [blockBytes, hsample, mul_comm]

/-- An open file is its header, and six bytes for each of its frames. -/
structure Holds (format : ExportFormat) (frames : ℕ) (writer : AudioFileWriter)
    (file : OpenFile) : Prop where
  file_eq : writer.file = some file
  format_eq : writer.format = format
  position_eq : file.position = file.bytes.length
  length_eq : file.bytes.length = headerLength format + 6 * frames
  frames_eq : writer.framesWritten.toNat = frames % 2 ^ 64

/-- All frames of some blocks; a block without any is passed over. -/
def totalFrames (blocks : List AudioBlock) : ℕ := (blocks.map fun block => block.frames.toNat).sum

variable {io} {writer opened written : AudioFileWriter} {file : OpenFile} {path : String}
  {format : ExportFormat} {sampleRate : ℤ} {frames : ℕ}

theorem holds_openPath (h : writer.openPath io path format sampleRate = (.ok (), opened)) :
    ∃ file, Holds format 0 opened file := by
  rw [openPath] at h
  dsimp only at h
  split_ifs at h with hopen hrate hcreate htaken <;> obtain ⟨hok, rfl⟩ := Prod.mk.inj h <;>
    try cases hok
  have hfile := OpenFile.fwrite_end rfl (not_not.1 htaken)
  refine ⟨_, rfl, rfl, ?_, ?_, rfl⟩ <;> rw [hfile]
  exact length_header format sampleRate

theorem holds_write {block : AudioBlock} (hholds : Holds format frames writer file)
    (h : writer.write io block = (.ok (), written)) :
    ∃ file, Holds format (frames + block.frames.toNat) written file := by
  rw [write, hholds.file_eq] at h
  dsimp only at h
  split_ifs at h with hempty htaken
  · obtain ⟨-, rfl⟩ := Prod.mk.inj h
    rw [Int.toNat_of_nonpos hempty]
    exact ⟨file, hholds⟩
  · exact absurd (Prod.mk.inj h).1 (by simp)
  · have hfile := OpenFile.fwrite_end hholds.position_eq (not_not.1 htaken)
    obtain ⟨-, rfl⟩ := Prod.mk.inj h
    refine ⟨_, rfl, hholds.format_eq, ?_, ?_, ?_⟩ <;> try rw [hfile]
    · rw [List.length_append, hholds.length_eq, length_blockBytes]
      ring
    · have hframes := hholds.frames_eq
      rw [BitVec.toNat_add, BitVec.toNat_ofInt]
      omega

/-- As long as it is open, a file has the frames that were written. -/
theorem holds_writeAll {blocks : List AudioBlock} (hholds : Holds format frames writer file)
    (h : writer.writeAll io blocks = (.ok (), written)) :
    ∃ file, Holds format (frames + totalFrames blocks) written file := by
  induction blocks generalizing writer file frames with
  | nil =>
    obtain ⟨-, rfl⟩ := Prod.mk.inj h
    exact ⟨file, hholds⟩
  | cons block blocks ih =>
    rw [writeAll] at h
    split at h
    next next hnext =>
      obtain ⟨file, hholds⟩ := holds_write hholds hnext
      rw [totalFrames, List.map_cons, List.sum_cons, ← Nat.add_assoc]
      exact ih hholds h
    next => exact absurd (Prod.mk.inj h).1 (by simp)

/-! ### Closing it -/

/-- The header gives the sizes of the file. -/
def HeaderMatches (format : ExportFormat) (frames : ℕ) (bytes : List (BitVec 8)) : Prop :=
  match format with
  | .wav => readLittle (slice bytes 4 4) + 8 = bytes.length ∧
      readLittle (slice bytes 40 4) + 44 = bytes.length
  | .aiff => readBig (slice bytes 4 4) + 8 = bytes.length ∧
      readBig (slice bytes 22 4) = frames ∧
      readBig (slice bytes 42 4) + 46 = bytes.length

/-- The largest of the sizes has 32 bits. -/
def Fits (format : ExportFormat) (frames : ℕ) : Prop :=
  headerLength format + 6 * frames < 2 ^ 32 + 8

/-- How many sizes closing writes. -/
def patchCount : ExportFormat → ℕ
  | .wav => 2
  | .aiff => 3

/-- The calls of the library that are left succeed. -/
def Finalises (io : Stdio) (writer : AudioFileWriter) : Prop :=
  ∃ file, writer.file = some file ∧ io.closes = true ∧
    ∀ count < patchCount writer.format,
      io.seeks (file.seeks + count) = true ∧ 4 ≤ io.accepts (file.writes + count)

/-- A file once bytes were written at a place. -/
def patchedFile (place : ℕ) (bytes : List (BitVec 8)) (file : OpenFile) : OpenFile where
  bytes := overwrite file.bytes place bytes
  position := place + bytes.length
  writes := file.writes + 1
  seeks := file.seeks + 1

theorem patch_eq_true_iff {place : ℕ} {bytes : List (BitVec 8)} {before : Bool × OpenFile}
    {result : OpenFile} : patch io place bytes before = (true, result) ↔
      ∃ file, before = (true, file) ∧ io.seeks file.seeks = true ∧
        bytes.length ≤ io.accepts file.writes ∧ result = patchedFile place bytes file := by
  obtain ⟨ok, file⟩ := before
  have htrue {file' : OpenFile} : (true, file) = (true, file') ↔ file' = file :=
    ⟨fun h => (Prod.mk.inj h).2.symm, fun h => h ▸ rfl⟩
  cases ok with
  | false => simp [patch]
  | true =>
    simp only [htrue, exists_eq_left]
    by_cases hseek : io.seeks file.seeks = true
    · by_cases haccept : bytes.length ≤ io.accepts file.writes
      · have hpatch : patch io place bytes (true, file) = (true, patchedFile place bytes file) := by
          simp [patch, OpenFile.fseek, OpenFile.fwrite, patchedFile, hseek, haccept]
        rw [hpatch]
        exact ⟨fun h => ⟨hseek, haccept, (Prod.mk.inj h).2.symm⟩, fun h => h.2.2 ▸ rfl⟩
      · simp [patch, OpenFile.fseek, OpenFile.fwrite, hseek, haccept]
    · simp [patch, OpenFile.fseek, hseek]

/-- A file with the sizes in its header. -/
def finishedFile (writer : AudioFileWriter) (file : OpenFile) : OpenFile :=
  let dataBytes : BitVec 32 := (writer.framesWritten * 6).setWidth 32
  match writer.format with
  | .wav => patchedFile 40 (appendLittle [] dataBytes 4)
      (patchedFile 4 (appendLittle [] (36 + dataBytes) 4) file)
  | .aiff => patchedFile 42 (appendBig [] (8 + dataBytes) 4)
      (patchedFile 22 (appendBig [] (writer.framesWritten.setWidth 32 : BitVec 32) 4)
        (patchedFile 4 (appendBig [] (46 + dataBytes) 4) file))

theorem patched_eq_true_iff {result : OpenFile} : writer.patched io file = (true, result) ↔
    (∀ count < patchCount writer.format,
      io.seeks (file.seeks + count) = true ∧ 4 ≤ io.accepts (file.writes + count)) ∧
      result = writer.finishedFile file := by
  have htrue {file' : OpenFile} : (true, file) = (true, file') ↔ file' = file :=
    ⟨fun h => (Prod.mk.inj h).2.symm, fun h => h ▸ rfl⟩
  rw [patched, finishedFile]
  cases writer.format <;>
    simp only [patch_eq_true_iff, htrue, appendLittle, appendBig, List.nil_append,
      length_littleEndian, length_bigEndian, patchCount, Nat.forall_lt_succ_right,
      Nat.not_lt_zero, false_imp_iff, forall_const, true_and, Nat.add_zero]
  · constructor
    · rintro ⟨_, ⟨_, rfl, hseek, haccept, rfl⟩, hseek', haccept', rfl⟩
      exact ⟨⟨⟨hseek, haccept⟩, hseek', haccept'⟩, rfl⟩
    · rintro ⟨⟨⟨hseek, haccept⟩, hseek', haccept'⟩, rfl⟩
      exact ⟨_, ⟨_, rfl, hseek, haccept, rfl⟩, hseek', haccept', rfl⟩
  · constructor
    · rintro ⟨_, ⟨_, ⟨_, rfl, hseek, haccept, rfl⟩, hseek', haccept', rfl⟩, hseek'', haccept'', rfl⟩
      exact ⟨⟨⟨⟨hseek, haccept⟩, hseek', haccept'⟩, hseek'', haccept''⟩, rfl⟩
    · rintro ⟨⟨⟨⟨hseek, haccept⟩, hseek', haccept'⟩, hseek'', haccept''⟩, rfl⟩
      exact ⟨_, ⟨_, ⟨_, rfl, hseek, haccept, rfl⟩, hseek', haccept', rfl⟩, hseek'', haccept'', rfl⟩

theorem close_eq_ok_iff (hfile : writer.file = some file) {bytes : List (BitVec 8)} :
    (writer.close io).1 = .ok bytes ↔
      Finalises io writer ∧ bytes = (writer.finishedFile file).bytes := by
  have hclose : (writer.close io).1 = .ok bytes ↔
      io.closes = true ∧
        ∃ result, writer.patched io file = (true, result) ∧ bytes = result.bytes := by
    rw [close, hfile]
    dsimp only
    obtain ⟨ok, result⟩ := writer.patched io file
    cases ok <;> cases io.closes <;> simp [eq_comm]
  have hfinalises : Finalises io writer ↔ io.closes = true ∧
      ∀ count < patchCount writer.format,
        io.seeks (file.seeks + count) = true ∧ 4 ≤ io.accepts (file.writes + count) := by
    simp [Finalises, hfile]
  rw [hclose, hfinalises]
  constructor
  · rintro ⟨hcloses, result, hresult, rfl⟩
    obtain ⟨hcalls, rfl⟩ := patched_eq_true_iff.1 hresult
    exact ⟨⟨hcloses, hcalls⟩, rfl⟩
  · rintro ⟨⟨hcloses, hcalls⟩, rfl⟩
    exact ⟨hcloses, _, patched_eq_true_iff.2 ⟨hcalls, rfl⟩, rfl⟩

/-- The size of the samples is counted modulo `2 ^ 32`, and so are those that come from it. -/
theorem toNat_dataBytes (hholds : Holds format frames writer file) (before : ℕ) :
    (BitVec.ofNat 32 before + (writer.framesWritten * 6).setWidth 32).toNat =
      (before + 6 * frames) % 2 ^ 32 := by
  have hframes := hholds.frames_eq
  have hmul : (writer.framesWritten * 6).toNat = writer.framesWritten.toNat * 6 % 2 ^ 64 :=
    BitVec.toNat_mul _ _
  rw [BitVec.toNat_add, BitVec.toNat_setWidth, BitVec.toNat_ofNat, hmul]
  omega

theorem header_matches_finishedFile (hholds : Holds format frames writer file) :
    HeaderMatches format frames (writer.finishedFile file).bytes ↔ Fits format frames := by
  have hlength := hholds.length_eq
  have hdata := toNat_dataBytes hholds
  have hzero := hdata 0
  have hframes : (writer.framesWritten.setWidth 32 : BitVec 32).toNat = frames % 2 ^ 32 := by
    have := hholds.frames_eq
    rw [BitVec.toNat_setWidth]
    omega
  rw [BitVec.zero_add, Nat.zero_add] at hzero
  rw [finishedFile, hholds.format_eq]
  have hfit (place : ℕ) (hplace : place + 4 ≤ headerLength format) {bytes : List (BitVec 8)}
      (hbytes : file.bytes.length = bytes.length) {data : List (BitVec 8)}
      (hdata : data.length = 4) : place + data.length ≤ bytes.length := by omega
  cases format with
  | wav =>
    have hlength : file.bytes.length = 44 + 6 * frames := hlength
    have hsize : ((36 : BitVec 32) + (writer.framesWritten * 6).setWidth 32).toNat =
        (36 + 6 * frames) % 2 ^ 32 := hdata 36
    have hfirst (value : BitVec 32) := hfit 4 (by decide) rfl (length_littleEndian value 4)
    have hsecond (value value' : BitVec 32) := hfit 40 (by decide)
      (length_overwrite (hfirst value)).symm (length_littleEndian value' 4)
    simp only [HeaderMatches, patchedFile, appendLittle, List.nil_append]
    rw [slice_overwrite_of_disjoint (hsecond _ _) (.inl (by decide)),
      slice_overwrite (hfirst _) (length_littleEndian _ _),
      slice_overwrite (hsecond _ _) (length_littleEndian _ _), length_overwrite (hsecond _ _),
      length_overwrite (hfirst _), readLittle_littleEndian (by decide),
      readLittle_littleEndian (by decide), hsize, hzero, hlength, Fits, headerLength]
    omega
  | aiff =>
    have hlength : file.bytes.length = 54 + 6 * frames := hlength
    have hsize : ((46 : BitVec 32) + (writer.framesWritten * 6).setWidth 32).toNat =
        (46 + 6 * frames) % 2 ^ 32 := hdata 46
    have hsound : ((8 : BitVec 32) + (writer.framesWritten * 6).setWidth 32).toNat =
        (8 + 6 * frames) % 2 ^ 32 := hdata 8
    have hfirst (value : BitVec 32) := hfit 4 (by decide) rfl (length_bigEndian value 4)
    have hsecond (value value' : BitVec 32) := hfit 22 (by decide)
      (length_overwrite (hfirst value)).symm (length_bigEndian value' 4)
    have hthird (value value' value'' : BitVec 32) := hfit 42 (by decide)
      ((length_overwrite (hsecond value value')).trans (length_overwrite (hfirst value))).symm
      (length_bigEndian value'' 4)
    simp only [HeaderMatches, patchedFile, appendBig, List.nil_append]
    rw [slice_overwrite_of_disjoint (hthird _ _ _) (.inl (by decide)),
      slice_overwrite_of_disjoint (hsecond _ _) (.inl (by decide)),
      slice_overwrite (hfirst _) (length_bigEndian _ _),
      slice_overwrite_of_disjoint (hthird _ _ _) (.inl (by decide)),
      slice_overwrite (hsecond _ _) (length_bigEndian _ _),
      slice_overwrite (hthird _ _ _) (length_bigEndian _ _), length_overwrite (hthird _ _ _),
      length_overwrite (hsecond _ _), length_overwrite (hfirst _), readBig_bigEndian (by decide),
      readBig_bigEndian (by decide), readBig_bigEndian (by decide), hsize, hframes, hsound, hlength,
      Fits, headerLength]
    omega

/-- The sizes in the header are those of the file as long as they have 32 bits.  From there on they
are written all the same, and only a call of the library that fails makes closing fail. -/
theorem header_matches_iff {blocks : List AudioBlock}
    (hopen : writer.openPath io path format sampleRate = (.ok (), opened))
    (hwrite : opened.writeAll io blocks = (.ok (), written)) :
    (∀ bytes, (written.close io).1 = .ok bytes → HeaderMatches format (totalFrames blocks) bytes) ↔
      Fits format (totalFrames blocks) ∨ ¬Finalises io written := by
  obtain ⟨file, hheader⟩ := holds_openPath hopen
  obtain ⟨file, hholds⟩ := holds_writeAll hheader hwrite
  rw [Nat.zero_add] at hholds
  have hclose (bytes : List (BitVec 8)) : (written.close io).1 = .ok bytes ↔
      Finalises io written ∧ bytes = (written.finishedFile file).bytes :=
    close_eq_ok_iff hholds.file_eq
  rw [← header_matches_finishedFile hholds]
  constructor
  · intro h
    by_cases hfinalises : Finalises io written
    · exact .inl (h _ ((hclose _).2 ⟨hfinalises, rfl⟩))
    · exact .inr hfinalises
  · rintro h bytes hbytes
    obtain ⟨hfinalises, rfl⟩ := (hclose bytes).1 hbytes
    exact h.resolve_right (not_not_intro hfinalises)

/-! ### Renders that succeed -/

theorem openPath_succeeds (hfile : writer.file = none) (hrate : 0 < sampleRate)
    (hcreates : io.creates = true) (haccept : 54 ≤ io.accepts 0) :
    (writer.openPath io path format sampleRate).1 = .ok () := by
  have hlength : (header format sampleRate).length ≤ 54 := by
    rw [length_header]
    cases format <;> decide
  have htaken : (({} : OpenFile).fwrite io (header format sampleRate)).1 =
      (header format sampleRate).length := by
    rw [OpenFile.fwrite]
    exact Nat.min_eq_right (hlength.trans haccept)
  rw [openPath, if_neg (by simp [hfile]), if_neg (not_le.2 hrate), if_neg (by simp [hcreates])]
  dsimp only
  rw [if_neg (not_not_intro htaken)]

theorem write_succeeds {block : AudioBlock} (hholds : Holds format frames writer file)
    (haccept : ∀ count, 6 * block.frames.toNat ≤ io.accepts count) :
    (writer.write io block).1 = .ok () := by
  rw [write, hholds.file_eq]
  dsimp only
  split_ifs with hempty htaken
  · rfl
  · refine absurd ?_ htaken
    rw [OpenFile.fwrite]
    refine Nat.min_eq_right ?_
    rw [length_blockBytes]
    exact haccept _
  · rfl

theorem writeAll_succeeds {blocks : List AudioBlock} (hholds : Holds format frames writer file)
    (haccept : ∀ block ∈ blocks, ∀ count, 6 * block.frames.toNat ≤ io.accepts count) :
    (writer.writeAll io blocks).1 = .ok () := by
  induction blocks generalizing writer file frames with
  | nil => rfl
  | cons block blocks ih =>
    have hfirst := write_succeeds hholds (haccept block (List.mem_cons_self ..))
    have hwrite : writer.write io block = (.ok (), (writer.write io block).2) :=
      Prod.ext hfirst rfl
    obtain ⟨file, hholds⟩ := holds_write hholds hwrite
    rw [writeAll, hwrite]
    exact ih hholds fun block hblock => haccept block (List.mem_cons_of_mem _ hblock)

/-- A library that takes up to 4096 bytes at once. -/
def reliable : Stdio := { accepts := fun _ => 4096 }

/-- Blocks of 512 silent frames. -/
def silence (count : ℕ) : List AudioBlock :=
  List.replicate count { left := fun _ => 0, right := fun _ => 0, frames := 512 }

theorem exists_silence (count : ℕ) : ∃ opened written : AudioFileWriter,
    ({} : AudioFileWriter).openPath reliable "song.wav" .wav 48000 = (.ok (), opened) ∧
      opened.writeAll reliable (silence count) = (.ok (), written) ∧
      Finalises reliable written := by
  have hopen : (({} : AudioFileWriter).openPath reliable "song.wav" .wav 48000).1 = .ok () :=
    openPath_succeeds rfl (by decide) rfl (by decide : 54 ≤ 4096)
  have hopened := Prod.ext (y := (Except.ok (), _)) hopen rfl
  obtain ⟨file, hheader⟩ := holds_openPath hopened
  have hblock : ∀ block ∈ silence count, ∀ call,
      6 * block.frames.toNat ≤ reliable.accepts call := by
    intro block hblock call
    rw [List.eq_of_mem_replicate hblock]
    exact (by decide : 3072 ≤ 4096)
  have hwritten := Prod.ext (y := (Except.ok (), _)) (writeAll_succeeds hheader hblock) rfl
  obtain ⟨file, hholds⟩ := holds_writeAll hheader hwritten
  exact ⟨_, _, hopened, hwritten, file, hholds.file_eq, rfl,
    fun _ _ => ⟨rfl, (by decide : 4 ≤ 4096)⟩⟩

theorem totalFrames_silence (count : ℕ) : totalFrames (silence count) = 512 * count := by
  simp [totalFrames, silence, mul_comm]

theorem header_matches_iff_second : ∃ opened written : AudioFileWriter,
    ({} : AudioFileWriter).openPath reliable "song.wav" .wav 48000 = (.ok (), opened) ∧
      opened.writeAll reliable (silence 94) = (.ok (), written) ∧
      ((∀ bytes, (written.close reliable).1 = .ok bytes →
        HeaderMatches .wav (totalFrames (silence 94)) bytes) ↔
          Fits .wav (totalFrames (silence 94)) ∨ ¬Finalises reliable written) := by
  obtain ⟨opened, written, hopen, hwrite, -⟩ := exists_silence 94
  exact ⟨opened, written, hopen, hwrite, header_matches_iff hopen hwrite⟩

/-- Four hours and nine minutes at 48 kHz. -/
theorem long_render_mismatched : ∃ opened written : AudioFileWriter, ∃ bytes,
    ({} : AudioFileWriter).openPath reliable "song.wav" .wav 48000 = (.ok (), opened) ∧
      opened.writeAll reliable (silence 1398102) = (.ok (), written) ∧
      (written.close reliable).1 = .ok bytes ∧
      ¬HeaderMatches .wav (totalFrames (silence 1398102)) bytes := by
  obtain ⟨opened, written, hopen, hwrite, hfinalises⟩ := exists_silence 1398102
  obtain ⟨file, hheader⟩ := holds_openPath hopen
  obtain ⟨file, hholds⟩ := holds_writeAll hheader hwrite
  rw [Nat.zero_add] at hholds
  refine ⟨opened, written, _, hopen, hwrite,
    (close_eq_ok_iff hholds.file_eq).2 ⟨hfinalises, rfl⟩, ?_⟩
  rw [header_matches_finishedFile hholds, Fits, totalFrames_silence, headerLength]
  decide

end AudioFileWriter

end OneBeat
