import Mathlib.Data.Int.Notation
import OneBeat.Lib.KeyedRows
import Mathlib.Algebra.GroupWithZero.Nat

/-!
# The scan cache

`plugin/scan/descriptor.h` and `plugin/scan/plugin_cache.cpp`: what a scan found out about a
plug-in is a row, and the rows are kept under the path of the bundle and the index in it.

Text is bytes without the terminator.  What the scanner only carries along (the identity, the
features, the port counts, the reason of a failure) is a parameter.  The file of the cache is not
modelled: a cache here has one row a key, as `upsert` builds it.
-/

namespace OneBeat.Scan

/-- Text of a fixed capacity, with room for the terminator. -/
structure FixedText (capacity : ℕ) where
  text : List UInt8
  fits : text.length < capacity
  deriving DecidableEq

/-- Text that is too long is cut. -/
def FixedText.assign {capacity : ℕ} [NeZero capacity] (text : List UInt8) : FixedText capacity where
  text := text.take (capacity - 1)
  fits := by
    have := Nat.pos_of_ne_zero (NeZero.ne capacity)
    rw [List.length_take]
    omega

/-- A text that fits is not cut again. -/
@[simp] theorem FixedText.assign_text {capacity : ℕ} [NeZero capacity] (t : FixedText capacity) :
    .assign t.text = t := by
  obtain ⟨text, fits⟩ := t
  simp only [FixedText.assign, FixedText.mk.injEq]
  exact List.take_of_length_le (by omega)

instance instNeZeroPluginPath : NeZero 512 := ⟨by decide⟩
instance instNeZeroPluginName : NeZero 128 := ⟨by decide⟩

abbrev PluginPath := FixedText 512
abbrev PluginName := FixedText 128

inductive PluginFormat
  | unknown
  | builtin
  | clap
  | vst3
  | audioUnit
  deriving DecidableEq

inductive ScanOutcome
  | ok
  | notAPlugin
  | crashed
  | timedOut
  deriving DecidableEq

structure BundleFingerprint where
  binarySize : ℕ := 0
  binaryMtimeNanos : ℤ := 0
  plistSize : ℕ := 0
  plistMtimeNanos : ℤ := 0
  deriving DecidableEq

/-- The bundle could be read. -/
def BundleFingerprint.valid (print : BundleFingerprint) : Bool :=
  print.binarySize ≠ 0 || print.plistSize ≠ 0

/-- A row; `info` is what the scanner only carries. -/
structure PluginDescriptor (Info : Type) where
  path : PluginPath := .assign []
  name : PluginName := .assign []
  fingerprint : BundleFingerprint := {}
  scannedAtNanos : ℤ := 0
  indexInBundle : UInt16 := 0
  format : PluginFormat := .unknown
  outcome : ScanOutcome := .ok
  flags : UInt32 := 0
  retryCount : UInt8 := 0
  info : Info
  deriving DecidableEq

namespace PluginDescriptor

variable {Info : Type} (row : PluginDescriptor Info)

def key : PluginPath × UInt16 := (row.path, row.indexInBundle)

def usable : Bool := row.outcome = .ok

def quarantined : Bool := row.outcome = .crashed || row.outcome = .timedOut

end PluginDescriptor

/-- The rows, one a key. -/
structure PluginCache (Info : Type) where
  entries : List (PluginDescriptor Info)
  keyed : KeyedRows.Keyed PluginDescriptor.key entries

namespace PluginCache

variable {Info : Type} (cache : PluginCache Info)

def find (path : List UInt8) (index : UInt16) : Option (PluginDescriptor Info) :=
  cache.entries.find? fun row => row.indexInBundle = index && row.path.text = path

def upsert (row : PluginDescriptor Info) : PluginCache Info :=
  ⟨KeyedRows.upsert PluginDescriptor.key cache.entries row, cache.keyed.upsert row⟩

/-- Only the rows of the paths stay; also how many are gone. -/
def retainOnly (livePaths : List (List UInt8)) : PluginCache Info × ℕ :=
  let kept := cache.entries.filter fun row => row.path.text ∈ livePaths
  (⟨kept, cache.keyed.filter _⟩, cache.entries.length - kept.length)

theorem entries_foldl_upsert (rows : List (PluginDescriptor Info)) :
    (rows.foldl upsert cache).entries =
      rows.foldl (KeyedRows.upsert PluginDescriptor.key) cache.entries := by
  induction rows generalizing cache with
  | nil => rfl
  | cons row rows ih => exact ih (cache.upsert row)

theorem mem_retainOnly {livePaths : List (List UInt8)} {row : PluginDescriptor Info} :
    row ∈ (cache.retainOnly livePaths).1.entries ↔ row ∈ cache.entries ∧ row.path.text ∈ livePaths := by
  simp [retainOnly]

end PluginCache

end OneBeat.Scan
