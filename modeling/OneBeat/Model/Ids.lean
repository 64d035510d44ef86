import Mathlib.Order.Basic
import Mathlib.Data.Fin.Basic
import Mathlib.Order.Fin.Basic
import Mathlib.Algebra.GroupWithZero.Nat

/-!
# Entity identity

`model/ids.h`: a ULID is a 128-bit value (the source keeps it in two words, `high` and `low`), and
`TypedId K` is the id of one kind of entity.  Ids order by value, so an `OrderedMap` keyed by one
iterates in creation order.

A byte string of the source is a `String` whose characters are its bytes.
-/

namespace OneBeat

/-- The kinds of entities. -/
inductive EntityKind
  | instrument | pattern | arrangementLane | clip | mixerTrack | effect | project
  deriving DecidableEq

/-- The prefix of an id in the file. -/
def entityPrefix : EntityKind → String
  | .instrument => "ins"
  | .pattern => "pat"
  | .arrangementLane => "lan"
  | .clip => "clp"
  | .mixerTrack => "mix"
  | .effect => "efx"
  | .project => "prj"

/-- The word for an entity in a message. -/
def entityNoun : EntityKind → String
  | .instrument => "instrument"
  | .pattern => "pattern"
  | .arrangementLane => "lane"
  | .clip => "clip"
  | .mixerTrack => "mixer track"
  | .effect => "effect"
  | .project => "project"

/-- A 128-bit ULID: `high * 2 ^ 64 + low`. -/
abbrev RawId := Fin (2 ^ 128)

instance instNeZeroRawId : NeZero (2 ^ 128) := ⟨by decide⟩

/-- An id of one kind of entity. -/
structure TypedId (K : EntityKind) where
  /-- The bare ULID. -/
  raw : RawId
  deriving DecidableEq

abbrev InstrumentId := TypedId .instrument
abbrev PatternId := TypedId .pattern
abbrev ArrangementLaneId := TypedId .arrangementLane
abbrev ClipId := TypedId .clip
abbrev MixerTrackId := TypedId .mixerTrack
abbrev EffectId := TypedId .effect

/-! ### Text -/

/-- Crockford base32. -/
def ulidAlphabet : List Char :=
  ['0', '1', '2', '3', '4', '5', '6', '7', '8', '9', 'A', 'B', 'C', 'D', 'E', 'F',
   'G', 'H', 'J', 'K', 'M', 'N', 'P', 'Q', 'R', 'S', 'T', 'V', 'W', 'X', 'Y', 'Z']

/-- Characters of a ULID in text. -/
def ulidChars : ℕ := 26

/-- Five bits of the id from `shift` on. -/
def fiveBitsAt (id : RawId) (shift : ℕ) : ℕ := id.val / 2 ^ shift % 32

/-- 26 characters, most significant first. -/
def encodeUlid (id : RawId) : String :=
  String.ofList ((List.range ulidChars).map fun i =>
    ulidAlphabet.getD (fiveBitsAt id (125 - 5 * i)) '0')

/-- The value of a digit: the alphabet, then the aliases, then lower case. -/
def decodeChar (c : Char) : Option ℕ :=
  if c ∈ ulidAlphabet then some (ulidAlphabet.idxOf c)
  else if c = 'i' ∨ c = 'I' ∨ c = 'l' ∨ c = 'L' then some 1
  else if c = 'o' ∨ c = 'O' then some 0
  else if 'a' ≤ c ∧ c ≤ 'z' then
    let upper := Char.ofNat (c.toNat - 32)
    if upper ∈ ulidAlphabet then some (ulidAlphabet.idxOf upper) else none
  else none

/-- Shift the value left by one digit and drop the next one in; bits past 128 are lost. -/
def pushDigit (id : RawId) (digit : ℕ) : RawId := Fin.ofNat (2 ^ 128) (id.val * 32 + digit)

/-- The digits of a ULID, read into `id`. -/
def decodeDigits (id : RawId) : List Char → Option RawId
  | [] => some id
  | c :: cs =>
    match decodeChar c with
    | none => none
    | some digit => decodeDigits (pushDigit id digit) cs

/-- The id a text of 26 digits names. -/
def decodeUlid (text : List Char) : Option RawId :=
  if text.length = ulidChars then decodeDigits 0 text else none

namespace TypedId

variable {K : EntityKind}

theorem raw_injective : Function.Injective (TypedId.raw : TypedId K → RawId) := by
  rintro ⟨a⟩ ⟨b⟩ h
  cases h; rfl

instance : LinearOrder (TypedId K) := LinearOrder.lift' TypedId.raw raw_injective

/-- The id a default-constructed `TypedId` holds, which names nothing. -/
def none : TypedId K := ⟨0⟩

instance : Inhabited (TypedId K) := ⟨none⟩

/-- Not the default. -/
def valid (id : TypedId K) : Bool := id.raw ≠ 0

/-- The text that goes in the file. -/
def str (id : TypedId K) : String := entityPrefix K ++ "_" ++ encodeUlid id.raw

/-- The id a text names; a ULID under another kind's prefix names none. -/
def parse (K : EntityKind) (text : String) : Option (TypedId K) :=
  let start := (entityPrefix K).toList ++ ['_']
  if text.toList.length ≠ start.length + ulidChars then Option.none
  else if text.toList.take start.length ≠ start then Option.none
  else (decodeUlid (text.toList.drop start.length)).map TypedId.mk

end TypedId

end OneBeat
