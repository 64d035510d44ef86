import OneBeat.Lib.Numerals
import OneBeat.Model.Ids
import Mathlib.Data.List.GetD
import Mathlib.Data.String.Basic

/-!
# The text of a ULID

26 digits of five bits are two bits more than an id has.  What is written is read back, and texts
compare as the ids do; but `decodeUlid` takes any 26 digits, and shifts out what is in the two bits
that are too many.

**Main theorem** (`ulid_text_iff`): a text is what its id is written as exactly when its first digit
is seven at most.
-/

namespace OneBeat

/-! ### Digits -/

/-- The character of a digit. -/
def ulidChar (digit : ℕ) : Char := ulidAlphabet.getD digit '0'

theorem ulidChar_lt_ulidChar {a b : ℕ} (ha : a < 32) (hb : b < 32) :
    ulidChar a < ulidChar b ↔ a < b := by
  have hall : ∀ a b : Fin 32, ulidChar a < ulidChar b ↔ a < b := by decide +kernel
  exact hall ⟨a, ha⟩ ⟨b, hb⟩

theorem decodeChar_ulidChar {digit : ℕ} (h : digit < 32) :
    decodeChar (ulidChar digit) = some digit := by
  have hall : ∀ digit : Fin 32, decodeChar (ulidChar digit) = some (digit : ℕ) := by decide +kernel
  exact hall ⟨digit, h⟩

theorem exists_ulidChar {c : Char} (h : c ∈ ulidAlphabet) : ∃ digit < 32, ulidChar digit = c := by
  have hlength : ulidAlphabet.length = 32 := rfl
  obtain ⟨digit, hdigit, rfl⟩ := List.mem_iff_getElem.1 h
  exact ⟨digit, hlength ▸ hdigit, List.getD_eq_getElem _ _ hdigit⟩

theorem ulidChar_le_seven {digit : ℕ} (h : digit < 32) : ulidChar digit ≤ '7' ↔ digit < 8 := by
  have hall : ∀ digit : Fin 32, ulidChar digit ≤ '7' ↔ (digit : ℕ) < 8 := by decide +kernel
  exact hall ⟨digit, h⟩

theorem toList_encodeUlid (id : RawId) :
    (encodeUlid id).toList = (numeral 32 ulidChars id.val).map ulidChar := by
  rw [encodeUlid, String.toList_ofList, numeral_eq_map, List.map_map]
  refine List.map_congr_left fun i hi => ?_
  have hi : i < 26 := List.mem_range.1 hi
  have hshift : 125 - 5 * i = 5 * (ulidChars - 1 - i) := by
    rw [ulidChars]
    omega
  rw [Function.comp_apply, ulidChar, fiveBitsAt, hshift, Nat.pow_mul]

theorem decodeDigits_map {digits : List ℕ} (hdigits : ∀ digit ∈ digits, digit < 32) (id : RawId) :
    decodeDigits id (digits.map ulidChar) =
      some (Fin.ofNat (2 ^ 128) (readNumeral 32 id.val digits)) := by
  induction digits generalizing id with
  | nil => exact congrArg some (Fin.ext (Nat.mod_eq_of_lt id.isLt).symm)
  | cons digit digits ih =>
    rw [List.forall_mem_cons] at hdigits
    rw [List.map_cons, decodeDigits, decodeChar_ulidChar hdigits.1]
    dsimp only
    rw [ih hdigits.2]
    refine congrArg some (Fin.ext ?_)
    -- shifting bits out before the next digit or after it is the same
    have hcons : readNumeral 32 id.val (digit :: digits) =
        readNumeral 32 (id.val * 32 + digit) digits := rfl
    rw [hcons, pushDigit]
    simp only [Fin.val_ofNat]
    rw [readNumeral_eq, readNumeral_eq (id.val * 32 + digit), Nat.add_mod, Nat.mul_mod, Nat.mod_mod,
      ← Nat.mul_mod, ← Nat.add_mod]

/-! ### Texts -/

/-- 26 characters of the alphabet. -/
def Canonical (text : List Char) : Prop :=
  text.length = ulidChars ∧ ∀ c ∈ text, c ∈ ulidAlphabet

instance (text : List Char) : Decidable (Canonical text) :=
  @instDecidableAnd _ _ inferInstance (List.decidableBAll _ text)

theorem Canonical.digits {text : List Char} (h : Canonical text) :
    ∃ digits : List ℕ, digits.length = ulidChars ∧ (∀ digit ∈ digits, digit < 32) ∧
      digits.map ulidChar = text := by
  obtain ⟨hlength, hmem⟩ := h
  rw [← hlength]
  clear hlength
  induction text with
  | nil => exact ⟨[], rfl, nofun, rfl⟩
  | cons c text ih =>
    rw [List.forall_mem_cons] at hmem
    obtain ⟨digits, hlength, hdigits, rfl⟩ := ih hmem.2
    obtain ⟨digit, hdigit, rfl⟩ := exists_ulidChar hmem.1
    exact ⟨digit :: digits, by rw [List.length_cons, hlength, List.length_cons],
      List.forall_mem_cons.2 ⟨hdigit, hdigits⟩, rfl⟩

theorem decodeUlid_map {digits : List ℕ} (hlength : digits.length = ulidChars)
    (hdigits : ∀ digit ∈ digits, digit < 32) : decodeUlid (digits.map ulidChar) =
      some (Fin.ofNat (2 ^ 128) (readNumeral 32 0 digits)) := by
  rw [decodeUlid, if_pos (by rw [List.length_map, hlength]), decodeDigits_map hdigits]
  rfl

theorem id_lt (id : RawId) : id.val < 32 ^ ulidChars :=
  id.isLt.trans (by rw [ulidChars]; decide)

/-- **What is written is read back.** -/
theorem decodeUlid_encodeUlid (id : RawId) : decodeUlid (encodeUlid id).toList = some id := by
  rw [toList_encodeUlid, decodeUlid_map length_numeral fun _ => lt_of_mem_numeral (by decide),
    readNumeral_numeral, Nat.zero_mul, Nat.zero_add, Nat.mod_eq_of_lt (id_lt id)]
  exact congrArg some (Fin.ext (Nat.mod_eq_of_lt id.isLt))

/-- The text of an id is read back, with the prefix of its kind. -/
theorem TypedId.parse_str {K : EntityKind} (id : TypedId K) : TypedId.parse K id.str = some id := by
  have htext : id.str.toList = ((entityPrefix K).toList ++ ['_']) ++ (encodeUlid id.raw).toList := by
    rw [TypedId.str, String.toList_append, String.toList_append]
    rfl
  have hlength : (encodeUlid id.raw).toList.length = ulidChars := by
    rw [toList_encodeUlid, List.length_map, length_numeral]
  rw [TypedId.parse, htext]
  rw [if_neg (by rw [List.length_append, hlength]; exact not_not_intro rfl), List.take_left,
    if_neg (not_not_intro rfl), List.drop_left, decodeUlid_encodeUlid]
  rfl

theorem map_lt_map {digits digits' : List ℕ} (hlength : digits.length = digits'.length)
    (hdigits : ∀ digit ∈ digits, digit < 32) (hdigits' : ∀ digit ∈ digits', digit < 32) :
    digits.map ulidChar < digits'.map ulidChar ↔ digits < digits' := by
  induction digits generalizing digits' with
  | nil =>
    obtain rfl := List.length_eq_zero_iff.1 hlength.symm
    exact iff_of_false (List.lt_irrefl _) (List.lt_irrefl _)
  | cons digit digits ih =>
    cases digits' with
    | nil => cases hlength
    | cons digit' digits' =>
      rw [List.forall_mem_cons] at hdigits hdigits'
      have heq : ulidChar digit = ulidChar digit' ↔ digit = digit' := by
        refine ⟨fun heq => ?_, congrArg ulidChar⟩
        exact Option.some.inj ((decodeChar_ulidChar hdigits.1).symm.trans
          (heq ▸ decodeChar_ulidChar hdigits'.1))
      rw [List.map_cons, List.map_cons, List.cons_lt_cons_iff, List.cons_lt_cons_iff,
        ulidChar_lt_ulidChar hdigits.1 hdigits'.1, heq,
        ih (Nat.succ.inj hlength) hdigits.2 hdigits'.2]

theorem map_injective {digits digits' : List ℕ} (hlength : digits.length = digits'.length)
    (hdigits : ∀ digit ∈ digits, digit < 32) (hdigits' : ∀ digit ∈ digits', digit < 32)
    (heq : digits.map ulidChar = digits'.map ulidChar) : digits = digits' := by
  rcases lt_trichotomy digits digits' with hlt | hsame | hlt
  · exact absurd heq ((map_lt_map hlength hdigits hdigits').2 hlt).ne
  · exact hsame
  · exact absurd heq ((map_lt_map hlength.symm hdigits' hdigits).2 hlt).ne'

/-- **Texts compare as ids do.** -/
theorem encodeUlid_lt_encodeUlid {a b : RawId} : encodeUlid a < encodeUlid b ↔ a < b := by
  rw [String.lt_iff_toList_lt, toList_encodeUlid, toList_encodeUlid,
    map_lt_map (by rw [length_numeral, length_numeral]) (fun _ => lt_of_mem_numeral (by decide))
      fun _ => lt_of_mem_numeral (by decide), numeral_lt_numeral (id_lt a) (id_lt b)]
  exact Iff.rfl

/-- The bits that are too many are in the first digit. -/
theorem readNumeral_lt_iff {digit : ℕ} {digits : List ℕ} (hlength : (digit :: digits).length = ulidChars)
    (hdigits : ∀ digit ∈ digits, digit < 32) :
    readNumeral 32 0 (digit :: digits) < 2 ^ 128 ↔ digit < 8 := by
  have hlow := readNumeral_lt hdigits
  have hcount : digits.length = 25 := Nat.succ.inj hlength
  rw [readNumeral, List.foldl_cons, ← readNumeral, readNumeral_eq]
  rw [hcount] at hlow ⊢
  omega

/-- A text is what its id is written as exactly when its first digit is seven at most. -/
theorem encodeUlid_decodeUlid_iff {text : List Char} (htext : Canonical text) :
    ∃ id, decodeUlid text = some id ∧
      ((encodeUlid id).toList = text ↔ ∀ c ∈ text.head?, c ≤ '7') := by
  obtain ⟨digits, hlength, hdigits, rfl⟩ := htext.digits
  refine ⟨_, decodeUlid_map hlength hdigits, ?_⟩
  cases digits with
  | nil => cases hlength
  | cons digit digits =>
    have hfirst : (∀ c ∈ ((digit :: digits).map ulidChar).head?, c ≤ '7') ↔
        readNumeral 32 0 (digit :: digits) < 2 ^ 128 := by
      rw [List.forall_mem_cons] at hdigits
      rw [readNumeral_lt_iff hlength hdigits.2, ← ulidChar_le_seven hdigits.1]
      simp
    rw [hfirst, toList_encodeUlid]
    constructor
    · intro heq
      -- the digits are those of what is left, and so is the number
      have hsame := map_injective (length_numeral.trans hlength.symm)
        (fun _ => lt_of_mem_numeral (by decide)) hdigits heq
      have hread := readNumeral_numeral 32 0 ulidChars
        (Fin.ofNat (2 ^ 128) (readNumeral 32 0 (digit :: digits))).val
      rw [hsame, Nat.zero_mul, Nat.zero_add, Nat.mod_eq_of_lt (id_lt _)] at hread
      rw [hread]
      exact Fin.isLt _
    · intro hlt
      rw [Fin.val_ofNat, Nat.mod_eq_of_lt hlt, ← hlength, numeral_readNumeral hdigits]

/-- **The text of a ULID is faithful** as long as its first digit is seven at most. -/
theorem ulid_text_iff (id other : RawId) {text : List Char} (htext : Canonical text) :
    decodeUlid (encodeUlid id).toList = some id ∧
      (encodeUlid id < encodeUlid other ↔ id < other) ∧
      (∃ decoded, decodeUlid text = some decoded ∧
        ((encodeUlid decoded).toList = text ↔ ∀ c ∈ text.head?, c ≤ '7')) ∧
      ∀ text', Canonical text' → (∀ c ∈ text.head?, c ≤ '7') → (∀ c ∈ text'.head?, c ≤ '7') →
        decodeUlid text = decodeUlid text' → text = text' := by
  refine ⟨decodeUlid_encodeUlid id, encodeUlid_lt_encodeUlid, encodeUlid_decodeUlid_iff htext,
    fun text' htext' hfirst hfirst' heq => ?_⟩
  obtain ⟨id, hdecode, hwritten⟩ := encodeUlid_decodeUlid_iff htext
  obtain ⟨id', hdecode', hwritten'⟩ := encodeUlid_decodeUlid_iff htext'
  obtain rfl := Option.some.inj (hdecode.symm.trans (heq.trans hdecode'))
  exact (hwritten.2 hfirst).symm.trans (hwritten'.2 hfirst')

theorem ulid_text_iff_ones :
    (∃ decoded, decodeUlid (List.replicate 26 '1') = some decoded ∧
        ((encodeUlid decoded).toList = List.replicate 26 '1' ↔
          ∀ c ∈ (List.replicate 26 '1').head?, c ≤ '7')) ∧
      (encodeUlid 1 < encodeUlid 2 ↔ (1 : RawId) < 2) := by
  have hones := ulid_text_iff 1 2 (show Canonical (List.replicate 26 '1') by decide)
  exact ⟨hones.2.2.1, hones.2.1⟩

/-- Two texts of one id. -/
theorem not_ulid_text_eight :
    Canonical "80000000000000000000000000".toList ∧
      decodeUlid "80000000000000000000000000".toList =
        decodeUlid "00000000000000000000000000".toList ∧
      ∃ id, decodeUlid "80000000000000000000000000".toList = some id ∧
        (encodeUlid id).toList ≠ "80000000000000000000000000".toList := by
  have height : "80000000000000000000000000".toList = '8' :: List.replicate 25 '0' :=
    @String.toList_ofList ('8' :: List.replicate 25 '0')
  have hzero : "00000000000000000000000000".toList = List.replicate 26 '0' :=
    @String.toList_ofList (List.replicate 26 '0')
  rw [height, hzero]
  refine ⟨by decide, by decide +kernel, 0, by decide +kernel, ?_⟩
  rw [toList_encodeUlid]
  decide +kernel

end OneBeat
