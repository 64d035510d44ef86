import OneBeat.Lib.BinaryFloat

/-!
# Decimal numerals

Numbers as text: the numeral a scanner finds in front of a text, the rational it denotes, and the
fixed-point spelling of a rational.

* `scanNumeral` splits a text into the longest numeral in front and what follows;
* `fixedPoint places q` is `q` with exactly `places` decimals, rounded half to even;
* `scanNumeral_digits`, `scanNumeral_fixedPoint` : both spellings are read back whole;
* `value_fixedPoint` : **what is read back is `q`, rounded to the decimals that were written.**
-/

namespace OneBeat

/-- A power of ten with an integer exponent. -/
def tenPow (e : ℤ) : ℚ := if 0 ≤ e then ((10 ^ e.toNat : ℕ) : ℚ) else 1 / ((10 ^ (-e).toNat : ℕ) : ℚ)

/-- `'0'` to `'9'`. -/
def isDigit (c : Char) : Bool := c.isDigit

/-- The digits in front of a text. -/
def leadingDigits (text : List Char) : List Char := text.takeWhile isDigit

/-- What follows the digits in front of a text. -/
def afterDigits (text : List Char) : List Char := text.dropWhile isDigit

/-- A numeral as it was written. -/
structure Numeral where
  /-- There is a minus sign. -/
  negative : Bool := false
  /-- The digits before the point. -/
  whole : List Char := []
  /-- The digits after the point, if there is a point. -/
  fraction : Option (List Char) := none
  /-- The sign and the digits of the exponent, if there is one. -/
  exponent : Option (Bool × List Char) := none
  deriving DecidableEq

namespace Numeral

/-- Written without a point and without an exponent. -/
def integral (numeral : Numeral) : Bool := numeral.fraction.isNone && numeral.exponent.isNone

/-- Nothing but a sign, at most. -/
def blank (numeral : Numeral) : Bool := numeral.integral && numeral.whole.isEmpty

/-- There are digits, and digits in the exponent when there is one. -/
def wellFormed (numeral : Numeral) : Bool :=
  !(numeral.whole.isEmpty && (numeral.fraction.getD []).isEmpty) &&
    (numeral.exponent.all fun exponent => !exponent.2.isEmpty)

/-- The digits, without sign, point and exponent. -/
def mantissa (numeral : Numeral) : ℕ :=
  Nat.ofDigitChars 10 (numeral.whole ++ numeral.fraction.getD []) 0

/-- The power of ten that scales the mantissa. -/
def scale (numeral : Numeral) : ℤ :=
  (match numeral.exponent with
    | none => 0
    | some (negative, digits) =>
      let e : ℤ := Nat.ofDigitChars 10 digits 0
      if negative then -e else e) -
    (numeral.fraction.getD []).length

/-- The integer an integral numeral denotes. -/
def toInt (numeral : Numeral) : ℤ :=
  if numeral.negative then -(numeral.mantissa : ℤ) else numeral.mantissa

/-- The rational the numeral denotes. -/
def value (numeral : Numeral) : ℚ := numeral.toInt * tenPow numeral.scale

end Numeral

/-- The sign in front of a text. -/
def scanSign : List Char → Bool × List Char
  | '-' :: rest => (true, rest)
  | text => (false, text)

/-- The point and the digits after it. -/
def scanFraction : List Char → Option (List Char) × List Char
  | '.' :: rest => (some (leadingDigits rest), afterDigits rest)
  | text => (none, text)

/-- The sign of an exponent. -/
def scanExponentSign : List Char → Bool × List Char
  | '+' :: rest => (false, rest)
  | '-' :: rest => (true, rest)
  | text => (false, text)

/-- The exponent. -/
def scanExponent : List Char → Option (Bool × List Char) × List Char
  | [] => (none, [])
  | c :: rest =>
    if c = 'e' ∨ c = 'E' then
      let (sign, rest) := scanExponentSign rest
      (some (sign, leadingDigits rest), afterDigits rest)
    else (none, c :: rest)

/-- The numeral in front of a text, and what follows it. -/
def scanNumeral (text : List Char) : Numeral × List Char :=
  let (negative, text) := scanSign text
  let (whole, text) := (leadingDigits text, afterDigits text)
  let (fraction, text) := scanFraction text
  let (exponent, text) := scanExponent text
  ({ negative, whole, fraction, exponent }, text)

/-! ### Spelling -/

/-- The digits of a natural number. -/
abbrev decimalDigits (n : ℕ) : List Char := Nat.toDigits 10 n

/-- An integer, bare. -/
def decimalInt (n : ℤ) : List Char :=
  if n < 0 then '-' :: decimalDigits n.natAbs else decimalDigits n.natAbs

/-- The digits of a number, filled up with zeros in front. -/
def paddedDigits (places n : ℕ) : List Char :=
  List.replicate (places - (decimalDigits n).length) '0' ++ decimalDigits n

/-- `printf`'s `%.*f`: exactly `places` decimals, rounded half to even. -/
def fixedPoint (places : ℕ) (q : ℚ) : List Char :=
  let n := (roundHalfEven (q * 10 ^ places)).natAbs
  (if q < 0 then ['-'] else []) ++
    (decimalDigits (n / 10 ^ places) ++ '.' :: paddedDigits places (n % 10 ^ places))

/-! ### Digits -/

/-- A text that does not go on with a digit. -/
def NoDigit (text : List Char) : Prop := ∀ c rest, text = c :: rest → isDigit c = false

theorem noDigit_cons {c : Char} {rest : List Char} (h : isDigit c = false) :
    NoDigit (c :: rest) := by
  intro c' rest' he
  cases he
  exact h

theorem leadingDigits_append {digits rest : List Char} (hd : ∀ c ∈ digits, isDigit c = true)
    (hr : NoDigit rest) : leadingDigits (digits ++ rest) = digits := by
  unfold leadingDigits
  rw [List.takeWhile_append_of_pos hd]
  cases rest with
  | nil => simp
  | cons c rest => simp [hr c rest rfl]

theorem afterDigits_append {digits rest : List Char} (hd : ∀ c ∈ digits, isDigit c = true)
    (hr : NoDigit rest) : afterDigits (digits ++ rest) = rest := by
  unfold afterDigits
  rw [List.dropWhile_append_of_pos hd]
  cases rest with
  | nil => rfl
  | cons c rest => simp [hr c rest rfl]

theorem isDigit_decimalDigits (n : ℕ) : ∀ c ∈ decimalDigits n, isDigit c = true :=
  fun _ hc => Nat.isDigit_of_mem_toDigits (by decide) (by decide) hc

theorem isDigit_paddedDigits (places n : ℕ) : ∀ c ∈ paddedDigits places n, isDigit c = true := by
  intro c hc
  rcases List.mem_append.1 hc with hc | hc
  · rw [List.eq_of_mem_replicate hc]
    decide
  · exact isDigit_decimalDigits n c hc

theorem ofDigitChars_paddedDigits (places n : ℕ) :
    Nat.ofDigitChars 10 (paddedDigits places n) 0 = n := by
  rw [paddedDigits, Nat.ofDigitChars_append, Nat.ofDigitChars_replicate_zero, Nat.mul_zero,
    Nat.ofDigitChars_ten_toDigits]

theorem length_paddedDigits {places n : ℕ} (hplaces : 0 < places) (h : n < 10 ^ places) :
    (paddedDigits places n).length = places := by
  have hlen : (decimalDigits n).length ≤ places :=
    (Nat.length_toDigits_le_iff (by decide) hplaces).2 h
  rw [paddedDigits, List.length_append, List.length_replicate]
  omega

theorem decimalDigits_ne_nil (n : ℕ) : decimalDigits n ≠ [] := Nat.toDigits_ne_nil

/-- A text that does not go on with the numeral before it. -/
def NumeralEnd (text : List Char) : Prop :=
  ∀ c rest, text = c :: rest → isDigit c = false ∧ c ≠ '.' ∧ c ≠ 'e' ∧ c ≠ 'E'

theorem NumeralEnd.noDigit {text : List Char} (h : NumeralEnd text) : NoDigit text :=
  fun c rest he => (h c rest he).1

theorem numeralEnd_nil : NumeralEnd [] := by intro c rest h; cases h

theorem numeralEnd_cons {c : Char} {rest : List Char}
    (h : isDigit c = false ∧ c ≠ '.' ∧ c ≠ 'e' ∧ c ≠ 'E') : NumeralEnd (c :: rest) := by
  intro c' rest' he
  cases he
  exact h

theorem scanSign_digits {negative : Bool} {digits rest : List Char} (hne : digits ≠ [])
    (hd : ∀ c ∈ digits, isDigit c = true) :
    scanSign ((if negative then ['-'] else []) ++ (digits ++ rest)) = (negative, digits ++ rest) := by
  cases negative with
  | true => rfl
  | false =>
    cases digits with
    | nil => exact absurd rfl hne
    | cons c digits =>
      have hc : c ≠ '-' := by
        rintro rfl
        exact absurd (hd '-' (by simp)) (by decide)
      simp only [Bool.false_eq_true, if_false, List.nil_append, List.cons_append]
      unfold scanSign
      split
      · next heq => exact absurd (List.cons.inj heq).1 hc
      · rfl

theorem scanFraction_of_numeralEnd {rest : List Char} (hr : NumeralEnd rest) :
    scanFraction rest = (none, rest) := by
  unfold scanFraction
  split
  · next tail => exact absurd rfl (hr '.' tail rfl).2.1
  · rfl

theorem scanExponent_of_numeralEnd {rest : List Char} (hr : NumeralEnd rest) :
    scanExponent rest = (none, rest) := by
  cases rest with
  | nil => rfl
  | cons c tail =>
    obtain ⟨-, -, he, hE⟩ := hr c tail rfl
    simp [scanExponent, he, hE]

/-- Digits are read back whole. -/
theorem scanNumeral_digits {negative : Bool} {n : ℕ} {rest : List Char} (hr : NumeralEnd rest) :
    scanNumeral ((if negative then ['-'] else []) ++ (decimalDigits n ++ rest)) =
      ({ negative, whole := decimalDigits n }, rest) := by
  have hd := isDigit_decimalDigits n
  simp only [scanNumeral, scanSign_digits (decimalDigits_ne_nil n) hd,
    leadingDigits_append hd hr.noDigit, afterDigits_append hd hr.noDigit,
    scanFraction_of_numeralEnd hr, scanExponent_of_numeralEnd hr]

/-- A numeral with a point is read back whole. -/
theorem scanNumeral_point (negative : Bool) (n : ℕ) {digits rest : List Char}
    (hdigits : ∀ c ∈ digits, isDigit c = true) (hr : NumeralEnd rest) :
    scanNumeral ((if negative then ['-'] else []) ++
        (decimalDigits n ++ ('.' :: (digits ++ rest)))) =
      ({ negative, whole := decimalDigits n, fraction := some digits }, rest) := by
  have hd := isDigit_decimalDigits n
  have hpoint : NoDigit ('.' :: (digits ++ rest)) := noDigit_cons (by decide)
  simp only [scanNumeral, scanSign_digits (decimalDigits_ne_nil n) hd,
    leadingDigits_append hd hpoint, afterDigits_append hd hpoint, scanFraction,
    leadingDigits_append hdigits hr.noDigit, afterDigits_append hdigits hr.noDigit,
    scanExponent_of_numeralEnd hr]

/-! ### What is read back -/

theorem tenPow_neg (places : ℕ) : tenPow (-(places : ℤ)) = 1 / 10 ^ places := by
  unfold tenPow
  split_ifs with h
  · have : places = 0 := by omega
    subst this
    simp
  · simp

theorem roundHalfEven_nonneg {q : ℚ} (h : 0 ≤ q) : 0 ≤ roundHalfEven q := by
  have hf : 0 ≤ ⌊q⌋ := Int.floor_nonneg.2 h
  unfold roundHalfEven
  dsimp only
  split_ifs <;> omega

theorem roundHalfEven_nonpos {q : ℚ} (h : q ≤ 0) : roundHalfEven q ≤ 0 := by
  have hf : ⌊q⌋ ≤ 0 := by
    have := Int.floor_mono (R := ℚ) h
    simpa using this
  rcases hf.lt_or_eq with hlt | heq
  · unfold roundHalfEven
    dsimp only
    split_ifs <;> omega
  · have hq : q = 0 := by
      have := Int.floor_le q
      rw [heq] at this
      push_cast at this
      linarith
    subst hq
    simp [roundHalfEven]

/-- The numeral of a fixed-point spelling. -/
def fixedPointNumeral (places : ℕ) (q : ℚ) : Numeral :=
  let n := (roundHalfEven (q * 10 ^ places)).natAbs
  { negative := decide (q < 0)
    whole := decimalDigits (n / 10 ^ places)
    fraction := some (paddedDigits places (n % 10 ^ places)) }

theorem scanNumeral_fixedPoint (places : ℕ) (q : ℚ) {rest : List Char} (hr : NumeralEnd rest) :
    scanNumeral (fixedPoint places q ++ rest) = (fixedPointNumeral places q, rest) := by
  have h := scanNumeral_point (decide (q < 0))
    ((roundHalfEven (q * 10 ^ places)).natAbs / 10 ^ places)
    (isDigit_paddedDigits places ((roundHalfEven (q * 10 ^ places)).natAbs % 10 ^ places)) hr
  simpa only [fixedPoint, fixedPointNumeral, decide_eq_true_eq, List.append_assoc,
    List.cons_append] using h

theorem mantissa_fixedPointNumeral {places : ℕ} (hplaces : 0 < places) (q : ℚ) :
    (fixedPointNumeral places q).mantissa = (roundHalfEven (q * 10 ^ places)).natAbs := by
  set n := (roundHalfEven (q * 10 ^ places)).natAbs with hn
  have hlen := length_paddedDigits hplaces (Nat.mod_lt n (by positivity : 0 < 10 ^ places))
  simp only [fixedPointNumeral, Numeral.mantissa, Option.getD_some, ← hn,
    Nat.ofDigitChars_append, Nat.ofDigitChars_ten_toDigits]
  rw [Nat.ofDigitChars_eq_ofDigitChars_zero, ofDigitChars_paddedDigits, hlen]
  exact Nat.div_add_mod n (10 ^ places)

/-- **What is read back is `q`, rounded to the decimals that were written.** -/
theorem value_fixedPoint {places : ℕ} (hplaces : 0 < places) (q : ℚ) :
    (fixedPointNumeral places q).value = roundHalfEven (q * 10 ^ places) / 10 ^ places := by
  have hscale : (fixedPointNumeral places q).scale = -(places : ℤ) := by
    have hlen := length_paddedDigits hplaces
      (Nat.mod_lt (roundHalfEven (q * 10 ^ places)).natAbs (by positivity : 0 < 10 ^ places))
    simp [fixedPointNumeral, Numeral.scale, hlen]
  have hint : (fixedPointNumeral places q).toInt = roundHalfEven (q * 10 ^ places) := by
    rw [Numeral.toInt, mantissa_fixedPointNumeral hplaces]
    have hpos : (0 : ℚ) < 10 ^ places := by positivity
    rcases lt_or_ge q 0 with hq | hq
    · have := roundHalfEven_nonpos (mul_nonpos_of_nonpos_of_nonneg hq.le hpos.le)
      simp only [fixedPointNumeral, hq, decide_true, if_true]
      omega
    · have := roundHalfEven_nonneg (mul_nonneg hq hpos.le)
      simp only [fixedPointNumeral, not_lt.2 hq, decide_false, Bool.false_eq_true, if_false]
      omega
  rw [Numeral.value, hint, hscale, tenPow_neg]
  ring

end OneBeat
